import Mathlib.Data.List.Nodup

/-!
# Look-ups by key

In a list without two elements of one key, the element that is found for a key is the one that has
it.
-/

namespace List

theorem find?_key_eq_some_iff {α β : Type} [DecidableEq β] {key : α → β} {l : List α}
    (h : (l.map key).Nodup) {k : β} {a : α} :
    (l.find? fun b => decide (key b = k)) = some a ↔ a ∈ l ∧ key a = k := by
  constructor
  · intro hfind
    have hkey := find?_some hfind
    exact ⟨mem_of_find?_eq_some hfind, of_decide_eq_true hkey⟩
  · rintro ⟨hmem, rfl⟩
    cases hfind : l.find? fun b => decide (key b = key a) with
    | none => simpa using find?_eq_none.mp hfind a hmem
    | some b =>
      have hb := mem_of_find?_eq_some hfind
      have hkey := find?_some hfind
      rw [inj_on_of_nodup_map h hb hmem (of_decide_eq_true hkey)]

theorem find?_key_eq_of_perm {α β : Type} [DecidableEq β] {key : α → β} {l l' : List α}
    (hperm : l.Perm l') (h : (l'.map key).Nodup) (k : β) :
    (l.find? fun b => decide (key b = k)) = l'.find? fun b => decide (key b = k) := by
  have hl : (l.map key).Nodup := (hperm.map key).nodup_iff.mpr h
  apply Option.ext
  intro a
  rw [find?_key_eq_some_iff hl, find?_key_eq_some_iff h, hperm.mem_iff]

end List
