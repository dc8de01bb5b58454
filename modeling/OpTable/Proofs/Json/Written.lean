import OpTable.Json
import OpTable.Proofs.Expr.Leaves

/-!
# Trees are found in their text

The text of a tree shows what the tree is and where it ends, whatever is written behind it, so long
as that does not go on with digits (`write_append_inj`). Strings end at the first quotation mark
that is not part of an escaped character; arrays and objects go on with a comma and end with a new
line.
-/

namespace OpTable.Json

open BitExpr.Read (Stops takeWhile_run dropWhile_run)

/-! ### Strings -/

/-- The character that is written with a backslash and this mark. -/
def unmark? (mark : Char) : Option Char :=
  if mark = '"' ∨ mark = '\\' then some mark
  else if mark = 'n' then some '\n'
  else if mark = 'r' then some '\r'
  else if mark = 't' then some '\t'
  else if mark = 'b' then some '\x08'
  else if mark = 'f' then some '\x0c'
  else none

/-- Takes one character off the inside of a string; there is none at the end of the string. -/
def unescape? : List Char → Option (Char × List Char)
  | [] => none
  | c :: rest =>
    if c = '"' then none
    else if c ≠ '\\' then some (c, rest)
    else
      match rest with
      | 'u' :: '0' :: '0' :: high :: low :: rest =>
        (Text.Numeral.value? 16 [high, low]).map fun n => (Char.ofNat n, rest)
      | mark :: rest => (unmark? mark).map fun c => (c, rest)
      | [] => none

theorem value?_control {n : Nat} (h : n < 0x20) :
    Text.Numeral.value? 16 [Nat.digitChar (n / 16), Nat.digitChar (n % 16)] = some n := by
  have hall : ∀ n < 0x20,
      Text.Numeral.value? 16 [Nat.digitChar (n / 16), Nat.digitChar (n % 16)] = some n := by decide
  exact hall n h

theorem unescape?_escapedChar (c : Char) (rest : List Char) :
    unescape? (escapedChar c ++ rest) = some (c, rest) := by
  unfold escapedChar
  split
  next h => rw [h]; rfl
  next hquote =>
  split
  next h => rw [h]; rfl
  next hbackslash =>
  split
  next h => rw [h]; rfl
  split
  next h => rw [h]; rfl
  split
  next h => rw [h]; rfl
  split
  next h => rw [h]; rfl
  split
  next h => rw [h]; rfl
  split
  next h =>
    show (Text.Numeral.value? 16 _).map _ = _
    rw [value?_control h, Option.map_some, Char.ofNat_toNat]
    rfl
  · simp only [List.singleton_append, unescape?, hquote, hbackslash, if_false, ne_eq,
      not_false_eq_true, if_true]

-- A quotation mark that is not escaped cannot be taken for a character, so it ends both strings.
theorem escaped_append_inj {a b s v : List Char}
    (h : a.flatMap escapedChar ++ '"' :: s = b.flatMap escapedChar ++ '"' :: v) :
    a = b ∧ s = v := by
  have hend : ∀ rest, unescape? ('"' :: rest) = none := fun _ => rfl
  induction a generalizing b with
  | nil =>
    cases b with
    | nil => exact ⟨rfl, (List.cons.inj h).2⟩
    | cons d b =>
      have hread := congrArg unescape? h
      rw [List.flatMap_cons, List.append_assoc, unescape?_escapedChar] at hread
      cases hread
  | cons c a ih =>
    have hread := congrArg unescape? h
    rw [List.flatMap_cons, List.append_assoc, unescape?_escapedChar] at hread
    cases b with
    | nil => cases hread
    | cons d b =>
      rw [List.flatMap_cons, List.append_assoc, unescape?_escapedChar, Option.some.injEq,
        Prod.mk.injEq] at hread
      obtain ⟨rfl, hrest⟩ := hread
      obtain ⟨rfl, rfl⟩ := ih hrest
      exact ⟨rfl, rfl⟩

theorem quoted_append_inj {a b : String} {s v : List Char}
    (h : quoted a ++ s = quoted b ++ v) : a = b ∧ s = v := by
  simp only [quoted, List.cons_append, List.append_assoc, List.nil_append, List.cons.injEq,
    true_and] at h
  obtain ⟨hchars, hrest⟩ := escaped_append_inj h
  exact ⟨String.toList_inj.mp hchars, hrest⟩

/-! ### Numbers -/

theorem toDigits_append_inj {m n : Nat} {s v : List Char} (hs : Stops Char.isDigit s)
    (hv : Stops Char.isDigit v) (h : Nat.toDigits 10 m ++ s = Nat.toDigits 10 n ++ v) :
    m = n ∧ s = v := by
  have hm : Text.Numeral.Spells 10 _ m :=
    Text.Numeral.spells_toDigits (by decide) (by decide) m
  have hn : Text.Numeral.Spells 10 _ n :=
    Text.Numeral.spells_toDigits (by decide) (by decide) n
  have hdigits : Nat.toDigits 10 m = Nat.toDigits 10 n := by
    have htake := congrArg (List.takeWhile Char.isDigit) h
    rwa [takeWhile_run hm.isDigit hs, takeWhile_run hn.isDigit hv] at htake
  constructor
  · rw [← Text.Numeral.value?_eq_some_iff] at hm hn
    rw [hdigits, hn] at hm
    exact (Option.some.inj hm).symm
  · rw [hdigits] at h
    exact List.append_cancel_left h

/-! ### Trees -/

inductive Kind where
  | null
  | boolean (value : Bool)
  | number
  | text
  | array
  | object

def kind : Json → Kind
  | null => .null
  | boolean value => .boolean value
  | number _ => .number
  | text _ => .text
  | array _ => .array
  | object _ => .object

/-- The kind of the trees whose text starts with the character. -/
def Kind.ofFirst (c : Char) : Kind :=
  if c = 'n' then .null
  else if c = 't' then .boolean true
  else if c = 'f' then .boolean false
  else if c = '"' then .text
  else if c = '[' then .array
  else if c = '\x7b' then .object
  else .number

theorem Kind.ofFirst_of_isDigit {c : Char} (h : c.isDigit = true) : ofFirst c = .number := by
  have hne : ∀ d : Char, d.isDigit = false → c ≠ d := by
    rintro d hd rfl
    rw [h] at hd
    cases hd
  simp only [ofFirst, hne 'n' rfl, hne 't' rfl, hne 'f' rfl, hne '"' rfl, hne '[' rfl,
    hne '\x7b' rfl, if_false]

theorem write_eq_cons (depth : Nat) (t : Json) :
    ∃ c rest, write depth t = c :: rest ∧ Kind.ofFirst c = t.kind := by
  cases t with
  | null => exact ⟨'n', _, rfl, rfl⟩
  | boolean value =>
    cases value with
    | true => exact ⟨'t', _, rfl, rfl⟩
    | false => exact ⟨'f', _, rfl, rfl⟩
  | number n =>
    have hspells : Text.Numeral.Spells 10 _ n :=
      Text.Numeral.spells_toDigits (by decide) (by decide) n
    obtain ⟨c, rest, hdigits⟩ := List.exists_cons_of_ne_nil hspells.ne_nil
    have hc := hspells.isDigit c (hdigits ▸ List.mem_cons_self ..)
    exact ⟨c, rest, hdigits, Kind.ofFirst_of_isDigit hc⟩
  | text value => exact ⟨'"', _, rfl, rfl⟩
  | array items => cases items <;> exact ⟨'[', _, rfl, rfl⟩
  | object members => cases members <;> exact ⟨'\x7b', _, rfl, rfl⟩

theorem kind_eq_of_write {depth : Nat} {t u : Json} {s v : List Char}
    (h : write depth t ++ s = write depth u ++ v) : t.kind = u.kind := by
  obtain ⟨c, rest, ht, hkind⟩ := write_eq_cons depth t
  obtain ⟨d, more, hu, hkind'⟩ := write_eq_cons depth u
  rw [ht, hu, List.cons_append, List.cons_append, List.cons.injEq] at h
  rw [← hkind, ← hkind', h.1]

/-! ### Items and members -/

theorem stops_writeItems (depth : Nat) (items : List Json) (s : List Char) :
    Stops Char.isDigit (writeItems depth items ++ '\n' :: s) := by
  cases items with
  | nil => rfl
  | cons item items => rfl

theorem stops_writeMembers (depth : Nat) (members : List (String × Json)) (s : List Char) :
    Stops Char.isDigit (writeMembers depth members ++ '\n' :: s) := by
  cases members with
  | nil => rfl
  | cons member members => rfl

mutual

-- The recursion is that of the writer, on the first of the two trees. The second one is of the same
-- kind, since their texts start with the same character.
theorem write_append_inj (depth : Nat) : ∀ (t : Json) {u : Json} {s v : List Char},
    Stops Char.isDigit s → Stops Char.isDigit v → write depth t ++ s = write depth u ++ v →
      t = u ∧ s = v
  | null, u, s, v, _, _, h => by
    cases u with
    | null => exact ⟨rfl, List.append_cancel_left h⟩
    | _ => cases kind_eq_of_write h
  | boolean value, u, s, v, _, _, h => by
    have hkind := kind_eq_of_write h
    cases u with
    | boolean other =>
      cases hkind
      exact ⟨rfl, List.append_cancel_left h⟩
    | _ => cases hkind
  | number n, u, s, v, hs, hv, h => by
    cases u with
    | number other =>
      obtain ⟨rfl, hrest⟩ := toDigits_append_inj hs hv h
      exact ⟨rfl, hrest⟩
    | _ => cases kind_eq_of_write h
  | text value, u, s, v, _, _, h => by
    cases u with
    | text other =>
      obtain ⟨rfl, hrest⟩ := quoted_append_inj h
      exact ⟨rfl, hrest⟩
    | _ => cases kind_eq_of_write h
  | array [], u, s, v, _, _, h => by
    cases u with
    | array others =>
      cases others with
      | nil => exact ⟨rfl, List.append_cancel_left h⟩
      | cons other others => cases (List.cons.inj (List.cons.inj h).2).1
    | _ => cases kind_eq_of_write h
  | array (item :: items), u, s, v, _, _, h => by
    cases u with
    | array others =>
      cases others with
      | nil => cases (List.cons.inj (List.cons.inj h).2).1
      | cons other others =>
        simp only [write, newLine, List.cons_append, List.append_assoc, List.cons.injEq, true_and,
          List.append_cancel_left_eq, List.nil_append] at h
        obtain ⟨rfl, hitems⟩ := write_append_inj (depth + 1) item
          (stops_writeItems (depth + 1) items _) (stops_writeItems (depth + 1) others _) h
        obtain ⟨rfl, hend⟩ := writeItems_append_inj (depth + 1) items hitems
        rw [List.append_cancel_left_eq, List.cons.injEq] at hend
        exact ⟨rfl, hend.2⟩
    | _ => cases kind_eq_of_write h
  | object [], u, s, v, _, _, h => by
    cases u with
    | object others =>
      cases others with
      | nil => exact ⟨rfl, List.append_cancel_left h⟩
      | cons other others => cases (List.cons.inj (List.cons.inj h).2).1
    | _ => cases kind_eq_of_write h
  | object ((key, value) :: members), u, s, v, _, _, h => by
    cases u with
    | object others =>
      cases others with
      | nil => cases (List.cons.inj (List.cons.inj h).2).1
      | cons other others =>
        obtain ⟨key', value'⟩ := other
        simp only [write, newLine, List.cons_append, List.append_assoc, List.cons.injEq, true_and,
          List.append_cancel_left_eq, List.nil_append] at h
        obtain ⟨rfl, hvalue⟩ := quoted_append_inj h
        rw [List.append_cancel_left_eq] at hvalue
        obtain ⟨rfl, hmembers⟩ := write_append_inj (depth + 1) value
          (stops_writeMembers (depth + 1) members _) (stops_writeMembers (depth + 1) others _)
          hvalue
        obtain ⟨rfl, hend⟩ := writeMembers_append_inj (depth + 1) members hmembers
        rw [List.append_cancel_left_eq, List.cons.injEq] at hend
        exact ⟨rfl, hend.2⟩
    | _ => cases kind_eq_of_write h

theorem writeItems_append_inj (depth : Nat) : ∀ (items : List Json) {others : List Json}
    {s v : List Char}, writeItems depth items ++ '\n' :: s = writeItems depth others ++ '\n' :: v →
      items = others ∧ s = v
  | [], others, s, v, h => by
    cases others with
    | nil => exact ⟨rfl, (List.cons.inj h).2⟩
    | cons other others => cases (List.cons.inj h).1
  | item :: items, others, s, v, h => by
    cases others with
    | nil => cases (List.cons.inj h).1
    | cons other others =>
      simp only [writeItems, List.cons_append, List.append_assoc, List.cons.injEq, true_and,
        List.append_cancel_left_eq] at h
      obtain ⟨rfl, hrest⟩ := write_append_inj depth item (stops_writeItems depth items _)
        (stops_writeItems depth others _) h
      obtain ⟨rfl, hend⟩ := writeItems_append_inj depth items hrest
      exact ⟨rfl, hend⟩

theorem writeMembers_append_inj (depth : Nat) : ∀ (members : List (String × Json))
    {others : List (String × Json)} {s v : List Char},
    writeMembers depth members ++ '\n' :: s = writeMembers depth others ++ '\n' :: v →
      members = others ∧ s = v
  | [], others, s, v, h => by
    cases others with
    | nil => exact ⟨rfl, (List.cons.inj h).2⟩
    | cons other others => cases (List.cons.inj h).1
  | (key, value) :: members, others, s, v, h => by
    cases others with
    | nil => cases (List.cons.inj h).1
    | cons other others =>
      obtain ⟨key', value'⟩ := other
      simp only [writeMembers, List.cons_append, List.append_assoc, List.cons.injEq, true_and,
        List.append_cancel_left_eq] at h
      obtain ⟨rfl, hvalue⟩ := quoted_append_inj h
      rw [List.append_cancel_left_eq] at hvalue
      obtain ⟨rfl, hrest⟩ := write_append_inj depth value (stops_writeMembers depth members _)
        (stops_writeMembers depth others _) hvalue
      obtain ⟨rfl, hend⟩ := writeMembers_append_inj depth members hrest
      exact ⟨rfl, hend⟩

end

theorem pretty_injective {t u : Json} (h : t.pretty = u.pretty) : t = u := by
  have hchars : write 0 t = write 0 u := String.ofList_injective h
  have happend : write 0 t ++ [] = write 0 u ++ [] := by rw [hchars]
  have hend : Stops Char.isDigit [] := trivial
  exact (write_append_inj 0 t hend hend happend).1

end OpTable.Json
