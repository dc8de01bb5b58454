import Mathlib.Data.List.Flatten
import OpTable.Text.Blank

/-!
# Words between blanks

Words that are written with blanks between them are found again, and a blank at the end of a text
changes neither its words nor what is left of it when it is trimmed.
-/

namespace OpTable.Text

theorem of_mem_splitOnP {p : Char → Bool} {text piece : List Char} (h : piece ∈ text.splitOnP p) :
    ∀ c ∈ piece, p c = false ∧ c ∈ text := by
  induction text generalizing piece with
  | nil =>
    rw [List.splitOnP_nil, List.mem_singleton] at h
    subst h
    exact fun c hc => absurd hc List.not_mem_nil
  | cons d text ih =>
    have hrest : ∀ piece ∈ text.splitOnP p, ∀ c ∈ piece, p c = false ∧ c ∈ d :: text := by
      intro piece hpiece c hc
      obtain ⟨hp, hmem⟩ := ih hpiece c hc
      exact ⟨hp, List.mem_cons_of_mem _ hmem⟩
    rw [List.splitOnP_cons_eq_if_modifyHead] at h
    by_cases hd : p d = true
    · rw [if_pos hd, List.mem_cons] at h
      rcases h with rfl | h
      · exact fun c hc => absurd hc List.not_mem_nil
      · exact hrest piece h
    · rw [if_neg hd] at h
      cases hsplit : text.splitOnP p with
      | nil =>
        rw [hsplit] at h
        exact absurd h List.not_mem_nil
      | cons first others =>
        rw [hsplit] at h hrest
        rw [List.modifyHead_cons, List.mem_cons] at h
        rcases h with rfl | h
        · intro c hc
          rcases List.mem_cons.mp hc with rfl | hc
          · exact ⟨Bool.eq_false_iff.mpr hd, List.mem_cons_self ..⟩
          · exact hrest first (List.mem_cons_self ..) c hc
        · exact hrest piece (List.mem_cons_of_mem _ h)

theorem of_mem_words {text word : List Char} (h : word ∈ words text) :
    word ≠ [] ∧ ∀ c ∈ word, isBlank c = false ∧ c ∈ text := by
  obtain ⟨hmem, hne⟩ := List.mem_filter.mp h
  have hne : word ≠ [] := by simpa using hne
  exact ⟨hne, of_mem_splitOnP hmem⟩

theorem flatten_splitOnP_sublist (p : Char → Bool) (text : List Char) :
    (text.splitOnP p).flatten.Sublist text := by
  induction text with
  | nil => exact List.Sublist.refl _
  | cons d text ih =>
    rw [List.splitOnP_cons_eq_if_modifyHead]
    by_cases hd : p d = true
    · rw [if_pos hd, List.flatten_cons, List.nil_append]
      exact ih.cons d
    · rw [if_neg hd]
      cases hsplit : text.splitOnP p with
      | nil => exact absurd hsplit (List.splitOnP_ne_nil p text)
      | cons first others =>
        rw [hsplit] at ih
        rw [List.modifyHead_cons, List.flatten_cons, List.cons_append, ← List.flatten_cons]
        exact ih.cons_cons d

/-- The words of a text take up no more characters than the text has. -/
theorem flatten_words_sublist (text : List Char) : (words text).flatten.Sublist text :=
  List.filter_sublist.flatten.trans (flatten_splitOnP_sublist isBlank text)

theorem length_le_of_mem_words {text word : List Char} (h : word ∈ words text) :
    word.length ≤ text.length :=
  ((List.sublist_flatten_of_mem h).trans (flatten_words_sublist text)).length_le

theorem length_le_length_flatten {α : Type} {lists : List (List α)} (h : ∀ l ∈ lists, l ≠ []) :
    lists.length ≤ lists.flatten.length := by
  induction lists with
  | nil => exact Nat.zero_le _
  | cons l rest ih =>
    have hl := List.length_pos_iff.mpr (h l (List.mem_cons_self ..))
    have hrest := ih fun k hk => h k (List.mem_cons_of_mem _ hk)
    rw [List.length_cons, List.flatten_cons, List.length_append]
    omega

theorem length_words_le (text : List Char) : (words text).length ≤ text.length :=
  Nat.le_trans (length_le_length_flatten fun _ hword => (of_mem_words hword).1)
    (flatten_words_sublist text).length_le

theorem words_cons_of_forall {word : List Char} (hne : word ≠ [])
    (h : ∀ c ∈ word, isBlank c = false) {blank : Char} (hblank : isBlank blank = true)
    (rest : List Char) : words (word ++ blank :: rest) = word :: words rest := by
  rw [words, List.splitOnP_append_cons_of_forall_mem h blank hblank rest, List.filter_cons]
  have hword : (!word.isEmpty) = true := by simpa using hne
  rw [if_pos hword]
  rfl

theorem words_of_forall {word : List Char} (hne : word ≠ []) (h : ∀ c ∈ word, isBlank c = false) :
    words word = [word] := by
  rw [words, List.splitOnP_eq_singleton h]
  simpa using hne

theorem words_intercalate {tokens : List (List Char)}
    (h : ∀ token ∈ tokens, token ≠ [] ∧ ∀ c ∈ token, isBlank c = false) :
    words ([' '].intercalate tokens) = tokens := by
  induction tokens with
  | nil => rfl
  | cons token rest ih =>
    obtain ⟨hne, htoken⟩ := h token (List.mem_cons_self ..)
    have hrest := ih fun t ht => h t (List.mem_cons_of_mem _ ht)
    cases rest with
    | nil =>
      rw [List.intercalate_singleton]
      exact words_of_forall hne htoken
    | cons second rest =>
      rw [List.intercalate_cons_cons, List.append_assoc, List.singleton_append,
        words_cons_of_forall hne htoken (by decide), hrest]

theorem mem_intercalate {between : Char} {tokens : List (List Char)} {c : Char}
    (h : c ∈ [between].intercalate tokens) : c = between ∨ ∃ token ∈ tokens, c ∈ token := by
  induction tokens with
  | nil => exact absurd h List.not_mem_nil
  | cons token rest ih =>
    cases rest with
    | nil =>
      rw [List.intercalate_singleton] at h
      exact .inr ⟨token, List.mem_cons_self .., h⟩
    | cons second rest =>
      rw [List.intercalate_cons_cons, List.append_assoc, List.singleton_append, List.mem_append,
        List.mem_cons] at h
      rcases h with h | h | h
      · exact .inr ⟨token, List.mem_cons_self .., h⟩
      · exact .inl h
      · rcases ih h with h | ⟨t, ht, hc⟩
        · exact .inl h
        · exact .inr ⟨t, List.mem_cons_of_mem _ ht, hc⟩

/-! ### A blank at the end -/

section Blank

variable {blank : Char} (hblank : isBlank blank = true)

include hblank

theorem words_concat (text : List Char) : words (text ++ [blank]) = words text := by
  rw [words, List.splitOnP_append_cons text [] hblank, List.filter_append]
  exact List.append_nil _

theorem trim_concat (text : List Char) : trim (text ++ [blank]) = trim text := by
  have hdrop : ([blank] : List Char).dropWhile isBlank = [] := List.dropWhile_cons_of_pos hblank
  rw [trim, List.dropWhile_append]
  split
  next hnil =>
    rw [hdrop, trim, List.isEmpty_iff.mp hnil]
  · rw [trim, List.reverse_append, List.reverse_singleton, List.singleton_append,
      List.dropWhile_cons_of_pos hblank]

end Blank

end OpTable.Text
