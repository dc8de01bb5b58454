import OpTable.Text.Lines

/-!
# Cutting texts into lines
-/

namespace OpTable.Text.Line

section Cut

variable {α : Type} [DecidableEq α] {newline : α}

theorem cut_append_cons {content : List α} (h : newline ∉ content) (rest : List α) :
    cut newline (content ++ newline :: rest) = ⟨content, true⟩ :: cut newline rest := by
  induction content with
  | nil => rw [List.nil_append, cut, if_pos rfl]
  | cons c content ih =>
    have hc : c ≠ newline := fun he => h (he ▸ List.mem_cons_self ..)
    have hcontent := ih fun hmem => h (List.mem_cons_of_mem _ hmem)
    rw [List.cons_append, cut, if_neg hc, hcontent]

theorem cut_of_not_mem {content : List α} (hne : content ≠ []) (h : newline ∉ content) :
    cut newline content = [⟨content, false⟩] := by
  induction content with
  | nil => exact absurd rfl hne
  | cons c content ih =>
    have hc : c ≠ newline := fun he => h (he ▸ List.mem_cons_self ..)
    rw [cut, if_neg hc]
    cases content with
    | nil => rfl
    | cons d content =>
      rw [ih (List.cons_ne_nil d content) fun hmem => h (List.mem_cons_of_mem _ hmem)]

/-- A sequence is nothing, a last line that no newline ends, or a line with its newline and what
comes after it. -/
theorem cut_induction {P : List α → Prop} (newline : α) (nil : P [])
    (last : ∀ content, content ≠ [] → newline ∉ content → P content)
    (ended : ∀ content rest, newline ∉ content → P rest → P (content ++ newline :: rest))
    (s : List α) : P s := by
  induction hn : s.length using Nat.strongRecOn generalizing s with
  | ind n ih =>
    by_cases hmem : newline ∈ s
    · obtain ⟨content, rest, rfl, hcontent⟩ := List.eq_append_cons_of_mem hmem
      rw [List.length_append, List.length_cons] at hn
      exact ended content rest hcontent (ih rest.length (by omega) rest rfl)
    · by_cases hnil : s = []
      · rw [hnil]
        exact nil
      · exact last s hnil hmem

theorem cut_append_ended (s rest : List α) :
    cut newline (s ++ newline :: rest) = cut newline (s ++ [newline]) ++ cut newline rest := by
  induction s using cut_induction newline with
  | nil => rw [List.nil_append, cut, if_pos rfl, List.nil_append, cut, if_pos rfl, cut]; rfl
  | last content hne hcontent =>
    rw [cut_append_cons hcontent, cut_append_cons hcontent, cut]
    rfl
  | ended content more hcontent ih =>
    rw [List.append_assoc, List.cons_append, cut_append_cons hcontent, ih, List.append_assoc,
      List.cons_append, cut_append_cons hcontent]
    rfl

/-- Every newline ends a line. -/
theorem length_cut_ended (s : List α) :
    (cut newline (s ++ [newline])).length = s.count newline + 1 := by
  induction s using cut_induction newline with
  | nil => rw [List.nil_append, cut, if_pos rfl, cut]; rfl
  | last content hne hcontent =>
    rw [cut_append_cons hcontent, List.count_eq_zero.mpr hcontent, cut]
    rfl
  | ended content rest hcontent ih =>
    rw [List.append_assoc, List.cons_append, cut_append_cons hcontent, List.length_cons, ih,
      List.count_append, List.count_eq_zero.mpr hcontent, List.count_cons_self, Nat.zero_add]

/-- The sequence that has the lines. -/
def join (newline : α) (lines : List (Line α)) : List α :=
  lines.flatMap fun line => if line.ended then line.content ++ [newline] else line.content

omit [DecidableEq α] in
theorem join_cons (line : Line α) (lines : List (Line α)) : join newline (line :: lines) =
    (if line.ended then line.content ++ [newline] else line.content) ++ join newline lines :=
  List.flatMap_cons

theorem join_cut (newline : α) (s : List α) : join newline (cut newline s) = s := by
  induction s using cut_induction newline with
  | nil => rfl
  | last content hne hcontent =>
    rw [cut_of_not_mem hne hcontent, join_cons]
    exact List.append_nil _
  | ended content rest hcontent ih =>
    rw [cut_append_cons hcontent, join_cons, if_pos rfl, ih, List.append_assoc]
    rfl

end Cut

theorem dropLastMark_of_not_mem {α : Type} [DecidableEq α] {mark : α} {content : List α}
    (h : mark ∉ content) : dropLastMark mark content = content :=
  if_neg fun hlast => h (List.mem_of_getLast? hlast)

theorem dropLastMark_concat {α : Type} [DecidableEq α] (mark : α) (content : List α) :
    dropLastMark mark (content ++ [mark]) = content := by
  rw [dropLastMark, if_pos List.getLast?_concat, List.dropLast_concat]

/-- What is left without a mark at the end is the whole, or the whole is this and the mark. -/
theorem eq_or_eq_concat_mark {α : Type} [DecidableEq α] (mark : α) (content : List α) :
    dropLastMark mark content = content ∨ content = dropLastMark mark content ++ [mark] := by
  by_cases hlast : content.getLast? = some mark
  · obtain ⟨init, rfl⟩ := List.getLast?_eq_some_iff.mp hlast
    rw [dropLastMark_concat]
    exact .inr rfl
  · exact .inl (if_neg hlast)

/-! ### Lines of texts and of bytes -/

theorem ofText_append_cons {content : List Char} (h : '\n' ∉ content) (rest : List Char) :
    ofText (content ++ '\n' :: rest) = dropLastMark '\r' content :: ofText rest := by
  rw [ofText, cut_append_cons h, List.map_cons, if_pos rfl]
  rfl

theorem ofText_of_not_mem {content : List Char} (hne : content ≠ []) (h : '\n' ∉ content) :
    ofText content = [content] := by
  rw [ofText, cut_of_not_mem hne h]
  rfl

theorem ofBytes_append_cons {content : List UInt8} (h : 0x0A ∉ content) (rest : List UInt8) :
    ofBytes (content ++ 0x0A :: rest) = dropLastMark 0x0D content :: ofBytes rest := by
  rw [ofBytes, cut_append_cons h, List.map_cons]
  rfl

theorem ofBytes_of_not_mem {content : List UInt8} (hne : content ≠ []) (h : 0x0A ∉ content) :
    ofBytes content = [dropLastMark 0x0D content] := by
  rw [ofBytes, cut_of_not_mem hne h]
  rfl

/-- Lines that are joined by newlines are found again. -/
theorem ofText_intercalate {lines : List (List Char)}
    (h : ∀ line ∈ lines, line ≠ [] ∧ '\n' ∉ line ∧ '\r' ∉ line) :
    ofText (['\n'].intercalate lines) = lines := by
  induction lines with
  | nil => rfl
  | cons line rest ih =>
    obtain ⟨hne, hnewline, hreturn⟩ := h line (List.mem_cons_self ..)
    have hrest := ih fun l hl => h l (List.mem_cons_of_mem _ hl)
    cases rest with
    | nil =>
      rw [List.intercalate_singleton]
      exact ofText_of_not_mem hne hnewline
    | cons second rest =>
      rw [List.intercalate_cons_cons, List.append_assoc, List.singleton_append,
        ofText_append_cons hnewline, dropLastMark_of_not_mem hreturn, hrest]

end OpTable.Text.Line

namespace OpTable.Text

/-! ### Texts with their lines -/

def linesOf (text : String) : List (Line Char) := Line.cut '\n' text.toList

def newlines (text : String) : Nat := text.toList.count '\n'

/-- The texts have as many lines, and all of them but one are the same. -/
structure DifferAt (index : Nat) (text other : String) : Prop where
  length_eq : (linesOf text).length = (linesOf other).length
  getElem?_eq : ∀ i, i ≠ index → (linesOf text)[i]? = (linesOf other)[i]?

theorem newlines_append (text other : String) :
    newlines (text ++ other) = newlines text + newlines other := by
  rw [newlines, String.toList_append, List.count_append, newlines, newlines]

theorem newlines_eq_zero_iff {text : String} : newlines text = 0 ↔ '\n' ∉ text.toList :=
  List.count_eq_zero

theorem join_lines_cons (line : String) (lines : List String) :
    String.join ((line :: lines).map (· ++ "\n")) =
      line ++ "\n" ++ String.join (lines.map (· ++ "\n")) :=
  String.ext (by simp [String.toList_join, String.toList_append])

theorem linesOf_join_append {lines : List String} (h : ∀ line ∈ lines, '\n' ∉ line.toList)
    (rest : String) : linesOf (String.join (lines.map (· ++ "\n")) ++ rest) =
      lines.map (fun line => ⟨line.toList, true⟩) ++ linesOf rest := by
  induction lines with
  | nil =>
    rw [List.map_nil, List.map_nil, List.nil_append, String.join_nil, String.empty_append]
  | cons line lines ih =>
    obtain ⟨hline, hlines⟩ := List.forall_mem_cons.mp h
    have hfirst : (line ++ "\n" ++ String.join (lines.map (· ++ "\n")) ++ rest).toList =
        line.toList ++ '\n' :: (String.join (lines.map (· ++ "\n")) ++ rest).toList := by
      simp [String.toList_append]
    rw [join_lines_cons, linesOf, hfirst, Line.cut_append_cons hline, List.map_cons,
      List.cons_append, ← ih hlines]
    rfl

theorem linesOf_ended_append (line rest : String) :
    linesOf (line ++ "\n" ++ rest) = linesOf (line ++ "\n") ++ linesOf rest := by
  have hlist : (line ++ "\n" ++ rest).toList = line.toList ++ '\n' :: rest.toList := by
    simp [String.toList_append]
  rw [linesOf, hlist, Line.cut_append_ended, linesOf, String.toList_append]
  rfl

theorem length_linesOf_ended (line : String) :
    (linesOf (line ++ "\n")).length = newlines line + 1 := by
  rw [linesOf, String.toList_append]
  exact Line.length_cut_ended line.toList

theorem linesOf_ended {line : String} (h : '\n' ∉ line.toList) :
    linesOf (line ++ "\n") = [⟨line.toList, true⟩] := by
  rw [linesOf, String.toList_append]
  exact Line.cut_append_cons h []

theorem differAt_of_eq {text other : String} {front back : List (Line Char)} {x y : Line Char}
    (htext : linesOf text = front ++ x :: back) (hother : linesOf other = front ++ y :: back) :
    DifferAt front.length text other where
  length_eq := by
    rw [htext, hother, List.length_append, List.length_append, List.length_cons, List.length_cons]
  getElem?_eq := by
    intro i hi
    rw [htext, hother]
    by_cases hlt : i < front.length
    · rw [List.getElem?_append_left hlt, List.getElem?_append_left hlt]
    · have hpos : i - front.length = (i - front.length - 1) + 1 := by omega
      rw [List.getElem?_append_right (by omega), List.getElem?_append_right (by omega), hpos,
        List.getElem?_cons_succ, List.getElem?_cons_succ]

end OpTable.Text
