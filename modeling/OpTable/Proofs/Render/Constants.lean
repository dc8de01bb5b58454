import OpTable.Proofs.Table.Source
import OpTable.Render.Constants

/-!
# Names of constants

Every record of a table has its constant, and the list of all refers to the constants by their
names, in the order of the records. The names are identifiers that are not reserved, but different
mnemonics can share a name (`identifier_eq_iff`), so a table has usable names only where they do not
(`usable_iff`).
-/

namespace OpTable.Render.Constants

/-! ### Declarations -/

def keyword : List Char := ['p', 'u', 'b', ' ', 'c', 'o', 'n', 's', 't', ' ']

/-- The name that a line declares. -/
def declared? (line : String) : Option String :=
  if keyword <+: line.toList then
    some (String.ofList ((line.toList.drop keyword.length).takeWhile (· != ':')))
  else none

def names (table : Table) : List String := table.records.map fun r => identifier r.mnemonic

def listName : String := "OPS"

/-- The lines of the list, which refers to the constants by these names. -/
def listing (names : List String) : List String :=
  s!"pub const {listName}: &[OpInfo] = &[" :: (names.map (fun name => s!"    {name},") ++ ["];"])

/-- Every name refers to a constant, and to one only. -/
structure Usable (names : List String) : Prop where
  /-- An underscore alone declares a constant that has no name. -/
  not_wildcard : "_" ∉ names
  nodup : (names ++ [listName]).Nodup

/-- Words that are no names of constants. -/
def reservedWords : List String :=
  ["as", "async", "await", "break", "const", "continue", "crate", "dyn", "else", "enum", "extern",
    "false", "fn", "for", "gen", "if", "impl", "in", "let", "loop", "match", "mod", "move", "mut",
    "pub", "ref", "return", "self", "Self", "static", "struct", "super", "trait", "true", "type",
    "unsafe", "use", "where", "while", "abstract", "become", "box", "do", "final", "macro",
    "override", "priv", "try", "typeof", "unsized", "virtual", "yield"]

theorem declared?_eq_none {line : String} (h : line.toList.head? ≠ some 'p') :
    declared? line = none := by
  rw [declared?, if_neg]
  rintro ⟨rest, hrest⟩
  rw [← hrest] at h
  exact h rfl

theorem declared?_declaration {name rest : String} (h : ∀ c ∈ name.toList, c ≠ ':')
    (hrest : rest.toList.takeWhile (· != ':') = []) :
    declared? ("pub const " ++ name ++ rest) = some name := by
  have hline : ("pub const " ++ name ++ rest).toList =
      keyword ++ (name.toList ++ rest.toList) := by
    simp [String.toList_append, keyword]
  rw [declared?, hline, if_pos (List.prefix_append ..), List.drop_left, Option.some.injEq,
    List.takeWhile_append_of_pos fun c hc => bne_iff_ne.mpr (h c hc), hrest, List.append_nil,
    String.ofList_toList]

/-! ### Characters of names -/

theorem identifierChar_eq {c : Char} (hc : c.toUpper = c) :
    identifierChar c = if c.isAlphanum then c else '_' := by
  rw [identifierChar, hc]

theorem toUpper_of_isDigit {c : Char} (h : c.isDigit = true) : c.toUpper = c := by
  obtain ⟨hlow, hhigh⟩ := Char.isDigit_iff_toNat.mp h
  have hhigh : c.toNat ≤ 57 := hhigh
  rw [Char.ext_iff, ← UInt32.toNat_inj]
  exact (toNat_toUpper c).trans (if_neg (by omega))

theorem identifierChar_of_isDigit {c : Char} (h : c.isDigit = true) : identifierChar c = c := by
  rw [identifierChar_eq (toUpper_of_isDigit h), if_pos]
  rw [Char.isAlphanum, h, Bool.or_true]

theorem identifierChar_cases (c : Char) :
    (identifierChar c).isUpper = true ∨ (identifierChar c).isDigit = true ∨
      identifierChar c = '_' := by
  unfold identifierChar
  split
  next h =>
    rcases Bool.or_eq_true_iff.mp h with halpha | hdigit
    · refine .inl ?_
      have hrange := BitExpr.Grammar.toNat_of_isAlpha halpha
      have hupper := toNat_toUpper c
      have hbounds : 65 ≤ c.toUpper.toNat ∧ c.toUpper.toNat ≤ 90 := by
        split at hupper
        · omega
        · omega
      exact decide_eq_true
        ⟨UInt32.le_iff_toNat_le.mpr hbounds.1, UInt32.le_iff_toNat_le.mpr hbounds.2⟩
    · rw [toUpper_of_isDigit hdigit]
      exact .inr (.inl hdigit)
  · exact .inr (.inr rfl)

theorem isDigit_identifierChar (c : Char) : (identifierChar c).isDigit = c.isDigit := by
  cases hc : c.isDigit with
  | true => rw [identifierChar_of_isDigit hc, hc]
  | false =>
    unfold identifierChar
    split
    next h =>
      have halpha : c.isAlpha = true := by
        rcases Bool.or_eq_true_iff.mp h with halpha | hdigit
        · exact halpha
        · rw [hc] at hdigit
          cases hdigit
      have hrange := BitExpr.Grammar.toNat_of_isAlpha halpha
      have hupper := toNat_toUpper c
      rw [Bool.eq_false_iff]
      intro hdigit
      have hnine : c.toUpper.toNat ≤ 57 := (Char.isDigit_iff_toNat.mp hdigit).2
      split at hupper
      · omega
      · omega
    · rfl

theorem isIdentifierStart_identifierChar {c : Char} (hc : c.isDigit = false) :
    isIdentifierStart (identifierChar c) = true := by
  rw [isIdentifierStart, Bool.or_eq_true, beq_iff_eq]
  rcases identifierChar_cases c with h | h | h
  · exact .inl (Bool.or_eq_true_iff.mpr (.inl h))
  · rw [isDigit_identifierChar, hc] at h
    cases h
  · exact .inr h

theorem isIdentifierPart_identifierChar (c : Char) : isIdentifierPart (identifierChar c) = true := by
  rw [isIdentifierPart, Char.isAlphanum, Bool.or_eq_true, Bool.or_eq_true, beq_iff_eq]
  rcases identifierChar_cases c with h | h | h
  · exact .inl (.inl (Bool.or_eq_true_iff.mpr (.inl h)))
  · exact .inl (.inr h)
  · exact .inr h

theorem isLower_identifierChar (c : Char) : (identifierChar c).isLower = false := by
  rw [Bool.eq_false_iff]
  intro hlower
  have hlow : 97 ≤ (identifierChar c).toNat :=
    UInt32.le_iff_toNat_le.mp (Bool.and_eq_true_iff.mp hlower |>.1 |> of_decide_eq_true)
  rcases identifierChar_cases c with h | h | h
  · have hhigh : (identifierChar c).toNat ≤ 90 :=
      UInt32.le_iff_toNat_le.mp (of_decide_eq_true h : _ ∧ _).2
    omega
  · have hhigh : (identifierChar c).toNat ≤ 57 := (Char.isDigit_iff_toNat.mp h).2
    omega
  · rw [h] at hlow
    exact absurd hlow (by decide)

/-! ### Spellings -/

theorem toList_identifier {mnemonic : String} {c : Char} {rest : List Char}
    (h : mnemonic.toList = c :: rest) : (identifier mnemonic).toList =
      if c.isDigit = true then '_' :: (c :: rest).map identifierChar
      else (c :: rest).map identifierChar := by
  rw [identifier, h, List.map_cons]
  dsimp only
  cases hc : c.isDigit with
  | true =>
    have hstart : ¬ ((identifierChar c).isAlpha = true ∨ identifierChar c = '_') := by
      intro hstart
      have hdigit : (identifierChar c).isDigit = true := by rw [isDigit_identifierChar, hc]
      exact BitExpr.Grammar.not_isDigit_of_isIdentifierStart (by simpa [isIdentifierStart]) hdigit
    rw [if_neg hstart, String.toList_ofList]
    rfl
  | false =>
    have hstart : (identifierChar c).isAlpha = true ∨ identifierChar c = '_' := by
      simpa [isIdentifierStart] using isIdentifierStart_identifierChar hc
    rw [if_pos hstart, String.toList_ofList]
    rfl

theorem of_mem_identifier {mnemonic : String} (hne : mnemonic.toList ≠ []) {c : Char}
    (hc : c ∈ (identifier mnemonic).toList) : c = '_' ∨ ∃ d, c = identifierChar d := by
  obtain ⟨first, rest, hm⟩ := List.exists_cons_of_ne_nil hne
  rw [toList_identifier hm] at hc
  split at hc
  · rcases List.mem_cons.mp hc with hc | hc
    · exact .inl hc
    · obtain ⟨d, -, hd⟩ := List.mem_map.mp hc
      exact .inr ⟨d, hd.symm⟩
  · obtain ⟨d, -, hd⟩ := List.mem_map.mp hc
    exact .inr ⟨d, hd.symm⟩

theorem not_mem_identifier {mnemonic : String} (hne : mnemonic.toList ≠ []) :
    ':' ∉ (identifier mnemonic).toList := by
  intro hc
  have hpart : isIdentifierPart ':' = true := by
    rcases of_mem_identifier hne hc with he | ⟨d, he⟩
    · cases he
    · rw [he]
      exact isIdentifierPart_identifierChar d
  cases hpart

theorem isIdentifier_identifier {mnemonic : String} (hne : mnemonic.toList ≠ []) :
    IsIdentifier (identifier mnemonic) := by
  obtain ⟨first, rest, hm⟩ := List.exists_cons_of_ne_nil hne
  have hparts : ∀ chars : List Char, (chars.map identifierChar).all isIdentifierPart = true := by
    intro chars
    rw [List.all_map, List.all_eq_true]
    exact fun c _ => isIdentifierPart_identifierChar c
  rw [IsIdentifier, toList_identifier hm]
  cases hfirst : first.isDigit with
  | true => exact hparts (first :: rest)
  | false =>
    show (isIdentifierStart (identifierChar first) && _) = true
    rw [isIdentifierStart_identifierChar hfirst, hparts, Bool.and_true]

theorem identifier_not_reserved {mnemonic : String} (hne : mnemonic.toList ≠ []) :
    identifier mnemonic ∉ reservedWords := by
  -- every reserved word has a letter in lower case, and no name has one
  have hlower : ∀ word ∈ reservedWords, word.toList.any Char.isLower = true := by decide
  intro hmem
  obtain ⟨c, hc, hclower⟩ := List.any_eq_true.mp (hlower _ hmem)
  rcases of_mem_identifier hne hc with rfl | ⟨d, rfl⟩
  · cases hclower
  · rw [isLower_identifierChar] at hclower
    cases hclower

/-! ### Mnemonics with one name -/

/-- The same letter or digit, or neither of them is one. -/
def AlikeChars (c d : Char) : Prop := c = d ∨ c.isAlphanum = false ∧ d.isAlphanum = false

/-- The texts have the same letters and digits at the same places. -/
def Alike (s t : List Char) : Prop := List.Forall₂ AlikeChars s t

/-- The texts are alike, or one of them starts with a digit, and the other is alike to it after a
character that is neither a letter nor a digit. -/
inductive Collide : List Char → List Char → Prop where
  | alike {s t : List Char} (h : Alike s t) : Collide s t
  | guardedLeft {c d : Char} {s t : List Char} (hc : c.isAlphanum = false)
      (hd : d.isDigit = true) (h : Alike s t) : Collide (c :: d :: s) (d :: t)
  | guardedRight {c d : Char} {s t : List Char} (hc : c.isAlphanum = false)
      (hd : d.isDigit = true) (h : Alike s t) : Collide (d :: s) (c :: d :: t)

/-- The text has no letter in lower case. -/
def IsNormal (s : List Char) : Prop := s.map Char.toUpper = s

theorem isNormal_cons {c : Char} {s : List Char} :
    IsNormal (c :: s) ↔ c.toUpper = c ∧ IsNormal s := by
  rw [IsNormal, IsNormal, List.map_cons, List.cons.injEq]

theorem AlikeChars.symm {c d : Char} (h : AlikeChars c d) : AlikeChars d c := by
  rcases h with rfl | ⟨hc, hd⟩
  · exact .inl rfl
  · exact .inr ⟨hd, hc⟩

theorem AlikeChars.isDigit_eq {c d : Char} (h : AlikeChars c d) : c.isDigit = d.isDigit := by
  rcases h with rfl | ⟨hc, hd⟩
  · rfl
  · rw [Char.isAlphanum, Bool.or_eq_false_iff] at hc hd
    rw [hc.2, hd.2]

theorem alikeChars_of_isDigit {c d : Char} (hc : c.isDigit = true) : AlikeChars c d ↔ c = d := by
  refine ⟨?_, .inl⟩
  rintro (h | ⟨h, -⟩)
  · exact h
  · rw [Char.isAlphanum, hc, Bool.or_true] at h
    cases h

theorem ne_of_isAlphanum {c d : Char} (hc : c.isAlphanum = true) (hd : d.isAlphanum = false) :
    c ≠ d := by
  rintro rfl
  rw [hc] at hd
  cases hd

theorem identifierChar_eq_mark_iff {c : Char} (hc : c.toUpper = c) :
    identifierChar c = '_' ↔ c.isAlphanum = false := by
  rw [identifierChar_eq hc]
  cases h : c.isAlphanum with
  | true => simpa using ne_of_isAlphanum h rfl
  | false => simp

theorem identifierChar_eq_iff {c d : Char} (hc : c.toUpper = c) (hd : d.toUpper = d) :
    identifierChar c = identifierChar d ↔ AlikeChars c d := by
  rw [identifierChar_eq hc, identifierChar_eq hd, AlikeChars]
  cases hcname : c.isAlphanum with
  | true =>
    cases hdname : d.isAlphanum with
    | true => simp
    | false =>
      have hmark : c ≠ '_' := ne_of_isAlphanum hcname rfl
      have hne : c ≠ d := ne_of_isAlphanum hcname hdname
      simp [hmark, hne]
  | false =>
    cases hdname : d.isAlphanum with
    | true =>
      have hmark : '_' ≠ d := (ne_of_isAlphanum hdname rfl).symm
      have hne : c ≠ d := (ne_of_isAlphanum hdname hcname).symm
      simp [hmark, hne]
    | false => simp

theorem map_identifierChar_eq_iff {s t : List Char} (hs : IsNormal s) (ht : IsNormal t) :
    s.map identifierChar = t.map identifierChar ↔ Alike s t := by
  induction s generalizing t with
  | nil =>
    cases t with
    | nil => exact iff_of_true rfl .nil
    | cons d t => simp [Alike]
  | cons c s ih =>
    cases t with
    | nil => simp [Alike]
    | cons d t =>
      obtain ⟨hc, hs⟩ := isNormal_cons.mp hs
      obtain ⟨hd, ht⟩ := isNormal_cons.mp ht
      rw [List.map_cons, List.map_cons, List.cons.injEq, identifierChar_eq_iff hc hd, ih hs ht,
        Alike, Alike, List.forall₂_cons]

theorem Alike.symm {s t : List Char} (h : Alike s t) : Alike t s :=
  List.Forall₂.flip (h.imp fun _ _ => AlikeChars.symm)

theorem Collide.symm {s t : List Char} (h : Collide s t) : Collide t s := by
  cases h with
  | alike h => exact .alike h.symm
  | guardedLeft hc hd h => exact .guardedRight hc hd h.symm
  | guardedRight hc hd h => exact .guardedLeft hc hd h.symm

theorem collide_comm {s t : List Char} : Collide s t ↔ Collide t s := ⟨.symm, .symm⟩

theorem isDigit_of_mark {c : Char} (hc : c.isAlphanum = false) : c.isDigit = false :=
  (Bool.or_eq_false_iff.mp hc).2

theorem collide_iff_alike {c d : Char} {s t : List Char} (h : c.isDigit = d.isDigit) :
    Collide (c :: s) (d :: t) ↔ Alike (c :: s) (d :: t) := by
  refine ⟨?_, .alike⟩
  intro hcollide
  cases hcollide with
  | alike halike => exact halike
  | guardedLeft hc hd halike =>
    rw [isDigit_of_mark hc, hd] at h
    cases h
  | guardedRight hd hc halike =>
    rw [isDigit_of_mark hd, hc] at h
    cases h

theorem collide_iff_guarded {c d : Char} {s t : List Char} (hc : c.isDigit = true)
    (hd : d.isDigit = false) :
    Collide (c :: s) (d :: t) ↔ d.isAlphanum = false ∧ Alike (c :: s) t := by
  constructor
  · intro h
    cases h with
    | alike h =>
      have hdigits := (List.forall₂_cons.mp h).1.isDigit_eq
      rw [hc, hd] at hdigits
      cases hdigits
    | guardedLeft hmark hdigit h =>
      rw [isDigit_of_mark hmark] at hc
      cases hc
    | guardedRight hmark hdigit h => exact ⟨hmark, .cons (.inl rfl) h⟩
  · rintro ⟨hmark, h⟩
    cases h with
    | cons hfirst hrest =>
      obtain rfl := (alikeChars_of_isDigit hc).mp hfirst
      exact .guardedRight hmark hc hrest

theorem identifier_eq_iff {m n : String} (hmne : m.toList ≠ []) (hnne : n.toList ≠ [])
    (hm : IsNormal m.toList) (hn : IsNormal n.toList) :
    identifier m = identifier n ↔ Collide m.toList n.toList := by
  obtain ⟨c, s, hms⟩ := List.exists_cons_of_ne_nil hmne
  obtain ⟨d, t, hnt⟩ := List.exists_cons_of_ne_nil hnne
  rw [String.ext_iff, toList_identifier hms, toList_identifier hnt, hms, hnt]
  rw [hms] at hm
  rw [hnt] at hn
  have hmark : identifierChar c = '_' ↔ c.isAlphanum = false :=
    identifierChar_eq_mark_iff (isNormal_cons.mp hm).1
  have hmark' : identifierChar d = '_' ↔ d.isAlphanum = false :=
    identifierChar_eq_mark_iff (isNormal_cons.mp hn).1
  -- an underscore is put in front of a name with a digit first, so the names can have the same
  -- characters one place apart
  cases hc : c.isDigit with
  | true =>
    cases hd : d.isDigit with
    | true =>
      rw [if_pos rfl, if_pos rfl, List.cons_inj_right, map_identifierChar_eq_iff hm hn,
        collide_iff_alike (hc.trans hd.symm)]
    | false =>
      rw [if_pos rfl, if_neg Bool.false_ne_true, List.map_cons (l := t), List.cons.injEq,
        map_identifierChar_eq_iff hm (isNormal_cons.mp hn).2, eq_comm, hmark',
        collide_iff_guarded hc hd]
  | false =>
    cases hd : d.isDigit with
    | true =>
      rw [if_neg Bool.false_ne_true, if_pos rfl, List.map_cons (l := s), List.cons.injEq,
        eq_comm (a := List.map _ s), map_identifierChar_eq_iff hn (isNormal_cons.mp hm).2, hmark,
        collide_comm, collide_iff_guarded hd hc]
    | false =>
      rw [if_neg Bool.false_ne_true, if_neg Bool.false_ne_true, map_identifierChar_eq_iff hm hn,
        collide_iff_alike (hc.trans hd.symm)]

/-! ### Names that are taken -/

theorem collide_iff_eq {s t : List Char} (hall : t.all Char.isAlphanum = true)
    (hstart : t.head?.any Char.isDigit = false) : Collide s t ↔ s = t := by
  have hparts : ∀ c ∈ t, c.isAlphanum = true := List.all_eq_true.mp hall
  have halike : ∀ {s t}, Alike s t → (∀ c ∈ t, c.isAlphanum = true) → s = t := by
    intro s t h hparts
    induction h with
    | nil => rfl
    | @cons c d s t hfirst hrest ih =>
      obtain ⟨hd, ht⟩ := List.forall_mem_cons.mp hparts
      rcases hfirst with rfl | ⟨-, hmark⟩
      · rw [ih ht]
      · exact absurd rfl (ne_of_isAlphanum hd hmark)
  constructor
  · intro h
    cases h with
    | alike h => exact halike h hparts
    | guardedLeft hmark hdigit h =>
      rw [List.head?_cons, Option.any_some, hdigit] at hstart
      cases hstart
    | guardedRight hmark hdigit h =>
      exact absurd rfl (ne_of_isAlphanum (hparts _ (List.mem_cons_self ..)) hmark)
  · rintro rfl
    exact .alike (List.forall₂_same.mpr fun c _ => .inl rfl)

theorem collide_wildcard_iff {s : List Char} :
    Collide s ['_'] ↔ ∃ c, s = [c] ∧ c.isAlphanum = false := by
  constructor
  · intro h
    cases h with
    | alike h =>
      cases h with
      | @cons c _ _ _ hfirst hrest =>
        cases hrest
        refine ⟨c, rfl, ?_⟩
        rcases hfirst with rfl | ⟨hmark, -⟩
        · rfl
        · exact hmark
    | guardedLeft hmark hdigit h => cases hdigit
  · rintro ⟨c, rfl, hmark⟩
    exact .alike (.cons (.inr ⟨hmark, rfl⟩) .nil)

/-- The mnemonic is a single character, which is neither a letter nor a digit. -/
def IsMark (mnemonic : String) : Prop := ∃ c, mnemonic.toList = [c] ∧ c.isAlphanum = false

section Mnemonic

variable {m : String} (hne : m.toList ≠ []) (hm : IsNormal m.toList)

include hne hm

theorem identifier_eq_wildcard_iff : identifier m = "_" ↔ IsMark m := by
  have hname : identifier "_" = "_" := by decide +kernel
  rw [← hname, identifier_eq_iff hne (by decide) hm (by rfl)]
  exact collide_wildcard_iff

theorem identifier_eq_listName_iff : identifier m = listName ↔ m = listName := by
  have hname : identifier listName = listName := by decide +kernel
  rw [← hname, identifier_eq_iff hne (by decide) hm (by rfl), collide_iff_eq (by rfl) (by rfl),
    hname, String.ext_iff]

end Mnemonic

/-! ### Tables -/

theorem filterMap_constant (digits : Nat) {r : Record} (h : r.mnemonic.toList ≠ []) :
    (constant digits r).filterMap declared? = [identifier r.mnemonic] := by
  have hname : ∀ c ∈ (identifier r.mnemonic).toList, c ≠ ':' :=
    fun c hc he => not_mem_identifier h (he ▸ hc)
  have hfirst : declared? s!"pub const {identifier r.mnemonic}: OpInfo = OpInfo \x7b" =
      some (identifier r.mnemonic) := declared?_declaration hname (by decide)
  have hrest : ∀ line ∈ (constant digits r).tail, declared? line = none := by
    intro line hline
    apply declared?_eq_none
    simp only [constant, List.tail_cons, List.mem_cons, List.not_mem_nil, or_false] at hline
    rcases hline with rfl | rfl | rfl | rfl | rfl | rfl | rfl | rfl | rfl
    all_goals simp [String.toList_append, toString]
  rw [constant, List.filterMap_cons, hfirst]
  exact congrArg (_ :: ·) (List.filterMap_eq_nil_iff.mpr hrest)

theorem filterMap_constants (digits : Nat) {records : List Record}
    (h : ∀ r ∈ records, r.mnemonic.toList ≠ []) :
    (records.flatMap (constant digits)).filterMap declared? =
      records.map fun r => identifier r.mnemonic := by
  rw [List.filterMap_flatMap, List.map_eq_flatMap]
  exact List.flatMap_congr fun r hr => filterMap_constant digits (h r hr)

def heading (table : Table) : List String :=
  [s!"// @generated by qcpu_tablegen (schema: {table.schemaName}). Do not edit.", "",
    s!"pub type Word = {(wordType (widestWord table)).name};", ""]

theorem filterMap_heading (table : Table) : (heading table).filterMap declared? = [] := by
  rw [List.filterMap_eq_nil_iff, heading]
  simp only [List.forall_mem_cons, List.not_mem_nil, IsEmpty.forall_iff, implies_true, and_true]
  refine ⟨?_, by decide, ?_, by decide⟩
  · apply declared?_eq_none
    simp [String.toList_append, toString]
  · unfold wordType
    split
    · decide
    · decide

theorem filterMap_listing (names : List String) :
    (listing names).filterMap declared? = [listName] := by
  have hfirst : declared? s!"pub const {listName}: &[OpInfo] = &[" = some listName := by decide
  have hrest : ∀ line ∈ names.map (fun name => s!"    {name},") ++ ["];"],
      declared? line = none := by
    rw [List.forall_mem_append, List.forall_mem_map, List.forall_mem_singleton]
    refine ⟨fun name hname => declared?_eq_none ?_, by decide⟩
    simp [String.toList_append, toString]
  rw [listing, List.filterMap_cons, hfirst]
  exact congrArg (_ :: ·) (List.filterMap_eq_nil_iff.mpr hrest)

theorem lines_eq (table : Table) :
    lines table = heading table ++
      (table.records.flatMap (constant (wordType (widestWord table)).digits) ++
        listing (names table)) := by
  have hlisting : listing (names table) = ["pub const OPS: &[OpInfo] = &["] ++
      (table.records.map (fun r => s!"    {identifier r.mnemonic},") ++ ["];"]) := by
    rw [listing, names, List.map_map]
    rfl
  rw [hlisting, lines, heading, List.append_assoc, List.append_assoc, List.append_assoc]

theorem filterMap_lines {table : Table} (h : ∀ r ∈ table.records, r.mnemonic.toList ≠ []) :
    (lines table).filterMap declared? = names table ++ [listName] := by
  rw [lines_eq, List.filterMap_append, List.filterMap_append, filterMap_heading,
    filterMap_constants _ h, filterMap_listing]
  rfl

theorem not_mem_names_iff {records : List Record} {name : String} (p : String → Prop)
    (h : ∀ r ∈ records, identifier r.mnemonic = name ↔ p r.mnemonic) :
    name ∉ records.map (fun r => identifier r.mnemonic) ↔ ∀ r ∈ records, ¬ p r.mnemonic := by
  rw [List.mem_map, not_exists]
  refine forall_congr' fun r => ?_
  rw [not_and]
  exact forall_congr' fun hr => not_congr (h r hr)

theorem usable_iff {records : List Record}
    (hne : ∀ r ∈ records, r.mnemonic.toList ≠ [])
    (hnormal : ∀ r ∈ records, IsNormal r.mnemonic.toList) :
    Usable (records.map fun r => identifier r.mnemonic) ↔
      (∀ r ∈ records, ¬ IsMark r.mnemonic ∧ r.mnemonic ≠ listName) ∧
      records.Pairwise fun r s => ¬ Collide r.mnemonic.toList s.mnemonic.toList := by
  have hwildcard : "_" ∉ records.map (fun r => identifier r.mnemonic) ↔
      ∀ r ∈ records, ¬ IsMark r.mnemonic :=
    not_mem_names_iff IsMark fun r hr => identifier_eq_wildcard_iff (hne r hr) (hnormal r hr)
  have hlist : listName ∉ records.map (fun r => identifier r.mnemonic) ↔
      ∀ r ∈ records, r.mnemonic ≠ listName :=
    not_mem_names_iff (· = listName) fun r hr =>
      identifier_eq_listName_iff (hne r hr) (hnormal r hr)
  have hnodup : (records.map fun r => identifier r.mnemonic).Nodup ↔
      records.Pairwise fun r s => ¬ Collide r.mnemonic.toList s.mnemonic.toList := by
    rw [List.Nodup, List.pairwise_map]
    exact List.Pairwise.iff_of_mem fun {r s} hr hs =>
      not_congr (identifier_eq_iff (hne r hr) (hne s hs) (hnormal r hr) (hnormal s hs))
  rw [forall₂_and, ← hwildcard, ← hlist, ← hnodup]
  constructor
  · rintro ⟨hw, hn⟩
    obtain ⟨hnames, -, hapart⟩ := List.nodup_append.mp hn
    exact ⟨⟨hw, fun hl => hapart _ hl _ (List.mem_singleton.mpr rfl) rfl⟩, hnames⟩
  · rintro ⟨⟨hw, hl⟩, hn⟩
    refine ⟨hw, List.nodup_append.mpr ⟨hn, List.nodup_singleton _, ?_⟩⟩
    rintro name hname _ hother rfl
    rw [List.mem_singleton.mp hother] at hname
    exact hl hname

theorem mnemonic_of_mem_performAll {schema : Schema} {policy : DuplicatePolicy} {c : Compiler}
    (hc : Compiler.start schema policy = .ok c) {steps : List Compiler.Step} {r : Record}
    (hr : r ∈ (c.performAll steps).finish.table.records) :
    r.mnemonic.toList ≠ [] ∧ IsNormal r.mnemonic.toList := by
  refine ⟨((Compiler.isSourcedBuilder_performAll hc steps).isSourced r hr).isPlain.mnemonic.1, ?_⟩
  obtain ⟨spec, line, encoding, -, rfl⟩ := (Compiler.isResolved_performAll hc steps).2 r hr
  show IsNormal (normalizeMnemonic spec.mnemonic).toList
  have htwice := congrArg String.toList (normalizeMnemonic_normalizeMnemonic spec.mnemonic)
  rwa [normalizeMnemonic, String.toList_map] at htwice

/-- The constants of a finished table are declared in the order of the records and listed in the
same order. -/
theorem names_performAll {schema : Schema} {policy : DuplicatePolicy} {c : Compiler}
    (hc : Compiler.start schema policy = .ok c) (steps : List Compiler.Step) :
    let table := (c.performAll steps).finish.table
    (lines table).filterMap declared? = names table ++ [listName] ∧
      listing (names table) <:+ lines table ∧
      (∀ name ∈ names table, IsIdentifier name ∧ name ∉ reservedWords) ∧
      (Usable (names table) ↔
        (∀ r ∈ table.records, ¬ IsMark r.mnemonic ∧ r.mnemonic ≠ listName) ∧
        table.records.Pairwise fun r s => ¬ Collide r.mnemonic.toList s.mnemonic.toList) := by
  intro table
  have hne : ∀ r ∈ table.records, r.mnemonic.toList ≠ [] :=
    fun r hr => (mnemonic_of_mem_performAll hc hr).1
  have hnormal : ∀ r ∈ table.records, IsNormal r.mnemonic.toList :=
    fun r hr => (mnemonic_of_mem_performAll hc hr).2
  refine ⟨filterMap_lines hne, ?_, ?_, usable_iff hne hnormal⟩
  · rw [lines_eq, ← List.append_assoc]
    exact List.suffix_append _ _
  · rw [names, List.forall_mem_map]
    exact fun r hr => ⟨isIdentifier_identifier (hne r hr), identifier_not_reserved (hne r hr)⟩

def plainNames : Compiler.Step := .text "t.isa" "FADD.S rd 0000\n2OP rd 0001\n"

theorem names_performAll_plain :
    ∃ c, Compiler.start Schema.loose .overwrite = .ok c ∧
      let table := (c.performAll [plainNames]).finish.table
      (lines table).filterMap declared? = ["FADD_S", "_2OP", "OPS"] ∧
      listing ["FADD_S", "_2OP"] <:+ lines table ∧ Usable (names table) := by
  have hstart : Compiler.start Schema.loose .overwrite =
      .ok ⟨Schema.loose, .start Schema.loose.name .overwrite, []⟩ := rfl
  have hnames : names ((⟨Schema.loose, .start Schema.loose.name .overwrite, []⟩ :
      Compiler).performAll [plainNames]).finish.table = ["FADD_S", "_2OP"] := by
    decide +kernel
  obtain ⟨hdeclared, hlisting, -, hiff⟩ := names_performAll hstart [plainNames]
  rw [hnames] at hdeclared hlisting
  refine ⟨_, hstart, hdeclared, hlisting, ?_⟩
  rw [hnames]
  exact ⟨by decide, by decide⟩

def sharedNames : Compiler.Step :=
  .text "t.isa" "FADD.S rd 0000\nFADD_S rd 0001\n. rd 0010\nOPS rd 0011\n"

/-- Two records with one name, one without a name, and one with the name of the list. -/
theorem names_performAll_shared :
    ∃ c, Compiler.start Schema.loose .overwrite = .ok c ∧
      let table := (c.performAll [sharedNames]).finish.table
      table.records.map (·.mnemonic) = ["FADD.S", "FADD_S", ".", "OPS"] ∧
      (lines table).filterMap declared? = ["FADD_S", "FADD_S", "_", "OPS", "OPS"] ∧
      ¬ Usable (names table) := by
  have hstart : Compiler.start Schema.loose .overwrite =
      .ok ⟨Schema.loose, .start Schema.loose.name .overwrite, []⟩ := rfl
  have hnames : names ((⟨Schema.loose, .start Schema.loose.name .overwrite, []⟩ :
      Compiler).performAll [sharedNames]).finish.table = ["FADD_S", "FADD_S", "_", "OPS"] := by
    decide +kernel
  refine ⟨_, hstart, by decide +kernel, ?_, ?_⟩
  · rw [filterMap_lines fun r hr => (mnemonic_of_mem_performAll hstart hr).1, hnames]
    rfl
  · rw [hnames]
    exact fun h => h.not_wildcard (by decide)

end OpTable.Render.Constants
