import OpTable.Expr.Parser
import OpTable.Proofs.Except
import OpTable.Proofs.Expr.Grammar

/-!
# The readers of leaves

Each reader takes off the front what its part of the grammar derives. A number or a name is taken
as far as it goes, so the text after it must not go on with the same characters (`Stops`).
-/

namespace OpTable.BitExpr.Read

open Grammar Text.Numeral

/-! ### Runs of characters -/

/-- The text does not go on with a character of the class. -/
def Stops (p : Char → Bool) : List Char → Prop
  | [] => True
  | c :: _ => p c = false

theorem stops_dropWhile (p : Char → Bool) (s : List Char) : Stops p (s.dropWhile p) := by
  induction s with
  | nil => trivial
  | cons c rest ih =>
    by_cases hc : p c = true
    · rw [List.dropWhile_cons_of_pos hc]
      exact ih
    · rw [List.dropWhile_cons_of_neg hc]
      exact Bool.eq_false_iff.mpr hc

theorem Stops.congr {p : Char → Bool} {s t : List Char} (h : Stops p s) (ht : t.head? = s.head?) :
    Stops p t := by
  cases s with
  | nil =>
    rw [List.head?_eq_none_iff.mp ht]
    trivial
  | cons c rest =>
    obtain ⟨more, rfl⟩ := List.head?_eq_some_iff.mp ht
    exact h

theorem stops_of_isEmpty {p : Char → Bool} {s : List Char}
    (h : (s.takeWhile p).isEmpty = true) : Stops p s := by
  cases s with
  | nil => trivial
  | cons c rest =>
    refine Bool.eq_false_iff.mpr fun hc => ?_
    rw [List.takeWhile_cons_of_pos hc] at h
    cases h

section Runs

variable {p : Char → Bool} {front rest : List Char}

theorem takeWhile_run (hfront : ∀ c ∈ front, p c = true) (hrest : Stops p rest) :
    (front ++ rest).takeWhile p = front := by
  rw [List.takeWhile_append_of_pos hfront]
  cases rest with
  | nil => exact List.append_nil _
  | cons c rest =>
    rw [List.takeWhile_cons_of_neg (Bool.eq_false_iff.mp hrest), List.append_nil]

theorem dropWhile_run (hfront : ∀ c ∈ front, p c = true) (hrest : Stops p rest) :
    (front ++ rest).dropWhile p = rest := by
  rw [List.dropWhile_append_of_pos hfront]
  cases rest with
  | nil => rfl
  | cons c rest => exact List.dropWhile_cons_of_neg (Bool.eq_false_iff.mp hrest)

end Runs

theorem takeWhile_of_stops {p : Char → Bool} {s : List Char} (h : Stops p s) :
    s.takeWhile p = [] := by
  rw [← List.nil_append s]
  exact takeWhile_run (fun c hc => absurd hc List.not_mem_nil) h

/-! ### Numbers and names -/

theorem expect_eq_ok_iff {want : Char} {s rest : List Char} :
    expect want s = .ok rest ↔ s = want :: rest := by
  constructor
  · intro h
    cases s with
    | nil => cases h
    | cons c t =>
      rw [expect] at h
      split at h
      next hc =>
        cases h
        rw [hc]
      · cases h
  · rintro rfl
    rw [expect, if_pos rfl]

theorem expect_of_head?_ne {want : Char} {s : List Char} (h : s.head? ≠ some want) :
    expect want s = .error (.stuck s) := by
  cases s with
  | nil => rfl
  | cons c rest =>
    rw [expect, if_neg]
    rintro rfl
    exact h rfl

theorem number_of_stops {s : List Char} (h : Stops Char.isDigit s) :
    number s = .error (.stuck s) := by
  simp only [number]
  rw [takeWhile_of_stops h]
  rfl

theorem number_eq_ok_iff {s rest : List Char} {n : Nat} :
    number s = .ok (n, rest) ↔
      ∃ digits, Number digits n ∧ Stops Char.isDigit rest ∧ s = digits ++ rest := by
  constructor
  · intro h
    simp only [number] at h
    split at h
    · cases h
    · split at h
      next m hm =>
        split at h
        next hlt =>
          cases h
          refine ⟨s.takeWhile Char.isDigit, ⟨value?_eq_some_iff.mp hm, hlt⟩,
            stops_dropWhile _ s, ?_⟩
          exact List.takeWhile_append_dropWhile.symm
        · cases h
      · cases h
  · intro h
    obtain ⟨digits, hn, hrest, rfl⟩ := h
    have hnil : ¬ digits.isEmpty = true := fun he => hn.1.ne_nil (List.isEmpty_iff.mp he)
    simp only [number]
    rw [takeWhile_run hn.1.isDigit hrest, dropWhile_run hn.1.isDigit hrest, if_neg hnil,
      value?_eq_some_iff.mpr hn.1]
    exact if_pos hn.2

theorem name_of_stops {s : List Char} (h : Stops isIdentifierStart s) :
    name s = .error (.stuck s) := by
  cases s with
  | nil => rfl
  | cons c rest => exact dif_neg (Bool.eq_false_iff.mp h)

theorem name_eq_ok_iff {s rest : List Char} {field : { field : String // IsIdentifier field }} :
    name s = .ok (field, rest) ↔
      Stops isIdentifierPart rest ∧ s = field.val.toList ++ rest := by
  constructor
  · intro h
    cases s with
    | nil => cases h
    | cons c t =>
      rw [name] at h
      split at h
      · cases h
        refine ⟨stops_dropWhile _ t, ?_⟩
        rw [String.toList_ofList, List.cons_append, List.takeWhile_append_dropWhile]
      · cases h
  · intro h
    obtain ⟨hrest, rfl⟩ := h
    obtain ⟨c, t, hfield, hc, ht⟩ := exists_cons_of_identifier field.property
    rw [hfield, List.cons_append, name, dif_pos hc]
    congr 2
    · apply Subtype.ext
      show String.ofList (c :: (t ++ rest).takeWhile isIdentifierPart) = field.val
      rw [takeWhile_run ht hrest, ← hfield, String.ofList_toList]
    · exact dropWhile_run ht hrest

/-! ### Slices -/

theorem lowBit_eq_ok_iff {high low : Nat} {s rest : List Char} :
    lowBit high s = .ok (low, rest) ↔
      (∃ digits, Number digits low ∧ Stops Char.isDigit rest ∧ s = ':' :: (digits ++ rest)) ∨
        (∀ t, s ≠ ':' :: t) ∧ low = high ∧ s = rest := by
  constructor
  · intro h
    unfold lowBit at h
    split at h
    next t =>
      obtain ⟨digits, hn, hrest, rfl⟩ := number_eq_ok_iff.mp h
      exact .inl ⟨digits, hn, hrest, rfl⟩
    next hs =>
      cases h
      exact .inr ⟨fun t ht => hs t ht, rfl, rfl⟩
  · intro h
    rcases h with ⟨digits, hn, hrest, rfl⟩ | ⟨hs, rfl, rfl⟩
    · exact number_eq_ok_iff.mpr ⟨digits, hn, hrest, rfl⟩
    · unfold lowBit
      split
      next t => exact absurd rfl (hs t)
      · rfl

/-- Both numbers of a bit range are taken when a bracket follows. -/
theorem number_lowBit_iff {high low : Nat} {s rest : List Char} :
    (∃ t, number s = .ok (high, t) ∧ lowBit high t = .ok (low, ']' :: rest)) ↔
      ∃ body, Range body high low ∧ s = body ++ ']' :: rest := by
  constructor
  · intro h
    obtain ⟨t, hhigh, hlow⟩ := h
    obtain ⟨digits, hn, -, rfl⟩ := number_eq_ok_iff.mp hhigh
    rcases lowBit_eq_ok_iff.mp hlow with ⟨lowDigits, hm, -, rfl⟩ | ⟨-, rfl, rfl⟩
    · refine ⟨digits ++ ':' :: lowDigits, .bits hn hm, ?_⟩
      rw [List.append_assoc, List.cons_append]
    · exact ⟨digits, .bit hn, rfl⟩
  · intro h
    obtain ⟨body, hbody, rfl⟩ := h
    cases hbody with
    | bit hn =>
      refine ⟨']' :: rest, number_eq_ok_iff.mpr ⟨body, hn, rfl, rfl⟩, ?_⟩
      exact lowBit_eq_ok_iff.mpr (.inr ⟨fun t ht => (by cases ht), rfl, rfl⟩)
    | @bits highDigits lowDigits _ _ hhigh hlow =>
      refine ⟨':' :: (lowDigits ++ ']' :: rest), ?_, ?_⟩
      · refine number_eq_ok_iff.mpr ⟨highDigits, hhigh, rfl, ?_⟩
        rw [List.append_assoc, List.cons_append]
      · exact lowBit_eq_ok_iff.mpr (.inl ⟨lowDigits, hlow, rfl, rfl⟩)

theorem checkedSlice_eq_ok_iff {field : { field : String // IsIdentifier field }} {high low : Nat}
    {x : Slice} :
    checkedSlice field high low = .ok x ↔ x.field = field.val ∧ x.high = high ∧ x.low = low := by
  constructor
  · intro h
    unfold checkedSlice at h
    split at h
    · cases h
    · split at h
      · cases h
      · cases h
        exact ⟨rfl, rfl, rfl⟩
  · intro h
    obtain ⟨hfield, rfl, rfl⟩ := h
    have horder := x.low_le_high
    have hrange := x.high_lt
    rw [checkedSlice, dif_neg (by omega), dif_neg (by omega)]
    congr 1
    cases x
    cases hfield
    rfl

theorem range_eq_ok_iff {field : { field : String // IsIdentifier field }} {s rest : List Char}
    {x : Slice} :
    range field s = .ok (x, rest) ↔
      x.field = field.val ∧ ∃ body, Range body x.high x.low ∧ s = '[' :: (body ++ ']' :: rest) := by
  constructor
  · intro h
    unfold range at h
    obtain ⟨s₁, h₁, h⟩ := Except.bind_eq_ok_iff.mp h
    obtain ⟨⟨high, s₂⟩, h₂, h⟩ := Except.bind_eq_ok_iff.mp h
    obtain ⟨⟨low, s₃⟩, h₃, h⟩ := Except.bind_eq_ok_iff.mp h
    obtain ⟨s₄, h₄, h⟩ := Except.bind_eq_ok_iff.mp h
    have hopen := expect_eq_ok_iff.mp h₁
    have hclose := expect_eq_ok_iff.mp h₄
    rw [hclose] at h₃
    obtain ⟨body, hbody, hs⟩ := number_lowBit_iff.mp ⟨s₂, h₂, h₃⟩
    split at h
    next slice hslice =>
      cases h
      obtain ⟨hfield, rfl, rfl⟩ := checkedSlice_eq_ok_iff.mp hslice
      refine ⟨hfield, body, hbody, ?_⟩
      rw [hopen, hs]
    · cases h
  · intro h
    obtain ⟨hfield, body, hbody, rfl⟩ := h
    obtain ⟨t, hhigh, hlow⟩ := number_lowBit_iff.mpr ⟨body, hbody, rfl⟩
    unfold range
    refine Except.bind_eq_ok_iff.mpr ⟨_, expect_eq_ok_iff.mpr rfl, ?_⟩
    refine Except.bind_eq_ok_iff.mpr ⟨_, hhigh, ?_⟩
    refine Except.bind_eq_ok_iff.mpr ⟨_, hlow, ?_⟩
    refine Except.bind_eq_ok_iff.mpr ⟨_, expect_eq_ok_iff.mpr rfl, ?_⟩
    rw [checkedSlice_eq_ok_iff.mpr ⟨hfield, rfl, rfl⟩]

/-! ### Sized literals -/

theorem radix?_eq_some_iff {letter : Char} {radix : Nat} :
    radix? letter = some radix ↔ Radix letter radix := by
  constructor
  · intro h
    unfold radix? at h
    split at h
    next hl =>
      cases h
      rcases hl with rfl | rfl
      · exact .lowerBinary
      · exact .upperBinary
    · split at h
      next hl =>
        cases h
        rcases hl with rfl | rfl
        · exact .lowerHex
        · exact .upperHex
      · split at h
        next hl =>
          cases h
          rcases hl with rfl | rfl
          · exact .lowerDecimal
          · exact .upperDecimal
        · cases h
  · intro h
    cases h <;> rfl

theorem ofValue_eq_ok_iff {value : Word} {width : Nat} {bits : BitString} :
    BitString.ofValue value width = .ok bits ↔ bits.width = width ∧ bits.value = value := by
  constructor
  · intro h
    unfold BitString.ofValue at h
    split at h
    · cases h
    · split at h
      · cases h
      · split at h
        · cases h
          exact ⟨rfl, rfl⟩
        · cases h
  · intro h
    obtain ⟨rfl, rfl⟩ := h
    have hpos := bits.width_pos
    have hle := bits.width_le
    rw [BitString.ofValue, dif_neg (by omega), dif_neg (by omega), dif_pos bits.value_lt]

theorem literalBits_eq_ok_iff {text : String} {width radix : Nat} {body : List Char}
    {bits : BitString} :
    literalBits text width radix body = .ok bits ↔
      bits.width = width ∧ Spells radix (body.filter (· != '_')) bits.value.toNat := by
  constructor
  · intro h
    unfold literalBits at h
    split at h
    · cases h
    next value hvalue =>
    split at h
    next hlt =>
      split at h
      next found hfound =>
        cases h
        obtain ⟨hwidth, hbits⟩ := ofValue_eq_ok_iff.mp hfound
        refine ⟨hwidth, ?_⟩
        rw [hbits, BitVec.toNat_ofNat, Nat.mod_eq_of_lt hlt]
        exact value?_eq_some_iff.mp hvalue
      · cases h
    · cases h
  · intro h
    obtain ⟨hwidth, hvalue⟩ := h
    have hlt : bits.value.toNat < 2 ^ 64 := bits.value.isLt
    have hbits : bits.value = BitVec.ofNat 64 bits.value.toNat := BitVec.eq_of_toNat_eq (by
      rw [BitVec.toNat_ofNat, Nat.mod_eq_of_lt hlt])
    rw [literalBits, value?_eq_some_iff.mpr hvalue]
    dsimp only
    rw [if_pos hlt, ofValue_eq_ok_iff.mpr ⟨hwidth, hbits⟩]

theorem sized_eq_ok_iff {s rest : List Char} {bits : BitString} :
    sized s = .ok (bits, rest) ↔
      ∃ taken, Sized taken (.fixed bits) ∧ Stops isIdentifierPart rest ∧ s = taken ++ rest := by
  constructor
  · intro h
    unfold sized at h
    obtain ⟨⟨width, s₁⟩, h₁, h⟩ := Except.bind_eq_ok_iff.mp h
    obtain ⟨s₂, h₂, h⟩ := Except.bind_eq_ok_iff.mp h
    obtain ⟨digits, hwidth, -, hs⟩ := number_eq_ok_iff.mp h₁
    have hmark := expect_eq_ok_iff.mp h₂
    cases s₂ with
    | nil => cases h
    | cons letter t =>
      rw [literalBody] at h
      split at h
      · cases h
      next radix hradix =>
      dsimp only at h
      split at h
      next found hfound =>
        cases h
        obtain ⟨rfl, hvalue⟩ := literalBits_eq_ok_iff.mp hfound
        refine ⟨digits ++ '\'' :: letter :: t.takeWhile isIdentifierPart, ?_,
          stops_dropWhile _ t, ?_⟩
        · exact .mk hwidth (radix?_eq_some_iff.mp hradix)
            (fun c hc => List.all_eq_true.mp List.all_takeWhile c hc) hvalue
        · rw [hs, hmark, List.append_assoc, List.cons_append, List.cons_append,
            List.takeWhile_append_dropWhile]
      · cases h
  · intro h
    obtain ⟨taken, hsized, hrest, rfl⟩ := h
    cases hsized with
    | @mk digits letter radix body _ hwidth hradix hbody hvalue =>
      unfold sized
      rw [List.append_assoc, List.cons_append, List.cons_append]
      have hstop : Stops Char.isDigit ('\'' :: letter :: (body ++ rest)) := rfl
      refine Except.bind_eq_ok_iff.mpr ⟨_, number_eq_ok_iff.mpr ⟨digits, hwidth, hstop, rfl⟩, ?_⟩
      refine Except.bind_eq_ok_iff.mpr ⟨_, expect_eq_ok_iff.mpr rfl, ?_⟩
      rw [literalBody, radix?_eq_some_iff.mpr hradix]
      dsimp only
      rw [takeWhile_run hbody hrest, dropWhile_run hbody hrest,
        literalBits_eq_ok_iff.mpr ⟨rfl, hvalue⟩]

/-! ### Items that are no groups -/

theorem wholeField_eq_ok_iff {widthOf : String → Option Nat}
    {field : { field : String // IsIdentifier field }} {x : Slice} :
    wholeField widthOf field = .ok x ↔
      x.field = field.val ∧ x.low = 0 ∧ widthOf x.field = some (x.high + 1) := by
  constructor
  · intro h
    unfold wholeField at h
    split at h
    · cases h
    next width hwidth =>
    split at h
    next hle =>
      cases h
      refine ⟨rfl, rfl, ?_⟩
      show widthOf field.val = some (width - 1 + 1)
      rw [hwidth, Nat.sub_add_cancel hle.1]
    · cases h
  · intro h
    obtain ⟨hfield, hlow, hwidth⟩ := h
    have hhigh := x.high_lt
    rw [hfield] at hwidth
    rw [wholeField, hwidth]
    dsimp only
    rw [dif_pos (by omega)]
    congr 1
    cases x
    cases hfield
    cases hlow
    rfl

theorem fieldPart_eq_ok_iff {widthOf : String → Option Nat}
    {field : { field : String // IsIdentifier field }} {s rest : List Char} {x : Slice} :
    fieldPart widthOf field s = .ok (x, rest) ↔
      x.field = field.val ∧
        ((∃ body, Range body x.high x.low ∧ s = '[' :: (body ++ ']' :: rest)) ∨
          s.head? ≠ some '[' ∧ s = rest ∧ Named widthOf x.field.toList (.slice x)) := by
  have hnamed : ∀ text, Named widthOf text (.slice x) ↔
      text = x.field.toList ∧ x.low = 0 ∧ widthOf x.field = some (x.high + 1) := by
    intro text
    constructor
    · intro h
      obtain ⟨hlow, hwidth⟩ := h
      exact ⟨rfl, hlow, hwidth⟩
    · intro h
      obtain ⟨rfl, hlow, hwidth⟩ := h
      exact .mk hlow hwidth
  rw [hnamed]
  unfold fieldPart
  by_cases hbracket : s.head? = some '['
  · rw [if_pos hbracket, range_eq_ok_iff]
    refine and_congr_right fun _ => ⟨.inl, ?_⟩
    rintro (h | ⟨hne, -⟩)
    · exact h
    · exact absurd hbracket hne
  · rw [if_neg hbracket]
    constructor
    · intro h
      split at h
      next found hfound =>
        cases h
        obtain ⟨hfield, hwhole⟩ := wholeField_eq_ok_iff.mp hfound
        exact ⟨hfield, .inr ⟨hbracket, rfl, rfl, hwhole⟩⟩
      · cases h
    · intro h
      rcases h with ⟨hfield, ⟨body, -, rfl⟩ | ⟨-, rfl, -, hwhole⟩⟩
      · exact absurd rfl hbracket
      · rw [wholeField_eq_ok_iff.mpr ⟨hfield, hwhole⟩]

theorem leaf_of_stops {widthOf : String → Option Nat} {s : List Char}
    (h : Stops Char.isDigit s) :
    leaf widthOf s = name s >>= fun read =>
      (fieldPart widthOf read.1 read.2).map fun read => (.slice read.1, read.2) := by
  cases s with
  | nil => rfl
  | cons c t =>
    have hc : ¬ c.isDigit = true := Bool.eq_false_iff.mp h
    unfold leaf
    dsimp only
    rw [if_neg hc]
    rfl

theorem leaf_of_isDigit {widthOf : String → Option Nat} {c : Char} {t : List Char}
    (h : c.isDigit = true) :
    leaf widthOf (c :: t) = (sized (c :: t)).map fun read => (.fixed read.1, read.2) := by
  unfold leaf
  dsimp only
  rw [if_pos h]
  rfl

theorem stops_of_identifier {name : String} (h : IsIdentifier name) (s : List Char) :
    Stops Char.isDigit (name.toList ++ s) := by
  obtain ⟨c, t, hname, hc, -⟩ := exists_cons_of_identifier h
  rw [hname]
  exact Bool.eq_false_iff.mpr (not_isDigit_of_isIdentifierStart hc)

theorem leaf_of_fieldPart {widthOf : String → Option Nat} {x : Slice} {s rest : List Char}
    (hs : Stops isIdentifierPart s)
    (h : fieldPart widthOf ⟨x.field, x.identifier⟩ s = .ok (x, rest)) :
    leaf widthOf (x.field.toList ++ s) = .ok (.slice x, rest) := by
  have hname : name (x.field.toList ++ s) = .ok (⟨x.field, x.identifier⟩, s) :=
    name_eq_ok_iff.mpr ⟨hs, rfl⟩
  rw [leaf_of_stops (stops_of_identifier x.identifier s)]
  exact Except.bind_eq_ok_iff.mpr ⟨_, hname, Except.map_eq_ok_iff.mpr ⟨_, h, rfl⟩⟩

theorem leaf_of_sized {widthOf : String → Option Nat} {bits : BitString} {s rest : List Char}
    (h : sized s = .ok (bits, rest)) : leaf widthOf s = .ok (.fixed bits, rest) := by
  obtain ⟨taken, hsized, -, rfl⟩ := sized_eq_ok_iff.mp h
  cases hsized with
  | mk hwidth hradix hbody hvalue =>
    obtain ⟨c, t, rfl, hc⟩ := hwidth.exists_cons
    exact (leaf_of_isDigit hc).trans (Except.map_eq_ok_iff.mpr ⟨_, h, rfl⟩)

/-- What is taken as a leaf is one, up to where its last run of characters ends. -/
theorem leaf_eq_ok_iff {widthOf : String → Option Nat} {s rest : List Char} {x : Segment} :
    leaf widthOf s = .ok (x, rest) ↔
      ∃ taken, s = taken ++ rest ∧
        (Sliced taken x ∨ Stops isIdentifierPart rest ∧
          (Sized taken x ∨ Named widthOf taken x ∧ rest.head? ≠ some '[')) := by
  constructor
  · intro h
    by_cases hs : Stops Char.isDigit s
    · rw [leaf_of_stops hs] at h
      obtain ⟨⟨field, s₁⟩, h₁, h⟩ := Except.bind_eq_ok_iff.mp h
      obtain ⟨⟨slice, s₂⟩, h₂, hread⟩ := Except.map_eq_ok_iff.mp h
      cases hread
      obtain ⟨hrest, rfl⟩ := name_eq_ok_iff.mp h₁
      obtain ⟨hfield, ⟨body, hbody, rfl⟩ | ⟨hne, rfl, hnamed⟩⟩ := fieldPart_eq_ok_iff.mp h₂
      · refine ⟨slice.field.toList ++ '[' :: (body ++ [']']), ?_, .inl (.mk hbody)⟩
        rw [hfield, List.append_assoc, List.cons_append, List.append_assoc]
        rfl
      · refine ⟨slice.field.toList, ?_, .inr ⟨hrest, .inr ⟨hnamed, hne⟩⟩⟩
        rw [hfield]
    · cases s with
      | nil => exact absurd trivial hs
      | cons c t =>
        rw [leaf_of_isDigit (eq_true_of_ne_false hs)] at h
        obtain ⟨⟨bits, s₁⟩, h₁, hread⟩ := Except.map_eq_ok_iff.mp h
        cases hread
        obtain ⟨taken, hsized, hrest, hs⟩ := sized_eq_ok_iff.mp h₁
        exact ⟨taken, hs, .inr ⟨hrest, .inl hsized⟩⟩
  · intro h
    rcases h with ⟨taken, rfl, hsliced | ⟨hrest, hsized | ⟨hnamed, hne⟩⟩⟩
    · cases hsliced with
      | @mk body slice hbody =>
        rw [List.append_assoc, List.cons_append, List.append_assoc]
        refine leaf_of_fieldPart rfl ?_
        exact fieldPart_eq_ok_iff.mpr ⟨rfl, .inl ⟨body, hbody, rfl⟩⟩
    · cases hsized with
      | mk hwidth hradix hbody hvalue =>
        exact leaf_of_sized (sized_eq_ok_iff.mpr
          ⟨_, .mk hwidth hradix hbody hvalue, hrest, rfl⟩)
    · cases hnamed with
      | mk hlow hwidth =>
        refine leaf_of_fieldPart hrest ?_
        exact fieldPart_eq_ok_iff.mpr ⟨rfl, .inr ⟨hne, rfl, .mk hlow hwidth⟩⟩

end OpTable.BitExpr.Read
