import OpTable.Proofs.Checked.BitString
import OpTable.Proofs.Checked.Expr
import OpTable.Proofs.SpecLine

/-!
# Checked reading of expressions

Bit expressions are read with operations that can fail. The leaves compute with the widths of bare
names and of sized literals, and do not fail whatever they are given. What was read is added up
before its width is looked at, which does not fail for a text of less than 2^26 characters.
-/

namespace OpTable

/-! ### Lengths -/

namespace Segment

theorem width_le (s : Segment) : s.width ≤ 64 := by
  cases s with
  | fixed bits => exact bits.width_le
  | slice x =>
    have hhigh := x.high_lt
    have hwidth : (slice x).width = x.high - x.low + 1 := rfl
    omega

theorem totalWidth_le_length (segments : List Segment) :
    totalWidth segments ≤ 64 * segments.length := by
  induction segments with
  | nil => exact Nat.zero_le _
  | cons s rest ih =>
    have hs := s.width_le
    rw [totalWidth_cons, List.length_cons]
    omega

end Segment

namespace BitExpr

open Read Grammar

theorem ne_nil_of_leaf {widthOf : String → Option Nat} {s : List Char} {x : Segment}
    (h : (leaves widthOf).sized s x ∨ (leaves widthOf).slice s x ∨ (leaves widthOf).name s x) :
    s ≠ [] := by
  rcases h with hsized | hsliced | hnamed
  · exact (Sized.isPlainText hsized).1
  · exact (Sliced.isPlainText hsliced).1
  · exact (Named.isPlainText hnamed).1

/-- Every segment of an expression takes a character of its text. -/
theorem length_segments_le {widthOf : String → Option Nat} {s rest : List Char}
    {segments : List Segment} (h : expressionResult widthOf s = .ok (segments, rest)) :
    segments.length ≤ s.length := by
  obtain ⟨taken, rfl, hderives⟩ := derives_of_expression h
  have hle := hderives.length_le fun text x hleaf => ne_nil_of_leaf hleaf
  rw [List.length_append]
  omega

end BitExpr

namespace Checked

open BitExpr Read

/-! ### Leaves -/

def literalBits (text : String) (width radix : Nat) (body : List Char) :
    Option (Except Error BitString) :=
  match Text.Numeral.value? radix (body.filter (· != '_')) with
  | none => some (.error (.badLiteral text))
  | some value =>
    if value < 2 ^ 64 then do
      let read ← ofValue (BitVec.ofNat 64 value) width
      match read with
      | .ok bits => some (.ok bits)
      | .error reason => some (.error (.literal text reason))
    else some (.error (.badLiteral text))

def literalBody (front : List Char) (width : Nat) :
    List Char → Option (Except Stop (BitString × List Char))
  | [] => some (.error (.stuck []))
  | letter :: rest =>
    match radix? letter with
    | none => some (.error (.fault (.radix letter)))
    | some radix => do
      let body := rest.takeWhile isIdentifierPart
      let read ← literalBits (String.ofList (front ++ letter :: body)) width radix body
      match read with
      | .ok bits => some (.ok (bits, rest.dropWhile isIdentifierPart))
      | .error e => some (.error (.fault e))

def sized (s : List Char) : Option (Except Stop (BitString × List Char)) :=
  match number s with
  | .error stop => some (.error stop)
  | .ok (width, rest) =>
    match expect '\'' rest with
    | .error stop => some (.error stop)
    | .ok rest => literalBody (s.takeWhile Char.isDigit ++ ['\'']) width rest

def wholeField (widthOf : String → Option Nat) (field : { field : String // IsIdentifier field }) :
    Option (Except Error Slice) :=
  match widthOf field with
  | none => some (.error (.unknownFieldWidth field))
  | some width =>
    if 1 ≤ width ∧ width ≤ 64 then do
      let high ← sub width 1
      let whole ← (checkedSlice field high 0).toOption
      some (.ok whole)
    else some (.error (.unknownFieldWidth field))

def fieldPart (widthOf : String → Option Nat) (field : { field : String // IsIdentifier field })
    (s : List Char) : Option (Except Stop (Slice × List Char)) :=
  if s.head? = some '[' then some (range field s)
  else do
    let read ← wholeField widthOf field
    match read with
    | .ok x => some (.ok (x, s))
    | .error e => some (.error (.fault e))

def leaf (widthOf : String → Option Nat) (s : List Char) :
    Option (Except Stop (Segment × List Char)) :=
  match s with
  | [] => some (.error (.stuck []))
  | c :: _ =>
    if c.isDigit then do
      let read ← sized s
      some (read.map fun p => (.fixed p.1, p.2))
    else
      match name s with
      | .error stop => some (.error stop)
      | .ok (field, rest) => do
        let read ← fieldPart widthOf field rest
        some (read.map fun p => (.slice p.1, p.2))

theorem literalBits_eq (text : String) (width radix : Nat) (body : List Char) :
    literalBits text width radix body = some (Read.literalBits text width radix body) := by
  unfold literalBits Read.literalBits
  cases Text.Numeral.value? radix (body.filter (· != '_')) with
  | none => rfl
  | some value =>
    dsimp only
    by_cases hvalue : value < 2 ^ 64
    · rw [if_pos hvalue, if_pos hvalue, ofValue_eq]
      cases BitString.ofValue (BitVec.ofNat 64 value) width with
      | error reason => rfl
      | ok bits => rfl
    · rw [if_neg hvalue, if_neg hvalue]

theorem literalBody_eq (front : List Char) (width : Nat) (s : List Char) :
    literalBody front width s = some (Read.literalBody front width s) := by
  cases s with
  | nil => rfl
  | cons letter rest =>
    simp only [literalBody, Read.literalBody, literalBits_eq, Option.bind_eq_bind, Option.bind_some]
    cases radix? letter with
    | none => rfl
    | some radix =>
      dsimp only
      generalize Read.literalBits _ width radix _ = read
      cases read with
      | error e => rfl
      | ok bits => rfl

theorem sized_eq (s : List Char) : sized s = some (Read.sized s) := by
  unfold sized Read.sized
  cases number s with
  | error stop => rfl
  | ok read =>
    obtain ⟨width, rest⟩ := read
    simp only [bind, Except.bind]
    cases expect '\'' rest with
    | error stop => rfl
    | ok rest => exact literalBody_eq _ _ _

theorem wholeField_eq (widthOf : String → Option Nat)
    (field : { field : String // IsIdentifier field }) :
    wholeField widthOf field = some (Read.wholeField widthOf field) := by
  unfold wholeField Read.wholeField
  cases hfield : widthOf field with
  | none => rfl
  | some width =>
    by_cases h : 1 ≤ width ∧ width ≤ 64
    · have horder : ¬ width - 1 < 0 := by omega
      have hrange : ¬ 64 ≤ width - 1 := by omega
      dsimp only
      rw [if_pos h, dif_pos h]
      simp only [sub_eq h.1, checkedSlice, dif_neg horder, dif_neg hrange, Option.bind_eq_bind,
        Option.bind_some]
      rfl
    · dsimp only
      rw [if_neg h, dif_neg h]

theorem fieldPart_eq (widthOf : String → Option Nat)
    (field : { field : String // IsIdentifier field }) (s : List Char) :
    fieldPart widthOf field s = some (Read.fieldPart widthOf field s) := by
  unfold fieldPart Read.fieldPart
  by_cases hs : s.head? = some '['
  · rw [if_pos hs, if_pos hs]
  · rw [if_neg hs, if_neg hs, wholeField_eq]
    cases Read.wholeField widthOf field with
    | error e => rfl
    | ok x => rfl

theorem leaf_eq (widthOf : String → Option Nat) (s : List Char) :
    leaf widthOf s = some (Read.leaf widthOf s) := by
  cases s with
  | nil => rfl
  | cons c rest =>
    unfold leaf Read.leaf
    dsimp only
    by_cases hc : c.isDigit = true
    · rw [if_pos hc, if_pos hc, sized_eq]
      cases Read.sized (c :: rest) with
      | error stop => rfl
      | ok read => rfl
    · rw [if_neg hc, if_neg hc]
      cases name (c :: rest) with
      | error stop => rfl
      | ok read =>
        obtain ⟨field, rest⟩ := read
        simp only [fieldPart_eq, Option.bind_eq_bind, Option.bind_some]
        show _ = some (Read.fieldPart widthOf field rest >>= _)
        cases Read.fieldPart widthOf field rest with
        | error stop => rfl
        | ok read => rfl

/-! ### Groups -/

mutual

def item (widthOf : String → Option Nat) :
    List Char → Option (Except Stop (List Segment × List Char))
  | '\x7b' :: body =>
    if body.head? = some '\x7d' then some (.error (.fault .emptyGroup)) else items widthOf body
  | s => do
    let read ← leaf widthOf s
    some (read.map fun p => ([p.1], p.2))
termination_by s => 2 * s.length

/-- Takes the items of a group. It fails where an item takes nothing off the text. -/
def items (widthOf : String → Option Nat) (s : List Char) :
    Option (Except Stop (List Segment × List Char)) := do
  let read ← item widthOf s
  match read with
  | .error stop => some (.error stop)
  | .ok (segments, rest) =>
    match rest with
    | ',' :: more =>
      if more.length < s.length then do
        let others ← items widthOf more
        some (others.map fun p => (segments ++ p.1, p.2))
      else none
    | '\x7d' :: rest => some (.ok (segments, rest))
    | rest => some (.error (.stuck rest))
termination_by 2 * s.length + 1

end

theorem item_group (widthOf : String → Option Nat) (body : List Char) :
    item widthOf ('\x7b' :: body) =
      if body.head? = some '\x7d' then some (.error (.fault .emptyGroup))
      else items widthOf body := by
  rw [item]

theorem item_leaf (widthOf : String → Option Nat) {s : List Char} (hs : StartsNoGroup s) :
    item widthOf s = some (itemResult widthOf s) := by
  rw [itemResult_leaf hs, item, leaf_eq]
  · rfl
  · exact fun body hbody => hs body hbody

mutual

theorem item_eq (widthOf : String → Option Nat) (s : List Char) :
    item widthOf s = some (itemResult widthOf s) := by
  by_cases hs : StartsNoGroup s
  · exact item_leaf widthOf hs
  · obtain ⟨body, rfl⟩ := not_forall_not.mp hs
    rw [item_group, itemResult_group, items_eq widthOf body]
    exact (apply_ite some _ _ _).symm
termination_by 2 * s.length
decreasing_by
  subst s
  rw [List.length_cons]
  omega

theorem items_eq (widthOf : String → Option Nat) (s : List Char) :
    items widthOf s = some (itemsResult widthOf s) := by
  rw [items, item_eq widthOf s, itemsResult_eq]
  cases hread : itemResult widthOf s with
  | error stop => rfl
  | ok read =>
    obtain ⟨segments, rest⟩ := read
    obtain ⟨taken, hs, -⟩ := derives_of_item hread
    show _ = some (itemsAfter widthOf segments rest)
    simp only [Option.bind_eq_bind, Option.bind_some]
    split
    next more =>
      -- what is left over after the item ends the text, and the comma was taken off it
      have hlt : more.length < s.length := by
        rw [hs, List.length_append, List.length_cons]
        omega
      rw [if_pos hlt, items_eq widthOf more]
      rfl
    · rfl
    next hcomma hbrace =>
      unfold itemsAfter
      split
      next more => exact absurd rfl (hcomma more)
      next rest' => exact absurd rfl (hbrace rest')
      · rfl
termination_by 2 * s.length + 1

end

/-! ### Whole expressions -/

/-- The expression of these segments, if they make up one. -/
def bitExpr (segments : List Segment) : Option BitExpr :=
  if h : segments ≠ [] ∧ Segment.totalWidth segments ≤ 64 then some ⟨segments, h.1, h.2⟩ else none

def expression (widthOf : String → Option Nat) :
    List Char → Option (Except Stop (List Segment × List Char))
  | '\x7b' :: body => item widthOf ('\x7b' :: body)
  | s => some (name s >>= fun read => (range read.1 read.2).map fun p => ([.slice p.1], p.2))

def exprOfText (widthOf : String → Option Nat) (text : String) :
    Option (Except Error BitExpr) := do
  let read ← expression widthOf text.toList
  match read with
  | .error stop => some (.error (stop.toError text.toList))
  | .ok (segments, []) => do
    let width ← totalWidth 0 segments
    if 64 < width then some (.error (.tooWide width))
    else do
      let e ← bitExpr segments
      some (.ok e)
  | .ok (_, rest) => some (.error ((Stop.stuck rest).toError text.toList))

theorem expression_eq (widthOf : String → Option Nat) (s : List Char) :
    expression widthOf s = some (expressionResult widthOf s) := by
  by_cases hs : StartsNoGroup s
  · rw [expressionResult_slice hs, expression]
    exact fun body hbody => hs body hbody
  · obtain ⟨body, rfl⟩ := not_forall_not.mp hs
    rw [expressionResult_group]
    exact item_eq widthOf _

theorem exprOfText_eq (widthOf : String → Option Nat) {text : String}
    (h : text.toList.length < 2 ^ 26) :
    exprOfText widthOf text = some (BitExpr.ofText widthOf text) := by
  have hresult : expressionResult widthOf text.toList =
    (Read.expression widthOf text.toList).map Items.result := rfl
  unfold exprOfText BitExpr.ofText
  simp only [expression_eq, hresult, Option.bind_eq_bind, Option.bind_some]
  cases hread : Read.expression widthOf text.toList with
  | error stop => rfl
  | ok read =>
    rw [hread] at hresult
    have hlength := length_segments_le hresult
    have hwidth := Segment.totalWidth_le_length read.segments
    obtain ⟨segments, hne, rest, hshorter⟩ := read
    dsimp only at hlength hwidth
    simp only [Except.map, Items.result]
    cases rest with
    | cons c rest => rfl
    | nil =>
      have htotal : totalWidth 0 segments = some (Segment.totalWidth segments) := by
        rw [totalWidth_eq (by omega), Nat.zero_add]
      simp only [htotal, Option.bind_some]
      by_cases hle : Segment.totalWidth segments ≤ 64
      · rw [if_neg (Nat.not_lt_of_le hle), dif_pos hle, bitExpr, dif_pos ⟨hne, hle⟩]
        rfl
      · rw [if_pos (Nat.lt_of_not_le hle), dif_neg hle]

end Checked

end OpTable
