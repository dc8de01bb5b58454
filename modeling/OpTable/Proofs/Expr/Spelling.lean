import OpTable.Proofs.Expr.Reading

/-!
# Spelled texts

The grammar of bit expressions without the conditions on its numbers: any decimal digits make a
number, and any characters of identifiers the digits of a sized literal. A spelled text can break
the rules for numbers, but no reader gets stuck in it (`passesSymbol_of_derives`).
-/

namespace OpTable.BitExpr

namespace Grammar

/-! ### The grammar of spellings -/

def IsDigits (text : List Char) : Prop := text ≠ [] ∧ ∀ c ∈ text, c.isDigit = true

/-- The part of a bit range after its first number: nothing, or a colon and the second one. -/
inductive SpelledLow : List Char → Prop where
  | none : SpelledLow []
  | low {digits : List Char} (h : IsDigits digits) : SpelledLow (':' :: digits)

/-- A bit range in brackets. -/
inductive SpelledBrackets : List Char → Prop where
  | mk {digits low : List Char} (hdigits : IsDigits digits) (hlow : SpelledLow low) :
      SpelledBrackets ('[' :: (digits ++ (low ++ [']'])))

inductive SpelledSlice : List Char → Prop where
  | mk {name : String} {brackets : List Char} (hname : IsIdentifier name)
      (h : SpelledBrackets brackets) : SpelledSlice (name.toList ++ brackets)

/-- The letter of a radix with what stands for digits. -/
inductive SpelledBody : List Char → Prop where
  | mk {letter : Char} {radix : Nat} {body : List Char} (hradix : Radix letter radix)
      (hne : body ≠ []) (hparts : ∀ c ∈ body, isIdentifierPart c = true) :
      SpelledBody (letter :: body)

inductive SpelledSized : List Char → Prop where
  | mk {width body : List Char} (hwidth : IsDigits width) (hbody : SpelledBody body) :
      SpelledSized (width ++ '\'' :: body)

inductive SpelledName : List Char → Prop where
  | mk {name : String} (hname : IsIdentifier name) : SpelledName name.toList

/-- Leaves that stand for nothing. -/
def spellings : Leaves Unit where
  sized text _ := SpelledSized text
  slice text _ := SpelledSlice text
  name text _ := SpelledName text

def Spelled (symbol : Symbol) (text : List Char) : Prop := ∃ marks, Derives spellings symbol text marks

/-! ### Expressions are spelled -/

theorem Number.isDigits {digits : List Char} {n : Nat} (h : Number digits n) : IsDigits digits :=
  ⟨h.1.ne_nil, h.1.isDigit⟩

theorem Range.spelled {text : List Char} {high low : Nat} (h : Range text high low) :
    SpelledBrackets ('[' :: (text ++ [']'])) := by
  cases h with
  | bit hn => exact .mk hn.isDigits .none
  | bits hhigh hlow =>
    rw [List.append_assoc]
    exact .mk hhigh.isDigits (.low hlow.isDigits)

theorem Sliced.spelled {text : List Char} {s : Segment} (h : Sliced text s) :
    SpelledSlice text := by
  cases h with
  | @mk range slice hrange => exact .mk slice.identifier hrange.spelled

theorem Sized.spelled {text : List Char} {s : Segment} (h : Sized text s) :
    SpelledSized text := by
  cases h with
  | mk hwidth hradix hbody hvalue =>
    refine .mk hwidth.isDigits (.mk hradix ?_ hbody)
    rintro rfl
    exact hvalue.ne_nil rfl

theorem Named.spelled {widthOf : String → Option Nat} {text : List Char} {s : Segment}
    (h : Named widthOf text s) : SpelledName text := by
  cases h with
  | @mk slice hlow hwidth => exact .mk slice.identifier

theorem Derives.spelled {widthOf : String → Option Nat} {symbol : Symbol} {text : List Char}
    {segments : List Segment} (h : Derives (leaves widthOf) symbol text segments) :
    Spelled symbol text :=
  ⟨_, h.map (f := fun _ => ()) (fun _ _ => Sized.spelled) (fun _ _ => Sliced.spelled)
    (fun _ _ => Named.spelled)⟩

theorem SpelledSized.exists_cons {text : List Char} (h : SpelledSized text) :
    ∃ c t, text = c :: t ∧ c.isDigit = true := by
  cases h with
  | mk hwidth hbody =>
    obtain ⟨c, t, rfl⟩ := List.exists_cons_of_ne_nil hwidth.1
    exact ⟨c, _, rfl, hwidth.2 c (List.mem_cons_self ..)⟩

end Grammar

namespace Read

open Grammar

/-! ### No reader gets stuck in a spelled text -/

/-- The reader has left this text over, or has refused a number. -/
inductive Passes {α : Type} (rest : List Char) : Except Stop (α × List Char) → Prop where
  | ok (a : α) : Passes rest (.ok (a, rest))
  | fault (e : Error) : Passes rest (.error (.fault e))

variable {α β : Type} {rest : List Char}

theorem Passes.bind {t : List Char} {read : Except Stop (α × List Char)}
    {next : α × List Char → Except Stop (β × List Char)} (h : Passes t read)
    (hnext : ∀ a, Passes rest (next (a, t))) : Passes rest (read >>= next) := by
  cases h with
  | ok a => exact hnext a
  | fault e => exact .fault e

theorem Passes.map {read : Except Stop (α × List Char)} {f : α → β} (h : Passes rest read) :
    Passes rest (read.map fun read => (f read.1, read.2)) := by
  cases h with
  | ok a => exact .ok (f a)
  | fault e => exact .fault e

theorem Passes.eq_of_ok {a : α} {t : List Char}
    (h : Passes rest (.ok (a, t) : Except Stop (α × List Char))) : t = rest := by
  cases h with
  | ok a => rfl

theorem Passes.not_stuck {t : List Char} :
    ¬ Passes rest (.error (.stuck t) : Except Stop (α × List Char)) := by
  intro h
  cases h

theorem passes_number {digits : List Char} (h : IsDigits digits) (hrest : Stops Char.isDigit rest) :
    Passes rest (number (digits ++ rest)) := by
  have hne : ¬ digits.isEmpty = true := fun he => h.1 (List.isEmpty_iff.mp he)
  simp only [number]
  rw [takeWhile_run h.2 hrest, dropWhile_run h.2 hrest, if_neg hne]
  split
  · split
    · exact .ok _
    · exact .fault _
  · exact .fault _

theorem Passes.expect {want : Char} {s : List Char} {next : List Char → Except Stop (α × List Char)}
    (h : Passes rest (next s)) : Passes rest (Read.expect want (want :: s) >>= next) := by
  rw [expect_eq_ok_iff.mpr rfl]
  exact h

theorem passes_lowBit (high : Nat) {low : List Char} (h : SpelledLow low) :
    Passes (']' :: rest) (lowBit high (low ++ ']' :: rest)) := by
  cases h with
  | none => exact .ok high
  | low hdigits => exact passes_number hdigits rfl

theorem passes_range {field : { field : String // IsIdentifier field }} {brackets : List Char}
    (h : SpelledBrackets brackets) : Passes rest (range field (brackets ++ rest)) := by
  cases h with
  | @mk digits low hdigits hlow =>
    have hstop : Stops Char.isDigit (low ++ ']' :: rest) := by
      cases hlow with
      | none => rfl
      | low h => rfl
    rw [List.cons_append, List.append_assoc, List.append_assoc]
    refine Passes.expect (Passes.bind (passes_number hdigits hstop) fun high => ?_)
    refine Passes.bind (passes_lowBit high hlow) fun low => ?_
    refine Passes.expect ?_
    split
    · exact .ok _
    · exact .fault _

theorem passes_literalBody {front : List Char} {width : Nat} {body : List Char}
    (h : SpelledBody body) (hrest : Stops isIdentifierPart rest) :
    Passes rest (literalBody front width (body ++ rest)) := by
  cases h with
  | mk hradix hne hparts =>
    rw [List.cons_append, literalBody, radix?_eq_some_iff.mpr hradix]
    dsimp only
    rw [dropWhile_run hparts hrest]
    split
    · exact .ok _
    · exact .fault _

theorem passes_sized {text : List Char} (h : SpelledSized text)
    (hrest : Stops isIdentifierPart rest) : Passes rest (sized (text ++ rest)) := by
  cases h with
  | @mk width body hwidth hbody =>
    rw [List.append_assoc, List.cons_append]
    have hstop : Stops Char.isDigit ('\'' :: (body ++ rest)) := rfl
    exact Passes.bind (passes_number hwidth hstop) fun number =>
      Passes.expect (passes_literalBody hbody hrest)

section Items

variable {widthOf : String → Option Nat}

theorem passes_fieldPart {field : { field : String // IsIdentifier field }} {text : List Char}
    (h : text = [] ∧ rest.head? ≠ some '[' ∨ SpelledBrackets text) :
    Passes rest (fieldPart widthOf field (text ++ rest)) := by
  rcases h with ⟨rfl, hrest⟩ | h
  · rw [List.nil_append, fieldPart, if_neg hrest]
    split
    · exact .ok _
    · exact .fault _
  · have hopen : (text ++ rest).head? = some '[' := by
      cases h
      rfl
    rw [fieldPart, if_pos hopen]
    exact passes_range h

theorem passes_itemResult {s : List Char} (hs : StartsNoGroup s) (h : Passes rest (leaf widthOf s)) :
    Passes rest (itemResult widthOf s) := by
  rw [itemResult_leaf hs]
  exact h.map (f := fun segment => [segment])

/-- A name with what belongs to it. -/
theorem passes_named {name : String} {text : List Char} (hname : IsIdentifier name)
    (h : text = [] ∧ EndsItem rest ∨ SpelledBrackets text) :
    Passes rest (itemResult widthOf (name.toList ++ text ++ rest)) := by
  have hstop : Stops isIdentifierPart (text ++ rest) := by
    rcases h with ⟨rfl, hrest⟩ | h
    · exact hrest.stops
    · cases h
      rfl
  have hread : Read.name (name.toList ++ (text ++ rest)) = .ok (⟨name, hname⟩, text ++ rest) :=
    name_eq_ok_iff.mpr ⟨hstop, rfl⟩
  rw [List.append_assoc]
  refine passes_itemResult (startsNoGroup_of_name hread) ?_
  rw [leaf_of_stops (stops_of_identifier hname _), hread]
  refine Passes.map (passes_fieldPart ?_)
  exact h.imp_left fun h => ⟨h.1, h.2.head?_ne⟩

theorem passes_sizedItem {text : List Char} (h : SpelledSized text)
    (hrest : Stops isIdentifierPart rest) : Passes rest (itemResult widthOf (text ++ rest)) := by
  have hpasses := passes_sized h hrest
  obtain ⟨c, t, rfl, hc⟩ := h.exists_cons
  have hgroup : StartsNoGroup (c :: t ++ rest) := by
    intro body he
    rw [(List.cons.inj he).1] at hc
    cases hc
  refine passes_itemResult hgroup ?_
  rw [List.cons_append, leaf_of_isDigit hc]
  exact hpasses.map

/-- What the reader of the symbol does with a spelled text. -/
def PassesSymbol (widthOf : String → Option Nat) : Symbol → List Char → Prop
  | .expr, s => ∀ rest, Passes rest (expressionResult widthOf (s ++ rest))
  | .group, s => (∃ body, s = '\x7b' :: body) ∧
      ∀ rest, Passes rest (itemResult widthOf (s ++ rest))
  | .items, s => ∀ rest, Passes rest (itemsResult widthOf (s ++ '\x7d' :: rest))
  | .item, s => ∀ rest, EndsItem rest → Passes rest (itemResult widthOf (s ++ rest))

theorem passes_expressionResult {s : List Char} (h : SpelledSlice s) :
    Passes rest (expressionResult widthOf (s ++ rest)) := by
  cases h with
  | @mk name brackets hname h =>
    have hstop : Stops isIdentifierPart (brackets ++ rest) := by
      cases h
      rfl
    have hread : Read.name (name.toList ++ (brackets ++ rest)) =
        .ok (⟨name, hname⟩, brackets ++ rest) := name_eq_ok_iff.mpr ⟨hstop, rfl⟩
    have hrange : Passes rest (range ⟨name, hname⟩ (brackets ++ rest)) := passes_range h
    rw [List.append_assoc, expressionResult_slice (startsNoGroup_of_name hread), hread]
    exact hrange.map (f := fun slice => [Segment.slice slice])

/-- By induction on the derivation; a refused number ends the reading, wherever it stands. -/
theorem passesSymbol_of_derives (widthOf : String → Option Nat) {symbol : Symbol} {s : List Char}
    {marks : List Unit} (h : Derives spellings symbol s marks) :
    PassesSymbol widthOf symbol s := by
  induction h with
  | exprGroup h ih =>
    intro rest
    obtain ⟨⟨body, rfl⟩, hpasses⟩ := ih
    exact hpasses rest
  | exprSlice h => exact fun rest => passes_expressionResult h
  | @group s marks h ih =>
    refine ⟨⟨_, rfl⟩, fun rest => ?_⟩
    rw [List.cons_append, List.append_assoc, itemResult_group]
    split
    · exact .fault _
    · exact ih rest
  | single h ih =>
    intro rest
    rw [itemsResult_eq]
    exact Passes.bind (ih _ (.brace rest)) fun segments => .ok segments
  | comma h ht ih iht =>
    intro rest
    rw [List.append_assoc, List.cons_append, itemsResult_eq]
    refine Passes.bind (ih _ (.comma _)) fun segments => ?_
    exact (iht rest).map (f := fun others => segments ++ others)
  | itemGroup h ih => exact fun rest _ => ih.2 rest
  | itemSized h => exact fun rest hrest => passes_sizedItem h hrest.stops
  | itemSlice h =>
    obtain ⟨hname, hbrackets⟩ := h
    exact fun rest hrest => passes_named hname (.inr hbrackets)
  | itemName h =>
    obtain ⟨hname⟩ := h
    intro rest hrest
    rw [← List.append_nil (String.toList _)]
    exact passes_named hname (.inl ⟨rfl, hrest⟩)

end Items

end Read

end OpTable.BitExpr
