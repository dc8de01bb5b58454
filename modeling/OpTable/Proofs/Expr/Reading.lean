import OpTable.Proofs.Expr.Leaves

/-!
# Reading what the grammar derives

The readers of groups carry the proof that they stop. Without it, what they give satisfies the
equations of `itemResult` and `itemsResult`, and an expression is read from a text exactly when the
grammar derives the text (`ofText_eq_ok_iff`).
-/

namespace OpTable.BitExpr

namespace Read

open Grammar

/-! ### Results -/

/-- The segments and the text left over. -/
def Items.result {s : List Char} (read : Items s) : List Segment × List Char :=
  (read.segments, read.rest)

def itemResult (widthOf : String → Option Nat) (s : List Char) :
    Except Stop (List Segment × List Char) := (item widthOf s).map Items.result

def itemsResult (widthOf : String → Option Nat) (s : List Char) :
    Except Stop (List Segment × List Char) := (items widthOf s).map Items.result

def expressionResult (widthOf : String → Option Nat) (s : List Char) :
    Except Stop (List Segment × List Char) := (expression widthOf s).map Items.result

/-- The text does not start with a group. -/
def StartsNoGroup (s : List Char) : Prop := ∀ t, s ≠ '\x7b' :: t

theorem StartsNoGroup.congr {s t : List Char} (hs : StartsNoGroup s) (ht : t.head? = s.head?) :
    StartsNoGroup t := by
  rintro more rfl
  obtain ⟨others, he⟩ := List.head?_eq_some_iff.mp ht.symm
  exact hs others he

section Equations

variable {widthOf : String → Option Nat}

theorem itemResult_group (body : List Char) :
    itemResult widthOf ('\x7b' :: body) =
      if body.head? = some '\x7d' then .error (.fault .emptyGroup)
      else itemsResult widthOf body := by
  rw [itemResult, item, itemsResult]
  by_cases hbody : body.head? = some '\x7d'
  · rw [if_pos hbody, if_pos hbody]
    rfl
  · rw [if_neg hbody, if_neg hbody]
    cases items widthOf body with
    | error stop => rfl
    | ok read => rfl

theorem itemResult_leaf {s : List Char} (hs : StartsNoGroup s) :
    itemResult widthOf s = (leaf widthOf s).map fun read => ([read.1], read.2) := by
  rw [itemResult, item.eq_def]
  split
  next body => exact absurd rfl (hs body)
  · split
    next hleaf => exact (congrArg (Except.map fun read => ([read.1], read.2)) hleaf).symm
    next hleaf => exact (congrArg (Except.map fun read => ([read.1], read.2)) hleaf).symm

/-- What is done with an item and the text after it. -/
def itemsAfter (widthOf : String → Option Nat) (segments : List Segment) :
    List Char → Except Stop (List Segment × List Char)
  | ',' :: more => (itemsResult widthOf more).map fun read => (segments ++ read.1, read.2)
  | '\x7d' :: rest => .ok (segments, rest)
  | rest => .error (.stuck rest)

theorem itemsResult_eq (s : List Char) :
    itemsResult widthOf s =
      itemResult widthOf s >>= fun read => itemsAfter widthOf read.1 read.2 := by
  rw [itemsResult, items, itemResult]
  cases item widthOf s with
  | error stop => rfl
  | ok read =>
    obtain ⟨segments, hne, rest, hlt⟩ := read
    show _ = itemsAfter widthOf segments rest
    dsimp only
    split
    next more =>
      rw [itemsAfter, itemsResult]
      cases items widthOf more with
      | error stop => rfl
      | ok others => rfl
    · rfl
    next hcomma hbrace =>
      unfold itemsAfter
      split
      next more => exact absurd rfl (hcomma more)
      next rest' => exact absurd rfl (hbrace rest')
      · rfl

theorem expressionResult_group (body : List Char) :
    expressionResult widthOf ('\x7b' :: body) = itemResult widthOf ('\x7b' :: body) := rfl

theorem expressionResult_slice {s : List Char} (hs : StartsNoGroup s) :
    expressionResult widthOf s =
      name s >>= fun read => (range read.1 read.2).map fun read => ([.slice read.1], read.2) := by
  rw [expressionResult, expression.eq_def]
  split
  next body => exact absurd rfl (hs body)
  · split
    next hname => exact (congrArg (· >>= _) hname).symm
    next field rest hname =>
      refine Eq.trans ?_ (congrArg (· >>= _) hname).symm
      split
      next hrange =>
        exact (congrArg (Except.map fun read => ([Segment.slice read.1], read.2)) hrange).symm
      next hrange =>
        exact (congrArg (Except.map fun read => ([Segment.slice read.1], read.2)) hrange).symm

end Equations

/-! ### What is read is derived -/

section Soundness

variable {widthOf : String → Option Nat} {s rest : List Char} {segments : List Segment}

theorem derives_of_leaf {x : Segment} (h : leaf widthOf s = .ok (x, rest)) :
    ∃ taken, s = taken ++ rest ∧ Derives (leaves widthOf) .item taken [x] := by
  obtain ⟨taken, hs, hsliced | ⟨-, hsized | ⟨hnamed, -⟩⟩⟩ := leaf_eq_ok_iff.mp h
  · exact ⟨taken, hs, .itemSlice hsliced⟩
  · exact ⟨taken, hs, .itemSized hsized⟩
  · exact ⟨taken, hs, .itemName hnamed⟩

theorem itemsResult_of_group {body : List Char}
    (h : itemResult widthOf ('\x7b' :: body) = .ok (segments, rest)) :
    itemsResult widthOf body = .ok (segments, rest) := by
  rw [itemResult_group] at h
  split at h
  · cases h
  · exact h

theorem derives_group {body inner : List Char} (hbody : body = inner ++ '\x7d' :: rest)
    (h : Derives (leaves widthOf) .items inner segments) :
    ∃ taken, '\x7b' :: body = taken ++ rest ∧ Derives (leaves widthOf) .group taken segments := by
  refine ⟨'\x7b' :: (inner ++ ['\x7d']), ?_, .group h⟩
  rw [hbody, List.cons_append, List.append_assoc]
  rfl

mutual

theorem derives_of_item {s rest : List Char} {segments : List Segment}
    (h : itemResult widthOf s = .ok (segments, rest)) :
    ∃ taken, s = taken ++ rest ∧ Derives (leaves widthOf) .item taken segments := by
  by_cases hs : StartsNoGroup s
  · rw [itemResult_leaf hs] at h
    obtain ⟨⟨x, t⟩, hleaf, hread⟩ := Except.map_eq_ok_iff.mp h
    cases hread
    exact derives_of_leaf hleaf
  · obtain ⟨body, rfl⟩ := not_forall_not.mp hs
    obtain ⟨inner, hbody, hinner⟩ := derives_of_items (itemsResult_of_group h)
    obtain ⟨taken, htaken, hgroup⟩ := derives_group hbody hinner
    exact ⟨taken, htaken, .itemGroup hgroup⟩
termination_by 2 * s.length
decreasing_by
  subst s
  rw [List.length_cons]
  omega

theorem derives_of_items {s rest : List Char} {segments : List Segment}
    (h : itemsResult widthOf s = .ok (segments, rest)) :
    ∃ inner, s = inner ++ '\x7d' :: rest ∧ Derives (leaves widthOf) .items inner segments := by
  rw [itemsResult_eq] at h
  obtain ⟨⟨first, t⟩, hitem, h⟩ := Except.bind_eq_ok_iff.mp h
  obtain ⟨taken, hs, hfirst⟩ := derives_of_item hitem
  dsimp only at h
  unfold itemsAfter at h
  split at h
  next more =>
    obtain ⟨⟨others, t⟩, hmore, hread⟩ := Except.map_eq_ok_iff.mp h
    cases hread
    obtain ⟨inner, hinner, hothers⟩ := derives_of_items hmore
    refine ⟨taken ++ ',' :: inner, ?_, .comma hfirst hothers⟩
    rw [hs, hinner, List.append_assoc, List.cons_append]
  next rest' =>
    cases h
    exact ⟨taken, hs, .single hfirst⟩
  · cases h
termination_by 2 * s.length + 1
decreasing_by
  · omega
  · rw [hs, List.length_append, List.length_cons]
    omega

end

theorem derives_of_group {body : List Char}
    (h : itemResult widthOf ('\x7b' :: body) = .ok (segments, rest)) :
    ∃ taken, '\x7b' :: body = taken ++ rest ∧ Derives (leaves widthOf) .group taken segments := by
  obtain ⟨inner, hbody, hinner⟩ := derives_of_items (itemsResult_of_group h)
  exact derives_group hbody hinner

theorem derives_of_expression (h : expressionResult widthOf s = .ok (segments, rest)) :
    ∃ taken, s = taken ++ rest ∧ Derives (leaves widthOf) .expr taken segments := by
  by_cases hs : StartsNoGroup s
  · rw [expressionResult_slice hs] at h
    obtain ⟨⟨field, t⟩, hname, h⟩ := Except.bind_eq_ok_iff.mp h
    obtain ⟨⟨slice, t'⟩, hrange, hread⟩ := Except.map_eq_ok_iff.mp h
    cases hread
    obtain ⟨-, hs⟩ := name_eq_ok_iff.mp hname
    obtain ⟨hfield, body, hbody, ht⟩ := range_eq_ok_iff.mp hrange
    refine ⟨slice.field.toList ++ '[' :: (body ++ [']']), ?_, .exprSlice (.mk hbody)⟩
    dsimp only at ht
    rw [hs, ht, hfield, List.append_assoc, List.cons_append, List.append_assoc]
    rfl
  · obtain ⟨body, rfl⟩ := not_forall_not.mp hs
    rw [expressionResult_group] at h
    obtain ⟨taken, htaken, hgroup⟩ := derives_of_group h
    exact ⟨taken, htaken, .exprGroup hgroup⟩

end Soundness

/-! ### What is derived is read -/

section Completeness

variable {widthOf : String → Option Nat} {s rest : List Char}

theorem startsNoGroup_of_leaf {read : Segment × List Char} (h : leaf widthOf s = .ok read) :
    StartsNoGroup s := by
  rintro t rfl
  have hbrace : leaf widthOf ('\x7b' :: t) = .error (.stuck ('\x7b' :: t)) := rfl
  rw [hbrace] at h
  cases h

theorem startsNoGroup_of_name {read : { field : String // IsIdentifier field } × List Char}
    (h : name s = .ok read) : StartsNoGroup s := by
  rintro t rfl
  have hbrace : name ('\x7b' :: t) = .error (.stuck ('\x7b' :: t)) := rfl
  rw [hbrace] at h
  cases h

theorem head?_of_itemsResult {read : List Segment × List Char}
    (h : itemsResult widthOf s = .ok read) : s.head? ≠ some '\x7d' := by
  intro hs
  obtain ⟨t, rfl⟩ := List.head?_eq_some_iff.mp hs
  have hbrace : leaf widthOf ('\x7d' :: t) = .error (.stuck ('\x7d' :: t)) := rfl
  rw [itemsResult_eq, itemResult_leaf (fun _ ht => by cases ht), hbrace] at h
  cases h

theorem itemResult_of_leaf {x : Segment} (h : leaf widthOf s = .ok (x, rest)) :
    itemResult widthOf s = .ok ([x], rest) := by
  rw [itemResult_leaf (startsNoGroup_of_leaf h), h]
  rfl

/-- What may stand after an item. -/
inductive EndsItem : List Char → Prop where
  | comma (t : List Char) : EndsItem (',' :: t)
  | brace (t : List Char) : EndsItem ('\x7d' :: t)

theorem EndsItem.stops (h : EndsItem rest) : Stops isIdentifierPart rest := by
  cases h <;> rfl

theorem EndsItem.head?_ne (h : EndsItem rest) : rest.head? ≠ some '[' := by
  cases h <;> exact fun hc => by cases hc

theorem EndsItem.congr {s t : List Char} (h : EndsItem s) (ht : t.head? = s.head?) : EndsItem t := by
  cases h with
  | comma more =>
    obtain ⟨others, rfl⟩ := List.head?_eq_some_iff.mp ht
    exact .comma others
  | brace rest =>
    obtain ⟨others, rfl⟩ := List.head?_eq_some_iff.mp ht
    exact .brace others

/-- The reader of the symbol takes the text and nothing after it. -/
def Takes (widthOf : String → Option Nat) (segments : List Segment) :
    Symbol → List Char → Prop
  | .expr, s => ∀ rest, expressionResult widthOf (s ++ rest) = .ok (segments, rest)
  | .group, s => (∃ body, s = '\x7b' :: body) ∧
      ∀ rest, itemResult widthOf (s ++ rest) = .ok (segments, rest)
  | .items, s => ∀ rest, itemsResult widthOf (s ++ '\x7d' :: rest) = .ok (segments, rest)
  | .item, s => ∀ rest, EndsItem rest → itemResult widthOf (s ++ rest) = .ok (segments, rest)

theorem expressionResult_of_sliced {x : Segment} (h : Sliced s x) :
    expressionResult widthOf (s ++ rest) = .ok ([x], rest) := by
  cases h with
  | @mk body slice hbody =>
    have hstop : Stops isIdentifierPart ('[' :: (body ++ ']' :: rest)) := rfl
    have hname : name (slice.field.toList ++ '[' :: (body ++ ']' :: rest)) =
        .ok (⟨slice.field, slice.identifier⟩, '[' :: (body ++ ']' :: rest)) :=
      name_eq_ok_iff.mpr ⟨hstop, rfl⟩
    rw [List.append_assoc, List.cons_append, List.append_assoc]
    show expressionResult widthOf (slice.field.toList ++ '[' :: (body ++ ']' :: rest)) = _
    rw [expressionResult_slice (startsNoGroup_of_name hname)]
    refine Except.bind_eq_ok_iff.mpr ⟨_, hname, ?_⟩
    exact Except.map_eq_ok_iff.mpr ⟨_, range_eq_ok_iff.mpr ⟨rfl, body, hbody, rfl⟩, rfl⟩

/-- By induction on the derivation; an item is taken whole because of what may stand after it. -/
theorem takes_of_derives {symbol : Symbol} {segments : List Segment}
    (h : Derives (leaves widthOf) symbol s segments) : Takes widthOf segments symbol s := by
  induction h with
  | exprGroup h ih =>
    intro rest
    obtain ⟨⟨body, rfl⟩, htakes⟩ := ih
    exact htakes rest
  | exprSlice h => exact fun rest => expressionResult_of_sliced h
  | @group s segments h ih =>
    refine ⟨⟨_, rfl⟩, fun rest => ?_⟩
    have hitems : itemsResult widthOf (s ++ (['\x7d'] ++ rest)) = .ok (segments, rest) := ih rest
    rw [List.cons_append, List.append_assoc, itemResult_group,
      if_neg (head?_of_itemsResult hitems)]
    exact hitems
  | single h ih =>
    intro rest
    rw [itemsResult_eq, ih _ (.brace rest)]
    rfl
  | comma h ht ih iht =>
    intro rest
    rw [List.append_assoc, List.cons_append, itemsResult_eq, ih _ (.comma _)]
    exact Except.map_eq_ok_iff.mpr ⟨_, iht rest, rfl⟩
  | itemGroup h ih => exact fun rest _ => ih.2 rest
  | itemSized h =>
    intro rest hrest
    exact itemResult_of_leaf (leaf_eq_ok_iff.mpr ⟨_, rfl, .inr ⟨hrest.stops, .inl h⟩⟩)
  | itemSlice h =>
    intro rest hrest
    exact itemResult_of_leaf (leaf_eq_ok_iff.mpr ⟨_, rfl, .inl h⟩)
  | itemName h =>
    intro rest hrest
    exact itemResult_of_leaf
      (leaf_eq_ok_iff.mpr ⟨_, rfl, .inr ⟨hrest.stops, .inr ⟨h, hrest.head?_ne⟩⟩⟩)

end Completeness

end Read

open Read Grammar

/-- A text is read as an expression exactly when the grammar derives it with these segments. -/
theorem ofText_eq_ok_iff {widthOf : String → Option Nat} {text : String} {e : BitExpr} :
    ofText widthOf text = .ok e ↔ Derives (leaves widthOf) .expr text.toList e.segments := by
  constructor
  · intro h
    unfold ofText at h
    dsimp only at h
    split at h
    · cases h
    next read hread =>
    have hresult : expressionResult widthOf text.toList = .ok (read.segments, read.rest) :=
      Except.map_eq_ok_iff.mpr ⟨read, hread, rfl⟩
    obtain ⟨taken, htext, hderives⟩ := derives_of_expression hresult
    split at h
    next hrest =>
      rw [hrest, List.append_nil] at htext
      rw [← htext] at hderives
      split at h
      · cases h
        exact hderives
      · cases h
    · cases h
  · intro h
    have htakes := takes_of_derives h []
    rw [List.append_nil] at htakes
    obtain ⟨read, hread, hresult⟩ := Except.map_eq_ok_iff.mp htakes
    obtain ⟨segments, hne, rest, hlt⟩ := read
    cases hresult
    unfold ofText
    dsimp only
    rw [hread]
    exact dif_pos e.totalWidth_le

end OpTable.BitExpr
