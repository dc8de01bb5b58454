import OpTable.Proofs.Expr.Spelling

/-!
# Where readers get stuck

A reader that is stuck has looked at no character after the next one, and what it has taken can be
completed to a spelled text (`Halts`). No reader is stuck in a spelled text, so the offset of a
syntax error is that of the first character that cannot stand there.
-/

namespace OpTable.BitExpr

/-- The error is about characters, not about the numbers that they spell. -/
def Error.isSyntax : Error → Bool
  | .unexpectedEnd => true
  | .unexpectedChar _ _ => true
  | _ => false

namespace Read

open Grammar

/-! ### Reasons to stop -/

/-- Why a reader of the language may stop on the text. -/
inductive Halts {β : Type} (read : List Char → Except Stop β) (language : List Char → Prop)
    (s : List Char) : Stop → Prop where
  | stuck {front rest : List Char} (hs : s = front ++ rest)
      (hstuck : ∀ t, t.head? = rest.head? → read (front ++ t) = .error (.stuck t))
      (hmore : ∃ more, language (front ++ more)) : Halts read language s (.stuck rest)
  | fault {e : Error} (he : e.isSyntax = false) : Halts read language s (.fault e)

/-- A reader that takes texts of the language off the front, and looks at no character after the
next one. -/
def Keeps {α : Type} (read : List Char → Except Stop (α × List Char))
    (language : List Char → Prop) : Prop :=
  ∀ {s a rest}, read s = .ok (a, rest) →
    ∃ taken, s = taken ++ rest ∧ language taken ∧
      ∀ t, t.head? = rest.head? → read (taken ++ t) = .ok (a, t)

section Halts

variable {α β : Type} {read : List Char → Except Stop β} {language : List Char → Prop}
  {s : List Char} {stop : Stop}

theorem Halts.here (hstuck : ∀ t, t.head? = s.head? → read t = .error (.stuck t))
    (hmore : ∃ more, language more) : Halts read language s (.stuck s) :=
  .stuck (List.nil_append s).symm hstuck hmore

theorem head?_append_congr {front s t : List Char} (h : t.head? = s.head?) :
    (front ++ t).head? = (front ++ s).head? := by
  rw [List.head?_append, List.head?_append, h]

theorem Halts.first {first : List Char → Except Stop α} {part : List Char → Prop}
    (h : Halts first part s stop)
    (hread : ∀ t, t.head? = s.head? → ∀ stop, first t = .error stop → read t = .error stop)
    (hpart : ∀ w, part w → ∃ more, language (w ++ more)) : Halts read language s stop := by
  cases h with
  | @stuck front rest hs hstuck hmore =>
    obtain ⟨more, hmore⟩ := hmore
    obtain ⟨others, hothers⟩ := hpart _ hmore
    refine .stuck hs (fun t ht => hread _ ?_ _ (hstuck t ht)) ⟨more ++ others, ?_⟩
    · rw [hs]
      exact head?_append_congr ht
    · rwa [← List.append_assoc]
  | fault he => exact .fault he

/-- A reader that has taken something stops where the reader that it goes on with stops. -/
theorem Halts.after {next : List Char → Except Stop β} {part : List Char → Prop}
    {rest : List Char} (h : Halts next part rest stop) (taken : List Char)
    (hread : ∀ t, t.head? = rest.head? → read (taken ++ t) = next t)
    (hpart : ∀ w, part w → language (taken ++ w)) : Halts read language (taken ++ rest) stop := by
  cases h with
  | @stuck front rest' hs hstuck hmore =>
    obtain ⟨more, hmore⟩ := hmore
    have hs' : taken ++ rest = taken ++ front ++ rest' := by rw [hs, List.append_assoc]
    refine .stuck hs' (fun t ht => ?_) ⟨more, ?_⟩
    -- where `front` is empty, the character that stops the second reader ended the first one
    · rw [List.append_assoc, hread, hstuck t ht]
      rw [hs]
      exact head?_append_congr ht
    · rw [List.append_assoc]
      exact hpart _ hmore
  | fault he => exact .fault he

theorem Halts.map {part : List Char → Prop} {f : β → α} (h : Halts read part s stop)
    (hpart : ∀ w, part w → language w) : Halts (fun t => (read t).map f) language s stop := by
  refine h.first (fun t _ stop ht => Except.map_eq_error_iff.mpr ht) fun w hw => ⟨[], ?_⟩
  rw [List.append_nil]
  exact hpart w hw

/-- A sequence of two readers stops in the first or, after what that has taken, in the second. -/
theorem Halts.bind {first : List Char → Except Stop (α × List Char)} {part : List Char → Prop}
    {next : α × List Char → Except Stop β} (hkeeps : Keeps first part)
    (hfirst : ∀ {stop}, first s = .error stop → Halts first part s stop)
    (hpart : ∀ w, part w → ∃ more, language (w ++ more))
    (hnext : ∀ {taken a rest stop}, s = taken ++ rest → part taken →
      next (a, rest) = .error stop →
      Halts (fun t => next (a, t)) (fun w => language (taken ++ w)) rest stop)
    (h : first s >>= next = .error stop) :
    Halts (fun t => first t >>= next) language s stop := by
  cases hread : first s with
  | error stop' =>
    rw [hread] at h
    cases h
    refine (hfirst hread).first (fun t _ stop ht => ?_) hpart
    rw [ht]
    rfl
  | ok read =>
    obtain ⟨a, rest⟩ := read
    rw [hread] at h
    obtain ⟨taken, hs, htaken, hkeep⟩ := hkeeps hread
    have hhalts := hnext hs htaken h
    rw [hs]
    refine hhalts.after taken (fun t ht => ?_) fun w hw => hw
    rw [hkeep t ht]
    rfl

end Halts

/-! ### Numbers and names -/

theorem halts_expect {β : Type} {want : Char} {next : List Char → Except Stop β}
    {language : List Char → Prop} {s : List Char} {stop : Stop}
    (hnext : ∀ rest, next rest = .error stop →
      Halts next (fun w => language (want :: w)) rest stop)
    (hmore : ∃ more, language (want :: more)) (h : expect want s >>= next = .error stop) :
    Halts (fun t => expect want t >>= next) language s stop := by
  by_cases hs : s.head? = some want
  · obtain ⟨rest, rfl⟩ := List.head?_eq_some_iff.mp hs
    have hread : ∀ t, expect want (want :: t) >>= next = next t := by
      intro t
      rw [expect_eq_ok_iff.mpr rfl]
      rfl
    rw [hread] at h
    exact (hnext rest h).after [want] (fun t _ => hread t) fun w hw => hw
  · have hstuck : ∀ t, t.head? = s.head? → expect want t >>= next = .error (.stuck t) := by
      intro t ht
      rw [expect_of_head?_ne (ht ▸ hs)]
      rfl
    rw [hstuck s rfl] at h
    cases h
    obtain ⟨more, hmore⟩ := hmore
    exact .here hstuck ⟨_, hmore⟩

theorem isDigits_zero : IsDigits ['0'] := ⟨List.cons_ne_nil _ _, by simp⟩

theorem halts_number {s : List Char} {stop : Stop} (h : number s = .error stop) :
    Halts number IsDigits s stop := by
  by_cases hs : Stops Char.isDigit s
  · rw [number_of_stops hs] at h
    cases h
    exact .here (fun t ht => number_of_stops (hs.congr ht)) ⟨_, isDigits_zero⟩
  · have hne : ¬ (s.takeWhile Char.isDigit).isEmpty = true := fun he => hs (stops_of_isEmpty he)
    simp only [number] at h
    rw [if_neg hne] at h
    split at h
    · split at h
      · cases h
      · cases h
        exact .fault rfl
    · cases h
      exact .fault rfl

theorem keeps_number : Keeps number IsDigits := by
  intro s n rest h
  obtain ⟨digits, hn, hrest, rfl⟩ := number_eq_ok_iff.mp h
  refine ⟨digits, rfl, hn.isDigits, fun t ht => ?_⟩
  exact number_eq_ok_iff.mpr ⟨digits, hn, hrest.congr ht, rfl⟩

theorem halts_name {s : List Char} {stop : Stop} (h : name s = .error stop) :
    Halts name SpelledName s stop := by
  have hs : Stops isIdentifierStart s := by
    cases s with
    | nil => trivial
    | cons c rest =>
      refine Bool.eq_false_iff.mpr fun hc => ?_
      rw [name, dif_pos hc] at h
      cases h
  rw [name_of_stops hs] at h
  cases h
  exact .here (fun t ht => name_of_stops (hs.congr ht)) ⟨"x".toList, .mk rfl⟩

theorem keeps_name : Keeps name SpelledName := by
  intro s field rest h
  obtain ⟨hrest, rfl⟩ := name_eq_ok_iff.mp h
  refine ⟨field.val.toList, rfl, .mk field.property, fun t ht => ?_⟩
  exact name_eq_ok_iff.mpr ⟨hrest.congr ht, rfl⟩

/-! ### Bit ranges -/

theorem halts_lowBit {high : Nat} {s : List Char} {stop : Stop}
    (h : lowBit high s = .error stop) : Halts (lowBit high) SpelledLow s stop := by
  unfold lowBit at h
  split at h
  next rest =>
    refine (halts_number h).after [':'] (fun t _ => rfl) ?_
    exact fun digits hdigits => .low hdigits
  · cases h

theorem keeps_lowBit {high : Nat} : Keeps (lowBit high) SpelledLow := by
  intro s low rest h
  rcases lowBit_eq_ok_iff.mp h with ⟨digits, hn, hrest, rfl⟩ | ⟨hs, rfl, rfl⟩
  · refine ⟨':' :: digits, rfl, .low hn.isDigits, fun t ht => ?_⟩
    exact lowBit_eq_ok_iff.mpr (.inl ⟨digits, hn, hrest.congr ht, rfl⟩)
  · refine ⟨[], rfl, .none, fun t ht => lowBit_eq_ok_iff.mpr (.inr ⟨?_, rfl, rfl⟩)⟩
    rintro more rfl
    obtain ⟨others, he⟩ := List.head?_eq_some_iff.mp ht.symm
    exact hs others he

/-- Takes the end of a bit range after its numbers. -/
def close (field : { field : String // IsIdentifier field }) (high : Nat)
    (read : Nat × List Char) : Except Stop (Slice × List Char) :=
  expect ']' read.2 >>= fun s =>
    match checkedSlice field high read.1 with
    | .ok slice => .ok (slice, s)
    | .error e => .error (.fault e)

/-- Takes a bit range after its opening bracket. -/
def rangeBody (field : { field : String // IsIdentifier field }) (s : List Char) :
    Except Stop (Slice × List Char) :=
  number s >>= fun read => lowBit read.1 read.2 >>= close field read.1

section Range

variable {field : { field : String // IsIdentifier field }} {s : List Char} {stop : Stop}

theorem checkedSlice_fault {high low : Nat} {e : Error} (h : checkedSlice field high low = .error e) :
    e.isSyntax = false := by
  unfold checkedSlice at h
  split at h
  · cases h
    rfl
  · split at h
    · cases h
      rfl
    · cases h

theorem halts_close {high low : Nat} (h : close field high (low, s) = .error stop) :
    Halts (fun t => close field high (low, t)) (fun w => w = [']']) s stop := by
  refine halts_expect (fun rest hrest => ?_) ?_ h
  · split at hrest
    · cases hrest
    next e he =>
      cases hrest
      exact .fault (checkedSlice_fault he)
  · exact ⟨[], rfl⟩

theorem halts_rangeBody (h : rangeBody field s = .error stop) :
    Halts (rangeBody field) (fun w => SpelledBrackets ('[' :: w)) s stop := by
  refine Halts.bind keeps_number halts_number ?_ ?_ h
  · exact fun digits hdigits => ⟨[']'], .mk hdigits .none⟩
  · intro digits high rest stop _ hdigits h
    refine Halts.bind keeps_lowBit halts_lowBit ?_ ?_ h
    · exact fun low hlow => ⟨[']'], .mk hdigits hlow⟩
    · intro low n rest stop _ hlow h
      refine (halts_close h).after [] (fun _ _ => rfl) fun w hw => ?_
      rw [hw]
      exact .mk hdigits hlow

theorem halts_range (h : range field s = .error stop) :
    Halts (range field) SpelledBrackets s stop :=
  halts_expect (fun _ => halts_rangeBody) ⟨_, .mk isDigits_zero .none⟩ h

end Range

/-! ### Leaves -/

section Leaf

variable {widthOf : String → Option Nat} {s : List Char} {stop : Stop}

theorem literalBits_fault {text : String} {width radix : Nat} {body : List Char} {e : Error}
    (h : literalBits text width radix body = .error e) : e.isSyntax = false := by
  unfold literalBits at h
  split at h
  · cases h
    rfl
  · split at h
    · split at h
      · cases h
      · cases h
        rfl
    · cases h
      rfl

theorem spelledBody_zero : SpelledBody ['b', '0'] :=
  .mk .lowerBinary (List.cons_ne_nil _ _) (List.forall_mem_singleton.mpr rfl)

theorem halts_literalBody {front : List Char} {width : Nat}
    (h : literalBody front width s = .error stop) :
    Halts (literalBody front width) SpelledBody s stop := by
  cases s with
  | nil =>
    cases h
    refine .here (fun t ht => ?_) ⟨_, spelledBody_zero⟩
    rw [List.head?_eq_none_iff.mp ht]
    rfl
  | cons letter rest =>
    rw [literalBody] at h
    split at h
    · cases h
      exact .fault rfl
    · dsimp only at h
      split at h
      · cases h
      next e he =>
        cases h
        exact .fault (literalBits_fault he)

theorem sized_of_number {s : List Char} {stop : Stop} (h : number s = .error stop) :
    sized s = .error stop := by
  rw [sized, h]
  rfl

theorem sized_append {digits t : List Char} {width : Nat} (h : Number digits width)
    (ht : Stops Char.isDigit t) :
    sized (digits ++ t) = expect '\'' t >>= literalBody (digits ++ ['\'']) width := by
  rw [sized, number_eq_ok_iff.mpr ⟨digits, h, ht, rfl⟩, takeWhile_run h.1.isDigit ht]
  rfl

theorem halts_sized (h : sized s = .error stop) : Halts sized SpelledSized s stop := by
  cases hnumber : number s with
  | error stop' =>
    rw [sized_of_number hnumber] at h
    cases h
    refine (halts_number hnumber).first (fun t _ stop => sized_of_number) fun digits hdigits => ?_
    exact ⟨'\'' :: ['b', '0'], .mk hdigits spelledBody_zero⟩
  | ok read =>
    obtain ⟨width, rest⟩ := read
    obtain ⟨digits, hwidth, hrest, rfl⟩ := number_eq_ok_iff.mp hnumber
    rw [sized_append hwidth hrest] at h
    have hhalts : Halts (fun t => expect '\'' t >>= literalBody (digits ++ ['\'']) width)
        (fun w => SpelledSized (digits ++ w)) rest stop := by
      refine halts_expect (fun t ht => ?_) ⟨_, .mk hwidth.isDigits spelledBody_zero⟩ h
      exact (halts_literalBody ht).after [] (fun _ _ => rfl) fun w hw => .mk hwidth.isDigits hw
    exact hhalts.after digits (fun t ht => sized_append hwidth (hrest.congr ht)) fun w hw => hw

theorem wholeField_fault {field : { field : String // IsIdentifier field }} {e : Error}
    (h : wholeField widthOf field = .error e) : e.isSyntax = false := by
  unfold wholeField at h
  split at h
  · cases h
    rfl
  · split at h
    · cases h
    · cases h
      rfl

theorem halts_fieldPart {field : { field : String // IsIdentifier field }}
    (h : fieldPart widthOf field s = .error stop) :
    Halts (fieldPart widthOf field) SpelledBrackets s stop := by
  by_cases hs : s.head? = some '['
  · rw [fieldPart, if_pos hs] at h
    refine (halts_range h).after [] (fun t ht => ?_) fun w hw => hw
    exact if_pos (ht.trans hs)
  · rw [fieldPart, if_neg hs] at h
    split at h
    · cases h
    next e he =>
      cases h
      exact .fault (wholeField_fault he)

theorem halts_leaf (h : leaf widthOf s = .error stop) :
    Halts (leaf widthOf) (Spelled .item) s stop := by
  by_cases hs : Stops Char.isDigit s
  · rw [leaf_of_stops hs] at h
    refine (Halts.bind keeps_name halts_name ?_ ?_ h).after [] ?_ fun w hw => hw
    · intro w hname
      exact ⟨[], [()], .itemName (by rwa [List.append_nil])⟩
    · intro taken field rest stop _ hname h
      obtain ⟨hname⟩ := hname
      exact (halts_fieldPart (Except.map_eq_error_iff.mp h)).map fun w hw =>
        ⟨[()], .itemSlice (.mk hname hw)⟩
    · exact fun t ht => leaf_of_stops (hs.congr ht)
  · cases s with
    | nil => exact absurd trivial hs
    | cons c rest =>
      have hc : c.isDigit = true := eq_true_of_ne_false hs
      have hread : ∀ t, t.head? = some c →
          leaf widthOf t = (sized t).map fun read => (.fixed read.1, read.2) := by
        intro t ht
        obtain ⟨more, rfl⟩ := List.head?_eq_some_iff.mp ht
        exact leaf_of_isDigit hc
      rw [hread _ rfl] at h
      have hhalts := halts_sized (Except.map_eq_error_iff.mp h)
      exact (hhalts.map fun w hw => ⟨[()], .itemSized hw⟩).after [] hread fun w hw => hw

end Leaf

/-! ### Groups -/

section Groups

variable {widthOf : String → Option Nat}

theorem keeps_leaf : Keeps (leaf widthOf) (Spelled .item) := by
  intro s x rest h
  obtain ⟨taken, hs, hleaf⟩ := leaf_eq_ok_iff.mp h
  refine ⟨taken, hs, ?_, fun t ht => leaf_eq_ok_iff.mpr ⟨taken, rfl, ?_⟩⟩
  · rcases hleaf with hsliced | ⟨-, hsized | ⟨hnamed, -⟩⟩
    · exact ⟨[()], .itemSlice hsliced.spelled⟩
    · exact ⟨[()], .itemSized hsized.spelled⟩
    · exact ⟨[()], .itemName hnamed.spelled⟩
  · rcases hleaf with hsliced | ⟨hrest, hsized | ⟨hnamed, hne⟩⟩
    · exact .inl hsliced
    · exact .inr ⟨hrest.congr ht, .inl hsized⟩
    · exact .inr ⟨hrest.congr ht, .inr ⟨hnamed, ht ▸ hne⟩⟩

theorem keeps_item : Keeps (itemResult widthOf) (Spelled .item) := by
  intro s segments rest h
  by_cases hs : StartsNoGroup s
  · rw [itemResult_leaf hs] at h
    obtain ⟨⟨x, rest⟩, hleaf, hread⟩ := Except.map_eq_ok_iff.mp h
    cases hread
    obtain ⟨taken, htaken, hspelled, hkeep⟩ := keeps_leaf hleaf
    exact ⟨taken, htaken, hspelled, fun t ht => itemResult_of_leaf (hkeep t ht)⟩
  · obtain ⟨body, rfl⟩ := not_forall_not.mp hs
    obtain ⟨taken, htaken, hgroup⟩ := derives_of_group h
    exact ⟨taken, htaken, (Derives.itemGroup hgroup).spelled,
      fun t _ => (takes_of_derives hgroup).2 t⟩

/-- The text is the inside of a group with its closing brace. -/
def ClosesGroup (text : List Char) : Prop := Spelled .group ('\x7b' :: text)

theorem closesGroup_item {text : List Char} (h : Spelled .item text) :
    ClosesGroup (text ++ ['\x7d']) := by
  obtain ⟨marks, h⟩ := h
  exact ⟨marks, .group (.single h)⟩

theorem closesGroup_comma {text more : List Char} (h : Spelled .item text)
    (hmore : ClosesGroup more) : ClosesGroup (text ++ ',' :: more) := by
  obtain ⟨marks, h⟩ := h
  obtain ⟨others, hmore⟩ := hmore
  generalize hgroup : '\x7b' :: more = group at hmore
  cases hmore with
  | @group inner others hinner =>
    cases hgroup
    have hclose : text ++ ',' :: (inner ++ ['\x7d']) = (text ++ ',' :: inner) ++ ['\x7d'] := by
      rw [List.append_assoc, List.cons_append]
    rw [ClosesGroup, hclose]
    exact ⟨marks ++ others, .group (.comma h hinner)⟩

theorem itemsAfter_of_not_ends {segments : List Segment} {s : List Char} (h : ¬ EndsItem s) :
    itemsAfter widthOf segments s = .error (.stuck s) := by
  unfold itemsAfter
  split
  next more => exact absurd (.comma more) h
  next rest => exact absurd (.brace rest) h
  · rfl

theorem halts_itemsAfter {segments : List Segment} {taken s : List Char} {stop : Stop}
    (htaken : Spelled .item taken)
    (hmore : ∀ more, s = ',' :: more → ∀ stop, itemsResult widthOf more = .error stop →
      Halts (itemsResult widthOf) ClosesGroup more stop)
    (h : itemsAfter widthOf segments s = .error stop) :
    Halts (itemsAfter widthOf segments) (fun w => ClosesGroup (taken ++ w)) s stop := by
  by_cases hs : EndsItem s
  · cases hs with
    | comma more =>
      have hhalts := hmore more rfl stop (Except.map_eq_error_iff.mp h)
      refine (hhalts.map fun w hw => ?_).after [','] (fun t _ => rfl) fun w hw => hw
      exact closesGroup_comma htaken hw
    | brace rest => cases h
  · rw [itemsAfter_of_not_ends hs] at h
    cases h
    refine .here (fun t ht => itemsAfter_of_not_ends fun hends => ?_) ⟨_, closesGroup_item htaken⟩
    exact hs (hends.congr ht.symm)

theorem halts_group {body : List Char} {stop : Stop}
    (hitems : itemsResult widthOf body = .error stop →
      Halts (itemsResult widthOf) ClosesGroup body stop)
    (h : itemResult widthOf ('\x7b' :: body) = .error stop) :
    Halts (itemResult widthOf) (Spelled .group) ('\x7b' :: body) stop := by
  rw [itemResult_group] at h
  split at h
  · cases h
    exact .fault rfl
  next hbody =>
    refine (hitems h).after ['\x7b'] (fun t ht => ?_) fun w hw => hw
    exact (itemResult_group t).trans (if_neg (ht ▸ hbody))

-- On the text that is read, as for the readers; what follows a comma is shorter than the items.
mutual

theorem halts_item {s : List Char} {stop : Stop} (h : itemResult widthOf s = .error stop) :
    Halts (itemResult widthOf) (Spelled .item) s stop := by
  by_cases hs : StartsNoGroup s
  · have hread : ∀ t, t.head? = s.head? →
        itemResult widthOf t = (leaf widthOf t).map fun read => ([read.1], read.2) :=
      fun t ht => itemResult_leaf (hs.congr ht)
    rw [hread s rfl] at h
    have hhalts := halts_leaf (Except.map_eq_error_iff.mp h)
    exact (hhalts.map fun w hw => hw).after [] hread fun w hw => hw
  · obtain ⟨body, rfl⟩ := not_forall_not.mp hs
    refine (halts_group halts_items h).after [] (fun t _ => rfl) fun w hw => ?_
    obtain ⟨marks, hw⟩ := hw
    exact ⟨marks, .itemGroup hw⟩
termination_by 2 * s.length
decreasing_by
  subst s
  rw [List.length_cons]
  omega

theorem halts_items {s : List Char} {stop : Stop} (h : itemsResult widthOf s = .error stop) :
    Halts (itemsResult widthOf) ClosesGroup s stop := by
  rw [itemsResult_eq] at h
  refine (Halts.bind keeps_item halts_item ?_ ?_ h).after [] (fun t _ => itemsResult_eq t)
    fun w hw => hw
  · exact fun w hw => ⟨['\x7d'], closesGroup_item hw⟩
  · intro taken segments rest stop hs htaken h
    exact halts_itemsAfter htaken (fun more hrest stop hmore => halts_items hmore) h
termination_by 2 * s.length + 1
decreasing_by
  · omega
  · rw [hs, hrest, List.length_append, List.length_cons]
    omega

end

theorem halts_expression {s : List Char} {stop : Stop}
    (h : expressionResult widthOf s = .error stop) :
    Halts (expressionResult widthOf) (Spelled .expr) s stop := by
  by_cases hs : StartsNoGroup s
  · have hread : ∀ t, t.head? = s.head? → expressionResult widthOf t = name t >>= fun read =>
        (range read.1 read.2).map fun read => ([.slice read.1], read.2) :=
      fun t ht => expressionResult_slice (hs.congr ht)
    rw [hread s rfl] at h
    refine (Halts.bind keeps_name halts_name ?_ ?_ h).after [] hread fun w hw => hw
    · intro w hname
      obtain ⟨hname⟩ := hname
      exact ⟨['[', '0', ']'], [()], .exprSlice (.mk hname (.mk isDigits_zero .none))⟩
    · intro taken field rest stop _ hname h
      obtain ⟨hname⟩ := hname
      exact (halts_range (Except.map_eq_error_iff.mp h)).map fun w hw =>
        ⟨[()], .exprSlice (.mk hname hw)⟩
  · obtain ⟨body, rfl⟩ := not_forall_not.mp hs
    rw [expressionResult_group] at h
    have hread : ∀ t, t.head? = some '\x7b' → expressionResult widthOf t = itemResult widthOf t := by
      intro t ht
      obtain ⟨more, rfl⟩ := List.head?_eq_some_iff.mp ht
      exact expressionResult_group more
    refine (halts_group halts_items h).after [] hread fun w hw => ?_
    obtain ⟨marks, hw⟩ := hw
    exact ⟨marks, .exprGroup hw⟩

end Groups

end Read

open Read Grammar

/-! ### Errors of texts -/

theorem not_spelled_of_stuck {widthOf : String → Option Nat} {front t : List Char}
    (h : expressionResult widthOf (front ++ t) = .error (.stuck t)) :
    ¬ Spelled .expr (front ++ t) := by
  rintro ⟨marks, hspelled⟩
  have hpasses := passesSymbol_of_derives widthOf hspelled []
  rw [List.append_nil, h] at hpasses
  exact hpasses.not_stuck

theorem exists_stuck_of_isSyntax {widthOf : String → Option Nat} {text : String} {e : Error}
    (he : e.isSyntax = true) (h : ofText widthOf text = .error e) :
    ∃ front rest, text.toList = front ++ rest ∧ e = (Stop.stuck rest).toError text.toList ∧
      (∃ more, Spelled .expr (front ++ more)) ∧
      ∀ t, t.head? = rest.head? → ¬ Spelled .expr (front ++ t) := by
  unfold ofText at h
  dsimp only at h
  split at h
  next stop hstop =>
    cases h
    have hresult : expressionResult widthOf text.toList = .error stop :=
      Except.map_eq_error_iff.mpr hstop
    cases halts_expression hresult with
    -- a spelled text with the same next character would be stuck at it, too
    | @stuck front rest hs hstuck hmore =>
      exact ⟨front, rest, hs, rfl, hmore, fun t ht => not_spelled_of_stuck (hstuck t ht)⟩
    | fault hfault =>
      rw [Stop.toError, hfault] at he
      cases he
  next read hread =>
    have hresult : expressionResult widthOf text.toList = .ok (read.segments, read.rest) :=
      Except.map_eq_ok_iff.mpr ⟨read, hread, rfl⟩
    obtain ⟨taken, htext, hderives⟩ := derives_of_expression hresult
    split at h
    · split at h
      · cases h
      · cases h
        cases he
    -- the text goes on after a whole expression, and a spelled text ends there
    next hrest =>
      cases h
      refine ⟨taken, read.rest, htext, rfl, ⟨[], ?_⟩, fun t ht => ?_⟩
      · rw [List.append_nil]
        exact hderives.spelled
      · rintro ⟨marks, hspelled⟩
        have hpasses := passesSymbol_of_derives widthOf hspelled []
        rw [List.append_nil, takes_of_derives hderives t] at hpasses
        rw [hpasses.eq_of_ok] at ht
        exact hrest (List.head?_eq_none_iff.mp ht.symm)

/-- A spelled expression starts with the text. -/
def Opens (text : List Char) : Prop := ∃ whole, Spelled .expr whole ∧ text <+: whole

theorem opens_iff {text : List Char} : Opens text ↔ ∃ more, Spelled .expr (text ++ more) := by
  constructor
  · rintro ⟨whole, hwhole, more, rfl⟩
    exact ⟨more, hwhole⟩
  · rintro ⟨more, hmore⟩
    exact ⟨_, hmore, List.prefix_append _ _⟩

theorem toError_stuck_append (front : List Char) (c : Char) (rest : List Char) :
    (Stop.stuck (c :: rest)).toError (front ++ c :: rest) =
      .unexpectedChar c (Text.Utf8.byteLength front) := by
  have hlength : Text.Utf8.byteLength (front ++ c :: rest) =
      Text.Utf8.byteLength front + Text.Utf8.byteLength (c :: rest) := by
    rw [Text.Utf8.byteLength, List.map_append, List.sum_append]
    rfl
  rw [Stop.toError, hlength, Nat.add_sub_cancel]

/-- A syntax error tells where the text stops being the start of an expression: at the character
with this offset, or at the end when the text could go on. -/
theorem ofText_syntaxError (widthOf : String → Option Nat) (text : String) :
    (∀ c offset, ofText widthOf text = .error (.unexpectedChar c offset) →
      ∃ front rest, text.toList = front ++ c :: rest ∧
        Text.Utf8.byteLength front = offset ∧ Opens front ∧ ¬ Opens (front ++ [c])) ∧
    (ofText widthOf text = .error .unexpectedEnd →
      ¬ Spelled .expr text.toList ∧
        ∃ whole, Spelled .expr whole ∧ text.toList <+: whole ∧ text.toList ≠ whole) := by
  constructor
  · intro c offset h
    obtain ⟨front, rest, htext, he, hmore, hnone⟩ := exists_stuck_of_isSyntax rfl h
    cases rest with
    | nil => cases he
    | cons d rest =>
      rw [htext, toError_stuck_append] at he
      cases he
      refine ⟨front, rest, htext, rfl, opens_iff.mpr hmore, fun hopens => ?_⟩
      obtain ⟨more, hspelled⟩ := opens_iff.mp hopens
      rw [List.append_assoc] at hspelled
      exact hnone (c :: more) rfl hspelled
  · intro h
    obtain ⟨front, rest, htext, he, ⟨more, hmore⟩, hnone⟩ := exists_stuck_of_isSyntax rfl h
    cases rest with
    | nil =>
      rw [List.append_nil] at htext
      have hnot : ¬ Spelled .expr text.toList := by
        have hend := hnone [] rfl
        rwa [List.append_nil, ← htext] at hend
      rw [← htext] at hmore
      refine ⟨hnot, _, hmore, List.prefix_append _ _, fun hwhole => ?_⟩
      rw [← hwhole] at hmore
      exact hnot hmore
    | cons d rest =>
      rw [htext, toError_stuck_append] at he
      cases he

/-- A comma with no item after it, and a bit range without its end. -/
theorem ofText_syntaxError_comma :
    ofText (fun _ => none) "\x7b2'b10,é\x7d" = .error (.unexpectedChar 'é' 7) ∧
      (∃ front rest, "\x7b2'b10,é\x7d".toList = front ++ 'é' :: rest ∧
        Text.Utf8.byteLength front = 7 ∧ Opens front ∧ ¬ Opens (front ++ ['é'])) ∧
      ofText (fun _ => none) "imm[5:" = .error .unexpectedEnd ∧
      ¬ Spelled .expr "imm[5:".toList ∧
        ∃ whole, Spelled .expr whole ∧ "imm[5:".toList <+: whole ∧ "imm[5:".toList ≠ whole := by
  have hcomma : ofText (fun _ => none) "\x7b2'b10,é\x7d" = .error (.unexpectedChar 'é' 7) := by
    decide +kernel
  have hrange : ofText (fun _ => none) "imm[5:" = .error .unexpectedEnd := by
    decide +kernel
  exact ⟨hcomma, (ofText_syntaxError _ _).1 _ _ hcomma, hrange, (ofText_syntaxError _ _).2 hrange⟩

end OpTable.BitExpr
