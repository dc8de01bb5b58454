import OpTable.CommandLine.Arguments
import OpTable.Proofs.Except

/-!
# Reading arguments

An option that takes a value is given once, with a value that it can have, and puts this value in
its place (`Draft.give_eq_ok_iff`). So arguments that are written out in full are read back as they
were (`Arguments.ofList_spelled`).
-/

namespace OpTable.CommandLine

/-! ### Options with values -/

def Setting.name : Setting → String
  | bundled => "builtin"
  | schema => "schema"
  | format => "format"
  | output => "output"
  | policy => "duplicates"

theorem Setting.longName?_name (setting : Setting) :
    longName? setting.name = some (.setting setting) := by
  cases setting <;> rfl

theorem Setting.equals_not_mem_name (setting : Setting) : '=' ∉ setting.name.toList := by
  cases setting <;> decide

/-- An option with its value attached. -/
def Setting.attached (setting : Setting) (value : String) : String := s!"--{setting.name}={value}"

theorem Setting.toList_attached (setting : Setting) (value : String) :
    (setting.attached value).toList =
      '-' :: '-' :: (setting.name.toList ++ '=' :: value.toList) := by
  simp [attached, toString]

namespace Draft

theorem bind_once_eq_ok_iff {α : Type} {old : Option α} {read : String → Option α}
    {value : String} {put : Option α → Draft} {draft : Draft} :
    (do return put (← once old read value)) = Except.ok draft ↔
      value ≠ "" ∧ old = none ∧ ∃ a, read value = some a ∧ draft = put (some a) := by
  rw [Except.bind_eq_ok_iff]
  unfold once
  cases old with
  | some _ => simp
  | none =>
    cases hread : read value with
    | none => simp
    | some a =>
      by_cases hvalue : value = ""
      · simp [hvalue]
      · have hgiven : value.isEmpty = false := by simpa using hvalue
        simp only [hgiven]
        constructor
        · intro h
          obtain ⟨_, hnew, hput⟩ := h
          cases hnew
          cases hput
          exact ⟨hvalue, trivial, a, rfl, rfl⟩
        · intro h
          obtain ⟨-, -, _, hread, rfl⟩ := h
          cases hread
          exact ⟨some a, rfl, rfl⟩

variable {draft draft' : Draft} {rest : List String}

/-- An option takes a value that it can have, if it has none yet, and changes nothing else. -/
theorem give_eq_ok_iff {value : String} {setting : Setting} :
    draft.give value setting = .ok draft' ↔ value ≠ "" ∧
      match setting with
      | .bundled => draft.bundled? = none ∧ ∃ bundled, Bundled.named? value = some bundled ∧
          draft' = { draft with bundled? := some bundled }
      | .schema => draft.schema? = none ∧ draft' = { draft with schema? := some value }
      | .format => draft.format? = none ∧ ∃ format, exactFormat? value = some format ∧
          draft' = { draft with format? := some format }
      | .output => draft.output? = none ∧ draft' = { draft with output? := some value }
      | .policy => draft.policy? = none ∧ ∃ policy, exactPolicy? value = some policy ∧
          draft' = { draft with policy? := some policy } := by
  cases setting with
  | bundled => exact bind_once_eq_ok_iff
  | schema =>
    refine bind_once_eq_ok_iff.trans (and_congr_right fun _ => and_congr_right fun _ => ?_)
    simp
  | format => exact bind_once_eq_ok_iff
  | output =>
    refine bind_once_eq_ok_iff.trans (and_congr_right fun _ => and_congr_right fun _ => ?_)
    simp
  | policy => exact bind_once_eq_ok_iff

theorem argument_attached (draft : Draft) (setting : Setting) (value : String) :
    draft.argument (setting.attached value) = draft.long setting.name (some value) := by
  have hbefore : ∀ c ∈ setting.name.toList, (c != '=') = true :=
    fun c hc => bne_iff_ne.mpr (ne_of_mem_of_not_mem hc setting.equals_not_mem_name)
  have htake : (setting.name.toList ++ '=' :: value.toList).takeWhile (· != '=') =
      setting.name.toList := by
    rw [List.takeWhile_append_of_pos hbefore, List.takeWhile_cons_of_neg (by decide),
      List.append_nil]
  have hdrop : (setting.name.toList ++ '=' :: value.toList).dropWhile (· != '=') =
      '=' :: value.toList := by
    rw [List.dropWhile_append_of_pos hbefore, List.dropWhile_cons_of_neg (by decide)]
  simp only [argument, Setting.toList_attached, htake, hdrop, String.ofList_toList]

theorem arguments_attached (setting : Setting) {value : String}
    (hgive : draft.give value setting = .ok draft') :
    draft.arguments none (setting.attached value :: rest) = draft'.arguments none rest := by
  have hne : setting.attached value ≠ "--" := by
    intro he
    have hlist := setting.toList_attached value
    rw [he] at hlist
    have hlength := congrArg List.length hlist
    simp at hlength
  have hlong : draft.long setting.name (some value) = .ok (draft', none) := by
    unfold long
    rw [setting.longName?_name]
    dsimp only
    rw [hgive]
    rfl
  rw [arguments, if_neg hne, argument_attached, hlong]

/-- An option that is written only if it has a value. -/
theorem arguments_attached? {α : Type} {value? : Option α} {text : α → String}
    (setting : Setting) (put : Option α → Draft)
    (hgive : ∀ a, value? = some a → (put none).give (text a) setting = .ok (put (some a))) :
    (put none).arguments none ((value?.map fun a => setting.attached (text a)).toList ++ rest) =
      (put value?).arguments none rest := by
  cases value? with
  | none => rfl
  | some a => exact arguments_attached setting (hgive a rfl)

/-! ### Options without values, and inputs -/

theorem arguments_flag {flag : String} {given : Bool} (put : Bool → Draft) (hflag : flag ≠ "--")
    (hgive : (put false).argument flag = .ok (put true, none)) :
    (put false).arguments none ((if given then [flag] else []) ++ rest) =
      (put given).arguments none rest := by
  cases given with
  | false => rfl
  | true =>
    show (put false).arguments none (flag :: rest) = _
    rw [arguments, if_neg hflag, hgive]

theorem addInputs_eq_ok {paths : List String} (h : ∀ path ∈ paths, path ≠ "") :
    draft.addInputs paths = .ok { draft with inputs := draft.inputs ++ paths } := by
  induction paths generalizing draft with
  | nil => simp [addInputs, pure, Except.pure]
  | cons path rest ih =>
    obtain ⟨hpath, hrest⟩ := List.forall_mem_cons.mp h
    have hfirst : draft.addInput path = .ok { draft with inputs := draft.inputs ++ [path] } := by
      simp [addInput, hpath]
    have hlater : Draft.addInputs { draft with inputs := draft.inputs ++ [path] } rest =
        .ok { draft with inputs := draft.inputs ++ [path] ++ rest } := ih hrest
    rw [List.append_assoc] at hlater
    rw [addInputs, List.foldlM_cons, hfirst]
    exact hlater

end Draft

/-! ### Arguments that are written out -/

namespace Arguments

/-- The arguments with every value attached to its option, and the inputs at the end. -/
def spelled (args : Arguments) : List String :=
  (args.bundled?.map fun bundled => Setting.bundled.attached bundled.text).toList ++
    ((args.schema?.map fun path => Setting.schema.attached path).toList ++
      Setting.format.attached args.format.text ::
        ((args.output?.map fun path => Setting.output.attached path).toList ++
          Setting.policy.attached args.policy.text ::
            ((if args.checkConflicts then ["--check-conflicts"] else []) ++
              ((if args.denyWarnings then ["--deny-warnings"] else []) ++ "--" :: args.inputs))))

/-- No file goes without a name. -/
structure NamesFiles (args : Arguments) : Prop where
  inputs : ∀ path ∈ args.inputs, path ≠ ""
  schema : ∀ path, args.schema? = some path → path ≠ ""
  output : ∀ path, args.output? = some path → path ≠ ""

open Draft in
theorem arguments_spelled {args : Arguments} (h : args.NamesFiles) :
    Draft.empty.arguments none args.spelled =
      .ok ⟨args.inputs, args.bundled?, args.schema?, some args.format, args.output?,
        some args.policy, args.checkConflicts, args.denyWarnings⟩ := by
  obtain ⟨inputs, bundled?, schema?, format, output?, policy, checkConflicts, denyWarnings⟩ := args
  have hbundled : ∀ bundled : Bundled, bundled.text ≠ "" ∧
      Bundled.named? bundled.text = some bundled := by
    intro bundled
    cases bundled <;> decide
  have hformat : format.text ≠ "" ∧ exactFormat? format.text = some format := by
    cases format <;> decide
  have hpolicy : policy.text ≠ "" ∧ exactPolicy? policy.text = some policy := by
    cases policy <;> decide
  calc Draft.empty.arguments none _
    _ = Draft.arguments ⟨[], bundled?, none, none, none, none, false, false⟩ none _ :=
      arguments_attached? .bundled (⟨[], ·, none, none, none, none, false, false⟩) fun b _ =>
        give_eq_ok_iff.mpr ⟨(hbundled b).1, rfl, b, (hbundled b).2, rfl⟩
    _ = Draft.arguments ⟨[], bundled?, schema?, none, none, none, false, false⟩ none _ :=
      arguments_attached? .schema (⟨[], bundled?, ·, none, none, none, false, false⟩)
        fun path hpath => give_eq_ok_iff.mpr ⟨h.schema path hpath, rfl, rfl⟩
    _ = Draft.arguments ⟨[], bundled?, schema?, some format, none, none, false, false⟩ none _ :=
      arguments_attached .format (give_eq_ok_iff.mpr ⟨hformat.1, rfl, format, hformat.2, rfl⟩)
    _ = Draft.arguments ⟨[], bundled?, schema?, some format, output?, none, false, false⟩ none _ :=
      arguments_attached? .output (⟨[], bundled?, schema?, some format, ·, none, false, false⟩)
        fun path hpath => give_eq_ok_iff.mpr ⟨h.output path hpath, rfl, rfl⟩
    _ = Draft.arguments
          ⟨[], bundled?, schema?, some format, output?, some policy, false, false⟩ none _ :=
      arguments_attached .policy (give_eq_ok_iff.mpr ⟨hpolicy.1, rfl, policy, hpolicy.2, rfl⟩)
    _ = Draft.arguments
          ⟨[], bundled?, schema?, some format, output?, some policy, checkConflicts, false⟩ none _ :=
      arguments_flag (⟨[], bundled?, schema?, some format, output?, some policy, ·, false⟩)
        (by decide) rfl
    _ = Draft.arguments
          ⟨[], bundled?, schema?, some format, output?, some policy, checkConflicts, denyWarnings⟩
          none ("--" :: inputs) :=
      arguments_flag (⟨[], bundled?, schema?, some format, output?, some policy, checkConflicts, ·⟩)
        (by decide) rfl
    _ = .ok ⟨inputs, bundled?, schema?, some format, output?, some policy, checkConflicts,
          denyWarnings⟩ :=
      addInputs_eq_ok h.inputs

/-- The schema file that the environment names counts for nothing beside one that is written. -/
theorem ofList_spelled {args : Arguments} (h : args.NamesFiles) {environment? : Option String}
    (hschema : args.schema? = none → environment? = none) :
    ofList environment? args.spelled = .ok args := by
  rw [ofList, arguments_spelled h]
  obtain ⟨inputs, bundled?, schema?, format, output?, policy, checkConflicts, denyWarnings⟩ := args
  cases schema? with
  | none =>
    rw [hschema rfl]
    rfl
  | some path => rfl

end Arguments

end OpTable.CommandLine
