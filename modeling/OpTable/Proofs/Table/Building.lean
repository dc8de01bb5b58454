import OpTable.Proofs.Table.Index

/-!
# Building tables

A builder that is handed records one after the other keeps one record for each mnemonic, at the
place where the mnemonic came first (`map_mnemonic_addAll`). Which of the records of a mnemonic it
keeps is the policy's choice among them (`find?_addAll`).
-/

namespace OpTable

theorem eraseDups_concat {α : Type} [DecidableEq α] (l : List α) (a : α) :
    (l ++ [a]).eraseDups = if a ∈ l then l.eraseDups else l.eraseDups ++ [a] := by
  rw [List.eraseDups_append, List.removeAll]
  by_cases ha : a ∈ l
  · simp [ha]
  · simp [ha, List.eraseDups_cons]

/-- The record that stands in the table when these, in order, are the ones of its mnemonic. -/
def DuplicatePolicy.standing? (policy : DuplicatePolicy) (records : List Record) :
    Option Record :=
  match policy with
  | .overwrite => records.getLast?
  | .silent => records.getLast?
  | .reject => records.head?

/-- The records of a mnemonic. -/
def Record.named (mnemonic : String) (records : List Record) : List Record :=
  records.filter fun r => decide (r.mnemonic = mnemonic)

theorem Record.named_concat (mnemonic : String) (records : List Record) (r : Record) :
    named mnemonic (records ++ [r]) =
      if r.mnemonic = mnemonic then named mnemonic records ++ [r] else named mnemonic records := by
  by_cases hr : r.mnemonic = mnemonic
  · simp [named, hr]
  · simp [named, hr]

theorem DuplicatePolicy.standing?_concat (policy : DuplicatePolicy) (records : List Record)
    (r : Record) : policy.standing? (records ++ [r]) =
      policy.standing? ((policy.standing? records).toList ++ [r]) := by
  cases policy with
  | overwrite => simp [standing?]
  | silent => simp [standing?]
  | reject =>
    cases records with
    | nil => rfl
    | cons first rest => rfl

theorem DuplicatePolicy.standing?_eq_none_iff {policy : DuplicatePolicy} {records : List Record} :
    policy.standing? records = none ↔ records = [] := by
  cases policy with
  | overwrite => exact List.getLast?_eq_none_iff
  | silent => exact List.getLast?_eq_none_iff
  | reject => exact List.head?_eq_none_iff

theorem DuplicatePolicy.standing?_of_ne_reject {policy : DuplicatePolicy} (h : policy ≠ .reject)
    (records : List Record) : policy.standing? records = records.getLast? := by
  cases policy with
  | overwrite => rfl
  | silent => rfl
  | reject => exact absurd rfl h

namespace TableBuilder

/-! ### One record -/

/-- Every record of a table was there before or is the one that was handed in. -/
theorem mem_records_add {b : TableBuilder} {r s : Record} (h : s ∈ (b.add r).1.records) :
    s = r ∨ s ∈ b.records := by
  obtain ⟨-, hadd⟩ | ⟨i, -, ⟨-, hadd⟩ | ⟨-, hadd⟩⟩ := b.add_cases r
  · rw [hadd] at h
    rcases List.mem_append.mp h with hs | hs
    · exact .inr hs
    · exact .inl (List.mem_singleton.mp hs)
  · rw [hadd] at h
    exact .inr h
  · rw [hadd] at h
    exact (List.mem_or_eq_of_mem_set h).symm

@[simp] theorem policy_add (b : TableBuilder) (r : Record) : (b.add r).1.policy = b.policy := by
  obtain ⟨-, hadd⟩ | ⟨i, -, ⟨-, hadd⟩ | ⟨-, hadd⟩⟩ := b.add_cases r <;> rw [hadd] <;> rfl

@[simp] theorem schemaName_add (b : TableBuilder) (r : Record) :
    (b.add r).1.schemaName = b.schemaName := by
  obtain ⟨-, hadd⟩ | ⟨i, -, ⟨-, hadd⟩ | ⟨-, hadd⟩⟩ := b.add_cases r <;> rw [hadd] <;> rfl

theorem map_mnemonic_supersede (r : Record) (records : List Record) :
    (supersede r records).map (·.mnemonic) = records.map (·.mnemonic) := by
  induction records with
  | nil => rfl
  | cons old rest ih =>
    by_cases ho : old.mnemonic = r.mnemonic
    · simp [supersede, ho]
    · simp [supersede, ho, ih]

theorem find?_supersede (r : Record) (records : List Record) (mnemonic : String) :
    (supersede r records).find? (fun s => decide (s.mnemonic = mnemonic)) =
      if r.mnemonic = mnemonic ∧ r.mnemonic ∈ records.map (·.mnemonic) then some r
      else records.find? fun s => decide (s.mnemonic = mnemonic) := by
  induction records with
  | nil => simp [supersede]
  | cons old rest ih =>
    by_cases ho : old.mnemonic = r.mnemonic
    · by_cases hr : r.mnemonic = mnemonic
      · simp [supersede, ho, hr]
      · simp [supersede, ho, hr]
    · have ho' : r.mnemonic ≠ old.mnemonic := fun he => ho he.symm
      by_cases hm : old.mnemonic = mnemonic
      · have hr : r.mnemonic ≠ mnemonic := fun he => ho (hm.trans he.symm)
        rw [supersede, if_neg ho, if_neg fun h => hr h.1]
        simp [hm]
      · simp [supersede, ho, ho', hm, ih]

theorem mem_mnemonics_of_find? {records : List Record} {mnemonic : String} {old : Record}
    (h : (records.find? fun s => decide (s.mnemonic = mnemonic)) = some old) :
    mnemonic ∈ records.map (·.mnemonic) := by
  have hmem := List.mem_of_find?_eq_some h
  have hname := List.find?_some h
  exact List.mem_map.mpr ⟨old, hmem, of_decide_eq_true hname⟩

section Scan

variable {b : TableBuilder} (h : b.IsIndexed) (r : Record)

include h

/-- A record with a new mnemonic goes to the end. Where there is an old one, the policy keeps it or
puts the new one in its place. -/
theorem records_add_cases :
    (b.records.find? (fun old => decide (old.mnemonic = r.mnemonic)) = none ∧
        (b.add r).1.records = b.records ++ [r] ∧ (b.add r).2 = .inserted) ∨
      ∃ old, b.records.find? (fun old => decide (old.mnemonic = r.mnemonic)) = some old ∧
        (b.policy = .reject ∧ (b.add r).1.records = b.records ∧ (b.add r).2 = .kept old.line ∨
          b.policy ≠ .reject ∧ (b.add r).1.records = supersede r b.records ∧
            (b.add r).2 = .replaced old.line) := by
  have hadd := add_eq_scan h r
  unfold scan at hadd
  cases hold : b.records.find? fun old => decide (old.mnemonic = r.mnemonic) with
  | none =>
    rw [hold] at hadd
    exact .inl ⟨rfl, Prod.mk.inj hadd⟩
  | some old =>
    rw [hold] at hadd
    refine .inr ⟨old, rfl, ?_⟩
    dsimp only at hadd
    split at hadd
    next hp => exact .inl ⟨hp, Prod.mk.inj hadd⟩
    next hp => exact .inr ⟨hp, Prod.mk.inj hadd⟩

theorem map_mnemonic_add :
    (b.add r).1.records.map (·.mnemonic) =
      if r.mnemonic ∈ b.records.map (·.mnemonic) then b.records.map (·.mnemonic)
      else b.records.map (·.mnemonic) ++ [r.mnemonic] := by
  obtain ⟨hnone, hadd, -⟩ | ⟨old, hold, hkept⟩ := records_add_cases h r
  · rw [hadd, if_neg (Record.find?_eq_none_iff.mp hnone)]
    simp
  · rw [if_pos (mem_mnemonics_of_find? hold)]
    obtain ⟨-, hadd, -⟩ | ⟨-, hadd, -⟩ := hkept
    · rw [hadd]
    · rw [hadd]
      exact map_mnemonic_supersede r b.records

/-- A record that is handed in changes what is found under its own mnemonic only. -/
theorem find?_add (mnemonic : String) :
    (b.add r).1.records.find? (fun s => decide (s.mnemonic = mnemonic)) =
      if r.mnemonic = mnemonic then
        b.policy.standing?
          ((b.records.find? fun s => decide (s.mnemonic = mnemonic)).toList ++ [r])
      else b.records.find? fun s => decide (s.mnemonic = mnemonic) := by
  obtain ⟨hnone, hadd, -⟩ | ⟨old, hold, ⟨hp, hadd, -⟩ | ⟨hp, hadd, -⟩⟩ := records_add_cases h r
  · rw [hadd]
    by_cases hr : r.mnemonic = mnemonic
    · subst hr
      cases b.policy <;> simp [hnone, DuplicatePolicy.standing?]
    · simp [hr]
  · rw [hadd]
    by_cases hr : r.mnemonic = mnemonic
    · subst hr
      simp [hold, hp, DuplicatePolicy.standing?]
    · rw [if_neg hr]
  · rw [hadd, find?_supersede]
    by_cases hr : r.mnemonic = mnemonic
    · subst hr
      rw [if_pos ⟨rfl, mem_mnemonics_of_find? hold⟩, if_pos rfl,
        DuplicatePolicy.standing?_of_ne_reject hp, List.getLast?_concat]
    · rw [if_neg fun h => hr h.1, if_neg hr]

end Scan

/-! ### All records -/

section Start

variable (name : String) (policy : DuplicatePolicy) (records : List Record)

@[simp] theorem policy_addAll : ((start name policy).addAll records).policy = policy := by
  induction records using List.reverseRecOn with
  | nil => rfl
  | append_singleton records r ih => simp [ih]

@[simp] theorem schemaName_addAll : ((start name policy).addAll records).schemaName = name := by
  induction records using List.reverseRecOn with
  | nil => rfl
  | append_singleton records r ih => simp [ih]

theorem mem_records_addAll {r : Record} (h : r ∈ ((start name policy).addAll records).records) :
    r ∈ records := by
  induction records using List.reverseRecOn with
  | nil => exact absurd h List.not_mem_nil
  | append_singleton records s ih =>
    rw [addAll_concat] at h
    rcases mem_records_add h with hs | hs
    · simp [hs]
    · exact List.mem_append_left _ (ih hs)

/-- The mnemonics of a table are those that were handed in, in the order of their first records. -/
theorem map_mnemonic_addAll :
    ((start name policy).addAll records).records.map (·.mnemonic) =
      (records.map (·.mnemonic)).eraseDups := by
  induction records using List.reverseRecOn with
  | nil => rfl
  | append_singleton records r ih =>
    rw [addAll_concat, map_mnemonic_add (isIndexed_addAll name policy records), ih,
      List.map_append, List.map_singleton, eraseDups_concat]
    simp only [List.mem_eraseDups]

/-- Under each mnemonic stands the record that the policy chooses among all of that mnemonic. -/
theorem find?_addAll (mnemonic : String) :
    ((start name policy).addAll records).records.find?
        (fun s => decide (s.mnemonic = mnemonic)) =
      policy.standing? (Record.named mnemonic records) := by
  induction records using List.reverseRecOn with
  | nil => cases policy <;> rfl
  | append_singleton records r ih =>
    rw [addAll_concat, find?_add (isIndexed_addAll name policy records), ih,
      Record.named_concat, policy_addAll]
    by_cases hr : r.mnemonic = mnemonic
    · rw [if_pos hr, if_pos hr]
      exact (policy.standing?_concat _ r).symm
    · rw [if_neg hr, if_neg hr]

end Start

end TableBuilder

end OpTable
