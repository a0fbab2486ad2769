import LiveQuery.Proofs.Selection.Made

set_option autoImplicit false

namespace LiveQuery

namespace SelectionField

variable {node : String} {fields others : List SelectionField}

theorem splitAtAkin?_self (unique : (fields.map key).Nodup) {theirs : SelectionField}
    (inside : theirs ∈ fields) (self : akin theirs theirs = true) :
    ∃ front back, splitAtAkin? theirs fields = some (front, theirs, back) ∧
      fields = front ++ theirs :: back := by
  cases split : splitAtAkin? theirs fields with
  | none =>
    have differs := splitAtAkin?_eq_none split theirs inside
    rw [self] at differs
    cases differs
  | some parts =>
    obtain ⟨front, present, back⟩ := parts
    obtain ⟨listed, same⟩ := splitAtAkin?_eq_some split
    have member : present ∈ fields := by simp [listed]
    have equal : present = theirs :=
      List.inj_on_of_nodup_map unique member inside (spec_of_akin same).1
    rw [equal] at listed ⊢
    exact ⟨front, back, rfl, listed⟩

theorem mergeAll_of_subset (unique : (fields.map key).Nodup)
    (each : ∀ theirs ∈ others, theirs ∈ fields ∧ akin theirs theirs = true ∧
      mergeHead theirs theirs = .ok theirs) : mergeAll fields others = .ok fields := by
  induction others with
  | nil => rfl
  | cons theirs rest ih =>
    rw [List.forall_mem_cons] at each
    obtain ⟨⟨inside, self, merges⟩, behind⟩ := each
    obtain ⟨front, back, split, listed⟩ := splitAtAkin?_self unique inside self
    rw [mergeAll, split]
    simp only [merges, Outcome.ok_bind]
    rw [← listed]
    exact ih behind

theorem withHead_self (field : SelectionField) : field.withHead field.head = field := by
  cases field <;> rfl

theorem mergeHead_self {field : SelectionField} (valid : field.valid = true) :
    mergeHead field field = .ok field := by
  induction field using induction_head with
  | step field ih =>
    obtain ⟨self, heads⟩ := valid_iff.mp valid
    obtain ⟨-, unique, sound⟩ := validAll_iff.mp heads
    have joined : mergeAll field.head field.head = .ok field.head :=
      mergeAll_of_subset unique fun inner inside =>
        ⟨inside, (valid_iff.mp (sound inner inside)).1, ih inner inside (sound inner inside)⟩
    rw [mergeHead_eq self, joined, Outcome.ok_bind, check_of_valid heads, Outcome.ok_bind,
      withHead_self]
    rfl

theorem mergeAll_self (valid : ValidAll node fields) : mergeAll fields fields = .ok fields := by
  obtain ⟨-, unique, sound⟩ := validAll_iff.mp valid
  exact mergeAll_of_subset unique fun field inside =>
    ⟨inside, (valid_iff.mp (sound field inside)).1, mergeHead_self (sound field inside)⟩

end SelectionField

namespace Selection

variable {catalog : Catalog} {wide mine theirs merged : Selection}

/-- Merging a selection with itself changes nothing. -/
theorem merge_self (valid : mine.Valid) : mine.merge mine = .ok mine := by
  unfold merge
  rw [if_neg (not_not.mpr rfl)]
  simp only [make, SelectionField.mergeAll_self valid, Outcome.ok_bind,
    SelectionField.check_of_valid valid, Outcome.pure_eq_ok]

/-- A selection that includes two includes what they are merged into. -/
theorem includes_of_merge (sound : wide.Valid) (valid : mine.Valid) (valid' : theirs.Valid)
    (includes : wide.includes mine = true) (includes' : wide.includes theirs = true)
    (merges : mine.merge theirs = .ok merged) : wide.includes merged = true := by
  rw [includes_iff] at includes includes' ⊢
  have here : mine.node.name = theirs.node.name := includes.1.symm.trans includes'.1
  obtain ⟨-, unique, sound⟩ := SelectionField.validAll_iff.mp sound
  obtain ⟨owners', -, valids'⟩ := SelectionField.validAll_iff.mp valid'
  obtain ⟨joined, made, joint, above⟩ := SelectionField.mergeAll_of_included
    (fun _ _ => SelectionField.mergeHead_of_included) sound unique valid
    (fun field inside => ⟨(owners' field inside).trans here.symm, valids' field inside⟩)
    includes.2 includes'.2
  rw [merge, if_neg (not_not.mpr here)] at merges
  simp only [made, make, SelectionField.check_of_valid joint, Outcome.ok_bind, Outcome.pure_eq_ok,
    Except.ok.injEq] at merges
  subst merges
  exact ⟨includes.1, above⟩

/-- Merging gives the least selection that includes both, and gives one exactly if there is any. -/
theorem merge_isLeast (made : mine.Made catalog) (made' : theirs.Made catalog) :
    ((∃ merged, mine.merge theirs = .ok merged) ↔
      ∃ wide : Selection, wide.Made catalog ∧ wide.includes mine = true ∧
        wide.includes theirs = true) ∧
      (∀ merged, mine.merge theirs = .ok merged →
        merged.Made catalog ∧ merged.includes mine = true ∧ merged.includes theirs = true ∧
          ∀ wide : Selection, wide.Made catalog → wide.includes mine = true →
            wide.includes theirs = true → wide.includes merged = true) ∧
        mine.merge mine = .ok mine ∧
          ∀ merged, mine.merge theirs = .ok merged → ∃ merged', theirs.merge mine = .ok merged' ∧
            merged.includes merged' = true ∧ merged'.includes merged = true := by
  have valid := made.valid
  have valid' := made'.valid
  have above {merged : Selection} (merges : mine.merge theirs = .ok merged) :
      merged.Valid ∧ merged.includes mine = true ∧ merged.includes theirs = true := by
    obtain ⟨sound, -, both⟩ := merge_spec valid valid' merges
    exact ⟨sound, both⟩
  refine ⟨⟨?_, ?_⟩, ?_, merge_self valid, ?_⟩
  · rintro ⟨merged, merges⟩
    exact ⟨merged, .merged made made' merges, (above merges).2⟩
  · rintro ⟨wide, known, includes, includes'⟩
    exact merge_of_included known.valid valid valid' includes includes'
  · intro merged merges
    obtain ⟨-, includes, includes'⟩ := above merges
    refine ⟨.merged made made' merges, includes, includes', fun wide known wider wider' => ?_⟩
    exact includes_of_merge known.valid valid valid' wider wider' merges
  · intro merged merges
    obtain ⟨sound, includes, includes'⟩ := above merges
    obtain ⟨merged', merges'⟩ := merge_of_included sound valid' valid includes' includes
    obtain ⟨sound', -, covers', covers⟩ := merge_spec valid' valid merges'
    exact ⟨merged', merges', includes_of_merge sound valid' valid includes' includes merges',
      includes_of_merge sound' valid valid' covers covers' merges⟩

end Selection

open Samples

theorem Selection.merge_isLeast_sheet : numberOnly.merge ownerOnly = .ok taskSheet ∧
    taskSheet.includes numberOnly = true ∧ taskSheet.includes ownerOnly = true ∧
      ∀ wide : Selection, wide.Made boardCatalog → wide.includes numberOnly = true →
        wide.includes ownerOnly = true → wide.includes taskSheet = true := by
  obtain ⟨-, least, -⟩ := merge_isLeast made_numberOnly made_ownerOnly
  obtain ⟨-, includes, includes', below⟩ := least taskSheet merge_sheet
  exact ⟨merge_sheet, includes, includes', below⟩

end LiveQuery
