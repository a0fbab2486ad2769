import LiveQuery.Proofs.Dependency.Selecting
import LiveQuery.Selection.Identifier
import LiveQuery.Selection.Merge

set_option autoImplicit false

namespace LiveQuery

namespace SelectionField

variable {catalog : Catalog} {node : String}

theorem check_eq_ok {fields checked : List SelectionField}
    (passed : check node fields = .ok checked) : checked = fields := by
  unfold check at passed
  cases fault : fault? node [] fields with
  | none =>
    rw [fault] at passed
    cases passed
    rfl
  | some error =>
    rw [fault] at passed
    cases passed

theorem splitAtAkin?_eq_some {theirs mine : SelectionField}
    {fields front back : List SelectionField}
    (split : splitAtAkin? theirs fields = some (front, mine, back)) :
    fields = front ++ mine :: back ∧ akin mine theirs = true := by
  induction fields generalizing front with
  | nil => cases split
  | cons field rest ih =>
    unfold splitAtAkin? at split
    by_cases same : akin field theirs = true
    · rw [if_pos same] at split
      cases split
      exact ⟨rfl, same⟩
    · rw [if_neg same] at split
      obtain ⟨⟨front', mine', back'⟩, later, equal⟩ := Option.map_eq_some_iff.mp split
      cases equal
      obtain ⟨rfl, found⟩ := ih later
      exact ⟨rfl, found⟩

/-- Merging two lists of fields keeps to the node where merging two akin fields does. -/
theorem mergeAll_fits_of {theirs : List SelectionField}
    (each : ∀ field ∈ theirs, ∀ {mine merged : SelectionField}, akin mine field = true →
      mine.fits catalog node = true → field.fits catalog node = true →
      mergeHead mine field = .ok merged → merged.fits catalog node = true)
    {mine merged : List SelectionField} (fits : fitsAll catalog node mine = true)
    (fits' : fitsAll catalog node theirs = true) (merges : mergeAll mine theirs = .ok merged) :
    fitsAll catalog node merged = true := by
  induction theirs generalizing mine with
  | nil =>
    cases merges
    exact fits
  | cons field rest ih =>
    rw [List.forall_mem_cons] at each
    rw [fitsAll, Bool.and_eq_true] at fits'
    rw [mergeAll] at merges
    cases split : splitAtAkin? field mine with
    | none =>
      simp only [split] at merges
      refine ih each.2 ?_ fits'.2 merges
      rw [fitsAll_iff] at fits ⊢
      exact List.forall_mem_append.mpr ⟨fits, List.forall_mem_singleton.mpr fits'.1⟩
    | some parts =>
      obtain ⟨front, present, back⟩ := parts
      simp only [split] at merges
      obtain ⟨joined, head, merges⟩ := Outcome.bind_eq_ok.mp merges
      obtain ⟨rfl, same⟩ := splitAtAkin?_eq_some split
      refine ih each.2 ?_ fits'.2 merges
      rw [fitsAll_iff, List.forall_mem_append, List.forall_mem_cons] at fits ⊢
      exact ⟨fits.1, each.1 same fits.2.1 fits'.1 head, fits.2.2⟩

theorem exists_joined {mine merged : SelectionField} {head : List SelectionField}
    (each : ∀ field ∈ head, ∀ {mine merged : SelectionField}, akin mine field = true →
      mine.fits catalog node = true → field.fits catalog node = true →
      mergeHead mine field = .ok merged → merged.fits catalog node = true)
    (fits : fitsAll catalog node mine.head = true) (fits' : fitsAll catalog node head = true)
    {name : String} (merges : (do
      let joined ← mergeAll mine.head head
      let checked ← check name joined
      return mine.withHead checked) = Except.ok merged) :
    ∃ joined, merged = mine.withHead joined ∧ fitsAll catalog node joined = true := by
  obtain ⟨joined, below, merges⟩ := Outcome.bind_eq_ok.mp merges
  obtain ⟨checked, passed, merges⟩ := Outcome.bind_eq_ok.mp merges
  cases merges
  exact ⟨_, rfl, check_eq_ok passed ▸ mergeAll_fits_of each fits fits' below⟩

theorem mergeHead_fits {theirs mine merged : SelectionField} (same : akin mine theirs = true)
    (fits : mine.fits catalog node = true) (fits' : theirs.fits catalog node = true)
    (merges : mergeHead mine theirs = .ok merged) : merged.fits catalog node = true := by
  induction theirs generalizing node mine merged with
  | leaf | count =>
    cases merges
    exact fits
  | edge key link head ih =>
    cases mine with
    | edge key' link' head' =>
      simp only [akin, Bool.and_eq_true, decide_eq_true_eq] at same
      obtain ⟨rfl, rfl⟩ := same
      rw [SelectionField.fits, Bool.and_eq_true] at fits fits'
      obtain ⟨joined, rfl, below⟩ :=
        exists_joined (fun field inside => ih field inside) fits.2 fits'.2 merges
      rw [withHead, SelectionField.fits, fits.1, below]
      rfl
    | _ => cases same
  | unique key relation head ih =>
    cases mine with
    | unique key' relation' head' =>
      simp only [akin, Bool.and_eq_true, decide_eq_true_eq] at same
      obtain ⟨rfl, rfl⟩ := same
      rw [SelectionField.fits, Bool.and_eq_true] at fits fits'
      obtain ⟨joined, rfl, below⟩ :=
        exists_joined (fun field inside => ih field inside) fits.2 fits'.2 merges
      rw [withHead, SelectionField.fits, fits.1, below]
      rfl
    | _ => cases same
  | multiple key relation window head ih =>
    cases mine with
    | multiple key' relation' window' head' =>
      simp only [akin, Bool.and_eq_true, decide_eq_true_eq] at same
      obtain ⟨⟨rfl, rfl⟩, -⟩ := same
      rw [SelectionField.fits, Bool.and_eq_true] at fits fits'
      obtain ⟨joined, rfl, below⟩ :=
        exists_joined (fun field inside => ih field inside) fits.2 fits'.2 merges
      rw [withHead, SelectionField.fits, fits.1, below]
      rfl
    | _ => cases same

/-- The selection of an identifier is made of components of the node and, under an edge, of its
head. -/
theorem identifier_fits {definition : Node} (wellFormed : catalog.WellFormed)
    (found : catalog.node? definition.name = some definition) {fields : List SelectionField}
    (identified : identifier catalog definition = .ok fields) :
    fitsAll catalog definition.name fields = true := by
  unfold identifier at identified
  obtain ⟨listed, mapped, passed⟩ := Outcome.bind_eq_ok.mp identified
  rw [check_eq_ok passed, fitsAll_iff]
  intro field inside
  obtain ⟨component, member, made⟩ := Outcome.exists_of_mem_mapM mapped inside
  have known := Node.component?_of_identifier member
  cases component with
  | leaf leaf =>
    cases made
    rw [SelectionField.fits, found]
    exact decide_eq_true known
  | edge link =>
    obtain ⟨head, leads⟩ := wellFormed.heads found link (Node.mem_of_component? known)
    rw [identifierField, leads.edgeHead_eq] at made
    obtain ⟨_, same, made⟩ := Outcome.bind_eq_ok.mp made
    cases same
    obtain ⟨heads, below, made⟩ := Outcome.bind_eq_ok.mp made
    cases made
    rw [SelectionField.fits, found, Bool.and_eq_true]
    refine ⟨decide_eq_true known, ?_⟩
    unfold headIdentifier at below
    obtain ⟨listed, mapped, passed⟩ := Outcome.bind_eq_ok.mp below
    rw [check_eq_ok passed, fitsAll_iff]
    intro field inside
    obtain ⟨part, member, made⟩ := Outcome.exists_of_mem_mapM mapped inside
    obtain ⟨leaf, rfl⟩ := leads.leaf_of_identifier member
    cases made
    rw [SelectionField.fits, leads.node]
    exact decide_eq_true (Node.component?_of_identifier member)

end SelectionField

namespace Selection

variable {catalog : Catalog}

theorem fits_iff {selection : Selection} : selection.fits catalog = true ↔
    catalog.node? selection.node.name = some selection.node ∧
      SelectionField.fitsAll catalog selection.node.name selection.fields = true := by
  unfold fits
  rw [Bool.and_eq_true, decide_eq_true_iff]

theorem merge_fits {mine theirs merged : Selection} (fits : mine.fits catalog = true)
    (fits' : theirs.fits catalog = true) (merges : mine.merge theirs = .ok merged) :
    merged.node = mine.node ∧ merged.fits catalog = true := by
  unfold merge at merges
  by_cases apart : mine.node.name ≠ theirs.node.name
  · rw [if_pos apart] at merges
    cases merges
  · rw [if_neg apart] at merges
    obtain ⟨fields, joined, made⟩ := Outcome.bind_eq_ok.mp merges
    unfold make at made
    obtain ⟨checked, passed, made⟩ := Outcome.bind_eq_ok.mp made
    cases made
    rw [fits_iff] at fits fits' ⊢
    refine ⟨rfl, fits.1, ?_⟩
    rw [SelectionField.check_eq_ok passed]
    have same : theirs.node.name = mine.node.name := (not_not.mp apart).symm
    exact SelectionField.mergeAll_fits_of (fun field _ _ _ => SelectionField.mergeHead_fits) fits.2
      (same ▸ fits'.2) joined

theorem identifier_fits {node : Node} {selection : Selection} (wellFormed : catalog.WellFormed)
    (found : catalog.node? node.name = some node)
    (identified : identifier catalog node = .ok selection) :
    selection.node = node ∧ selection.fits catalog = true := by
  unfold identifier at identified
  obtain ⟨fields, made, identified⟩ := Outcome.bind_eq_ok.mp identified
  cases identified
  exact ⟨rfl, fits_iff.mpr ⟨found, SelectionField.identifier_fits wellFormed found made⟩⟩

end Selection

end LiveQuery
