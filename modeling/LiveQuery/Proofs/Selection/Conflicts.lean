import LiveQuery.Proofs.Selection.Inclusion

set_option autoImplicit false

namespace LiveQuery

namespace SelectionField

variable {mine theirs inner : SelectionField} {fields others joined : List SelectionField}
  {node : String} {error : StatementError}

/-- Two fields want different things under one key, themselves or further below. -/
inductive Clash : SelectionField → SelectionField → Prop
  | here {mine theirs : SelectionField} (keys : mine.key = theirs.key)
      (apart : akin mine theirs = false) : Clash mine theirs
  | deeper {mine theirs inner inner' : SelectionField} (same : akin mine theirs = true)
      (inside : inner ∈ mine.head) (inside' : inner' ∈ theirs.head) (clash : Clash inner inner') :
      Clash mine theirs

theorem Clash.key_eq (clash : Clash mine theirs) : mine.key = theirs.key := by
  cases clash with
  | here keys => exact keys
  | deeper same => exact (spec_of_akin same).1

theorem not_clash_of_included {outer : List SelectionField} (unique : (outer.map key).Nodup)
    (sound : ∀ wide ∈ outer, wide.valid = true)
    (above : ∃ wide ∈ outer, wide.includes mine = true)
    (above' : ∃ wide ∈ outer, wide.includes theirs = true) : ¬ Clash mine theirs := by
  intro clash
  induction clash generalizing outer with
  | here keys apart =>
    rw [akin_of_included unique above above' keys] at apart
    cases apart
  | deeper same inside inside' _ ih =>
    obtain ⟨wide, member, includes⟩ := above
    obtain ⟨wide', member', includes'⟩ := above'
    obtain rfl := eq_of_included unique member member' includes includes' (spec_of_akin same).1
    rw [includes_eq, Bool.and_eq_true, includesAll_iff] at includes includes'
    obtain ⟨-, unique', sound'⟩ := validAll_iff.mp (valid_iff.mp (sound wide member)).2
    exact ih unique' sound' (includes.2 _ inside) (includes'.2 _ inside')

section Merging

/-- Fields can be merged where none of them clash. -/
theorem mergeAll_of_clear
    (each : ∀ theirs ∈ others, ∀ {mine : SelectionField}, akin mine theirs = true →
      mine.valid = true → theirs.valid = true → ¬ Clash mine theirs →
      ∃ merged, mergeHead mine theirs = .ok merged)
    (valid : ValidAll node fields) (valid' : ValidAll node others)
    (clear : ∀ mine ∈ fields, ∀ theirs ∈ others, ¬ Clash mine theirs) :
    ∃ joined, mergeAll fields others = .ok joined ∧ ValidAll node joined := by
  induction others generalizing fields with
  | nil => exact ⟨fields, rfl, valid⟩
  | cons theirs rest ih =>
    obtain ⟨owners, apart, valids⟩ := validAll_iff.mp valid
    obtain ⟨owners', apart', valids'⟩ := validAll_iff.mp valid'
    rw [List.forall_mem_cons] at each owners' valids'
    rw [List.map_cons, List.nodup_cons] at apart'
    have behind : ValidAll node rest := validAll_iff.mpr ⟨owners'.2, apart'.2, valids'.2⟩
    have clear_rest : ∀ mine ∈ fields, ∀ other ∈ rest, ¬ Clash mine other :=
      fun mine inside other member => clear mine inside other (List.mem_cons_of_mem _ member)
    -- The keys of the others differ, so what takes the key of one clashes with none of the rest.
    have taken {field : SelectionField} (keys : field.key = theirs.key) :
        ∀ other ∈ rest, ¬ Clash field other := fun other member clash =>
      apart'.1 (keys ▸ clash.key_eq ▸ List.mem_map_of_mem member)
    rw [mergeAll]
    cases split : splitAtAkin? theirs fields with
    | none =>
      have fresh : ∀ field ∈ fields, field.key ≠ theirs.key := fun field inside keys =>
        clear field inside theirs (List.mem_cons_self ..)
          (.here keys (splitAtAkin?_eq_none split field inside))
      refine ih each.2 (validAll_iff.mpr ⟨?_, ?_, ?_⟩) behind ?_
      · simpa [or_imp, forall_and] using ⟨owners, owners'.1⟩
      · rw [List.map_append, List.map_singleton]
        refine List.nodup_append.mpr ⟨apart, List.nodup_singleton _, ?_⟩
        simpa using fresh
      · simpa [or_imp, forall_and] using ⟨valids, valids'.1⟩
      · exact List.forall_mem_append.mpr
          ⟨clear_rest, List.forall_mem_singleton.mpr (taken rfl)⟩
    | some parts =>
      obtain ⟨front, present, back⟩ := parts
      obtain ⟨rfl, same⟩ := splitAtAkin?_eq_some split
      have valid_present := valids present (by simp)
      obtain ⟨merged, made⟩ := each.1 same valid_present valids'.1
        (clear present (by simp) theirs (List.mem_cons_self ..))
      have joins := mergeHead_spec same valid_present valids'.1 made
      have kept := spec_of_akin (akin_of_includes joins.mine)
      simp only [made, Outcome.ok_bind]
      refine ih each.2 (validAll_iff.mpr ⟨?_, ?_, ?_⟩) behind ?_
      · exact Lists.forall_mem_replaced owners (kept.2.1.trans (owners present (by simp)))
      · simpa [kept.1] using apart
      · exact Lists.forall_mem_replaced valids joins.valid
      · exact Lists.forall_mem_replaced clear_rest
          (taken (kept.1.trans (spec_of_akin same).1))

theorem mergeHead_of_clear (same : akin mine theirs = true) (valid : mine.valid = true)
    (valid' : theirs.valid = true) (clear : ¬ Clash mine theirs) :
    ∃ merged, mergeHead mine theirs = .ok merged := by
  induction theirs using induction_head generalizing mine with
  | step theirs ih =>
    have heads := (valid_iff.mp valid).2
    rw [(spec_of_akin same).2.2] at heads
    obtain ⟨joined, made, joint⟩ := mergeAll_of_clear (fun field inside => ih field inside) heads
      (valid_iff.mp valid').2
      fun inner inside inner' inside' clash => clear (.deeper same inside inside' clash)
    exact ⟨mine.withHead joined,
      by rw [mergeHead_eq same, made, Outcome.ok_bind, check_of_valid joint]; rfl⟩

/-- The error says that one key is used twice. -/
def IsConflict (error : StatementError) : Prop :=
  ∃ node key, error = .duplicateSelectionKey node key

theorem isConflict_of_check (owners : ∀ field ∈ fields, field.owner = node)
    (fails : check node fields = .error error) : IsConflict error := by
  have conflict {seen : List String} (fault : fault? node seen fields = some error) :
      IsConflict error := by
    clear fails
    induction fields generalizing seen with
    | nil => cases fault
    | cons field rest ih =>
      rw [List.forall_mem_cons] at owners
      rw [fault?, if_neg (not_not.mpr owners.1)] at fault
      split at fault
      · cases fault
        exact ⟨_, _, rfl⟩
      · exact ih owners.2 fault
  unfold check at fails
  cases fault : fault? node [] fields with
  | none => rw [fault] at fails; cases fails
  | some first =>
    rw [fault] at fails
    cases fails
    exact conflict fault

theorem owner_of_mergeAll (valid : ∀ field ∈ fields, field.valid = true ∧ field.owner = node)
    (valid' : ∀ field ∈ others, field.valid = true ∧ field.owner = node)
    (merges : mergeAll fields others = .ok joined) : ∀ field ∈ joined, field.owner = node := by
  induction others generalizing fields with
  | nil =>
    cases merges
    exact fun field inside => (valid field inside).2
  | cons theirs rest ih =>
    rw [List.forall_mem_cons] at valid'
    rw [mergeAll] at merges
    cases split : splitAtAkin? theirs fields with
    | none =>
      simp only [split] at merges
      exact ih (List.forall_mem_append.mpr ⟨valid, List.forall_mem_singleton.mpr valid'.1⟩)
        valid'.2 merges
    | some parts =>
      obtain ⟨front, present, back⟩ := parts
      obtain ⟨rfl, same⟩ := splitAtAkin?_eq_some split
      simp only [split] at merges
      obtain ⟨merged, head, merges⟩ := Outcome.bind_eq_ok.mp merges
      obtain ⟨sound, owner⟩ := valid present (by simp)
      have joins := mergeHead_spec same sound valid'.1.1 head
      have kept := (spec_of_akin (akin_of_includes joins.mine)).2.1
      exact ih (Lists.forall_mem_replaced valid ⟨joins.valid, kept.trans owner⟩) valid'.2 merges

theorem isConflict_of_mergeAll
    (each : ∀ theirs ∈ others, ∀ {mine : SelectionField}, akin mine theirs = true →
      mine.valid = true → theirs.valid = true → mergeHead mine theirs = .error error →
      IsConflict error)
    (valid : ∀ field ∈ fields, field.valid = true) (valid' : ∀ field ∈ others, field.valid = true)
    (fails : mergeAll fields others = .error error) : IsConflict error := by
  induction others generalizing fields with
  | nil => cases fails
  | cons theirs rest ih =>
    rw [List.forall_mem_cons] at each valid'
    rw [mergeAll] at fails
    cases split : splitAtAkin? theirs fields with
    | none =>
      simp only [split] at fails
      exact ih each.2 (List.forall_mem_append.mpr
        ⟨valid, List.forall_mem_singleton.mpr valid'.1⟩) valid'.2 fails
    | some parts =>
      obtain ⟨front, present, back⟩ := parts
      obtain ⟨rfl, same⟩ := splitAtAkin?_eq_some split
      simp only [split] at fails
      have sound := valid present (by simp)
      cases head : mergeHead present theirs with
      | error first =>
        rw [head] at fails
        cases fails
        exact each.1 same sound valid'.1 head
      | ok merged =>
        rw [head, Outcome.ok_bind] at fails
        exact ih each.2 (Lists.forall_mem_replaced valid
          (mergeHead_spec same sound valid'.1 head).valid) valid'.2 fails

theorem isConflict_of_mergeHead (same : akin mine theirs = true) (valid : mine.valid = true)
    (valid' : theirs.valid = true) (fails : mergeHead mine theirs = .error error) :
    IsConflict error := by
  induction theirs using induction_head generalizing mine with
  | step theirs ih =>
    obtain ⟨owners, -, sound⟩ := validAll_iff.mp (valid_iff.mp valid).2
    obtain ⟨owners', -, sound'⟩ := validAll_iff.mp (valid_iff.mp valid').2
    rw [(spec_of_akin same).2.2] at owners
    rw [mergeHead_eq same] at fails
    cases below : mergeAll mine.head theirs.head with
    | error first =>
      rw [below] at fails
      cases fails
      exact isConflict_of_mergeAll (fun field inside => ih field inside) sound sound' below
    | ok joined =>
      rw [below, Outcome.ok_bind] at fails
      have owned := owner_of_mergeAll
        (fun field inside => ⟨sound field inside, owners field inside⟩)
        (fun field inside => ⟨sound' field inside, owners' field inside⟩) below
      cases checked : check theirs.headNode joined with
      | ok whole => rw [checked] at fails; cases fails
      | error first =>
        rw [checked] at fails
        cases fails
        exact isConflict_of_check owned checked

end Merging

end SelectionField

namespace Selection

open SelectionField

variable {mine theirs : Selection} {error : StatementError}

/-- Selections of a node can be merged exactly if no two of their fields clash. -/
theorem merge_eq_ok_iff (here : mine.node.name = theirs.node.name) (valid : mine.Valid)
    (valid' : theirs.Valid) : (∃ merged, mine.merge theirs = .ok merged) ↔
      ∀ field ∈ mine.fields, ∀ field' ∈ theirs.fields, ¬ Clash field field' := by
  constructor
  · rintro ⟨merged, merges⟩ field inside field' inside'
    obtain ⟨sound, -, first, second⟩ := merge_spec valid valid' merges
    obtain ⟨-, unique, each⟩ := validAll_iff.mp sound
    exact not_clash_of_included unique each (includesAll_iff.mp (includes_iff.mp first).2 _ inside)
      (includesAll_iff.mp (includes_iff.mp second).2 _ inside')
  · intro clear
    obtain ⟨joined, made, joint⟩ := mergeAll_of_clear (fun _ _ => mergeHead_of_clear) valid
      (here ▸ valid') clear
    refine ⟨⟨mine.node, joined⟩, ?_⟩
    rw [merge, if_neg (not_not.mpr here)]
    simp only [made, make, check_of_valid joint, Outcome.ok_bind, Outcome.pure_eq_ok]

/-- Selections of a node that cannot be merged use some key for two things. -/
theorem isConflict_of_merge (here : mine.node.name = theirs.node.name) (valid : mine.Valid)
    (valid' : theirs.Valid) (fails : mine.merge theirs = .error error) : IsConflict error := by
  obtain ⟨owners, -, sound⟩ := validAll_iff.mp valid
  obtain ⟨owners', -, sound'⟩ := validAll_iff.mp valid'
  rw [← here] at owners'
  rw [merge, if_neg (not_not.mpr here)] at fails
  cases below : mergeAll mine.fields theirs.fields with
  | error first =>
    simp only [below] at fails
    cases fails
    exact isConflict_of_mergeAll (fun _ _ => isConflict_of_mergeHead) sound sound' below
  | ok joined =>
    have owned := owner_of_mergeAll (fun field inside => ⟨sound field inside, owners field inside⟩)
      (fun field inside => ⟨sound' field inside, owners' field inside⟩) below
    rw [below, Outcome.ok_bind, make] at fails
    cases checked : check mine.node.name joined with
    | ok whole => rw [checked] at fails; cases fails
    | error first =>
      rw [checked] at fails
      cases fails
      exact isConflict_of_check owned checked

end Selection

end LiveQuery
