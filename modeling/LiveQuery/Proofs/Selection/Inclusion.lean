import LiveQuery.Proofs.Filter.Kept
import LiveQuery.Proofs.Selection.Merge

set_option autoImplicit false

namespace LiveQuery

namespace Window

variable {a b c : Option Predicate} {first second third : Window}

theorem sameFilter_symm (same : Predicate.sameHead a b = true) :
    Predicate.sameHead b a = true := by
  cases a <;> cases b
  case some.some => exact Predicate.same_symm same
  all_goals simp_all only [Predicate.sameHead, Bool.false_eq_true]

theorem sameFilter_trans (same : Predicate.sameHead a b = true)
    (same' : Predicate.sameHead b c = true) : Predicate.sameHead a c = true := by
  cases a <;> cases b <;> cases c
  case some.some.some => exact Predicate.same_trans same same'
  all_goals simp_all only [Predicate.sameHead, Bool.false_eq_true]

theorem same_symm (same : first.same second = true) : second.same first = true := by
  simp only [Window.same, Bool.and_eq_true, decide_eq_true_eq] at same ⊢
  exact ⟨⟨⟨sameFilter_symm same.1.1.1, same.1.1.2.symm⟩, same.1.2.symm⟩, same.2.symm⟩

theorem same_trans (same : first.same second = true) (same' : second.same third = true) :
    first.same third = true := by
  simp only [Window.same, Bool.and_eq_true, decide_eq_true_eq] at same same' ⊢
  exact ⟨⟨⟨sameFilter_trans same.1.1.1 same'.1.1.1, same.1.1.2.trans same'.1.1.2⟩,
    same.1.2.trans same'.1.2⟩, same.2.trans same'.2⟩

end Window

namespace SelectionField

variable {wide middle narrow mine theirs merged : SelectionField}
  {fields others : List SelectionField} {node : String}

theorem induction_head {motive : SelectionField → Prop}
    (step : ∀ field : SelectionField, (∀ inner ∈ field.head, motive inner) → motive field)
    (field : SelectionField) : motive field := by
  induction field with
  | leaf | count => exact step _ fun _ inside => absurd inside List.not_mem_nil
  | edge _ _ _ ih => exact step _ ih
  | unique _ _ _ ih => exact step _ ih
  | multiple _ _ _ _ ih => exact step _ ih

section Akin

theorem akin_symm (same : akin mine theirs = true) : akin theirs mine = true := by
  cases mine <;> cases theirs <;>
    simp only [akin, Bool.and_eq_true, decide_eq_true_eq, Bool.false_eq_true] at same ⊢
  case multiple.multiple => exact ⟨⟨same.1.1.symm, same.1.2.symm⟩, Window.same_symm same.2⟩
  case count.count => exact ⟨⟨same.1.1.symm, same.1.2.symm⟩, Window.sameFilter_symm same.2⟩
  all_goals exact ⟨same.1.symm, same.2.symm⟩

theorem akin_trans (same : akin wide middle = true) (same' : akin middle narrow = true) :
    akin wide narrow = true := by
  cases wide <;> cases middle <;>
    simp only [akin, Bool.and_eq_true, decide_eq_true_eq, Bool.false_eq_true] at same <;>
    cases narrow <;>
    simp only [akin, Bool.and_eq_true, decide_eq_true_eq, Bool.false_eq_true] at same' ⊢
  case multiple.multiple.multiple =>
    exact ⟨⟨same.1.1.trans same'.1.1, same.1.2.trans same'.1.2⟩, Window.same_trans same.2 same'.2⟩
  case count.count.count =>
    exact ⟨⟨same.1.1.trans same'.1.1, same.1.2.trans same'.1.2⟩,
      Window.sameFilter_trans same.2 same'.2⟩
  all_goals exact ⟨same.1.trans same'.1, same.2.trans same'.2⟩

theorem spec_of_akin (same : akin mine theirs = true) :
    mine.key = theirs.key ∧ mine.owner = theirs.owner ∧ mine.headNode = theirs.headNode := by
  cases mine <;> cases theirs <;>
    simp only [akin, Bool.and_eq_true, decide_eq_true_eq, Bool.false_eq_true] at same
  case multiple.multiple | count.count =>
    obtain ⟨⟨rfl, rfl⟩, -⟩ := same
    exact ⟨rfl, rfl, rfl⟩
  all_goals
    obtain ⟨rfl, rfl⟩ := same
    exact ⟨rfl, rfl, rfl⟩

theorem akin_withHead (head : List SelectionField) :
    akin (mine.withHead head) theirs = akin mine theirs := by
  cases mine <;> cases theirs <;> rfl

theorem akin_withHead_right (head : List SelectionField) :
    akin mine (theirs.withHead head) = akin mine theirs := by
  cases mine <;> cases theirs <;> rfl

end Akin

section Includes

theorem includes_eq :
    includes wide narrow = (akin wide narrow && includesAll wide.head narrow.head) := by
  cases narrow <;> simp only [includes, head, includesAll, Bool.and_true]

theorem akin_of_includes (includes : wide.includes narrow = true) : akin wide narrow = true := by
  rw [includes_eq, Bool.and_eq_true] at includes
  exact includes.1

theorem includesAll_iff : includesAll fields others = true ↔
    ∀ narrow ∈ others, ∃ wide ∈ fields, includes wide narrow = true := by
  induction others with
  | nil => simp [includesAll]
  | cons narrow rest ih =>
    rw [includesAll, Bool.and_eq_true, ih, List.any_eq_true, List.forall_mem_cons]

theorem includes_trans (first : includes wide middle = true)
    (second : includes middle narrow = true) : includes wide narrow = true := by
  induction narrow using induction_head generalizing wide middle with
  | step narrow ih =>
    rw [includes_eq, Bool.and_eq_true] at first second ⊢
    refine ⟨akin_trans first.1 second.1, includesAll_iff.mpr fun inner inside => ?_⟩
    obtain ⟨between, member, includes⟩ := includesAll_iff.mp second.2 inner inside
    obtain ⟨outer, member', includes'⟩ := includesAll_iff.mp first.2 between member
    exact ⟨outer, member', ih inner inside includes' includes⟩

theorem includesAll_trans {first second third : List SelectionField}
    (includes : includesAll first second = true) (includes' : includesAll second third = true) :
    includesAll first third = true := by
  refine includesAll_iff.mpr fun inner inside => ?_
  obtain ⟨between, member, below⟩ := includesAll_iff.mp includes' inner inside
  obtain ⟨outer, member', above⟩ := includesAll_iff.mp includes between member
  exact ⟨outer, member', includes_trans above below⟩

end Includes

section Valid

mutual

/-- Every list of heads under the field has fields of its node only and no key twice, and no window
holds a value that differs from itself. -/
def valid : SelectionField → Bool
  | .leaf _ _ => true
  | .edge _ link head => (fault? link.head [] head).isNone && validEach head
  | .unique _ relation head => (fault? relation.head [] head).isNone && validEach head
  | .multiple _ relation window head =>
    window.same window && ((fault? relation.head [] head).isNone && validEach head)
  | .count _ _ filter => Predicate.sameHead filter filter

def validEach : List SelectionField → Bool
  | [] => true
  | field :: rest => valid field && validEach rest

end

/-- Well-formed fields of a node. -/
def ValidAll (node : String) (fields : List SelectionField) : Prop :=
  fault? node [] fields = none ∧ ∀ field ∈ fields, field.valid = true

theorem validEach_iff : validEach fields = true ↔ ∀ field ∈ fields, field.valid = true := by
  induction fields with
  | nil => simp [validEach]
  | cons field rest ih => rw [validEach, Bool.and_eq_true, ih, List.forall_mem_cons]

theorem valid_iff : mine.valid = true ↔
    akin mine mine = true ∧ ValidAll mine.headNode mine.head := by
  cases mine <;>
    simp [valid, akin, ValidAll, headNode, head, fault?, validEach_iff, Option.isNone_iff_eq_none]

theorem fault?_eq_none_iff {seen : List String} : fault? node seen fields = none ↔
    (∀ field ∈ fields, field.owner = node) ∧ (fields.map key).Nodup ∧
      ∀ field ∈ fields, field.key ∉ seen := by
  induction fields generalizing seen with
  | nil => simp [fault?]
  | cons field rest ih =>
    rw [fault?, List.forall_mem_cons, List.forall_mem_cons, List.map_cons, List.nodup_cons]
    by_cases here : field.owner = node
    · by_cases taken : field.key ∈ seen
      · simp [here, taken]
      · have fresh_iff : (∀ other ∈ rest, other.key ∉ field.key :: seen) ↔
            field.key ∉ rest.map key ∧ ∀ other ∈ rest, other.key ∉ seen := by
          simp only [List.mem_cons, not_or, List.mem_map, not_exists, not_and]
          exact ⟨fun fresh => ⟨fun other inside => (fresh other inside).1,
            fun other inside => (fresh other inside).2⟩,
            fun both other inside => ⟨both.1 other inside, both.2 other inside⟩⟩
        simp only [here, ne_eq, not_true_eq_false, ↓reduceIte, List.contains_iff_mem, taken, ih,
          fresh_iff]
        tauto
    · simp [here]

theorem validAll_iff : ValidAll node fields ↔ (∀ field ∈ fields, field.owner = node) ∧
    (fields.map key).Nodup ∧ ∀ field ∈ fields, field.valid = true := by
  rw [ValidAll, fault?_eq_none_iff]
  simp [and_assoc]

theorem fault?_of_check {checked : List SelectionField} (passed : check node fields = .ok checked) :
    fault? node [] fields = none := by
  unfold check at passed
  cases fault : fault? node [] fields with
  | none => rfl
  | some error => rw [fault] at passed; cases passed

theorem check_of_valid (valid : ValidAll node fields) : check node fields = .ok fields := by
  rw [check, valid.1]

theorem includes_refl (valid : mine.valid = true) : includes mine mine = true := by
  induction mine using induction_head with
  | step mine ih =>
    obtain ⟨self, heads⟩ := valid_iff.mp valid
    rw [includes_eq, self, Bool.true_and]
    exact includesAll_iff.mpr fun inner inside =>
      ⟨inner, inside, ih inner inside (heads.2 inner inside)⟩

theorem includesAll_refl (valid : ∀ field ∈ fields, field.valid = true) :
    includesAll fields fields = true :=
  includesAll_iff.mpr fun field inside => ⟨field, inside, includes_refl (valid field inside)⟩

end Valid

section Merging

theorem splitAtAkin?_eq_none (absent : splitAtAkin? theirs fields = none) :
    ∀ mine ∈ fields, akin mine theirs = false := by
  induction fields with
  | nil => simp
  | cons field rest ih =>
    rw [splitAtAkin?] at absent
    by_cases same : akin field theirs = true
    · rw [if_pos same] at absent
      cases absent
    · rw [if_neg same, Option.map_eq_none_iff] at absent
      exact List.forall_mem_cons.mpr ⟨by simpa using same, ih absent⟩

theorem mergeHead_eq (same : akin mine theirs = true) :
    mergeHead mine theirs = do
      let joined ← mergeAll mine.head theirs.head
      return mine.withHead (← check theirs.headNode joined) := by
  cases theirs with
  | leaf | count =>
    cases mine <;> first | rfl | cases same
  | edge | unique | multiple => rw [mergeHead]; rfl

/-- The field that two akin ones are merged into includes both. -/
structure Joins (mine theirs merged : SelectionField) : Prop where
  valid : merged.valid = true
  mine : includes merged mine = true
  theirs : includes merged theirs = true

theorem mergeAll_spec_of
    (each : ∀ theirs ∈ others, ∀ {mine merged : SelectionField}, akin mine theirs = true →
      mine.valid = true → theirs.valid = true → mergeHead mine theirs = .ok merged →
      Joins mine theirs merged)
    (valid : ∀ field ∈ fields, field.valid = true) (valid' : ∀ field ∈ others, field.valid = true)
    {joined : List SelectionField} (merges : mergeAll fields others = .ok joined) :
    (∀ field ∈ joined, field.valid = true) ∧ includesAll joined fields = true ∧
      includesAll joined others = true := by
  induction others generalizing fields with
  | nil =>
    cases merges
    exact ⟨valid, includesAll_refl valid, rfl⟩
  | cons theirs rest ih =>
    rw [List.forall_mem_cons] at each valid'
    rw [mergeAll] at merges
    cases split : splitAtAkin? theirs fields with
    | none =>
      simp only [split] at merges
      obtain ⟨sound, mine, behind⟩ := ih each.2 (by
        simpa [or_imp, forall_and] using ⟨valid, valid'.1⟩) valid'.2 merges
      rw [includesAll_iff] at mine
      refine ⟨sound, includesAll_iff.mpr fun field inside => mine field (by simp [inside]), ?_⟩
      rw [includesAll, Bool.and_eq_true, List.any_eq_true]
      exact ⟨mine theirs (by simp), behind⟩
    | some parts =>
      obtain ⟨front, present, back⟩ := parts
      simp only [split] at merges
      obtain ⟨merged, head, merges⟩ := Outcome.bind_eq_ok.mp merges
      obtain ⟨rfl, same⟩ := splitAtAkin?_eq_some split
      have joins := each.1 same (valid present (by simp)) valid'.1 head
      have valid'' := Lists.forall_mem_replaced valid joins.valid
      obtain ⟨sound, mine, behind⟩ := ih each.2 valid'' valid'.2 merges
      have step : includesAll (front ++ merged :: back) (front ++ present :: back) = true := by
        have self := includesAll_iff.mp (includesAll_refl valid'')
        exact includesAll_iff.mpr
          (Lists.forall_mem_replaced self ⟨merged, by simp, joins.mine⟩)
      refine ⟨sound, includesAll_trans mine step, ?_⟩
      rw [includesAll, Bool.and_eq_true, List.any_eq_true]
      obtain ⟨outer, member, above⟩ := includesAll_iff.mp mine merged (by simp)
      exact ⟨⟨outer, member, includes_trans above joins.theirs⟩, behind⟩

theorem valid_withHead (valid : mine.valid = true) {head : List SelectionField}
    (heads : ValidAll mine.headNode head) : (mine.withHead head).valid = true := by
  cases mine with
  | leaf | count => exact valid
  | edge | unique =>
    rw [valid_iff] at valid ⊢
    exact ⟨by simpa only [withHead, akin] using valid.1, heads⟩
  | multiple =>
    rw [valid_iff] at valid ⊢
    exact ⟨by simpa only [withHead, akin] using valid.1, heads⟩

theorem includes_withHead {head : List SelectionField} (same : akin mine theirs = true)
    (heads : includesAll head theirs.head = true) :
    includes (mine.withHead head) theirs = true := by
  rw [includes_eq, akin_withHead, same, Bool.true_and]
  cases mine with
  | leaf | count => cases theirs <;> first | rfl | cases same
  | edge | unique | multiple => exact heads

theorem mergeHead_spec (same : akin mine theirs = true) (valid : mine.valid = true)
    (valid' : theirs.valid = true) (merges : mergeHead mine theirs = .ok merged) :
    Joins mine theirs merged := by
  induction theirs using induction_head generalizing mine merged with
  | step theirs ih =>
    rw [mergeHead_eq same] at merges
    obtain ⟨joined, below, merges⟩ := Outcome.bind_eq_ok.mp merges
    obtain ⟨checked, passed, merges⟩ := Outcome.bind_eq_ok.mp merges
    cases merges
    obtain rfl := check_eq_ok passed
    obtain ⟨self, heads⟩ := valid_iff.mp valid
    obtain ⟨-, heads'⟩ := valid_iff.mp valid'
    obtain ⟨sound, includes, includes'⟩ := mergeAll_spec_of
      (fun field inside => ih field inside) heads.2 heads'.2 below
    have fault := fault?_of_check passed
    rw [← (spec_of_akin same).2.2] at fault
    exact ⟨valid_withHead valid ⟨fault, sound⟩, includes_withHead self includes,
      includes_withHead same includes'⟩

theorem eq_of_included {outer : List SelectionField} (unique : (outer.map key).Nodup)
    {wide wide' : SelectionField} (inside : wide ∈ outer) (inside' : wide' ∈ outer)
    (above : wide.includes mine = true) (above' : wide'.includes theirs = true)
    (keys : mine.key = theirs.key) : wide = wide' := by
  refine List.inj_on_of_nodup_map unique inside inside' ?_
  rw [(spec_of_akin (akin_of_includes above)).1, (spec_of_akin (akin_of_includes above')).1, keys]

theorem akin_of_included {outer : List SelectionField} (unique : (outer.map key).Nodup)
    (above : ∃ wide ∈ outer, wide.includes mine = true)
    (above' : ∃ wide ∈ outer, wide.includes theirs = true) (keys : mine.key = theirs.key) :
    akin mine theirs = true := by
  obtain ⟨wide, inside, includes⟩ := above
  obtain ⟨wide', inside', includes'⟩ := above'
  obtain rfl := eq_of_included unique inside inside' includes includes' keys
  exact akin_trans (akin_symm (akin_of_includes includes)) (akin_of_includes includes')

theorem mergeAll_of_included {outer : List SelectionField}
    (each : ∀ theirs ∈ others, ∀ {wide mine : SelectionField}, wide.valid = true →
      mine.valid = true → theirs.valid = true → wide.includes mine = true →
      wide.includes theirs = true →
      ∃ merged, mergeHead mine theirs = .ok merged ∧ wide.includes merged = true)
    (sound : ∀ wide ∈ outer, wide.valid = true) (unique : (outer.map key).Nodup)
    (valid : ValidAll node fields)
    (valid' : ∀ theirs ∈ others, theirs.owner = node ∧ theirs.valid = true)
    (includes : includesAll outer fields = true) (includes' : includesAll outer others = true) :
    ∃ joined, mergeAll fields others = .ok joined ∧ ValidAll node joined ∧
      includesAll outer joined = true := by
  induction others generalizing fields with
  | nil => exact ⟨fields, rfl, valid, includes⟩
  | cons theirs rest ih =>
    rw [List.forall_mem_cons] at each valid'
    rw [includesAll_iff] at includes includes'
    rw [List.forall_mem_cons, ← includesAll_iff] at includes'
    obtain ⟨owners, apart, valids⟩ := validAll_iff.mp valid
    rw [mergeAll]
    cases split : splitAtAkin? theirs fields with
    | none =>
      have differs := splitAtAkin?_eq_none split
      have fresh : ∀ field ∈ fields, field.key ≠ theirs.key := by
        intro field inside keys
        have same := akin_of_included unique (includes field inside) includes'.1 keys
        rw [differs field inside] at same
        cases same
      refine ih each.2 (validAll_iff.mpr ⟨?_, ?_, ?_⟩) valid'.2 ?_ includes'.2
      · simpa [or_imp, forall_and] using ⟨owners, valid'.1.1⟩
      · rw [List.map_append, List.map_singleton]
        refine List.nodup_append.mpr ⟨apart, List.nodup_singleton _, ?_⟩
        simpa using fresh
      · simpa [or_imp, forall_and] using ⟨valids, valid'.1.2⟩
      · rw [includesAll_iff]
        simpa [or_imp, forall_and] using ⟨includes, includes'.1⟩
    | some parts =>
      obtain ⟨front, present, back⟩ := parts
      obtain ⟨rfl, same⟩ := splitAtAkin?_eq_some split
      obtain ⟨wide, inside, above⟩ := includes present (by simp)
      obtain ⟨wide', inside', above'⟩ := includes'.1
      obtain rfl := eq_of_included unique inside inside' above above' (spec_of_akin same).1
      have valid_present := valids present (by simp)
      obtain ⟨merged, made, covers⟩ :=
        each.1 (sound wide inside) valid_present valid'.1.2 above above'
      have joins := mergeHead_spec same valid_present valid'.1.2 made
      have kept := spec_of_akin (akin_of_includes joins.mine)
      simp only [made, Outcome.ok_bind]
      refine ih each.2 (validAll_iff.mpr ⟨?_, ?_, ?_⟩) valid'.2 ?_ includes'.2
      · exact Lists.forall_mem_replaced owners (kept.2.1.trans (owners present (by simp)))
      · simpa [kept.1] using apart
      · exact Lists.forall_mem_replaced valids joins.valid
      · exact includesAll_iff.mpr
          (Lists.forall_mem_replaced includes ⟨wide, inside, covers⟩)

/-- What a well-formed field includes can be merged under it. -/
theorem mergeHead_of_included (sound : wide.valid = true) (valid : mine.valid = true)
    (valid' : theirs.valid = true) (includes : wide.includes mine = true)
    (includes' : wide.includes theirs = true) :
    ∃ merged, mergeHead mine theirs = .ok merged ∧ wide.includes merged = true := by
  induction theirs using induction_head generalizing wide mine with
  | step theirs ih =>
    have first := akin_of_includes includes
    have second := akin_of_includes includes'
    have same := akin_trans (akin_symm first) second
    rw [includes_eq, Bool.and_eq_true] at includes includes'
    obtain ⟨self, heads⟩ := valid_iff.mp valid
    obtain ⟨-, heads'⟩ := valid_iff.mp valid'
    obtain ⟨-, outer⟩ := valid_iff.mp sound
    obtain ⟨-, unique, sound⟩ := validAll_iff.mp outer
    obtain ⟨owners', -, valids'⟩ := validAll_iff.mp heads'
    have headNode := (spec_of_akin same).2.2
    obtain ⟨joined, made, joint, above⟩ := mergeAll_of_included
      (fun field inside => ih field inside) sound unique heads
      (fun field inside => ⟨(owners' field inside).trans headNode.symm, valids' field inside⟩)
      includes.2 includes'.2
    refine ⟨mine.withHead joined, ?_, ?_⟩
    · rw [mergeHead_eq same, made, Outcome.ok_bind, ← headNode, check_of_valid joint]
      rfl
    · rw [includes_eq, akin_withHead_right, first, Bool.true_and]
      cases mine with
      | leaf | count => rfl
      | edge | unique | multiple => exact above

end Merging

theorem valid_headIdentifier {catalog : Catalog} {link : Edge} {head : Node}
    {fields : List SelectionField} (found : catalog.edgeHead link = .ok head)
    (made : headIdentifier head = .ok fields) : (edge link.name link fields).valid = true := by
  have named : head.name = link.head := by
    unfold Catalog.edgeHead Catalog.node at found
    cases known : catalog.node? link.head with
    | none => rw [known] at found; cases found
    | some node =>
      rw [known] at found
      cases found
      exact Catalog.name_of_node? known
  unfold headIdentifier at made
  obtain ⟨listed, mapped, passed⟩ := Outcome.bind_eq_ok.mp made
  obtain rfl := check_eq_ok passed
  have sound : ∀ field ∈ fields, field.valid = true := by
    intro field inside
    obtain ⟨component, -, made⟩ := Outcome.exists_of_mem_mapM mapped inside
    cases component with
    | leaf leaf => cases made; rfl
    | edge link => cases made
  rw [valid, Bool.and_eq_true, Option.isNone_iff_eq_none, validEach_iff, ← named]
  exact ⟨fault?_of_check passed, sound⟩

end SelectionField

namespace Selection

variable {wide middle narrow mine theirs merged : Selection}

/-- A selection as they are made: its fields are fields of its node, and no two have one key. -/
def Valid (selection : Selection) : Prop :=
  SelectionField.ValidAll selection.node.name selection.fields

theorem includes_iff : wide.includes narrow = true ↔ wide.node.name = narrow.node.name ∧
    SelectionField.includesAll wide.fields narrow.fields = true := by
  rw [includes, Bool.and_eq_true, decide_eq_true_iff]

theorem includes_refl (valid : wide.Valid) : wide.includes wide = true :=
  includes_iff.mpr ⟨rfl, SelectionField.includesAll_refl valid.2⟩

theorem includes_trans (first : wide.includes middle = true)
    (second : middle.includes narrow = true) : wide.includes narrow = true := by
  rw [includes_iff] at first second ⊢
  exact ⟨first.1.trans second.1, SelectionField.includesAll_trans first.2 second.2⟩

/-- A merged selection is well-formed and includes both that were merged. -/
theorem merge_spec (valid : mine.Valid) (valid' : theirs.Valid)
    (merges : mine.merge theirs = .ok merged) :
    merged.Valid ∧ merged.node = mine.node ∧ merged.includes mine = true ∧
      merged.includes theirs = true := by
  unfold merge at merges
  by_cases apart : mine.node.name ≠ theirs.node.name
  · rw [if_pos apart] at merges
    cases merges
  · rw [if_neg apart] at merges
    obtain ⟨fields, joined, made⟩ := Outcome.bind_eq_ok.mp merges
    obtain ⟨checked, passed, made⟩ := Outcome.bind_eq_ok.mp made
    cases made
    obtain rfl := SelectionField.check_eq_ok passed
    obtain ⟨sound, includes, includes'⟩ := SelectionField.mergeAll_spec_of
      (fun _ _ => SelectionField.mergeHead_spec) valid.2 valid'.2 joined
    refine ⟨⟨?_, sound⟩, rfl, includes_iff.mpr ⟨rfl, includes⟩,
      includes_iff.mpr ⟨not_not.mp apart, includes'⟩⟩
    exact SelectionField.fault?_of_check passed

/-- Whatever two selections one well-formed selection includes, they can be merged. -/
theorem merge_of_included (sound : wide.Valid) (valid : mine.Valid) (valid' : theirs.Valid)
    (includes : wide.includes mine = true) (includes' : wide.includes theirs = true) :
    ∃ merged, mine.merge theirs = .ok merged := by
  rw [includes_iff] at includes includes'
  have here : mine.node.name = theirs.node.name := includes.1.symm.trans includes'.1
  obtain ⟨-, unique, sound⟩ := SelectionField.validAll_iff.mp sound
  obtain ⟨owners', -, valids'⟩ := SelectionField.validAll_iff.mp valid'
  obtain ⟨joined, made, joint, -⟩ := SelectionField.mergeAll_of_included
    (fun _ _ => SelectionField.mergeHead_of_included) sound unique valid
    (fun field inside => ⟨(owners' field inside).trans here.symm, valids' field inside⟩)
    includes.2 includes'.2
  refine ⟨⟨mine.node, joined⟩, ?_⟩
  rw [merge, if_neg (not_not.mpr here)]
  simp only [made, make, SelectionField.check_of_valid joint, Outcome.ok_bind, Outcome.pure_eq_ok]

/-- The selection of an identifier is well-formed. -/
theorem identifier_valid {catalog : Catalog} {node : Node} {selection : Selection}
    (identified : identifier catalog node = .ok selection) :
    selection.node = node ∧ selection.Valid := by
  unfold identifier at identified
  obtain ⟨fields, made, identified⟩ := Outcome.bind_eq_ok.mp identified
  cases identified
  refine ⟨rfl, ?_⟩
  unfold SelectionField.identifier at made
  obtain ⟨listed, mapped, passed⟩ := Outcome.bind_eq_ok.mp made
  obtain rfl := SelectionField.check_eq_ok passed
  refine ⟨SelectionField.fault?_of_check passed, fun field inside => ?_⟩
  obtain ⟨component, -, made⟩ := Outcome.exists_of_mem_mapM mapped inside
  cases component with
  | leaf leaf =>
    cases made
    rfl
  | edge link =>
    obtain ⟨head, lifted, made⟩ := Outcome.bind_eq_ok.mp made
    obtain ⟨heads, below, made⟩ := Outcome.bind_eq_ok.mp made
    cases made
    cases found : catalog.edgeHead link with
    | error error => rw [found] at lifted; cases lifted
    | ok known =>
      rw [found] at lifted
      cases lifted
      exact SelectionField.valid_headIdentifier found below

end Selection

end LiveQuery
