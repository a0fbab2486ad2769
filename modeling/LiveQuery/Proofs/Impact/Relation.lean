import LiveQuery.Proofs.Impact.Covering

set_option autoImplicit false

namespace LiveQuery

section Listed

variable {node : String} {relation : ReverseEdge} {record inner : Record} {value : Value}
  {heads : List Record} {result : Predicate}

/-- A condition on the heads of a relation is met where one of the listed heads meets it. -/
theorem Predicate.evaluate_reverse_listed (known : record.get? relation.name = some value)
    (lists : relation.Lists value heads)
    (settled : ∀ inner ∈ heads, Settled relation.head result inner) :
    Settled node (.reverse relation (some result)) record ∧
      ∀ inner ∈ heads, evaluate relation.head result inner = .ok true →
        evaluate node (.reverse relation (some result)) record = .ok true := by
  have each : List.Forall₂ (fun row head => evaluate relation.head result head =
      .ok (decide (evaluate relation.head result row = .ok true))) heads heads := by
    refine List.forall₂_same.mpr fun inner inside => ?_
    obtain ⟨answer, evaluated⟩ := (settled inner inside).evaluates
    cases answer <;> simp [evaluated]
  have tested : testRelation node relation (evaluateHead relation.head (some result)) value =
      .ok (heads.any fun inner => decide (evaluate relation.head result inner = .ok true)) :=
    lists.testRelation_eq each
  refine ⟨⟨⟨_, evaluate_reverse_eq_ok.mpr ⟨value, known, tested⟩⟩, ?_⟩, ?_⟩
  · intro value' known' inner held
    rw [known] at known'
    cases known'
    exact (settled inner (lists.mem_of_holdsHead held)).respected
  · intro inner inside matched
    refine evaluate_reverse_eq_ok.mpr ⟨value, known, ?_⟩
    rw [tested, List.any_eq_true.mpr ⟨inner, inside, decide_eq_true matched⟩]

end Listed

section Parents

variable {catalog : Catalog} {change : Change} {node head : Node} {relation : ReverseEdge}

/-- Each reference of a change gives the predicate for the instance that it refers to. -/
theorem parentOf_spec (wellFormed : catalog.WellFormed)
    (relates : catalog.Relates node relation head) {value : Value}
    (refers : value = .null ∨ ∃ reference, value = .record reference ∧
      catalog.Identifies relation.edge reference) :
    ∃ results, Predicate.parentOf catalog node value = .ok results ∧
      (∀ result ∈ results, ∀ record, catalog.Names node record →
        Predicate.Settled node.name result record) ∧
      ∀ reference, value = .record reference → ∃ result ∈ results,
        ∀ record, catalog.Names node record → node.key record = node.key reference →
          result.evaluate node.name record = .ok true := by
  rcases refers with rfl | ⟨reference, rfl, identifies⟩
  · exact ⟨[], rfl, fun _ inside => absurd inside List.not_mem_nil, fun _ same => by cases same⟩
  · obtain ⟨filter, identified, -, spec⟩ :=
      Filter.identifier_spec wellFormed relates.owner (relates.leads.names identifies)
    refine ⟨[filter.predicate], ?_, fun result inside record names => ?_, fun other same => ?_⟩
    · simp only [Predicate.parentOf, identified]
      rfl
    · rw [List.mem_singleton.mp inside]
      exact ⟨⟨_, (spec record names).1⟩, (spec record names).2⟩
    · cases same
      refine ⟨_, List.mem_singleton_self _, fun record names key => ?_⟩
      rw [(spec record names).1, decide_eq_true key]

/-- What a change tells of the edge behind a relation, before it and after it. -/
def Change.references (change : Change) (relation : ReverseEdge) : List Value :=
  (change.valuesOf relation.edge.name).1.toList ++ (change.valuesOf relation.edge.name).2.toList

theorem Change.mem_references {value : Value} : value ∈ change.references relation ↔
    (change.valuesOf relation.edge.name).1 = some value ∨
      (change.valuesOf relation.edge.name).2 = some value := by
  unfold Change.references
  rw [List.mem_append, Option.mem_toList, Option.mem_toList]

/-- The parents that a change tells of, each recognised by one predicate. -/
theorem parents_spec (wellFormed : catalog.WellFormed) (sound : change.Sound catalog)
    (relates : catalog.Relates node relation change.node) :
    ∃ parents, (change.references relation).mapM (Predicate.parentOf catalog node) = .ok parents ∧
      (∀ result ∈ parents.flatten, ∀ record, catalog.Names node record →
        Predicate.Settled node.name result record) ∧
      ∀ reference, .record reference ∈ change.references relation →
        ∃ result ∈ parents.flatten, ∀ record, catalog.Names node record →
          node.key record = node.key reference → result.evaluate node.name record = .ok true := by
  have each : ∀ value ∈ change.references relation, value = .null ∨
      ∃ reference, value = .record reference ∧ catalog.Identifies relation.edge reference :=
    fun value inside =>
      sound.references relation.edge relates.inside value (Change.mem_references.mp inside)
  obtain ⟨parents, mapped, origin, image⟩ := Outcome.mapM_eq_ok fun value inside =>
    (parentOf_spec wellFormed relates (each value inside)).imp fun _ found => found.1
  refine ⟨parents, mapped, fun result inside record names => ?_, fun reference told => ?_⟩
  · obtain ⟨results, member, inside⟩ := List.mem_flatten.mp inside
    obtain ⟨value, told, parent⟩ := origin results member
    obtain ⟨results', parent', settled, -⟩ := parentOf_spec wellFormed relates (each value told)
    rw [parent] at parent'
    cases parent'
    exact settled result inside record names
  · obtain ⟨results, member, parent⟩ := image _ told
    obtain ⟨results', parent', -, matched⟩ := parentOf_spec wellFormed relates (each _ told)
    rw [parent] at parent'
    cases parent'
    obtain ⟨result, inside, recognised⟩ := matched reference rfl
    exact ⟨result, List.mem_flatten.mpr ⟨results, member, inside⟩, recognised⟩

/-- Unless a value is missing, the change tells what the row before it and the row behind it have
under a component. -/
theorem told_of_not_lacksValue {component : String} {old new : Option Record}
    (carries : node.Carries change.transition old new)
    (tells : Predicate.lacksValue component change = false) :
    (∀ row, old = some row → ∃ value, (change.valuesOf component).1 = some value) ∧
      ∀ row, new = some row → ∃ value, (change.valuesOf component).2 = some value := by
  unfold Predicate.lacksValue at tells
  generalize change.valuesOf component = values at tells
  obtain ⟨earlier, later⟩ := values
  generalize change.transition = transition at carries tells
  cases carries <;> cases earlier <;> cases later <;> simp_all

theorem Catalog.Relates.reference_of_refers (relates : catalog.Relates node relation head)
    {row child : Record} {value : Value} (stored : child.get? relation.edge.name = some value)
    (refers : relation.edge.refers child row = true) :
    ∃ reference, value = .record reference ∧ node.key row = node.key reference := by
  obtain ⟨target, leads, columns⟩ := Edge.refers_iff.mp refers
  unfold Edge.target at leads
  rw [stored] at leads
  cases value with
  | record reference =>
    exact ⟨reference, rfl, relates.leads.key_eq_iff.mpr (columns.trans leads.symm)⟩
  | _ => cases leads

theorem Change.Replaces.reference_before {before after : Store} {front back : List Record}
    {old new : Option Record} {row child : Record}
    (replaces : change.Replaces catalog before after front back old new)
    (relates : catalog.Relates node relation change.node)
    (tells : Predicate.lacksValue relation.edge.name change = false) (there : old = some child)
    (refers : relation.edge.refers child row = true) :
    ∃ reference, .record reference ∈ change.references relation ∧
      node.key row = node.key reference := by
  obtain ⟨value, told⟩ := (told_of_not_lacksValue replaces.carries tells).1 child there
  obtain ⟨_, same, stored⟩ := replaces.value_before relates.inside told
  rw [there, Option.some.injEq] at same
  subst same
  obtain ⟨target, rfl, found⟩ := relates.reference_of_refers stored refers
  exact ⟨target, Change.mem_references.mpr (Or.inl told), found⟩

theorem Change.Replaces.reference_after {before after : Store} {front back : List Record}
    {old new : Option Record} {row child : Record}
    (replaces : change.Replaces catalog before after front back old new)
    (relates : catalog.Relates node relation change.node)
    (tells : Predicate.lacksValue relation.edge.name change = false) (there : new = some child)
    (refers : relation.edge.refers child row = true) :
    ∃ reference, .record reference ∈ change.references relation ∧
      node.key row = node.key reference := by
  obtain ⟨value, told⟩ := (told_of_not_lacksValue replaces.carries tells).2 child there
  obtain ⟨_, same, stored⟩ := replaces.value_after relates.inside told
  rw [there, Option.some.injEq] at same
  subst same
  obtain ⟨target, rfl, found⟩ := relates.reference_of_refers stored refers
  exact ⟨target, Change.mem_references.mpr (Or.inr told), found⟩

theorem Change.Splits.reference_of_meets {before after : Store} {front back : List Record}
    {old new : Option Record} {row row' : Record}
    (splits : change.Splits catalog before after front back old new)
    (relates : catalog.Relates node relation change.node)
    (tells : Predicate.lacksValue relation.edge.name change = false)
    (key : node.key row = node.key row') (meets : relation.Meets old new row row') :
    ∃ reference, .record reference ∈ change.references relation ∧
      node.key row = node.key reference := by
  rcases meets with ⟨child, there, refers⟩ | ⟨child, there, refers⟩
  · exact splits.toReplaces.reference_before relates tells there refers
  · obtain ⟨reference, told, found⟩ :=
      splits.toReplaces.reference_after relates tells there refers
    exact ⟨reference, told, key.trans found⟩

end Parents

section Covering

variable {catalog : Catalog} {change : Change} {node head : Node} {relation : ReverseEdge}
  {view : View} {kept : Kept} {results : List Predicate}

theorem View.exists_inner {store : Store} {row record child : Record}
    (shown : View.children relation view store row record)
    (inside : child ∈ store.children relation row) :
    ∃ value heads inner, record.get? relation.name = some value ∧ relation.Lists value heads ∧
      (∀ head ∈ heads, ∃ other, view store other head) ∧ inner ∈ heads ∧ view store child inner := by
  obtain ⟨value, rows, heads, known, lists, permuted, paired⟩ := shown
  obtain ⟨inner, member, seen⟩ := Lists.exists_right_of_forall₂ paired (permuted.mem_iff.mpr inside)
  refine ⟨value, heads, inner, known, lists, fun other listed => ?_, member, seen⟩
  obtain ⟨origin, -, seen⟩ := Lists.exists_left_of_forall₂ paired listed
  exact ⟨origin, seen⟩

theorem Covers.settled_reverse (relates : catalog.Relates node relation head)
    (below : Covers catalog change head view kept results) {store : Store} {row record : Record}
    (shown : View.children relation view store row record) :
    ∀ result ∈ results, Predicate.Settled node.name (.reverse relation (some result)) record := by
  intro result inside
  obtain ⟨value, rows, heads, known, lists, -, paired⟩ := shown
  refine (Predicate.evaluate_reverse_listed known lists fun inner listed => ?_).1
  obtain ⟨child, -, seen⟩ := Lists.exists_left_of_forall₂ paired listed
  exact relates.name ▸ below.settled seen result inside

/-- What is lost of some child is detected through the relation by the result that detects it. -/
theorem Covers.detects_reverse (relates : catalog.Relates node relation head)
    (below : Covers catalog change head view kept results) {before after : Store}
    {row row' child child' record : Record} (transit : Transit catalog change before after)
    (inside : child ∈ before.children relation row)
    (inside' : child' ∈ after.children relation row')
    (persists : Persists head before after child child')
    (lost : ¬kept before after child child')
    (shown : View.children relation view before row record ∨
      View.children relation view after row' record) :
    ∃ result ∈ results, ∃ inner, (view before child inner ∨ view after child' inner) ∧
      result.evaluate head.name inner = .ok true ∧
        (Predicate.reverse relation (some result)).evaluate node.name record = .ok true := by
  have found : ∃ value heads inner, record.get? relation.name = some value ∧
      relation.Lists value heads ∧
      (∀ head ∈ heads, ∃ store other, view store other head) ∧ inner ∈ heads ∧
        (view before child inner ∨ view after child' inner) := by
    rcases shown with shown | shown
    · obtain ⟨value, heads, inner, known, lists, seen, member, here⟩ :=
        View.exists_inner shown inside
      exact ⟨value, heads, inner, known, lists, fun head listed => ⟨before, seen head listed⟩,
        member, Or.inl here⟩
    · obtain ⟨value, heads, inner, known, lists, seen, member, here⟩ :=
        View.exists_inner shown inside'
      exact ⟨value, heads, inner, known, lists, fun head listed => ⟨after, seen head listed⟩,
        member, Or.inr here⟩
  obtain ⟨value, heads, inner, known, lists, seen, member, here⟩ := found
  obtain ⟨result, listed, matched⟩ := below.detects transit persists lost here
  refine ⟨result, listed, inner, here, matched, ?_⟩
  refine (Predicate.evaluate_reverse_listed known lists fun inner listed' => ?_).2 inner member
    (relates.name ▸ matched)
  obtain ⟨store, other, seen⟩ := seen inner listed'
  exact relates.name ▸ below.settled seen result listed

theorem throughReverse_eq (relates : catalog.Relates node relation head) :
    Predicate.throughReverse catalog node relation results change =
      if Predicate.changesComponent head.name relation.edge.name change then
        if Predicate.lacksValue relation.edge.name change then .ok [.constant true]
        else do
          let parents ← (change.references relation).mapM (Predicate.parentOf catalog node)
          let child ← Predicate.changedInstance catalog head change
          return parents.flatten ++
            (results.filter (child != ·)).map fun result => .reverse relation (some result)
      else .ok (results.map fun result => .reverse relation (some result)) := by
  unfold Predicate.throughReverse
  rw [relates.reverseEdgeHead_eq]
  rfl

theorem Predicate.here_of_changesComponent (sound : change.Sound catalog)
    (found : catalog.node? node.name = some node) {component : String}
    (changes : changesComponent node.name component change = true) : node = change.node := by
  unfold changesComponent at changes
  rw [Bool.and_eq_true, decide_eq_true_iff] at changes
  exact Catalog.eq_of_name_eq found sound.node changes.1.symm

theorem Covers.reverse_unmoved (relates : catalog.Relates node relation head)
    (below : Covers catalog change head view kept results)
    (unmoved : ¬Predicate.changesComponent head.name relation.edge.name change = true) :
    Covers catalog change node (.children relation view) (.children relation head kept)
      (results.map fun result => .reverse relation (some result)) := by
  refine ⟨fun _ _ _ shown => List.forall_mem_map.mpr (below.settled_reverse relates shown), ?_⟩
  intro before after row row' transit persists lost record shown
  obtain ⟨front, back, old, new, splits⟩ := transit.splits
  rcases transit.children_cases splits relates persists with ⟨-, moved, -⟩ | stays
  · exact absurd moved unmoved
  · obtain ⟨child, inside, child', inside', stays, lost⟩ := Lists.exists_of_not_forall₂ stays lost
    obtain ⟨result, listed, -, -, -, matched⟩ := below.detects_reverse relates transit inside
      inside' stays.1 (fun kept => lost ⟨stays.1, kept⟩) shown
    exact ⟨_, List.mem_map_of_mem listed, matched⟩

theorem Predicate.bne_of_evaluate {node : String} {child result : Predicate} {record : Record}
    (other : evaluate node child record = .ok false)
    (matched : evaluate node result record = .ok true) : (child != result) = true := by
  cases equal : same child result with
  | false => exact congrArg (!·) equal
  | true =>
    rw [evaluate_of_same equal, matched] at other
    cases other

/-- Where the changed child comes, goes or moves, its parents cover that, and results on it can be
left out. -/
theorem Covers.reverse_moved (wellFormed : catalog.WellFormed) (sound : change.Sound catalog)
    (relates : catalog.Relates node relation change.node)
    (below : Covers catalog change change.node view kept results)
    (named : results ≠ [] → ∀ ⦃store row record⦄, view store row record →
      View.identified catalog change.node.name store row record)
    (moved : Predicate.changesComponent change.node.name relation.edge.name change = true)
    (tells : Predicate.lacksValue relation.edge.name change = false) :
    ∃ parents child, (change.references relation).mapM (Predicate.parentOf catalog node) =
        .ok parents ∧
      Predicate.changedInstance catalog change.node change = .ok child ∧
      Covers catalog change node
        (.both (.identified catalog node.name) (.children relation view))
        (.children relation change.node kept)
        (parents.flatten ++
          (results.filter (child != ·)).map fun result => .reverse relation (some result)) := by
  obtain ⟨parents, mapped, settled, recognised⟩ := parents_spec wellFormed sound relates
  obtain ⟨child, identified, spec⟩ := sound.changedInstance_spec wellFormed
  refine ⟨parents, child, mapped, identified, ?_, ?_⟩
  · rintro store row record ⟨named, shown⟩
    refine List.forall_mem_append.mpr ⟨fun result inside =>
      settled result inside record (named _ relates.owner).1, List.forall_mem_map.mpr ?_⟩
    exact fun result inside =>
      below.settled_reverse relates shown result (List.mem_filter.mp inside).1
  · intro before after row row' transit persists lost record shown
    have names : catalog.Names node record ∧ node.key record = node.key row :=
      shown.elim (fun here => here.1 _ relates.owner) fun here =>
        ⟨(here.1 _ relates.owner).1, (here.1 _ relates.owner).2.trans persists.key.symm⟩
    obtain ⟨front, back, old, new, splits⟩ := transit.splits
    rcases transit.children_cases splits relates persists with ⟨-, -, meets⟩ | stays
    · obtain ⟨reference, told, key⟩ :=
        splits.reference_of_meets relates tells persists.key meets
      obtain ⟨result, inside, matched⟩ := recognised reference told
      exact ⟨result, List.mem_append_left _ inside, matched record names.1 (names.2.trans key)⟩
    · obtain ⟨other, inside, other', inside', ⟨stays, apart⟩, lost⟩ :=
        Lists.exists_of_not_forall₂ stays lost
      obtain ⟨result, listed, inner, seen, matched, found⟩ := below.detects_reverse relates
        transit inside inside' stays (fun kept => lost ⟨stays, kept⟩) (shown.imp (·.2) (·.2))
      have some : results ≠ [] := List.ne_nil_of_mem listed
      have inner_names : catalog.Names change.node inner ∧
          change.node.key inner = change.node.key other :=
        seen.elim (fun here => named some here _ sound.node) fun here =>
          ⟨(named some here _ sound.node).1,
            (named some here _ sound.node).2.trans stays.key.symm⟩
      -- the result cannot be the one left out, which matches the changed instance only
      have unequal : child.evaluate change.node.name inner = .ok false := by
        rw [(spec inner inner_names.1).1, inner_names.2, decide_eq_false (apart moved)]
      refine ⟨_, List.mem_append_right _ (List.mem_map_of_mem (List.mem_filter.mpr ⟨listed, ?_⟩)),
        found⟩
      exact Predicate.bne_of_evaluate unequal matched

/-- What a change does to the rows behind a reverse edge is covered. -/
theorem throughReverse_spec (wellFormed : catalog.WellFormed) (sound : change.Sound catalog)
    (relates : catalog.Relates node relation head)
    (below : Covers catalog change head view kept results)
    (named : results ≠ [] → ∀ ⦃store row record⦄, view store row record →
      View.identified catalog head.name store row record) :
    ∃ through, Predicate.throughReverse catalog node relation results change = .ok through ∧
      (through ≠ [] →
        Predicate.changesComponent head.name relation.edge.name change = true ∨ results ≠ []) ∧
      Covers catalog change node
        (.both (.identified catalog node.name) (.children relation view))
        (.children relation head kept) through := by
  rw [throughReverse_eq relates]
  by_cases moved : Predicate.changesComponent head.name relation.edge.name change = true
  · rw [if_pos moved]
    cases tells : Predicate.lacksValue relation.edge.name change with
    | true => exact ⟨_, rfl, fun _ => Or.inl moved, Covers.anything⟩
    | false =>
      obtain rfl := Predicate.here_of_changesComponent sound relates.found moved
      obtain ⟨parents, child, mapped, identified, covers⟩ :=
        below.reverse_moved wellFormed sound relates named moved tells
      refine ⟨_, ?_, fun _ => Or.inl moved, covers⟩
      simp only [Bool.false_eq_true, ↓reduceIte, mapped, identified, Outcome.ok_bind,
        Outcome.pure_eq_ok]
  · rw [if_neg moved]
    refine ⟨_, rfl, fun found => Or.inr fun none => found (by rw [none]; rfl), ?_⟩
    exact (below.reverse_unmoved relates moved).narrow fun _ _ _ shown => shown.2

end Covering

end LiveQuery
