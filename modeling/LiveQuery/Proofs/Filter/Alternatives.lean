import LiveQuery.Proofs.Filter.Composition
import LiveQuery.Proofs.Filter.Identifier

set_option autoImplicit false

namespace LiveQuery

theorem Junction.any_ne_all : Junction.any ≠ Junction.all := nofun

namespace Predicate

/-- A condition that is no constant, no junction and no negation. -/
structure IsSingle (predicate : Predicate) : Prop where
  stays : ∀ kind, predicate.Stays kind
  positive : ∀ inner, predicate ≠ .negation inner

theorem isSingle_leaf (field : Leaf) (operator : LeafOperator) (value : Value) :
    (leaf field operator value).IsSingle :=
  ⟨fun _ => ⟨nofun, nofun⟩, nofun⟩

theorem isSingle_edge (link : Edge) (head : Option Predicate) : (edge link head).IsSingle :=
  ⟨fun _ => ⟨nofun, nofun⟩, nofun⟩

/-- A condition that goes to the head of an edge, in whatever junctions it does so. -/
inductive Visits (link : Edge) : Predicate → Prop
  | edge {head : Predicate} : Visits link (.edge link (some head))
  | junction {kind : Junction} {operands : List Predicate} {operand : Predicate}
      (inside : operand ∈ operands) (visits : Visits link operand) :
      Visits link (.junction kind operands)

section Junctions

variable {kind : Junction} {operands others front back : List Predicate}
  {operand first predicate : Predicate} {link : Edge}

theorem contradicts_of_positive
    (positive : ∀ operand ∈ operands, ∀ inner, operand ≠ .negation inner) :
    contradicts operands = false := by
  refine Bool.eq_false_iff.mpr fun found => ?_
  obtain ⟨inner, negated, -⟩ := contradicts_eq_true_iff.mp found
  exact positive _ negated inner rfl

theorem joinReduced_of_stays (stay : ∀ operand ∈ operands, operand.Stays kind)
    (positive : ∀ operand ∈ operands, ∀ inner, operand ≠ .negation inner) :
    joinReduced kind operands = assemble kind (distinct operands) := by
  have kept := varying_of_stays stay
  rw [joinReduced_of_open (absorbed_of_stays stay), kept]
  rw [kept]
  exact contradicts_of_positive positive

theorem joinReduced_of_same (known : first ∈ front) (same : first.same operand = true)
    (stays : first.Stays kind) (stays' : operand.Stays kind) :
    joinReduced kind (front ++ [operand] ++ back) = joinReduced kind (front ++ back) := by
  have only : ∀ other ∈ [operand], other.Stays kind := List.forall_mem_singleton.mpr stays'
  have there : first ∈ varying kind front := by
    refine List.mem_filter.mpr ⟨List.mem_flatMap.mpr ⟨first, known, ?_⟩, ?_⟩
    · rw [stays.spread_eq]
      exact List.mem_singleton_self first
    · rw [stays.isConstant_eq]
      rfl
  refine joinReduced_congr ?_ ?_
  · rw [absorbed_append, absorbed_append, absorbed_append, absorbed_of_stays only, Bool.or_false]
  · rw [varying_append, varying_append, varying_append, varying_of_stays only]
    refine distinct_repeated (List.forall_mem_singleton.mpr ?_)
    exact member_iff.mpr ⟨first, there, same⟩

theorem mem_collect_of_mem {kept : List Predicate} (known : operand ∈ kept) :
    operand ∈ collect kept operands := by
  induction operands generalizing kept with
  | nil => exact known
  | cons first rest ih =>
    rw [collect_cons]
    refine ih ?_
    split
    · exact known
    · exact List.mem_append_left _ known

theorem distinct_ne_nil (some_ : operands ≠ []) : distinct operands ≠ [] := by
  cases operands with
  | nil => exact absurd rfl some_
  | cons first rest =>
    have kept : first ∈ collect [first] rest := mem_collect_of_mem (List.mem_singleton_self first)
    exact List.ne_nil_of_mem kept

theorem visits_assemble (some_ : operands ≠ [])
    (each : ∀ operand ∈ operands, Visits link operand) : Visits link (assemble kind operands) := by
  match operands, some_ with
  | [single], _ => exact each single (List.mem_singleton_self single)
  | first :: second :: rest, _ =>
    exact .junction (List.mem_cons_self ..) (each first (List.mem_cons_self ..))

theorem assemble_of_isSingle (some_ : operands ≠ [])
    (single : ∀ operand ∈ operands, operand.IsSingle) {other : Junction} (differs : other ≠ kind) :
    (assemble kind operands).Stays other ∧ ∀ inner, assemble kind operands ≠ .negation inner := by
  match operands, some_ with
  | [operand], _ =>
    have alone := single operand (List.mem_singleton_self operand)
    exact ⟨alone.stays other, alone.positive⟩
  | first :: second :: rest, _ =>
    refine ⟨⟨nofun, fun inner same => differs ?_⟩, nofun⟩
    cases same
    rfl

theorem reduced_edge (normal : operand.Normal) (varies : ∀ value, operand ≠ .constant value) :
    (Predicate.edge link (some operand)).reduced = .edge link (some operand) := by
  change relateReduced (.edge link) _ (some operand.reduced) = _
  rw [reduced_of_normal normal]
  exact relateReduced_of_varies varies

theorem same_edge_of_same {other : Predicate} (equal : operand.same other = true) :
    (Predicate.edge link (some operand)).same (.edge link (some other)) = true := by
  rw [Predicate.same, decide_eq_true rfl, Bool.true_and]
  exact equal

theorem Visits.isTrue_eq (visits : Visits link predicate) : predicate.isTrue = false := by
  cases visits <;> rfl

theorem same_assemble (same : sameAll operands others = true) :
    (assemble kind operands).same (assemble kind others) = true := by
  match operands, others, same with
  | [], [], _ => cases kind <;> rfl
  | [first], [first'], same =>
    rw [sameAll, Bool.and_eq_true] at same
    exact same.1
  | first :: second :: rest, first' :: second' :: rest', same =>
    change (decide (kind = kind) && _) = true
    rw [same, decide_eq_true rfl]
    rfl
  | [_], _ :: _ :: _, same | _ :: _ :: _, [_], same =>
    simp [sameAll] at same

end Junctions

end Predicate

section Identifiers

open Predicate

variable {catalog : Catalog} {node head : Node} {component component' : Component}
  {components : List Component} {conditions conditions' : List Predicate}
  {condition condition' : Predicate} {id id' reference reference' : Record} {link : Edge}

/-- The condition that a leaf has the value that it has in an identifier. -/
inductive Record.TestsLeaf (id : Record) : Component → Predicate → Prop
  | make {field : Leaf} {value : Value} (known : id.get? field.name = some value) :
      TestsLeaf id (.leaf field) (.leaf field (.compared .eq) value)

/-- The condition that a component is as in an identifier: for an edge, that the leaves of its head
are. -/
inductive Record.Tests (catalog : Catalog) (id : Record) : Component → Predicate → Prop
  | leaf {component : Component} {condition : Predicate} (test : id.TestsLeaf component condition) :
      Tests catalog id component condition
  | edge {link : Edge} {head : Node} {reference : Record} {conditions : List Predicate}
      (known : id.get? link.name = some (.record reference)) (leads : catalog.Leads link head)
      (tests : List.Forall₂ reference.TestsLeaf head.identifierComponents conditions) :
      Tests catalog id (.edge link) (.edge link (some (assemble .all conditions)))

namespace Record

theorem TestsLeaf.isSingle (test : id.TestsLeaf component condition) : condition.IsSingle := by
  cases test
  exact Predicate.isSingle_leaf ..

theorem Tests.isSingle (test : id.Tests catalog component condition) : condition.IsSingle := by
  cases test with
  | leaf test => exact test.isSingle
  | edge => exact Predicate.isSingle_edge ..

theorem TestsLeaf.component_eq (test : id.TestsLeaf component condition)
    (test' : id.TestsLeaf component' condition') (same : condition.same condition' = true) :
    component = component' := by
  cases test
  cases test'
  simp only [Predicate.same, Bool.and_eq_true, decide_eq_true_eq] at same
  rw [same.1.1]

theorem Tests.component_eq (test : id.Tests catalog component condition)
    (test' : id.Tests catalog component' condition') (same : condition.same condition' = true) :
    component = component' := by
  cases test with
  | leaf test =>
    cases test' with
    | leaf test' => exact test.component_eq test' same
    | edge =>
      cases test
      cases same
  | edge =>
    cases test' with
    | leaf test' =>
      cases test'
      cases same
    | edge =>
      simp only [Predicate.same, Bool.and_eq_true, decide_eq_true_eq] at same
      rw [same.1]

theorem TestsLeaf.same_of_same (test : id.TestsLeaf component condition)
    (test' : id'.TestsLeaf component condition') (same : id.same id' = true) :
    condition.same condition' = true := by
  cases test with
  | @make field value known =>
    cases test' with
    | make known' =>
      rcases Value.get?_of_sameFields same field.name with
        ⟨absent, -⟩ | ⟨_, _, stored, stored', equal⟩
      · rw [known] at absent
        cases absent
      · cases known.symm.trans stored
        cases known'.symm.trans stored'
        rw [Predicate.same, decide_eq_true rfl, decide_eq_true rfl]
        exact equal

theorem Tests.same_of_same (test : id.Tests catalog component condition)
    (test' : id'.Tests catalog component condition') (same : id.same id' = true) :
    condition.same condition' = true := by
  cases test with
  | leaf test =>
    cases test' with
    | leaf test' => exact test.same_of_same test' same
    | edge => cases test
  | @edge link head reference conditions known leads tests =>
    cases test' with
    | leaf test' => cases test'
    | @edge _ _ reference' conditions' known' leads' tests' =>
      obtain rfl := Option.some.inj (leads.node.symm.trans leads'.node)
      rcases Value.get?_of_sameFields same link.name with
        ⟨absent, -⟩ | ⟨_, _, stored, stored', equal⟩
      · rw [known] at absent
        cases absent
      · cases known.symm.trans stored
        cases known'.symm.trans stored'
        rw [Value.same] at equal
        have heads : Record.same reference reference' = true := equal
        refine Predicate.same_edge_of_same (same_assemble (sameAll_iff.mpr ?_))
        exact Lists.forall₂_of_left
          (fun _ _ _ test test' => test.same_of_same test' heads) tests tests'

end Record

/-- Conditions on different components stay as they are when they are joined. -/
theorem Predicate.joinReduced_of_tests {R : Component → Predicate → Prop}
    (apart : ∀ {component component' condition condition'}, R component condition →
      R component' condition' → condition.same condition' = true → component = component')
    (single : ∀ {component condition}, R component condition → condition.IsSingle)
    (unique : components.Nodup) (tests : List.Forall₂ R components conditions) (kind : Junction) :
    joinReduced kind conditions = assemble kind conditions := by
  have each : ∀ condition ∈ conditions, condition.IsSingle := by
    intro condition inside
    obtain ⟨component, -, test⟩ := Lists.exists_left_of_forall₂ tests inside
    exact single test
  have differ : conditions.Pairwise fun first second => (first == second) = false := by
    clear each
    induction tests with
    | nil => exact .nil
    | cons first behind ih =>
      rw [List.nodup_cons] at unique
      refine .cons (fun condition inside => Bool.eq_false_iff.mpr fun equal => ?_) (ih unique.2)
      obtain ⟨component, member, test⟩ := Lists.exists_left_of_forall₂ behind inside
      exact unique.1 (apart first test equal ▸ member)
  rw [joinReduced_of_stays (fun condition inside => (each condition inside).stays kind)
    (fun condition inside => (each condition inside).positive), distinct_of_pairwise differ]

theorem Record.TestsLeaf.reduced_eq (test : id.TestsLeaf component condition) :
    condition.reduced = condition := by
  cases test
  rfl

theorem Predicate.reducedAll_of_tests (tests : List.Forall₂ id.TestsLeaf components conditions) :
    reducedAll conditions = conditions := by
  induction tests with
  | nil => rfl
  | cons first _ ih => rw [reducedAll, first.reduced_eq, ih]

namespace Filter

section Made

variable (wellFormed : catalog.WellFormed) (outward : catalog.Outward)
  (found : catalog.node? node.name = some node)

theorem nodup_of_outward (outward : catalog.Outward) {name : String}
    (found : catalog.node? name = some node) : node.identifierComponents.Nodup :=
  (outward.once node (Catalog.mem_of_node? found)).of_map

theorem testsLeaf_of_headCondition (leads : catalog.Leads link head)
    (identifies : catalog.Identifies link reference)
    (inside : component ∈ head.identifierComponents)
    (made : headCondition head reference component = .ok condition) :
    reference.TestsLeaf component condition := by
  obtain ⟨field, rfl⟩ := leads.leaf_of_identifier inside
  obtain ⟨value, known, canonical⟩ := identifies head leads.node field inside
  unfold headCondition at made
  rw [requireComponent_eq (.leaf field) known, Outcome.ok_bind] at made
  simp only [leaf_of_canonical (Node.component?_of_identifier inside) canonical] at made
  cases made
  exact ⟨known⟩

include wellFormed outward found

theorem tests_of_identifierCondition (inside : component ∈ node.identifierComponents)
    (holds : catalog.Holds component id)
    (made : identifierCondition catalog node id component = .ok condition) :
    id.Tests catalog component condition.reduced := by
  cases component with
  | leaf field =>
    obtain ⟨value, known, canonical⟩ := holds
    unfold identifierCondition at made
    rw [requireComponent_eq (.leaf field) known, Outcome.ok_bind] at made
    simp only [leaf_of_canonical (Node.component?_of_identifier inside) canonical] at made
    cases made
    exact .leaf ⟨known⟩
  | edge link =>
    obtain ⟨reference, known, identifies⟩ :=
      reference_of_required (wellFormed.required found _ inside) holds
    obtain ⟨head, leads⟩ := wellFormed.heads found link (Node.mem_of_identifier inside)
    unfold identifierCondition at made
    rw [requireComponent_eq (.edge link) known, Outcome.ok_bind] at made
    simp only [leads.edgeHead_eq] at made
    obtain ⟨conditions, mapped, made⟩ := Outcome.bind_eq_ok.mp
      (show (head.identifierComponents.mapM (headCondition head reference) >>= _) = _ from made)
    cases made
    have tests : List.Forall₂ (Record.TestsLeaf reference) head.identifierComponents conditions :=
      (Lists.forall₂_mem (Outcome.mapM_eq_ok_iff.mp mapped)).imp fun _ _ both =>
        testsLeaf_of_headCondition leads identifies both.2.1 both.1
    have joined : (Predicate.junction .all conditions).reduced = assemble .all conditions := by
      rw [Predicate.reduced, reducedAll_of_tests tests]
      exact joinReduced_of_tests Record.TestsLeaf.component_eq Record.TestsLeaf.isSingle
        (nodup_of_outward outward leads.node) tests .all
    have normal := normal_reduced (.junction .all conditions)
    have varies : ∀ value, assemble .all conditions ≠ .constant value := by
      refine (assemble_of_isSingle ?_ ?_ Junction.any_ne_all).1.1
      · rintro rfl
        exact outward.identified head (Catalog.mem_of_node? leads.node)
          (List.forall₂_nil_right_iff.mp tests)
      · intro condition inside
        obtain ⟨_, -, test⟩ := Lists.exists_left_of_forall₂ tests inside
        exact test.isSingle
    rw [joined] at normal ⊢
    rw [reduced_edge normal varies]
    exact .edge known leads tests

theorem exists_tests (names : catalog.Names node id) {filter : Filter}
    (made : Filter.identifier catalog node id = .ok filter) :
    ∃ conditions, List.Forall₂ (id.Tests catalog) node.identifierComponents conditions ∧
      filter = ⟨node, assemble .all conditions⟩ := by
  unfold Filter.identifier at made
  obtain ⟨conditions, mapped, made⟩ := Outcome.bind_eq_ok.mp made
  cases made
  have tests : List.Forall₂ (Record.Tests catalog id) node.identifierComponents
      (conditions.map Predicate.reduced) := by
    rw [List.forall₂_map_right_iff]
    exact (Lists.forall₂_mem (Outcome.mapM_eq_ok_iff.mp mapped)).imp fun component _ both =>
      tests_of_identifierCondition wellFormed outward found both.2.1 (names component both.2.1)
        both.1
  refine ⟨conditions.map Predicate.reduced, tests, ?_⟩
  rw [Predicate.reduced, reducedAll_eq_map, joinReduced_of_tests Record.Tests.component_eq
    Record.Tests.isSingle (nodup_of_outward outward found) tests .all]

end Made

end Filter

end Identifiers

/-- Identifiers of which some are left out that are the same as an earlier one. -/
inductive Condensed (ids : List Record) : List Record → Prop
  | all : Condensed ids ids
  | drop {front back : List Record} {first id : Record}
      (condensed : Condensed ids (front ++ [id] ++ back)) (known : first ∈ front)
      (same : first.same id = true) : Condensed ids (front ++ back)

namespace Condensed

variable {ids ids' ids'' : List Record}

theorem trans (condensed : Condensed ids ids') (further : Condensed ids' ids'') :
    Condensed ids ids'' := by
  induction further with
  | all => exact condensed
  | drop _ known same ih => exact .drop ih known same

theorem subset (condensed : Condensed ids ids') : ids' ⊆ ids := by
  induction condensed with
  | all => exact List.Subset.refl _
  | drop _ _ _ ih =>
    intro id inside
    refine ih ?_
    simp only [List.mem_append] at inside ⊢
    exact inside.imp_left Or.inl

theorem ne_nil (condensed : Condensed ids ids') (some_ : ids ≠ []) : ids' ≠ [] := by
  cases condensed with
  | all => exact some_
  | drop _ known _ => exact List.ne_nil_of_mem (List.mem_append_left _ known)

end Condensed

namespace Filter

open Predicate

variable {catalog : Catalog} {node : Node} {id id' : Record} {ids ids' : List Record}
  {filters : List Filter} {filter : Filter} {link : Edge}

/-- The predicate of the filter on an identifier. -/
def recognising (catalog : Catalog) (node : Node) (id : Record) : Predicate :=
  ((Filter.identifier catalog node id).toOption.map (·.predicate)).getD (.constant false)

theorem recognising_eq (made : Filter.identifier catalog node id = .ok filter) :
    recognising catalog node id = filter.predicate := by
  rw [recognising, made]
  rfl

theorem reduced_of_identifier (made : Filter.identifier catalog node id = .ok filter) :
    filter.predicate.reduced = recognising catalog node id := by
  rw [recognising_eq made]
  unfold Filter.identifier at made
  obtain ⟨conditions, -, made⟩ := Outcome.bind_eq_ok.mp made
  cases made
  exact reduced_of_normal (normal_reduced _)

theorem reduced_alternatives (mapped : ids.mapM (Filter.identifier catalog node) = .ok filters)
    (whole : Filter.junction node .any filters = .ok filter) :
    filter.reduced = ⟨node, joinReduced .any (ids.map (recognising catalog node))⟩ := by
  obtain ⟨_, -, same⟩ := Outcome.bind_eq_ok.mp whole
  cases same
  have each : filters.map (fun filter => filter.predicate.reduced) =
      ids.map (recognising catalog node) := by
    refine List.forall₂_eq_eq_eq ▸ ?_
    rw [List.forall₂_map_left_iff, List.forall₂_map_right_iff]
    exact (Outcome.mapM_eq_ok_iff.mp mapped).flip.imp fun _ _ made => reduced_of_identifier made
  rw [Filter.reduced, Predicate.reduced, reducedAll_eq_map, List.map_map]
  exact congrArg (fun operands => Filter.mk node (joinReduced .any operands)) each

section Made

variable (wellFormed : catalog.WellFormed) (outward : catalog.Outward)
  (found : catalog.node? node.name = some node)

include wellFormed outward found

theorem recognising_tests (names : catalog.Names node id) :
    ∃ conditions, List.Forall₂ (id.Tests catalog) node.identifierComponents conditions ∧
      recognising catalog node id = assemble .all conditions := by
  obtain ⟨filter, made, -⟩ := identifier_spec wellFormed found names
  obtain ⟨conditions, tests, rfl⟩ := exists_tests wellFormed outward found names made
  exact ⟨conditions, tests, recognising_eq made⟩

/-- The filter on an identifier stays as it is in alternatives, and goes to the head of every edge
of the identifier. -/
theorem recognising_shape (names : catalog.Names node id) :
    (recognising catalog node id).Stays .any ∧
      (∀ inner, recognising catalog node id ≠ .negation inner) ∧
      ∀ link, .edge link ∈ node.identifierComponents →
        Visits link (recognising catalog node id) := by
  obtain ⟨conditions, tests, same⟩ := recognising_tests wellFormed outward found names
  rw [same]
  obtain ⟨stays, positive⟩ : (assemble .all conditions).Stays .any ∧
      ∀ inner, assemble .all conditions ≠ .negation inner := by
    refine assemble_of_isSingle ?_ ?_ Junction.any_ne_all
    · rintro rfl
      exact outward.identified node (Catalog.mem_of_node? found)
        (List.forall₂_nil_right_iff.mp tests)
    · intro condition inside
      obtain ⟨_, -, test⟩ := Lists.exists_left_of_forall₂ tests inside
      exact test.isSingle
  refine ⟨stays, positive, fun link inside => ?_⟩
  obtain ⟨condition, member, test⟩ := Lists.exists_right_of_forall₂ tests inside
  have visits : Visits link condition := by
    cases test with
    | leaf test => cases test
    | edge => exact .edge
  match conditions, member with
  | [single], member =>
    rw [List.mem_singleton] at member
    exact member ▸ visits
  | first :: second :: rest, member => exact .junction member visits

theorem same_recognising (names : catalog.Names node id) (names' : catalog.Names node id')
    (same : id.same id' = true) :
    (recognising catalog node id).same (recognising catalog node id') = true := by
  obtain ⟨conditions, tests, eq⟩ := recognising_tests wellFormed outward found names
  obtain ⟨conditions', tests', eq'⟩ := recognising_tests wellFormed outward found names'
  rw [eq, eq']
  exact same_assemble (sameAll_iff.mpr
    (Lists.forall₂_of_left (fun _ _ _ test test' => test.same_of_same test' same) tests tests'))

variable (names : ∀ id ∈ ids, catalog.Names node id)

include names

/-- Alternatives on identifiers that are left out as they are the same as earlier ones make no
difference. -/
theorem joinReduced_of_condensed (condensed : Condensed ids ids') :
    joinReduced .any (ids'.map (recognising catalog node)) =
      joinReduced .any (ids.map (recognising catalog node)) := by
  induction condensed with
  | all => rfl
  | @drop front back first id condensed known same ih =>
    have names_first := names first (condensed.subset (by simp [known]))
    have names_id := names id (condensed.subset (by simp))
    rw [← ih, List.map_append, List.map_append, List.map_append]
    exact (joinReduced_of_same (List.mem_map_of_mem known)
      (same_recognising wellFormed outward found names_first names_id same)
      (recognising_shape wellFormed outward found names_first).1
      (recognising_shape wellFormed outward found names_id).1).symm

theorem visits_alternatives (some_ : ids ≠ []) (inside : .edge link ∈ node.identifierComponents) :
    Visits link (joinReduced .any (ids.map (recognising catalog node))) := by
  have shape : ∀ operand ∈ ids.map (recognising catalog node), operand.Stays .any ∧
      (∀ inner, operand ≠ .negation inner) ∧ Visits link operand := by
    intro operand member
    obtain ⟨id, part, rfl⟩ := List.mem_map.mp member
    obtain ⟨stays, positive, visits⟩ :=
      recognising_shape wellFormed outward found (names id part)
    exact ⟨stays, positive, visits link inside⟩
  rw [joinReduced_of_stays (fun operand member => (shape operand member).1)
    (fun operand member => (shape operand member).2.1)]
  refine visits_assemble (distinct_ne_nil ?_) fun operand member => ?_
  · simpa using some_
  · exact (shape operand (mem_of_mem_distinct member)).2.2

end Made

end Filter

end LiveQuery
