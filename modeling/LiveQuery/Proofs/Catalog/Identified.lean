import LiveQuery.Impact.Affected
import LiveQuery.Proofs.Filter.Alternatives
import LiveQuery.Proofs.Selection.Widening

set_option autoImplicit false

namespace LiveQuery

/-- Every identifier names a component. -/
def Catalog.NamesSome (catalog : Catalog) : Prop :=
  ∀ node ∈ catalog.nodes, node.identifier.components ≠ []

/-- No identifier names a component twice. -/
def Catalog.NamesOnce (catalog : Catalog) : Prop :=
  ∀ node ∈ catalog.nodes, node.identifier.components.Nodup

variable {catalog : Catalog} {definitions : CatalogDefinition} {node head : Node} {id : Record}

section Written

/-- A node is identified by the components that its definition says. -/
def NodeDefinition.Identifies (definition : NodeDefinition) (node : Node) : Prop :=
  node.name = definition.name ∧ ∃ written, definition.identifier? = some written ∧
    node.identifier.components = written.components

theorem CatalogDefinition.Origin.identifies {nodes : List Node} {definition : NodeDefinition}
    {bare : Node} (origin : Origin definitions nodes definition bare node) :
    definition.Identifies node := by
  refine ⟨origin.name_eq, ?_⟩
  obtain ⟨_, -, rfl⟩ := origin.connected
  exact origin.built.identifier

/-- The identifiers of a catalog are those that were written. -/
theorem CatalogDefinition.identifies_of_build (built : definitions.build = .ok catalog) :
    List.Forall₂ NodeDefinition.Identifies definitions catalog.nodes := by
  obtain ⟨nodes, -, triples, firsts, seconds, thirds, each⟩ := steps_of_build built
  rw [firsts, thirds, List.forall₂_map_left_iff, List.forall₂_map_right_iff,
    List.forall₂_same]
  intro triple inside
  obtain ⟨bare, connected⟩ := each triple inside
  have origin : Origin definitions nodes triple.1 triple.2.1 triple.2.2 :=
    ⟨firsts ▸ List.mem_map_of_mem inside, buildNode_spec bare, checkedFrom_of_buildNode bare,
      connected⟩
  exact origin.identifies

theorem Catalog.Consistent.namesSome_iff (consistent : catalog.Consistent definitions) :
    catalog.NamesSome ↔ ∀ node ∈ catalog.nodes, node.identifierComponents ≠ [] := by
  refine forall₂_congr fun node inside => not_congr ?_
  rw [← (consistent.nodes node inside).complete, List.map_eq_nil_iff]

theorem Catalog.Consistent.namesOnce_iff (consistent : catalog.Consistent definitions) :
    catalog.NamesOnce ↔
      ∀ node ∈ catalog.nodes, (node.identifierComponents.map (·.name)).Nodup := by
  refine forall₂_congr fun node inside => ?_
  rw [(consistent.nodes node inside).complete]

end Written

section Selections

open SelectionField

theorem SelectionField.key_of_identifierField {component : Component} {field : SelectionField}
    (made : identifierField catalog component = .ok field) : field.key = component.name := by
  cases component with
  | leaf => cases made; rfl
  | edge link =>
    obtain ⟨_, -, made⟩ := Outcome.bind_eq_ok.mp made
    obtain ⟨_, -, made⟩ := Outcome.bind_eq_ok.mp made
    cases made
    rfl

theorem Selection.nodup_of_identifier {selection : Selection}
    (made : Selection.identifier catalog node = .ok selection) :
    (node.identifierComponents.map (·.name)).Nodup := by
  obtain ⟨checked, made, -⟩ := Outcome.bind_eq_ok.mp made
  obtain ⟨fields, mapped, passed⟩ := Outcome.bind_eq_ok.mp made
  have keys : node.identifierComponents.map (·.name) = fields.map key := by
    rw [← List.forall₂_eq_eq_eq, List.forall₂_map_left_iff, List.forall₂_map_right_iff]
    exact (Outcome.mapM_eq_ok_iff.mp mapped).imp fun _ _ made => (key_of_identifierField made).symm
  rw [keys]
  exact (fault?_eq_none_iff.mp (fault?_of_check passed)).2.1

/-- Every identifier can be selected exactly if none names a component twice. -/
theorem Catalog.namesOnce_iff_selection (built : definitions.build = .ok catalog) :
    catalog.NamesOnce ↔
      ∀ node ∈ catalog.nodes, ∃ selection, Selection.identifier catalog node = .ok selection := by
  have consistent := CatalogDefinition.consistent_of_build built
  rw [consistent.namesOnce_iff]
  constructor
  · intro once node inside
    exact exists_identifier_of_build built once
      (Catalog.node_eq_ok_iff.mp (consistent.nodes node inside).found)
  · intro selected node inside
    obtain ⟨selection, made⟩ := selected node inside
    exact Selection.nodup_of_identifier made

end Selections

section Filters

open Predicate LiveQuery.Filter

variable {operands : List Predicate} {condition : Predicate} {component : Component}

theorem Predicate.ne_constant_of_isSingle (some_ : operands ≠ [])
    (single : ∀ operand ∈ operands, operand.IsSingle) (value : Bool) :
    joinReduced .all operands ≠ .constant value := by
  rw [joinReduced_of_stays (fun operand inside => (single operand inside).stays .all)
    fun operand inside => (single operand inside).positive]
  exact (assemble_of_isSingle (distinct_ne_nil some_)
    (fun operand inside => single operand (mem_of_mem_distinct inside)) Junction.any_ne_all).1.1
    value

theorem Predicate.isTrue_eq_false {predicate : Predicate}
    (varies : ∀ value, predicate ≠ .constant value) : predicate.isTrue = false := by
  cases predicate with
  | constant value => exact absurd rfl (varies value)
  | _ => rfl

theorem Catalog.mem_of_edgeHead {link : Edge}
    (leads : (liftM (catalog.edgeHead link) : Except StatementError Node) = .ok head) :
    head ∈ catalog.nodes := by
  cases found : catalog.edgeHead link with
  | error error =>
    rw [found] at leads
    cases leads
  | ok other =>
    rw [found] at leads
    cases leads
    exact Catalog.mem_of_node? (SelectionField.node?_of_edgeHead found)

theorem Filter.leaf_eq_ok {name : String} {operator : LeafOperator} {value : Value} {filter : Filter}
    (made : Filter.leaf node name operator value = .ok filter) :
    ∃ field made, filter.predicate = .leaf field operator made := by
  obtain ⟨field, -, made⟩ := Outcome.bind_eq_ok.mp made
  obtain ⟨operand, -, made⟩ := Outcome.bind_eq_ok.mp made
  cases made
  exact ⟨field, operand, rfl⟩

theorem Filter.reduced_of_leaf {name : String} {comparison : Comparison} {value : Value}
    {filter : Filter} (made : Filter.leaf node name (.compared comparison) value = .ok filter) :
    filter.predicate.reduced = filter.predicate ∧ filter.predicate.IsSingle := by
  obtain ⟨field, operand, same⟩ := leaf_eq_ok made
  rw [same]
  exact ⟨rfl, Predicate.isSingle_leaf ..⟩

theorem Filter.reduced_of_headCondition (made : headCondition head id component = .ok condition) :
    condition.reduced = condition ∧ condition.IsSingle := by
  obtain ⟨value, -, made⟩ := Outcome.bind_eq_ok.mp made
  cases component with
  | leaf field =>
    obtain ⟨filter, tested, made⟩ := Outcome.bind_eq_ok.mp made
    cases made
    exact reduced_of_leaf tested
  | edge link => cases made

/-- A condition of an identifier says something of its component. -/
theorem Filter.isSingle_of_identifierCondition
    (identified : ∀ head ∈ catalog.nodes, head.identifierComponents ≠ [])
    (made : identifierCondition catalog node id component = .ok condition) :
    condition.reduced.IsSingle := by
  obtain ⟨value, -, made⟩ := Outcome.bind_eq_ok.mp made
  cases component with
  | leaf field =>
    obtain ⟨filter, tested, made⟩ := Outcome.bind_eq_ok.mp made
    cases made
    obtain ⟨same, single⟩ := reduced_of_leaf tested
    exact same.symm ▸ single
  | edge link =>
    obtain ⟨head, leads, made⟩ := Outcome.bind_eq_ok.mp made
    cases value with
    | record reference =>
      obtain ⟨conditions, mapped, made⟩ := Outcome.bind_eq_ok.mp made
      cases made
      have each : ∀ condition ∈ conditions, condition.reduced = condition ∧ condition.IsSingle := by
        intro condition inside
        obtain ⟨_, -, made⟩ := Outcome.exists_of_mem_mapM mapped inside
        exact reduced_of_headCondition made
      have some_ : conditions ≠ [] := by
        rintro rfl
        exact identified head (Catalog.mem_of_edgeHead leads) (Outcome.eq_nil_of_mapM mapped)
      have kept : reducedAll conditions = conditions := by
        rw [reducedAll_eq_map]
        exact (List.map_congr_left fun condition inside => (each condition inside).1).trans
          (List.map_id' conditions)
      have varies : ∀ value, (Predicate.junction .all conditions).reduced ≠ .constant value := by
        rw [Predicate.reduced, kept]
        exact ne_constant_of_isSingle some_ fun condition inside => (each condition inside).2
      rw [reduced_edge (normal_reduced _) varies]
      exact Predicate.isSingle_edge ..
    | _ => cases made

theorem Filter.isTrue_of_identifier
    (identified : ∀ head ∈ catalog.nodes, head.identifierComponents ≠ [])
    (inside : node ∈ catalog.nodes) {filter : Filter}
    (made : Filter.identifier catalog node id = .ok filter) : filter.isTrue = false := by
  obtain ⟨conditions, mapped, made⟩ := Outcome.bind_eq_ok.mp made
  cases made
  have varies : ∀ value, (Predicate.junction .all conditions).reduced ≠ .constant value := by
    rw [Predicate.reduced, reducedAll_eq_map]
    refine ne_constant_of_isSingle ?_ (List.forall_mem_map.mpr fun condition member => ?_)
    · rw [ne_eq, List.map_eq_nil_iff]
      rintro rfl
      exact identified node inside (Outcome.eq_nil_of_mapM mapped)
    · obtain ⟨_, -, made⟩ := Outcome.exists_of_mem_mapM mapped member
      exact isSingle_of_identifierCondition identified made
  exact isTrue_eq_false varies

theorem Filter.identifier_of_nil (none_ : node.identifierComponents = []) :
    Filter.identifier catalog node id = .ok (.constant node true) := by
  unfold Filter.identifier
  rw [none_]
  rfl

/-- No filter on an identifier holds of everything exactly if every identifier names a
component. -/
theorem Catalog.namesSome_iff_filter (built : definitions.build = .ok catalog) :
    catalog.NamesSome ↔ ∀ node ∈ catalog.nodes, ∀ id filter,
      Filter.identifier catalog node id = .ok filter → filter.isTrue = false := by
  rw [(CatalogDefinition.consistent_of_build built).namesSome_iff]
  constructor
  · exact fun identified node inside id filter => isTrue_of_identifier identified inside
  · intro tells node inside none_
    have always : true = false := tells node inside [] _ (identifier_of_nil none_)
    cases always

end Filters

end LiveQuery
