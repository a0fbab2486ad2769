import LiveQuery.Filter.Identifier
import LiveQuery.Selection.Identifier
import LiveQuery.Proofs.Catalog.Consistent

set_option autoImplicit false

namespace LiveQuery

namespace Filter

/-- One condition of an identifier, in which the filter on a head is left to `heads`. -/
def identifierPart (catalog : Catalog) (heads : Node → Record → Except StatementError Filter)
    (node : Node) (id : Record) (component : Component) : Except StatementError Filter := do
  let value ← requireComponent node id component
  match component with
  | .leaf field => leaf node field.name (.compared .eq) value
  | .edge link => do
    let head ← catalog.edgeHead link
    match value with
    | .record headId => edge node link.name (some (← heads head headId))
    | value =>
      throw (.invalidValue node.name link.name ("reference to " ++ link.head) value.text)

/-- One round of the recursion that makes the filter on an identifier: the filters on the heads are
those of the next round. -/
def identifierBy (catalog : Catalog) (heads : Node → Record → Except StatementError Filter)
    (node : Node) (id : Record) : Except StatementError Filter := do
  let operands ← node.identifierComponents.mapM (identifierPart catalog heads node id)
  return (← junction node .all operands).reduced

end Filter

namespace Selection

/-- One field of an identifier, in which the selection of a head is left to `heads`. -/
def identifierPart (catalog : Catalog) (heads : Node → Except StatementError Selection) :
    Component → Except StatementError SelectionField
  | .leaf field => return .leaf field.name field
  | .edge link => do
    let head ← catalog.edgeHead link
    return .edge link.name link (← heads head).fields

/-- One round of the recursion that selects an identifier. -/
def identifierBy (catalog : Catalog) (heads : Node → Except StatementError Selection)
    (node : Node) : Except StatementError Selection := do
  make node (← node.identifierComponents.mapM (identifierPart catalog heads))

end Selection

namespace Filter

variable {catalog : Catalog} {heads : Node → Record → Except StatementError Filter} {node : Node}

/-- A round makes the filters whose predicates are the conditions of the identifier. -/
theorem identifierBy_eq {id : Record}
    (parts : ∀ component ∈ node.identifierComponents,
      identifierPart catalog heads node id component =
        (identifierCondition catalog node id component).map (⟨node, ·⟩)) :
    identifierBy catalog heads node id = identifier catalog node id := by
  unfold identifierBy identifier
  rw [Outcome.mapM_eq_map parts]
  cases node.identifierComponents.mapM (identifierCondition catalog node id) with
  | error error => rfl
  | ok conditions =>
    have joined : junction node .all (conditions.map (⟨node, ·⟩)) =
        .ok ⟨node, .junction .all conditions⟩ := by
      unfold junction
      rw [Outcome.forM_eq_ok, Outcome.ok_bind, List.map_map]
      · change Except.ok (Filter.mk node (.junction .all (conditions.map fun part => part))) = _
        rw [List.map_id']
      · intro operand inside
        obtain ⟨condition, -, rfl⟩ := List.mem_map.mp inside
        exact if_pos rfl
    change (junction node .all (conditions.map (⟨node, ·⟩)) >>= _) = _
    rw [joined]
    rfl

theorem identifierPart_leaf (id : Record) (field : Leaf) :
    identifierPart catalog heads node id (.leaf field) =
      (identifierCondition catalog node id (.leaf field)).map (⟨node, ·⟩) := by
  unfold identifierPart identifierCondition
  cases requireComponent node id (.leaf field) with
  | error error => rfl
  | ok value =>
    simp only [Outcome.ok_bind]
    cases made : leaf node field.name (.compared .eq) value with
    | error error => rfl
    | ok filter =>
      obtain ⟨_, -, behind⟩ := Outcome.bind_eq_ok.mp made
      obtain ⟨_, -, same⟩ := Outcome.bind_eq_ok.mp behind
      cases same
      rfl

theorem identifierBy_of_leaves
    (leaves : ∀ component ∈ node.identifierComponents, ∃ field, component = .leaf field)
    (id : Record) : identifierBy catalog heads node id = identifier catalog node id := by
  apply identifierBy_eq
  intro component inside
  obtain ⟨field, rfl⟩ := leaves component inside
  exact identifierPart_leaf id field

theorem identifier_of_leaves
    (leaves : ∀ component ∈ node.identifierComponents, ∃ field, component = .leaf field)
    (id : Record) :
    identifier catalog node id = (node.identifierComponents.mapM (headCondition node id)).map
      fun conditions => ⟨node, (Predicate.junction .all conditions).reduced⟩ := by
  have same : node.identifierComponents.mapM (identifierCondition catalog node id) =
      node.identifierComponents.mapM (headCondition node id) := by
    apply Outcome.mapM_congr
    intro component inside
    obtain ⟨field, rfl⟩ := leaves component inside
    rfl
  unfold identifier
  rw [same]
  cases node.identifierComponents.mapM (headCondition node id) <;> rfl

/-- The head's filter comes out of the recursion as the identifier's condition has it. -/
theorem identifierPart_edge {link : Edge} {head : Node}
    (found : node.component? link.name = some (.edge link))
    (leads : catalog.edgeHead link = .ok head) (named : head.name = link.head)
    (leaves : ∀ component ∈ head.identifierComponents, ∃ field, component = .leaf field)
    (rounds : ∀ id, heads head id = identifier catalog head id) (id : Record) :
    identifierPart catalog heads node id (.edge link) =
      (identifierCondition catalog node id (.edge link)).map (⟨node, ·⟩) := by
  unfold identifierPart identifierCondition
  cases requireComponent node id (.edge link) with
  | error error => rfl
  | ok value =>
    simp only [Outcome.ok_bind, leads]
    change (match value with
      | .record headId => heads head headId >>= fun filter => edge node link.name (some filter)
      | value => _) = _
    cases value with
    | record headId =>
      simp only [rounds, identifier_of_leaves leaves]
      change _ = Except.map _ (head.identifierComponents.mapM (headCondition head headId) >>= _)
      cases head.identifierComponents.mapM (headCondition head headId) with
      | error error => rfl
      | ok conditions =>
        change edge node link.name (some ⟨head, _⟩) = _
        have accepted (predicate : Predicate) :
            headPredicate link.head (some ⟨head, predicate⟩) = .ok (some predicate) := by
          have checked : checkNode link.head ⟨head, predicate⟩ = .ok () := if_pos named
          simp only [headPredicate, checked, Outcome.ok_bind, Outcome.pure_eq_ok]
        unfold edge
        rw [Node.edge_of_component? found]
        change (headPredicate link.head _ >>= _) = _
        rw [accepted]
        rfl
    | _ => rfl

end Filter

theorem Catalog.EdgeConsistent.leaf_of_head {catalog : Catalog} {node head : Node} {link : Edge}
    (edge : catalog.EdgeConsistent node link) (leads : catalog.edgeHead link = .ok head) :
    ∀ component ∈ head.identifierComponents, ∃ field, component = .leaf field := by
  intro component inside
  obtain ⟨head', -, leads', -, columns, each⟩ := edge.head
  obtain rfl : head' = head := Except.ok.inj (leads'.symm.trans leads)
  obtain ⟨name, named, found⟩ := List.mem_filterMap.mp inside
  rw [← columns] at named
  obtain ⟨column, repeated, rfl⟩ := List.mem_map.mp named
  obtain ⟨field, known, -⟩ := each column repeated
  refine ⟨field, ?_⟩
  unfold Node.leaf at known
  rw [found] at known
  cases component with
  | leaf => cases known; rfl
  | edge => cases known

namespace Selection

variable {catalog : Catalog} {heads : Node → Except StatementError Selection} {node : Node}

theorem identifierBy_eq (parts : ∀ component ∈ node.identifierComponents,
      identifierPart catalog heads component = SelectionField.identifierField catalog component) :
    identifierBy catalog heads node = identifier catalog node := by
  unfold identifierBy identifier SelectionField.identifier make
  rw [Outcome.mapM_congr parts]
  cases node.identifierComponents.mapM (SelectionField.identifierField catalog) <;> rfl

theorem identifierBy_of_leaves
    (leaves : ∀ component ∈ node.identifierComponents, ∃ field, component = .leaf field) :
    identifierBy catalog heads node = identifier catalog node := by
  apply identifierBy_eq
  intro component inside
  obtain ⟨field, rfl⟩ := leaves component inside
  rfl

theorem identifier_of_leaves
    (leaves : ∀ component ∈ node.identifierComponents, ∃ field, component = .leaf field) :
    identifier catalog node = (SelectionField.headIdentifier node).map (⟨node, ·⟩) := by
  have same : node.identifierComponents.mapM (SelectionField.identifierField catalog) =
      node.identifierComponents.mapM SelectionField.headIdentifierField := by
    apply Outcome.mapM_congr
    intro component inside
    obtain ⟨field, rfl⟩ := leaves component inside
    rfl
  unfold identifier SelectionField.identifier SelectionField.headIdentifier
  rw [same]
  cases node.identifierComponents.mapM SelectionField.headIdentifierField with
  | error error => rfl
  | ok fields =>
    simp only [Outcome.ok_bind]
    cases SelectionField.check node.name fields <;> rfl

end Selection

section Rounds

variable {catalog : Catalog} {definitions : CatalogDefinition} {node : Node}

theorem Filter.identifierBy_of_rounds (consistent : catalog.Consistent definitions)
    (inside : node ∈ catalog.nodes) {heads : Node → Record → Except StatementError Filter}
    (rounds : ∀ head : Node, (∀ component ∈ head.identifierComponents,
      ∃ field, component = .leaf field) → ∀ id, heads head id = identifier catalog head id)
    (id : Record) : identifierBy catalog heads node id = identifier catalog node id := by
  apply identifierBy_eq
  intro component part
  cases component with
  | leaf field => exact identifierPart_leaf id field
  | edge link =>
    have edge := (consistent.nodes node inside).edges link (Node.mem_of_identifier part)
    obtain ⟨head, -, leads, named, -⟩ := edge.head
    have leaves := edge.leaf_of_head leads
    exact identifierPart_edge (Node.component?_of_identifier part) leads named leaves
      (rounds head leaves) id

theorem Selection.identifierBy_of_rounds (consistent : catalog.Consistent definitions)
    (inside : node ∈ catalog.nodes) {heads : Node → Except StatementError Selection}
    (rounds : ∀ head : Node, (∀ component ∈ head.identifierComponents,
      ∃ field, component = .leaf field) → heads head = identifier catalog head) :
    identifierBy catalog heads node = identifier catalog node := by
  apply identifierBy_eq
  intro component part
  cases component with
  | leaf field => rfl
  | edge link =>
    have edge := (consistent.nodes node inside).edges link (Node.mem_of_identifier part)
    obtain ⟨head, -, leads, -⟩ := edge.head
    have leaves := edge.leaf_of_head leads
    simp only [identifierPart, SelectionField.identifierField, leads]
    change (heads head >>= _) = (SelectionField.headIdentifier head >>= _)
    rw [rounds head leaves, identifier_of_leaves leaves]
    cases SelectionField.headIdentifier head <;> rfl

/-- The filter on an identifier and its selection answer the recursion that makes them, and two
rounds of it reach them whatever a third would give. -/
structure Catalog.IdentifiersEnd (catalog : Catalog) : Prop where
  filter : ∀ node ∈ catalog.nodes, ∀ id,
    Filter.identifierBy catalog (Filter.identifier catalog) node id =
      Filter.identifier catalog node id
  filter_ends : ∀ node ∈ catalog.nodes, ∀ deeper id,
    Filter.identifierBy catalog (Filter.identifierBy catalog deeper) node id =
      Filter.identifier catalog node id
  selection : ∀ node ∈ catalog.nodes,
    Selection.identifierBy catalog (Selection.identifier catalog) node =
      Selection.identifier catalog node
  selection_ends : ∀ node ∈ catalog.nodes, ∀ deeper,
    Selection.identifierBy catalog (Selection.identifierBy catalog deeper) node =
      Selection.identifier catalog node

theorem Catalog.Consistent.identifiersEnd (consistent : catalog.Consistent definitions) :
    catalog.IdentifiersEnd where
  filter _ inside id := Filter.identifierBy_of_rounds consistent inside (fun _ _ _ => rfl) id
  filter_ends _ inside _ id := Filter.identifierBy_of_rounds consistent inside
    (fun _ leaves headId => Filter.identifierBy_of_leaves leaves headId) id
  selection _ inside := Selection.identifierBy_of_rounds consistent inside fun _ _ => rfl
  selection_ends _ inside _ := Selection.identifierBy_of_rounds consistent inside
    fun _ leaves => Selection.identifierBy_of_leaves leaves

/-- A catalog that was built is consistent, and identifiers are followed through one edge only. -/
theorem CatalogDefinition.build_consistent (built : definitions.build = .ok catalog) :
    catalog.Consistent definitions ∧ catalog.IdentifiersEnd :=
  ⟨consistent_of_build built, (consistent_of_build built).identifiersEnd⟩

end Rounds

open Samples in
/-- Articles and tags are linked by a node that is identified by its two edges. -/
theorem blog_consistent : ∃ catalog, blog.build = .ok catalog ∧
    catalog.Consistent blog ∧ catalog.IdentifiersEnd :=
  ⟨_, rfl, CatalogDefinition.build_consistent rfl⟩

end LiveQuery
