import LiveQuery.Proofs.Catalog.WellFormed

set_option autoImplicit false

namespace LiveQuery

namespace Catalog

/-- An edge belongs to its node, and its columns are called after the components that identify the
head, all of them leaves that must be set. -/
structure EdgeConsistent (catalog : Catalog) (node : Node) (link : Edge) : Prop where
  owner : link.node = node.name
  head : ∃ head ∈ catalog.nodes, catalog.edgeHead link = .ok head ∧ head.name = link.head ∧
    link.columns.map (·.headLeaf) = head.identifier.components ∧
    ∀ column ∈ link.columns, ∃ field, head.leaf column.headLeaf = .ok field ∧
      .leaf field ∈ head.identifierComponents ∧ field.nullable = false

/-- A reverse edge is the other side of an edge of its head. It leads to one instance at most where
that edge alone is unique on the head. -/
structure ReverseEdgeConsistent (catalog : Catalog) (node : Node) (relation : ReverseEdge) :
    Prop where
  owner : relation.node = node.name
  back : relation.edge.head = node.name
  head : ∃ head ∈ catalog.nodes, catalog.reverseEdgeHead relation = .ok head ∧
    head.name = relation.head ∧ head.edge relation.edge.name = .ok relation.edge ∧
    (relation.multiplicity = .unique ↔
      ∃ constraint ∈ head.uniqueConstraints, constraint.components = [relation.edge.name])

structure NodeConsistent (catalog : Catalog) (node : Node) : Prop where
  /-- A node is found under its name. -/
  found : catalog.node node.name = .ok node
  /-- Components and reverse edges share no name. -/
  distinct : (node.components.map (·.name) ++ node.reverseEdges.map (·.name)).Nodup
  named : ∀ name ∈ node.components.map (·.name) ++ node.reverseEdges.map (·.name),
    isName name = true
  chosen : node.identifier ∈ node.uniqueConstraints
  /-- Every name in the identifier stands for a component. -/
  complete : node.identifierComponents.map (·.name) = node.identifier.components
  required : ∀ component ∈ node.identifierComponents, component.nullable = false
  edges : ∀ link, .edge link ∈ node.components → catalog.EdgeConsistent node link
  reverseEdges : ∀ relation ∈ node.reverseEdges, catalog.ReverseEdgeConsistent node relation

/-- The nodes of a catalog are those of its definitions, in their order, and each is consistent with
the others. -/
structure Consistent (catalog : Catalog) (definitions : CatalogDefinition) : Prop where
  ordered : catalog.nodes.map (·.name) = definitions.map (·.name)
  distinct : (catalog.nodes.map (·.name)).Nodup
  nodes : ∀ node ∈ catalog.nodes, catalog.NodeConsistent node

end Catalog

namespace CatalogDefinition

variable {definitions : CatalogDefinition}

theorem apart_of_checkReverseNames {node : String} {seen : List String}
    {written : List ReverseEdgeDefinition} (checked : checkReverseNames node seen written = .ok ()) :
    (written.map (·.name)).Nodup ∧ ∀ definition ∈ written, definition.name ∉ seen := by
  induction written generalizing seen with
  | nil => simp
  | cons definition rest ih =>
    obtain ⟨⟨⟩, fresh, behind⟩ := Outcome.bind_eq_ok.mp checked
    obtain ⟨apart, unseen⟩ := ih behind
    rw [List.map_cons, List.nodup_cons, List.forall_mem_cons]
    refine ⟨⟨?_, apart⟩, (spec_of_checkFresh fresh).2, ?_⟩
    · intro again
      obtain ⟨other, inside, same⟩ := List.mem_map.mp again
      exact unseen other inside (same ▸ List.mem_cons_self ..)
    · intro other inside known
      exact unseen other inside (List.mem_cons_of_mem _ known)

theorem mem_of_checkConstraints {node : String} {components : List Component}
    {constraints : List UniqueConstraint}
    (checked : checkConstraints node components constraints = .ok ()) :
    ∀ constraint ∈ constraints, ∀ name ∈ constraint.components,
      name ∈ components.map (·.name) := by
  intro constraint inside name part
  simp only [checkConstraints] at checked
  split at checked
  · cases checked
  · rename_i all_known
    have known := List.find?_eq_none.mp all_known name
      (List.mem_flatMap.mpr ⟨constraint, inside, part⟩)
    simpa using known

theorem mem_of_chooseIdentifier {node : String} {first : UniqueConstraintDefinition}
    {constraints : List UniqueConstraintDefinition} {constraint : UniqueConstraint}
    (inside : first ∈ constraints)
    (chosen : chooseIdentifier node first constraints = .ok constraint) :
    constraint ∈ constraints.map (·.constraint) := by
  unfold chooseIdentifier at chosen
  split at chosen
  · cases chosen
    exact List.mem_map_of_mem inside
  · rename_i flagged single
    cases chosen
    have member : flagged ∈ constraints.filter (·.isIdentifier) := single ▸ List.mem_singleton_self _
    exact List.mem_map_of_mem (List.mem_filter.mp member).1
  · cases chosen

/-- What was checked of a node's names and constraints. -/
structure CheckedFrom (definition : NodeDefinition) (node : Node) : Prop where
  apart : (node.components.map (·.name) ++ definition.reverseEdges.map (·.name)).Nodup
  constraints : node.uniqueConstraints = definition.uniqueConstraints.map (·.constraint)
  chosen : node.identifier ∈ node.uniqueConstraints
  known : ∀ constraint ∈ node.uniqueConstraints, ∀ name ∈ constraint.components,
    name ∈ node.components.map (·.name)

theorem checkedFrom_of_buildNode {definition : NodeDefinition} {node : Node}
    (built : buildNode definitions definition = .ok node) : CheckedFrom definition node := by
  have distinct := (buildNode_spec built).apart
  unfold buildNode at built
  obtain ⟨⟨⟩, -, built⟩ := Outcome.bind_eq_ok.mp built
  obtain ⟨components, -, built⟩ := Outcome.bind_eq_ok.mp built
  obtain ⟨⟨⟩, reversed, built⟩ := Outcome.bind_eq_ok.mp built
  cases written : definition.uniqueConstraints with
  | nil => rw [written] at built; cases built
  | cons first rest =>
    simp only [written] at built
    obtain ⟨⟨⟩, checked, built⟩ := Outcome.bind_eq_ok.mp built
    obtain ⟨identifier, chosen, built⟩ := Outcome.bind_eq_ok.mp built
    split at built
    · cases built
    · cases built
      obtain ⟨apart, unseen⟩ := apart_of_checkReverseNames reversed
      refine ⟨?_, by rw [written], mem_of_chooseIdentifier (List.mem_cons_self ..) chosen,
        mem_of_checkConstraints checked⟩
      rw [List.nodup_append]
      refine ⟨distinct, apart, ?_⟩
      rintro name inside _ behind rfl
      obtain ⟨reverse, member, rfl⟩ := List.mem_map.mp behind
      exact unseen reverse member (List.mem_reverse.mpr inside)

theorem node?_of_distinct {definition : NodeDefinition}
    (distinct : (definitions.map (·.name)).Nodup) (inside : definition ∈ definitions) :
    node? definitions definition.name = some definition := by
  have backwards : (definitions.reverse.map (·.name)).Nodup := by
    rw [List.map_reverse, List.nodup_reverse]
    exact distinct
  exact Lists.find?_name_eq_some backwards (List.mem_reverse.mpr inside)

theorem hasUniqueEdge_iff {definition : NodeDefinition} {node : Node}
    (checked : CheckedFrom definition node) (name : String) :
    definition.hasUniqueEdge name = true ↔
      ∃ constraint ∈ node.uniqueConstraints, constraint.components = [name] := by
  rw [checked.constraints, NodeDefinition.hasUniqueEdge, List.any_eq_true]
  simp only [List.mem_map, decide_eq_true_iff, exists_exists_and_eq_and]
  rfl

end CatalogDefinition

namespace Node

theorem names_of_identifierComponents {node : Node}
    (known : ∀ name ∈ node.identifier.components, name ∈ node.components.map (·.name)) :
    node.identifierComponents.map (·.name) = node.identifier.components := by
  unfold identifierComponents
  generalize node.identifier.components = names at known
  induction names with
  | nil => rfl
  | cons name rest ih =>
    rw [List.forall_mem_cons] at known
    obtain ⟨component, inside, named⟩ := List.mem_map.mp known.1
    have some_named : (node.component? name).isSome := by
      rw [component?, List.find?_isSome]
      exact ⟨component, inside, by simpa using named⟩
    obtain ⟨found, same⟩ := Option.isSome_iff_exists.mp some_named
    rw [List.filterMap_cons_some same, List.map_cons, ih known.2, name_of_component? same]

theorem leaf_of_component? {node : Node} {field : Leaf}
    (found : node.component? field.name = some (.leaf field)) :
    node.leaf field.name = .ok field := by
  unfold leaf
  rw [found]

theorem edge_of_component? {node : Node} {name : String} {link : Edge}
    (found : node.component? name = some (.edge link)) : node.edge name = .ok link := by
  unfold edge
  rw [found]

end Node

theorem Catalog.node_eq_ok_iff {catalog : Catalog} {name : String} {node : Node} :
    catalog.node name = .ok node ↔ catalog.node? name = some node := by
  unfold Catalog.node
  cases catalog.node? name with
  | none => simp only [reduceCtorEq]
  | some found => simp only [Except.ok.injEq, Option.some.injEq]

namespace CatalogDefinition

variable {definitions : CatalogDefinition}

/-- A node of a catalog with the definition and the bare node that it comes from. -/
structure Origin (definitions : CatalogDefinition) (nodes : List Node)
    (definition : NodeDefinition) (bare node : Node) : Prop where
  defined : definition ∈ definitions
  built : BuiltFrom definitions definition bare
  checked : CheckedFrom definition bare
  connected : Connected definitions nodes bare definition node

theorem Origin.name_eq {nodes : List Node} {definition : NodeDefinition} {bare node : Node}
    (origin : Origin definitions nodes definition bare node) : node.name = definition.name := by
  obtain ⟨_, -, rfl⟩ := origin.connected
  exact origin.built.name

theorem origins_of_build {catalog : Catalog} (built : definitions.build = .ok catalog) :
    catalog.nodes.map (·.name) = definitions.map (·.name) ∧
      (catalog.nodes.map (·.name)).Nodup ∧
      ∃ nodes, (∀ bare ∈ nodes, ∃ definition, BuiltFrom definitions definition bare) ∧
        ∀ node ∈ catalog.nodes, ∃ definition bare,
          Origin definitions nodes definition bare node := by
  obtain ⟨nodes, apart, triples, firsts, seconds, thirds, each⟩ := steps_of_build built
  have origins : ∀ triple ∈ triples,
      Origin definitions nodes triple.1 triple.2.1 triple.2.2 := by
    intro triple inside
    obtain ⟨bare, connected⟩ := each triple inside
    exact ⟨firsts ▸ List.mem_map_of_mem inside, buildNode_spec bare, checkedFrom_of_buildNode bare,
      connected⟩
  refine ⟨?_, apart, nodes, ?_, ?_⟩
  · conv_rhs => rw [firsts]
    rw [thirds, List.map_map, List.map_map]
    exact List.map_congr_left fun triple inside => (origins triple inside).name_eq
  · intro bare inside
    rw [seconds] at inside
    obtain ⟨triple, member, rfl⟩ := List.mem_map.mp inside
    exact ⟨triple.1, (origins triple member).built⟩
  · intro node inside
    rw [thirds] at inside
    obtain ⟨triple, member, rfl⟩ := List.mem_map.mp inside
    exact ⟨triple.1, triple.2.1, origins triple member⟩

namespace Origin

variable {nodes : List Node} {definition : NodeDefinition} {bare node : Node}

theorem identifier_complete (origin : Origin definitions nodes definition bare node) :
    node.identifierComponents.map (·.name) = node.identifier.components := by
  obtain ⟨_, -, rfl⟩ := origin.connected
  apply Node.names_of_identifierComponents
  exact origin.checked.known bare.identifier origin.checked.chosen

theorem required (origin : Origin definitions nodes definition bare node) :
    ∀ component ∈ node.identifierComponents, component.nullable = false := by
  obtain ⟨_, -, rfl⟩ := origin.connected
  exact origin.built.required

theorem component?_of_mem (origin : Origin definitions nodes definition bare node)
    {component : Component} (inside : component ∈ node.components) :
    node.component? component.name = some component := by
  obtain ⟨_, -, rfl⟩ := origin.connected
  exact Lists.find?_name_eq_some origin.built.apart inside

theorem hasUniqueEdge_iff (origin : Origin definitions nodes definition bare node) (name : String) :
    definition.hasUniqueEdge name = true ↔
      ∃ constraint ∈ node.uniqueConstraints, constraint.components = [name] := by
  obtain ⟨_, -, rfl⟩ := origin.connected
  exact CatalogDefinition.hasUniqueEdge_iff origin.checked name

theorem names_of_reverseEdges (origin : Origin definitions nodes definition bare node) :
    node.reverseEdges.map (·.name) = definition.reverseEdges.map (·.name) := by
  obtain ⟨relations, reversed, rfl⟩ := origin.connected
  rw [← List.forall₂_eq_eq_eq, List.forall₂_map_left_iff, List.forall₂_map_right_iff]
  exact (Outcome.mapM_eq_ok_iff.mp reversed).flip.imp fun _ _ made => (buildReverseEdge_spec made).1

theorem distinct (origin : Origin definitions nodes definition bare node) :
    (node.components.map (·.name) ++ node.reverseEdges.map (·.name)).Nodup := by
  rw [origin.names_of_reverseEdges]
  obtain ⟨_, -, rfl⟩ := origin.connected
  exact origin.checked.apart

theorem named (origin : Origin definitions nodes definition bare node) :
    ∀ name ∈ node.components.map (·.name) ++ node.reverseEdges.map (·.name),
      isName name = true := by
  rw [origin.names_of_reverseEdges]
  obtain ⟨_, -, rfl⟩ := origin.connected
  intro name inside
  rcases List.mem_append.mp inside with front | back
  · obtain ⟨component, member, rfl⟩ := List.mem_map.mp front
    exact origin.built.named component member
  · obtain ⟨written, member, rfl⟩ := List.mem_map.mp back
    exact origin.built.reversed written member

theorem owner_of_edge (origin : Origin definitions nodes definition bare node) {link : Edge}
    (inside : .edge link ∈ node.components) : link.node = node.name := by
  rw [origin.name_eq]
  obtain ⟨_, -, rfl⟩ := origin.connected
  obtain ⟨written, made⟩ := origin.built.buildEdge inside
  exact (buildEdge_spec made).1

end Origin

variable {catalog : Catalog}

/-- The columns of an edge are called after the leaves that identify its head. -/
theorem edgeConsistent_of_build (built : definitions.build = .ok catalog) {node : Node}
    (inside : node ∈ catalog.nodes) {link : Edge} (edge : .edge link ∈ node.components) :
    catalog.EdgeConsistent node link := by
  obtain ⟨-, apart, nodes, -, origins⟩ := origins_of_build built
  obtain ⟨definition, bare, origin⟩ := origins node inside
  have found : catalog.node? node.name = some node := Lists.find?_name_eq_some apart inside
  obtain ⟨head, leads⟩ := (build_wellFormed built).heads found link edge
  have member : head ∈ catalog.nodes := List.mem_of_find?_eq_some leads.node
  obtain ⟨_, _, start⟩ := origins head member
  obtain ⟨fields, identified, columns⟩ := leads.columns
  refine ⟨origin.owner_of_edge edge, head, member, leads.edgeHead_eq,
    Catalog.name_of_node? leads.node, ?_, ?_⟩
  · have names : head.identifierComponents.map (·.name) = fields.map (·.name) := by
      rw [identified, List.map_map]
      rfl
    rw [columns, ← names, start.identifier_complete]
  · intro column repeated
    have named : column.headLeaf ∈ fields.map (·.name) :=
      columns ▸ List.mem_map_of_mem repeated
    obtain ⟨field, part, same⟩ := List.mem_map.mp named
    have identifies : .leaf field ∈ head.identifierComponents :=
      identified ▸ List.mem_map_of_mem part
    refine ⟨field, ?_, identifies, start.required _ identifies⟩
    rw [← same]
    exact Node.leaf_of_component? (Node.component?_of_identifier identifies)

theorem reverseEdgeConsistent_of_build (built : definitions.build = .ok catalog) {node : Node}
    (inside : node ∈ catalog.nodes) {relation : ReverseEdge}
    (reverse : relation ∈ node.reverseEdges) : catalog.ReverseEdgeConsistent node relation := by
  obtain ⟨ordered, apart, nodes, bares, origins⟩ := origins_of_build built
  obtain ⟨definition, bare, origin⟩ := origins node inside
  have found : catalog.node? node.name = some node := Lists.find?_name_eq_some apart inside
  obtain ⟨back, head, found', holds⟩ := (build_wellFormed built).relations found relation reverse
  have member : head ∈ catalog.nodes := List.mem_of_find?_eq_some found'
  obtain ⟨definition', bare', origin'⟩ := origins head member
  have named : head.name = relation.head := Catalog.name_of_node? found'
  obtain ⟨relations, reversed, rfl⟩ := origin.connected
  obtain ⟨written, -, made⟩ := Outcome.exists_of_mem_mapM reversed reverse
  obtain ⟨start, name, -, link, definition'', found_edge, -, known, rfl⟩ :=
    parts_of_buildReverseEdge made
  obtain ⟨first, among, called, component⟩ := start_of_findEdge? found_edge
  refine ⟨rfl, back, head, member, Catalog.node_eq_ok_iff.mpr found', named,
    Node.edge_of_component? (origin'.component?_of_mem holds), ?_⟩
  -- the definition that the multiplicity was read from is the one of the head
  have same : definition'' = definition' := by
    obtain ⟨definition₀, built₀⟩ := bares first among
    obtain ⟨written₀, edge₀⟩ := built₀.buildEdge (Node.mem_of_component? component)
    have owner : link.node = definition'.name := by rw [← origin'.name_eq, named]; rfl
    have begins : String.ofList start = definition'.name := by
      rw [← owner, (buildEdge_spec edge₀).1, ← built₀.name, called]
    rw [begins, node?_of_distinct (ordered ▸ apart) origin'.defined] at known
    exact (Option.some.inj known).symm
  have edge_name : String.ofList name = link.name := (Node.name_of_component? component).symm
  rw [← origin'.hasUniqueEdge_iff, same, edge_name]
  by_cases unique : definition'.hasUniqueEdge link.name = true
  · simp only [unique, if_true]
  · simp only [unique, if_false, reduceCtorEq]

/-- What is built from definitions is consistent. -/
theorem consistent_of_build (built : definitions.build = .ok catalog) :
    catalog.Consistent definitions := by
  obtain ⟨ordered, apart, nodes, -, origins⟩ := origins_of_build built
  refine ⟨ordered, apart, ?_⟩
  intro node inside
  obtain ⟨definition, bare, origin⟩ := origins node inside
  have found : catalog.node? node.name = some node := Lists.find?_name_eq_some apart inside
  refine ⟨Catalog.node_eq_ok_iff.mpr found, origin.distinct, origin.named, ?_,
    origin.identifier_complete, origin.required, ?_, ?_⟩
  · obtain ⟨_, -, rfl⟩ := origin.connected
    exact origin.checked.chosen
  · exact fun link edge => edgeConsistent_of_build built inside edge
  · exact fun relation reverse => reverseEdgeConsistent_of_build built inside reverse

end CatalogDefinition

end LiveQuery
