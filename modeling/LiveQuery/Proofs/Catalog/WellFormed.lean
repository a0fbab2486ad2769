import LiveQuery.Catalog.Definition
import LiveQuery.Proofs.Lists
import LiveQuery.Proofs.Outcome

set_option autoImplicit false

namespace LiveQuery

/-- The leaves that identify a node, for a node without edges in its identifier. -/
def Node.IdentifiedBy (node : Node) (leaves : List Leaf) : Prop :=
  node.identifierComponents = leaves.map .leaf

namespace Catalog

/-- An edge leads to a node that is identified by the leaves which the columns of the edge
repeat. -/
structure Leads (catalog : Catalog) (link : Edge) (head : Node) : Prop where
  node : catalog.node? link.head = some head
  columns : ∃ leaves, head.IdentifiedBy leaves ∧
    link.columns.map (·.headLeaf) = leaves.map (·.name)

structure WellFormed (catalog : Catalog) : Prop where
  /-- No component of an identifier may be null. -/
  required : ∀ {name node}, catalog.node? name = some node →
    ∀ component ∈ node.identifierComponents, component.nullable = false
  /-- A component's name leads to that component. -/
  components : ∀ {name node}, catalog.node? name = some node →
    ∀ component ∈ node.components, node.component? component.name = some component
  /-- Every edge leads to some node. -/
  heads : ∀ {name node}, catalog.node? name = some node →
    ∀ link, .edge link ∈ node.components → ∃ head, catalog.Leads link head
  /-- A reverse edge is an edge of its head that leads to the node. -/
  relations : ∀ {name node}, catalog.node? name = some node →
    ∀ relation ∈ node.reverseEdges, relation.edge.head = node.name ∧
      ∃ head, catalog.node? relation.head = some head ∧ .edge relation.edge ∈ head.components

end Catalog

namespace Node

theorem name_of_component? {node : Node} {name : String} {component : Component}
    (found : node.component? name = some component) : component.name = name := by
  simpa using List.find?_some found

theorem mem_of_component? {node : Node} {name : String} {component : Component}
    (found : node.component? name = some component) : component ∈ node.components :=
  List.mem_of_find?_eq_some found

theorem component?_of_identifier {node : Node} {component : Component}
    (inside : component ∈ node.identifierComponents) :
    node.component? component.name = some component := by
  obtain ⟨name, -, found⟩ := List.mem_filterMap.mp inside
  rwa [name_of_component? found]

theorem mem_of_identifier {node : Node} {component : Component}
    (inside : component ∈ node.identifierComponents) : component ∈ node.components :=
  mem_of_component? (component?_of_identifier inside)

end Node

theorem Catalog.name_of_node? {catalog : Catalog} {name : String} {node : Node}
    (found : catalog.node? name = some node) : node.name = name := by
  simpa using List.find?_some found

theorem Catalog.Leads.edgeHead_eq {catalog : Catalog} {link : Edge} {head : Node}
    (leads : catalog.Leads link head) : catalog.edgeHead link = .ok head := by
  unfold Catalog.edgeHead Catalog.node
  rw [leads.node]

theorem Catalog.eq_of_name_eq {catalog : Catalog} {node other : Node}
    (found : catalog.node? node.name = some node) (found' : catalog.node? other.name = some other)
    (same : node.name = other.name) : node = other := by
  rw [same, found', Option.some.injEq] at found
  exact found.symm

namespace CatalogDefinition

variable {definitions : CatalogDefinition}

/-- What the definition of an edge is built into. -/
theorem buildEdge_spec {node : String} {definition : EdgeDefinition} {link : Edge}
    (built : buildEdge definitions node definition = .ok link) :
    link.node = node ∧ link.name = definition.name ∧ link.head = definition.head ∧
      ∃ head leaves, node? definitions definition.head = some head ∧
        head.identifierLeaves? = some leaves ∧ link.columns.map (·.headLeaf) = leaves := by
  unfold buildEdge at built
  cases found : node? definitions definition.head with
  | none => rw [found] at built; cases built
  | some head =>
    cases known : head.identifierLeaves? with
    | none => simp only [found, known] at built; cases built
    | some leaves =>
      simp only [found, known] at built
      cases foreign : definition.columns.keys.find? (!leaves.contains ·) with
      | some leaf => rw [foreign] at built; cases built
      | none =>
        rw [foreign] at built
        cases built
        exact ⟨rfl, rfl, rfl, head, leaves, rfl, known, by
          rw [List.map_map]
          exact List.map_id leaves⟩

theorem buildComponent_name {node : String} {definition : ComponentDefinition}
    {component : Component} (built : buildComponent definitions node definition = .ok component) :
    component.name = definition.name := by
  cases definition with
  | leaf definition => cases built; rfl
  | edge definition =>
    obtain ⟨link, edge, same⟩ := Outcome.bind_eq_ok.mp built
    cases same
    exact (buildEdge_spec edge).2.1

theorem isName_of_checkName {name : String} (checked : checkName name = .ok ()) :
    isName name = true := by
  unfold checkName at checked
  by_cases named : isName name = true
  · exact named
  · rw [if_neg named] at checked
    cases checked

theorem isNameCharacter_of_isName {name : String} (named : isName name = true) {c : Char}
    (inside : c ∈ name.toList) : isNameCharacter c = true := by
  unfold isName at named
  split at named
  · cases named
  · rename_i first rest same
    rw [Bool.and_eq_true, List.all_eq_true] at named
    rw [same] at inside
    rcases List.mem_cons.mp inside with rfl | behind
    · rw [isNameCharacter, named.1, Bool.true_or]
    · exact named.2 c behind

theorem spec_of_checkFresh {node name : String} {seen : List String}
    (fresh : checkFresh node seen name = .ok ()) : isName name = true ∧ name ∉ seen := by
  obtain ⟨⟨⟩, checked, again⟩ := Outcome.bind_eq_ok.mp fresh
  constructor
  · exact isName_of_checkName checked
  · intro known
    rw [if_pos (by simpa using known)] at again
    cases again

theorem buildComponents_spec {node : String} {seen : List String}
    {written : List ComponentDefinition} {components : List Component}
    (built : buildComponents definitions node seen written = .ok components) :
    List.Forall₂ (fun definition component =>
        buildComponent definitions node definition = .ok component ∧
          component.name = definition.name) written components ∧
      (components.map (·.name)).Nodup ∧
      ∀ component ∈ components, isName component.name = true ∧ component.name ∉ seen := by
  induction written generalizing seen components with
  | nil =>
    cases built
    exact ⟨.nil, List.nodup_nil, by simp⟩
  | cons definition rest ih =>
    obtain ⟨⟨⟩, fresh, built⟩ := Outcome.bind_eq_ok.mp built
    obtain ⟨component, first, built⟩ := Outcome.bind_eq_ok.mp built
    obtain ⟨others, behind, same⟩ := Outcome.bind_eq_ok.mp built
    cases same
    obtain ⟨each, apart, unseen⟩ := ih behind
    have named := buildComponent_name first
    have new := spec_of_checkFresh fresh
    refine ⟨.cons ⟨first, named⟩ each, ?_, ?_⟩
    · rw [List.map_cons, List.nodup_cons]
      refine ⟨?_, apart⟩
      intro again
      obtain ⟨other, inside, same⟩ := List.mem_map.mp again
      exact (unseen other inside).2 (by rw [same, named]; exact List.mem_cons_self ..)
    · rw [List.forall_mem_cons, named]
      refine ⟨new, fun other inside => ⟨(unseen other inside).1, fun known => ?_⟩⟩
      exact (unseen other inside).2 (List.mem_cons_of_mem _ known)

theorem isName_of_checkReverseNames {node : String} {seen : List String}
    {written : List ReverseEdgeDefinition} (checked : checkReverseNames node seen written = .ok ()) :
    ∀ definition ∈ written, isName definition.name = true := by
  induction written generalizing seen with
  | nil => simp
  | cons definition rest ih =>
    obtain ⟨⟨⟩, fresh, behind⟩ := Outcome.bind_eq_ok.mp checked
    exact List.forall_mem_cons.mpr ⟨(spec_of_checkFresh fresh).1, ih behind⟩

/-- The definition of a node and the constraint that is built into its identifier. -/
theorem identifier?_of_chooseIdentifier {definition : NodeDefinition}
    {first : UniqueConstraintDefinition} {rest : List UniqueConstraintDefinition}
    {constraint : UniqueConstraint} (written : definition.uniqueConstraints = first :: rest)
    (chosen : chooseIdentifier definition.name first definition.uniqueConstraints =
      .ok constraint) :
    ∃ origin, definition.identifier? = some origin ∧ constraint = origin.constraint := by
  unfold chooseIdentifier at chosen
  unfold NodeDefinition.identifier?
  rw [← List.head?_filter]
  cases flagged : definition.uniqueConstraints.filter (·.isIdentifier) with
  | nil =>
    rw [flagged] at chosen
    cases chosen
    exact ⟨first, by rw [written]; rfl, rfl⟩
  | cons origin others =>
    rw [flagged] at chosen
    cases others with
    | nil =>
      cases chosen
      exact ⟨origin, rfl, rfl⟩
    | cons => cases chosen

/-- What a node is built from. -/
structure BuiltFrom (definitions : CatalogDefinition) (definition : NodeDefinition) (node : Node) :
    Prop where
  name : node.name = definition.name
  valid : isName node.name = true
  components : List.Forall₂ (fun written component =>
      buildComponent definitions definition.name written = .ok component ∧
        component.name = written.name) definition.components node.components
  apart : (node.components.map (·.name)).Nodup
  named : ∀ component ∈ node.components, isName component.name = true
  reversed : ∀ written ∈ definition.reverseEdges, isName written.name = true
  identifier : ∃ origin, definition.identifier? = some origin ∧
    node.identifier.components = origin.components
  required : ∀ component ∈ node.identifierComponents, component.nullable = false

theorem buildNode_spec {definition : NodeDefinition} {node : Node}
    (built : buildNode definitions definition = .ok node) :
    BuiltFrom definitions definition node := by
  unfold buildNode at built
  obtain ⟨⟨⟩, checked, built⟩ := Outcome.bind_eq_ok.mp built
  obtain ⟨components, written, built⟩ := Outcome.bind_eq_ok.mp built
  obtain ⟨⟨⟩, reversed, built⟩ := Outcome.bind_eq_ok.mp built
  cases constraints : definition.uniqueConstraints with
  | nil => rw [constraints] at built; cases built
  | cons first rest =>
    simp only [constraints] at built
    obtain ⟨⟨⟩, -, built⟩ := Outcome.bind_eq_ok.mp built
    obtain ⟨identifier, chosen, built⟩ := Outcome.bind_eq_ok.mp built
    obtain ⟨each, apart, named⟩ := buildComponents_spec written
    obtain ⟨origin, first, same⟩ :=
      identifier?_of_chooseIdentifier constraints (constraints.symm ▸ chosen)
    split at built
    · cases built
    · rename_i none_nullable
      cases built
      refine ⟨rfl, isName_of_checkName checked, each, apart,
        fun component inside => (named component inside).1,
        isName_of_checkReverseNames reversed, ⟨origin, first, by rw [same]; rfl⟩, ?_⟩
      simpa using none_nullable

theorem component?_of_hasLeaf {definition : NodeDefinition} {node : Node}
    (built : BuiltFrom definitions definition node) {name : String}
    (leaf : definition.hasLeaf name = true) :
    ∃ field : Leaf, field.name = name ∧ node.component? name = some (.leaf field) := by
  obtain ⟨written, inside, named⟩ := List.any_eq_true.mp leaf
  cases written with
  | edge => cases named
  | leaf written =>
    obtain ⟨component, member, made, -⟩ := Lists.exists_right_of_forall₂ built.components inside
    cases made
    have same : written.name = name := by simpa using named
    subst same
    exact ⟨_, rfl, Lists.find?_name_eq_some built.apart member⟩

/-- The leaves that a definition is identified by identify the node that is built from it. -/
theorem BuiltFrom.identifiedBy {definition : NodeDefinition} {node : Node}
    (built : BuiltFrom definitions definition node) {names : List String}
    (leaves : definition.identifierLeaves? = some names) :
    ∃ fields, node.IdentifiedBy fields ∧ fields.map (·.name) = names := by
  obtain ⟨origin, identifier, same⟩ := built.identifier
  unfold NodeDefinition.identifierLeaves? at leaves
  rw [identifier] at leaves
  have parts : origin.components.all definition.hasLeaf = true ∧ origin.components = names := by
    simpa [guard, Option.bind_eq_some_iff] using leaves
  obtain ⟨all, rfl⟩ := parts
  unfold Node.IdentifiedBy Node.identifierComponents
  rw [same]
  generalize origin.components = names at all
  induction names with
  | nil => exact ⟨[], rfl, rfl⟩
  | cons name rest ih =>
    rw [List.all_cons, Bool.and_eq_true] at all
    obtain ⟨field, named, found⟩ := component?_of_hasLeaf built all.1
    obtain ⟨fields, behind, names⟩ := ih all.2
    refine ⟨field :: fields, ?_, by rw [List.map_cons, named, names]⟩
    rw [List.filterMap_cons_some found, behind, List.map_cons]

theorem BuiltFrom.buildEdge {definition : NodeDefinition} {node : Node}
    (built : BuiltFrom definitions definition node) {link : Edge}
    (inside : .edge link ∈ node.components) :
    ∃ written, CatalogDefinition.buildEdge definitions definition.name written = .ok link := by
  obtain ⟨written, -, made, -⟩ := Lists.exists_left_of_forall₂ built.components inside
  cases written with
  | leaf => cases made
  | edge written =>
    obtain ⟨other, edge, same⟩ := Outcome.bind_eq_ok.mp made
    cases same
    exact ⟨written, edge⟩

/-- A node that is complete but for its reverse edges, and these. -/
def Connected (definitions : CatalogDefinition) (nodes : List Node) (bare : Node)
    (definition : NodeDefinition) (node : Node) : Prop :=
  ∃ reverseEdges,
    definition.reverseEdges.mapM (buildReverseEdge definitions nodes bare.name) =
      .ok reverseEdges ∧ node = { bare with reverseEdges }

theorem connect_spec {nodes known all : List Node} {pairs : List (Node × NodeDefinition)}
    (connected : connect definitions nodes known pairs = .ok all)
    (apart : (known.map (·.name)).Nodup) :
    (all.map (·.name)).Nodup ∧ ∃ added, all = known ++ added ∧
      List.Forall₂ (fun pair node => Connected definitions nodes pair.1 pair.2 node) pairs
        added := by
  induction pairs generalizing known with
  | nil =>
    cases connected
    exact ⟨apart, [], by simp, .nil⟩
  | cons pair rest ih =>
    obtain ⟨reverseEdges, reversed, connected⟩ := Outcome.bind_eq_ok.mp connected
    by_cases taken : known.any (·.name = pair.1.name) = true
    · rw [if_pos taken] at connected
      cases connected
    · rw [if_neg taken] at connected
      have fresh : pair.1.name ∉ known.map (·.name) := by
        intro inside
        obtain ⟨other, member, same⟩ := List.mem_map.mp inside
        exact taken (List.any_eq_true.mpr ⟨other, member, by simpa using same⟩)
      have apart' : ((known ++ [{ pair.1 with reverseEdges }]).map Node.name).Nodup := by
        rw [List.map_append, List.nodup_append]
        refine ⟨apart, by simp, ?_⟩
        intro name inside other single same
        rw [List.map_singleton, List.mem_singleton] at single
        exact fresh (single ▸ same ▸ inside)
      obtain ⟨unique, added, rfl, each⟩ := ih connected apart'
      exact ⟨unique, { pair.1 with reverseEdges } :: added, by simp,
        .cons ⟨reverseEdges, reversed, rfl⟩ each⟩

theorem start_of_findEdge? {nodes : List Node} {origin name : String} {link : Edge}
    (found : findEdge? nodes origin name = some link) :
    ∃ start ∈ nodes, start.name = origin ∧ start.component? name = some (.edge link) := by
  obtain ⟨start, inside, edge⟩ := List.exists_of_findSome?_eq_some found
  obtain ⟨member, named⟩ := List.mem_filter.mp inside
  refine ⟨start, List.mem_reverse.mp member, by simpa using named, ?_⟩
  unfold edgeOf? Node.edge at edge
  split at edge
  · rename_i link' known
    cases edge
    exact known
  · cases edge

/-- What a reverse edge is built from. -/
theorem parts_of_buildReverseEdge {nodes : List Node} {node : String}
    {written : ReverseEdgeDefinition} {relation : ReverseEdge}
    (built : buildReverseEdge definitions nodes node written = .ok relation) :
    ∃ origin name, splitAtPoint? written.edge.toList = some (origin, name) ∧
      ∃ link definition, findEdge? nodes (String.ofList origin) (String.ofList name) = some link ∧
        link.head = node ∧ node? definitions (String.ofList origin) = some definition ∧
        relation = ⟨node, written.name,
          if definition.hasUniqueEdge (String.ofList name) then .unique else .multiple, link⟩ := by
  unfold buildReverseEdge at built
  cases split : splitAtPoint? written.edge.toList with
  | none => simp only [split] at built; cases built
  | some parts =>
    simp only [split] at built
    cases found : findEdge? nodes (String.ofList parts.1) (String.ofList parts.2) with
    | none => simp only [found] at built; cases built
    | some link =>
      simp only [found] at built
      by_cases elsewhere : link.head ≠ node
      · rw [if_pos elsewhere] at built
        cases built
      · rw [if_neg elsewhere] at built
        cases known : node? definitions (String.ofList parts.1) with
        | none => simp only [known] at built; cases built
        | some definition =>
          simp only [known] at built
          cases built
          exact ⟨parts.1, parts.2, rfl, link, definition, found, not_not.mp elsewhere, known, rfl⟩

theorem buildReverseEdge_spec {nodes : List Node} {node : String}
    {written : ReverseEdgeDefinition} {relation : ReverseEdge}
    (built : buildReverseEdge definitions nodes node written = .ok relation) :
    relation.name = written.name ∧ relation.edge.head = node ∧
      ∃ origin ∈ nodes, .edge relation.edge ∈ origin.components := by
  obtain ⟨_, _, -, link, _, found, leads, -, rfl⟩ := parts_of_buildReverseEdge built
  obtain ⟨start, inside, -, component⟩ := start_of_findEdge? found
  exact ⟨rfl, leads, start, inside, Node.mem_of_component? component⟩

/-- The nodes before and after their reverse edges are added, and the definitions they come from. -/
structure BuiltCatalog (definitions : CatalogDefinition) (nodes : List Node) (catalog : Catalog) :
    Prop where
  apart : (catalog.nodes.map (·.name)).Nodup
  of_definition : ∀ definition ∈ definitions, ∃ bare node, BuiltFrom definitions definition bare ∧
    node ∈ catalog.nodes ∧ Connected definitions nodes bare definition node
  of_bare : ∀ bare ∈ nodes, ∃ definition node, BuiltFrom definitions definition bare ∧
    node ∈ catalog.nodes ∧ Connected definitions nodes bare definition node
  of_node : ∀ node ∈ catalog.nodes, ∃ definition bare, BuiltFrom definitions definition bare ∧
    Connected definitions nodes bare definition node

theorem steps_of_build {catalog : Catalog} (built : definitions.build = .ok catalog) :
    ∃ nodes, (catalog.nodes.map (·.name)).Nodup ∧
      ∃ triples : List (NodeDefinition × Node × Node), definitions = triples.map (·.1) ∧
        nodes = triples.map (·.2.1) ∧ catalog.nodes = triples.map (·.2.2) ∧
        ∀ triple ∈ triples, buildNode definitions triple.1 = .ok triple.2.1 ∧
          Connected definitions nodes triple.2.1 triple.1 triple.2.2 := by
  obtain ⟨nodes, written, built⟩ := Outcome.bind_eq_ok.mp built
  obtain ⟨connected, linked, same⟩ := Outcome.bind_eq_ok.mp built
  cases same
  obtain ⟨apart, added, extended, linked⟩ := connect_spec linked List.nodup_nil
  obtain ⟨triples, firsts, seconds, thirds, both⟩ :=
    Lists.exists_triples (Outcome.mapM_eq_ok_iff.mp written) linked
  refine ⟨nodes, apart, triples, firsts, seconds, ?_, both⟩
  rw [extended, List.nil_append, thirds]

theorem build_spec {catalog : Catalog} (built : definitions.build = .ok catalog) :
    ∃ nodes, BuiltCatalog definitions nodes catalog := by
  obtain ⟨nodes, apart, triples, firsts, seconds, thirds, both⟩ := steps_of_build built
  refine ⟨nodes, apart, ?_, ?_, ?_⟩
  · intro definition inside
    rw [firsts] at inside
    obtain ⟨triple, member, rfl⟩ := List.mem_map.mp inside
    exact ⟨triple.2.1, triple.2.2, buildNode_spec (both triple member).1,
      thirds ▸ List.mem_map_of_mem member, (both triple member).2⟩
  · intro bare inside
    rw [seconds] at inside
    obtain ⟨triple, member, rfl⟩ := List.mem_map.mp inside
    exact ⟨triple.1, triple.2.2, buildNode_spec (both triple member).1,
      thirds ▸ List.mem_map_of_mem member, (both triple member).2⟩
  · intro node inside
    rw [thirds] at inside
    obtain ⟨triple, member, rfl⟩ := List.mem_map.mp inside
    exact ⟨triple.1, triple.2.1, buildNode_spec (both triple member).1, (both triple member).2⟩

theorem node?_of_mem {catalog : Catalog} {nodes : List Node}
    (built : BuiltCatalog definitions nodes catalog) {node : Node} (inside : node ∈ catalog.nodes) :
    catalog.node? node.name = some node :=
  Lists.find?_name_eq_some built.apart inside

theorem mem_of_node? {name : String} {definition : NodeDefinition}
    (found : node? definitions name = some definition) :
    definition ∈ definitions ∧ definition.name = name :=
  ⟨List.mem_reverse.mp (List.mem_of_find?_eq_some found), by simpa using List.find?_some found⟩

theorem head_of_buildEdge {catalog : Catalog} {nodes : List Node}
    (whole : BuiltCatalog definitions nodes catalog) {node : String} {written : EdgeDefinition}
    {link : Edge} (built : buildEdge definitions node written = .ok link) :
    ∃ head, catalog.Leads link head := by
  obtain ⟨-, -, same, definition, names, found, leaves, columns⟩ := buildEdge_spec built
  obtain ⟨member, named⟩ := mem_of_node? found
  obtain ⟨bare, head, made, inside, relations, -, rfl⟩ := whole.of_definition definition member
  obtain ⟨fields, identified, rfl⟩ := made.identifiedBy leaves
  have found' := node?_of_mem whole inside
  have name : bare.name = link.head := by rw [made.name, named, same]
  refine ⟨{ bare with reverseEdges := relations }, ⟨?_, fields, identified, columns⟩⟩
  rwa [← name]

theorem build_wellFormed {catalog : Catalog} (built : definitions.build = .ok catalog) :
    catalog.WellFormed := by
  obtain ⟨nodes, whole⟩ := build_spec built
  have origin {name : String} {node : Node} (found : catalog.node? name = some node) :=
    whole.of_node node (List.mem_of_find?_eq_some found)
  constructor
  · intro name node found
    obtain ⟨definition, bare, made, relations, -, rfl⟩ := origin found
    exact made.required
  · intro name node found component inside
    obtain ⟨definition, bare, made, relations, -, rfl⟩ := origin found
    exact Lists.find?_name_eq_some made.apart inside
  · intro name node found link inside
    obtain ⟨definition, bare, made, relations, -, rfl⟩ := origin found
    obtain ⟨written, edge⟩ := made.buildEdge inside
    exact head_of_buildEdge whole edge
  · intro name node found relation inside
    obtain ⟨definition, bare, made, relations, reversed, rfl⟩ := origin found
    obtain ⟨written, -, reverse⟩ := Outcome.exists_of_mem_mapM reversed inside
    obtain ⟨-, leads, start, member, holds⟩ := buildReverseEdge_spec reverse
    refine ⟨leads, ?_⟩
    obtain ⟨definition', node', made', inside', relations', -, rfl⟩ := whole.of_bare start member
    obtain ⟨written', edge⟩ := made'.buildEdge holds
    have found' := node?_of_mem whole inside'
    have name : start.name = relation.head := by
      rw [made'.name]
      exact (buildEdge_spec edge).1.symm
    refine ⟨{ start with reverseEdges := relations' }, ?_, holds⟩
    rwa [← name]

theorem isName_node_of_build {catalog : Catalog} (built : definitions.build = .ok catalog)
    {name : String} {node : Node} (found : catalog.node? name = some node) :
    isName node.name = true := by
  obtain ⟨nodes, whole⟩ := build_spec built
  obtain ⟨definition, bare, made, relations, -, rfl⟩ :=
    whole.of_node node (List.mem_of_find?_eq_some found)
  exact made.valid

/-- Components have names of letters, digits and underscores. -/
theorem isName_of_build {catalog : Catalog} (built : definitions.build = .ok catalog)
    {name : String} {node : Node} (found : catalog.node? name = some node) {component : Component}
    (inside : component ∈ node.components) : isName component.name = true := by
  obtain ⟨nodes, whole⟩ := build_spec built
  obtain ⟨definition, bare, made, relations, -, rfl⟩ :=
    whole.of_node node (List.mem_of_find?_eq_some found)
  exact made.named component inside

theorem isName_reverse_of_build {catalog : Catalog} (built : definitions.build = .ok catalog)
    {name : String} {node : Node} (found : catalog.node? name = some node) {relation : ReverseEdge}
    (inside : relation ∈ node.reverseEdges) : isName relation.name = true := by
  obtain ⟨nodes, whole⟩ := build_spec built
  obtain ⟨definition, bare, made, relations, reversed, rfl⟩ :=
    whole.of_node node (List.mem_of_find?_eq_some found)
  obtain ⟨written, member, reverse⟩ := Outcome.exists_of_mem_mapM reversed inside
  rw [(buildReverseEdge_spec reverse).1]
  exact made.reversed written member

end CatalogDefinition

end LiveQuery
