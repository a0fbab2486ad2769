import LiveQuery.Proofs.Catalog.WellFormed
import LiveQuery.Proofs.Value.Atom

set_option autoImplicit false

namespace LiveQuery

def Record.atom? (record : Record) (key : String) : Option Atom :=
  (record.get? key).bind Value.atom?

namespace Edge

/-- The atoms of a head under the leaves that the columns of the edge repeat. -/
def columnsOf (link : Edge) (head : Record) : Option (List Atom) :=
  link.columns.mapM fun column => head.atom? column.headLeaf

/-- What names the head that a record refers to. -/
def target (link : Edge) (record : Record) : Option (List Atom) :=
  match record.get? link.name with
  | some (.record reference) => link.columnsOf reference
  | _ => none

/-- Whether an instance refers to another one. -/
def refers (link : Edge) (row head : Record) : Bool :=
  match link.target row with
  | some target => link.columnsOf head = some target
  | none => false

theorem refers_iff {link : Edge} {row head : Record} :
    link.refers row head = true ↔
      ∃ target, link.target row = some target ∧ link.columnsOf head = some target := by
  unfold refers
  cases link.target row <;> simp

end Edge

/-- What a record says of a component, as far as it names the instance. -/
def Component.key (component : Component) (record : Record) : Option (List Atom) :=
  match component with
  | .leaf field => (record.atom? field.name).map fun atom => [atom]
  | .edge link => link.target record

/-- What names the instance of a record. -/
def Node.key (node : Node) (record : Record) : Option (List (List Atom)) :=
  node.identifierComponents.mapM fun component => component.key record

namespace Catalog

/-- The record has canonical values for all that identifies the head of the edge. -/
def Identifies (catalog : Catalog) (link : Edge) (reference : Record) : Prop :=
  ∀ head, catalog.node? link.head = some head → ∀ field, .leaf field ∈ head.identifierComponents →
    ∃ value, reference.get? field.name = some value ∧ field.Canonical value

/-- A component has a value in the record, in the form that stores keep. -/
def Holds (catalog : Catalog) (component : Component) (record : Record) : Prop :=
  match component with
  | .leaf field => ∃ value, record.get? field.name = some value ∧ field.Canonical value
  | .edge link => (link.nullable = true ∧ record.get? link.name = some .null) ∨
      ∃ reference, record.get? link.name = some (.record reference) ∧
        catalog.Identifies link reference

/-- The record names an instance of the node. -/
def Names (catalog : Catalog) (node : Node) (record : Record) : Prop :=
  ∀ component ∈ node.identifierComponents, catalog.Holds component record

end Catalog

section Naming

variable {catalog : Catalog} {node : Node} {link : Edge} {head : Node} {name : String}
  {record other row : Record}

theorem Catalog.Leads.leaf_of_identifier (leads : catalog.Leads link head) {component : Component}
    (inside : component ∈ head.identifierComponents) : ∃ field, component = .leaf field := by
  obtain ⟨leaves, identified, -⟩ := leads.columns
  rw [identified] at inside
  obtain ⟨field, -, same⟩ := List.mem_map.mp inside
  exact ⟨field, same.symm⟩

theorem Catalog.Leads.names (leads : catalog.Leads link head)
    (identifies : catalog.Identifies link record) : catalog.Names head record := by
  intro component inside
  obtain ⟨field, rfl⟩ := leads.leaf_of_identifier inside
  exact identifies head leads.node field inside

theorem Catalog.Leads.columnsOf_eq (leads : catalog.Leads link head) (record : Record) :
    ∃ leaves : List Leaf, head.IdentifiedBy leaves ∧
      link.columnsOf record = leaves.mapM fun field => record.atom? field.name := by
  obtain ⟨leaves, identified, columns⟩ := leads.columns
  refine ⟨leaves, identified, ?_⟩
  have named : link.columnsOf record =
      (link.columns.map fun column => column.headLeaf).mapM record.atom? := by
    rw [List.mapM_map]
    rfl
  rw [named, columns, List.mapM_map]
  rfl

/-- The key of a head and the columns of an edge to it say the same. -/
theorem Catalog.Leads.key_eq (leads : catalog.Leads link head) (record : Record) :
    head.key record = (link.columnsOf record).map (List.map fun atom => [atom]) := by
  obtain ⟨leaves, identified, columns⟩ := leads.columnsOf_eq record
  unfold Node.key
  rw [identified, columns, ← Lists.mapM_map, List.mapM_map]
  rfl

theorem Catalog.Leads.key_eq_iff (leads : catalog.Leads link head) :
    head.key record = head.key other ↔ link.columnsOf record = link.columnsOf other := by
  rw [leads.key_eq, leads.key_eq]
  have apart : Function.Injective (List.map fun atom : Atom => [atom]) :=
    List.map_injective_iff.mpr fun _ _ same => List.singleton_inj.mp same
  exact (Option.map_injective apart).eq_iff

theorem Catalog.Leads.columnsOf_isSome (leads : catalog.Leads link head)
    (identifies : catalog.Identifies link record) : (link.columnsOf record).isSome := by
  obtain ⟨leaves, identified, columns⟩ := leads.columnsOf_eq record
  rw [columns]
  refine Lists.mapM_isSome fun field inside => ?_
  have part : .leaf field ∈ head.identifierComponents := by
    rw [identified]
    exact List.mem_map_of_mem inside
  obtain ⟨value, known, canonical⟩ := identifies head leads.node field part
  rw [Record.atom?, known, Option.bind_some]
  exact canonical.atom?_isSome

theorem Catalog.Leads.column_of_leaf (leads : catalog.Leads link head) {other : Node}
    (found : catalog.node? link.head = some other) {field : Leaf}
    (inside : .leaf field ∈ other.identifierComponents) :
    ∃ column ∈ link.columns, column.headLeaf = field.name := by
  obtain ⟨leaves, identified, columns⟩ := leads.columns
  rw [leads.node, Option.some.injEq] at found
  rw [← found, identified, List.mem_map_of_injective fun _ _ same => by cases same; rfl] at inside
  have named : field.name ∈ link.columns.map (·.headLeaf) := by
    rw [columns]
    exact List.mem_map_of_mem inside
  exact List.mem_map.mp named

theorem Catalog.Leads.leaf_of_column (leads : catalog.Leads link head)
    {column : ForeignKeyColumn} (inside : column ∈ link.columns) :
    ∃ field, .leaf field ∈ head.identifierComponents ∧ field.name = column.headLeaf := by
  obtain ⟨leaves, identified, columns⟩ := leads.columns
  have named : column.headLeaf ∈ leaves.map (·.name) := by
    rw [← columns]
    exact List.mem_map_of_mem inside
  obtain ⟨field, member, same⟩ := List.mem_map.mp named
  refine ⟨field, ?_, same⟩
  rw [identified]
  exact List.mem_map_of_mem member

theorem Edge.columnsOf_congr
    (columns : ∀ column ∈ link.columns, record.get? column.headLeaf = other.get? column.headLeaf) :
    link.columnsOf record = link.columnsOf other :=
  Lists.mapM_congr fun column inside => by rw [Record.atom?, Record.atom?, columns column inside]

theorem reference_of_required {link : Edge} (required : link.nullable = false)
    (holds : catalog.Holds (.edge link) record) :
    ∃ reference, record.get? link.name = some (.record reference) ∧
      catalog.Identifies link reference := by
  rcases holds with ⟨nullable, -⟩ | found
  · rw [required] at nullable
    cases nullable
  · exact found

theorem Edge.refers_eq_of_target_eq (same : link.target record = link.target other)
    (row : Record) : link.refers record row = link.refers other row := by
  unfold Edge.refers
  rw [same]

theorem Catalog.Leads.refers_eq_of_key_eq (leads : catalog.Leads link head)
    (same : head.key record = head.key other) (row : Record) :
    link.refers row record = link.refers row other := by
  unfold Edge.refers
  rw [leads.key_eq_iff.mp same]

theorem Catalog.Holds.key_isSome (wellFormed : catalog.WellFormed)
    (found : catalog.node? name = some node) {component : Component}
    (inside : component ∈ node.identifierComponents) (holds : catalog.Holds component record) :
    (component.key record).isSome := by
  have required := wellFormed.required found component inside
  cases component with
  | leaf field =>
    obtain ⟨value, known, canonical⟩ := holds
    simp only [Component.key, Record.atom?, known, Option.bind_some, Option.isSome_map,
      canonical.atom?_isSome]
  | edge link =>
    obtain ⟨head, leads⟩ := wellFormed.heads found link (Node.mem_of_identifier inside)
    rcases holds with ⟨nullable, -⟩ | ⟨reference, known, identifies⟩
    · rw [show link.nullable = false from required] at nullable
      cases nullable
    · simp only [Component.key, Edge.target, known, leads.columnsOf_isSome identifies]

theorem Catalog.Names.key_eq_iff (wellFormed : catalog.WellFormed)
    (found : catalog.node? name = some node) (names : catalog.Names node record)
    (names' : catalog.Names node other) : node.key record = node.key other ↔
      ∀ component ∈ node.identifierComponents, component.key record = component.key other :=
  Lists.mapM_eq_mapM_iff
    (fun component inside => (names component inside).key_isSome wellFormed found inside)
    fun component inside => (names' component inside).key_isSome wellFormed found inside

end Naming

end LiveQuery
