set_option autoImplicit false

namespace LiveQuery

inductive LeafType where
  | boolean
  | int
  | float
  | string
  | uuid
  | instant
  deriving DecidableEq

namespace LeafType

def text : LeafType → String
  | .boolean => "boolean"
  | .int => "int"
  | .float => "float"
  | .string => "string"
  | .uuid => "uuid"
  | .instant => "datetime"

/-- Whether less and greater mean something for values of the type. -/
def isComparable : LeafType → Bool
  | .boolean => false
  | _ => true

end LeafType

structure Leaf where
  node : String
  name : String
  column : String
  type : LeafType
  nullable : Bool
  deriving DecidableEq

/-- One column of a foreign key and the leaf of the head's identifier that it repeats. -/
structure ForeignKeyColumn where
  headLeaf : String
  column : String
  deriving DecidableEq

structure Edge where
  node : String
  name : String
  head : String
  nullable : Bool
  columns : List ForeignKeyColumn
  deriving DecidableEq

/-- How many instances can refer to one head through an edge. -/
inductive Multiplicity where
  | unique
  | multiple
  deriving DecidableEq

/-- An edge seen from the node it refers to. -/
structure ReverseEdge where
  node : String
  name : String
  multiplicity : Multiplicity
  edge : Edge
  deriving DecidableEq

namespace ReverseEdge

/-- The node that holds the edge. -/
def head (relation : ReverseEdge) : String := relation.edge.node

/-- The key of the number of heads in records, inputs and orderings. -/
def countKey (relation : ReverseEdge) : String := relation.name ++ "Count"

end ReverseEdge

inductive Component where
  | leaf (field : Leaf)
  | edge (link : Edge)
  deriving DecidableEq

namespace Component

def name : Component → String
  | .leaf field => field.name
  | .edge link => link.name

def nullable : Component → Bool
  | .leaf field => field.nullable
  | .edge link => link.nullable

def leaf? : Component → Option Leaf
  | .leaf field => some field
  | .edge _ => none

def edge? : Component → Option Edge
  | .leaf _ => none
  | .edge link => some link

end Component

structure UniqueConstraint where
  name : String
  components : List String
  deriving DecidableEq

/-- A node type. Its identifier is one of its unique constraints. -/
structure Node where
  name : String
  table : String
  components : List Component
  reverseEdges : List ReverseEdge
  uniqueConstraints : List UniqueConstraint
  identifier : UniqueConstraint
  deriving DecidableEq

structure Catalog where
  nodes : List Node
  deriving DecidableEq

/-- What can be wrong with a catalog's definitions or with a look-up in it. -/
inductive CatalogError where
  | unknownNode (node : String)
  | unknownComponent (node component : String)
  | duplicateNode (node : String)
  | duplicateComponent (node name : String)
  | invalidName (name : String)
  | missingUniqueConstraint (node : String)
  | ambiguousIdentifier (node : String) (count : Nat)
  | nullableIdentifier (node component : String)
  | unsupportedEdgeHead (node edge head : String)
  | invalidForeignKey (node edge leaf : String)
  | invalidReverseEdge (node name reason : String)
  | unreadable
  deriving DecidableEq

namespace CatalogError

def message : CatalogError → String
  | unknownNode node => s!"No node definition found for `{node}`"
  | unknownComponent node component =>
    s!"Node `{node}` has no component or reverse edge named `{component}`"
  | duplicateNode node => s!"Node `{node}` is defined more than once"
  | duplicateComponent node name => s!"Node `{node}` defines `{name}` more than once"
  | invalidName name =>
    s!"Invalid name `{name}` (expected letters, digits and underscores, " ++
      "not starting with a digit)"
  | missingUniqueConstraint node =>
    s!"Node `{node}` has no unique constraint; at least one is required"
  | ambiguousIdentifier node count =>
    s!"Node `{node}` marks {count} unique constraints as identifier; exactly one is allowed"
  | nullableIdentifier node component =>
    s!"Identifier of `{node}` contains nullable component `{component}`"
  | unsupportedEdgeHead node edge head =>
    s!"Edge `{node}.{edge}` references `{head}` whose identifier is not made of leaves only"
  | invalidForeignKey node edge leaf => s!"Edge `{node}.{edge}` maps unknown head leaf `{leaf}`"
  | invalidReverseEdge node name reason => s!"Reverse edge `{node}.{name}` is invalid: {reason}"
  | unreadable => "Failed to parse node catalog configuration"

end CatalogError

namespace Node

def component? (node : Node) (name : String) : Option Component :=
  node.components.find? (·.name = name)

def unknown {α : Type} (node : Node) (name : String) : Except CatalogError α :=
  .error (.unknownComponent node.name name)

def leaf (node : Node) (name : String) : Except CatalogError Leaf :=
  match node.component? name with
  | some (.leaf field) => .ok field
  | _ => node.unknown name

def edge (node : Node) (name : String) : Except CatalogError Edge :=
  match node.component? name with
  | some (.edge link) => .ok link
  | _ => node.unknown name

def reverseEdge? (node : Node) (name : String) : Option ReverseEdge :=
  node.reverseEdges.find? (·.name = name)

def reverseEdge (node : Node) (name : String) : Except CatalogError ReverseEdge :=
  match node.reverseEdge? name with
  | some relation => .ok relation
  | none => node.unknown name

/-- The components of the identifier, in the order of the constraint. -/
def identifierComponents (node : Node) : List Component :=
  node.identifier.components.filterMap node.component?

/-- The leaves of the identifier, if it holds no edge. -/
def identifierLeaves? (node : Node) : Option (List Leaf) :=
  node.identifierComponents.mapM Component.leaf?

end Node

namespace Catalog

def node? (catalog : Catalog) (name : String) : Option Node :=
  catalog.nodes.find? (·.name = name)

def node (catalog : Catalog) (name : String) : Except CatalogError Node :=
  match catalog.node? name with
  | some node => .ok node
  | none => .error (.unknownNode name)

def edgeHead (catalog : Catalog) (edge : Edge) : Except CatalogError Node :=
  catalog.node edge.head

def reverseEdgeHead (catalog : Catalog) (relation : ReverseEdge) : Except CatalogError Node :=
  catalog.node relation.head

end Catalog

end LiveQuery
