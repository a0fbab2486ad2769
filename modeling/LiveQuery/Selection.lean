import LiveQuery.Filter.Dependencies
import LiveQuery.SortOrder

set_option autoImplicit false

namespace LiveQuery

/-- Which of many heads are wanted: those that match, in an order, `limit` of them after the first
`offset`. -/
structure Window where
  filter : Option Predicate
  ordering : Option (List SortExpression)
  offset : Nat
  limit : Nat
  deriving Inhabited

inductive SelectionField where
  | leaf (key : String) (field : Leaf)
  | edge (key : String) (link : Edge) (head : List SelectionField)
  | unique (key : String) (relation : ReverseEdge) (head : List SelectionField)
  | multiple (key : String) (relation : ReverseEdge) (window : Window) (head : List SelectionField)
  | count (key : String) (relation : ReverseEdge) (filter : Option Predicate)

namespace Window

def same (a b : Window) : Bool :=
  Predicate.sameHead a.filter b.filter && a.ordering = b.ordering && a.offset = b.offset &&
    a.limit = b.limit

def dependencies (node : String) (window : Window) : DependencyGraph :=
  ((DependencyGraph.empty node).mergeHead (Predicate.dependenciesHead node window.filter)).mergeHead
    (window.ordering.map (SortOrder.dependenciesOf node))

end Window

namespace SelectionField

/-- The key of the field in selected records. -/
def key : SelectionField → String
  | .leaf key _ | .edge key _ _ | .unique key _ _ | .multiple key _ _ _ | .count key _ _ => key

/-- The node that the field belongs to. -/
def owner : SelectionField → String
  | .leaf _ field => field.node
  | .edge _ link _ => link.node
  | .unique _ relation _ | .multiple _ relation _ _ | .count _ relation _ => relation.node

/-- The same key, relation and window; what is wanted of the heads may differ. -/
def akin : SelectionField → SelectionField → Bool
  | .leaf key field, .leaf key' field' => key = key' && field = field'
  | .edge key link _, .edge key' link' _ => key = key' && link = link'
  | .unique key relation _, .unique key' relation' _ => key = key' && relation = relation'
  | .multiple key relation window _, .multiple key' relation' window' _ =>
    key = key' && relation = relation' && window.same window'
  | .count key relation filter, .count key' relation' filter' =>
    key = key' && relation = relation' && Predicate.sameHead filter filter'
  | _, _ => false

mutual

def same : SelectionField → SelectionField → Bool
  | .leaf key field, other => akin (.leaf key field) other
  | .edge key link head, .edge key' link' head' =>
    key = key' && link = link' && sameAll head head'
  | .unique key relation head, .unique key' relation' head' =>
    key = key' && relation = relation' && sameAll head head'
  | .multiple key relation window head, .multiple key' relation' window' head' =>
    key = key' && relation = relation' && window.same window' && sameAll head head'
  | .count key relation filter, other => akin (.count key relation filter) other
  | _, _ => false

def sameAll : List SelectionField → List SelectionField → Bool
  | [], [] => true
  | a :: as, b :: bs => same a b && sameAll as bs
  | _, _ => false

end

/-- What is wanted of the heads. -/
def head : SelectionField → List SelectionField
  | .edge _ _ head | .unique _ _ head | .multiple _ _ _ head => head
  | _ => []

def withHead (field : SelectionField) (head : List SelectionField) : SelectionField :=
  match field with
  | .edge key link _ => .edge key link head
  | .unique key relation _ => .unique key relation head
  | .multiple key relation window _ => .multiple key relation window head
  | field => field

/-- The node of the heads. -/
def headNode : SelectionField → String
  | .leaf _ field => field.node
  | .edge _ link _ => link.head
  | .unique _ relation _ | .multiple _ relation _ _ | .count _ relation _ => relation.head

mutual

/-- Whether what a field selects carries everything that another one asks for. -/
def includes : SelectionField → SelectionField → Bool
  | wide, .leaf key field => akin wide (.leaf key field)
  | wide, .edge key link head => akin wide (.edge key link head) && includesAll wide.head head
  | wide, .unique key relation head =>
    akin wide (.unique key relation head) && includesAll wide.head head
  | wide, .multiple key relation window head =>
    akin wide (.multiple key relation window head) && includesAll wide.head head
  | wide, .count key relation filter => akin wide (.count key relation filter)

/-- Whether each of the wanted fields is included in some given one. -/
def includesAll : List SelectionField → List SelectionField → Bool
  | _, [] => true
  | wide, narrow :: rest => wide.any (fun field => includes field narrow) && includesAll wide rest

end

/-- The first fault of the fields of a node: one of another node, or a key that is used again. -/
def fault? (node : String) (seen : List String) : List SelectionField → Option StatementError
  | [] => none
  | field :: rest =>
    if field.owner ≠ node then some (.nodeMismatch node field.owner)
    else if seen.contains field.key then some (.duplicateSelectionKey node field.key)
    else fault? node (field.key :: seen) rest

def check (node : String) (fields : List SelectionField) :
    Except StatementError (List SelectionField) :=
  match fault? node [] fields with
  | some error => .error error
  | none => .ok fields

mutual

/-- What a field reads of its node. -/
def read (graph : DependencyGraph) : SelectionField → DependencyGraph
  | .leaf _ field => graph.addLeaf field.name
  | .edge _ link head => graph.addEdge link (some (readAll (.empty link.head) head))
  | .unique _ relation head =>
    graph.addReverseEdge relation (some (readAll (.empty relation.head) head))
  | .multiple _ relation window head =>
    graph.addReverseEdge relation
      (some ((readAll (.empty relation.head) head).merge (window.dependencies relation.head)))
  | .count _ relation filter =>
    graph.addReverseEdge relation (Predicate.dependenciesHead relation.head filter)

def readAll (graph : DependencyGraph) : List SelectionField → DependencyGraph
  | [] => graph
  | field :: rest => readAll (read graph field) rest

end

mutual

def text : SelectionField → String
  | .leaf key _ => key
  | .edge key _ head => key ++ " " ++ textAll head
  | .unique key _ head => key ++ " " ++ textAll head
  | .multiple key _ window head => s!"{key}[{window.offset}..+{window.limit}] " ++ textAll head
  | .count key _ _ => key ++ " (count)"

def textAll (fields : List SelectionField) : String :=
  "\x7b" ++ ", ".intercalate (texts fields) ++ "\x7d"

def texts : List SelectionField → List String
  | [] => []
  | field :: rest => text field :: texts rest

end

end SelectionField

/-- What is wanted of the instances of a node. No two fields have one key. -/
structure Selection where
  node : Node
  fields : List SelectionField

namespace Selection

def make (node : Node) (fields : List SelectionField) : Except StatementError Selection :=
  return ⟨node, ← SelectionField.check node.name fields⟩

def get? (selection : Selection) (key : String) : Option SelectionField :=
  selection.fields.find? (·.key = key)

instance : BEq Selection where
  beq a b := a.node.name = b.node.name && SelectionField.sameAll a.fields b.fields

def includes (wide narrow : Selection) : Bool :=
  wide.node.name = narrow.node.name && SelectionField.includesAll wide.fields narrow.fields

def dependencies (selection : Selection) : DependencyGraph :=
  SelectionField.readAll (.empty selection.node.name) selection.fields

def text (selection : Selection) : String := SelectionField.textAll selection.fields

end Selection

end LiveQuery
