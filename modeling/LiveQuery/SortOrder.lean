import LiveQuery.Change
import LiveQuery.Text.Segment

set_option autoImplicit false

namespace LiveQuery

inductive Direction where
  | ascending
  | descending
  deriving DecidableEq

namespace Direction

def text : Direction → String
  | .ascending => "ASC"
  | .descending => "DESC"

def apply (direction : Direction) (order : Ordering) : Ordering :=
  match direction with
  | .ascending => order
  | .descending => order.swap

end Direction

/-- What is sorted on: a leaf, or the number of heads of a reverse edge. -/
inductive SortTarget where
  | leaf (field : Leaf)
  | count (relation : ReverseEdge)
  deriving DecidableEq

namespace SortTarget

/-- The key of the sorted value in records. -/
def key : SortTarget → String
  | .leaf field => field.name
  | .count relation => relation.countKey

def owner : SortTarget → String
  | .leaf field => field.node
  | .count relation => relation.node

end SortTarget

structure SortExpression where
  target : SortTarget
  direction : Direction
  deriving DecidableEq

namespace SortExpression

def key (expression : SortExpression) : String := expression.target.key

def text (expression : SortExpression) : String :=
  expression.key ++ "_" ++ expression.direction.text

/-- Null comes first, lists are sorted by length, and values of different types count as equal. -/
def compareValues : Value → Value → Ordering
  | .null, .null => .eq
  | .null, _ => .lt
  | _, .null => .gt
  | .list a, .list b => compare a.length b.length
  | a, b => (a.compare? b).getD .eq

def compareRecords (expression : SortExpression) (a b : Record) : Ordering :=
  expression.direction.apply
    (compareValues ((a.get? expression.key).getD .null) ((b.get? expression.key).getD .null))

/-- The target that a sort key names. -/
def target? (node : Node) (name : String) : Option SortTarget :=
  match node.component? name with
  | some (.leaf field) => some (.leaf field)
  | _ => do
    let relation ← node.reverseEdge? (← Text.before? "Count" name)
    guard (relation.multiplicity = .multiple)
    return .count relation

def direction? (item : String) : Option (String × Direction) :=
  ((Text.before? "_ASC" item).map (·, .ascending)) <|>
    ((Text.before? "_DESC" item).map (·, .descending))

/-- A sort key with its direction, such as `title_ASC`. -/
def parse (node : Node) (item : String) : Except StatementError SortExpression :=
  let invalid (reason : String) : StatementError :=
    .invalidInput s!"{node.name}.orderBy" s!"`{item}`: {reason}"
  match direction? item with
  | none => .error (invalid "expected a `_ASC` or `_DESC` suffix")
  | some (name, direction) =>
    match target? node name with
    | some target => .ok ⟨target, direction⟩
    | none => .error (invalid "unknown sort key")

/-- Whether a change can alter the sorted value of some instance. A child that appears, disappears
or changes its parent alters the parent's count. -/
def affectedBy (node : String) (expression : SortExpression) (change : Change) : Bool :=
  match expression.target with
  | .leaf field =>
    !change.isExistence && change.node.name = node && change.touches field.name
  | .count relation =>
    change.node.name = relation.head &&
      (change.isExistence || change.touches relation.edge.name)

end SortExpression

/-- An order of the instances of a node. -/
structure SortOrder where
  node : Node
  expressions : List SortExpression

namespace SortOrder

def make (node : Node) (expressions : List SortExpression) : Except StatementError SortOrder :=
  match expressions.find? (·.target.owner ≠ node.name) with
  | some foreign => .error (.nodeMismatch node.name foreign.target.owner)
  | none => .ok ⟨node, expressions⟩

def parse (node : Node) (items : List String) : Except StatementError SortOrder := do
  make node (← items.mapM (SortExpression.parse node))

instance : BEq SortOrder where
  beq a b := a.node.name = b.node.name && a.expressions = b.expressions

def text (order : SortOrder) : String :=
  "[" ++ ", ".intercalate (order.expressions.map (·.text)) ++ "]"

/-- A leaf whose value no two instances share. -/
def settles (node : Node) : SortTarget → Bool
  | .leaf field =>
    !field.nullable && node.uniqueConstraints.any (·.components = [field.name])
  | .count _ => false

/-- The expressions that can decide: no key twice, and nothing after a unique leaf. -/
def decisive (node : Node) (seen : List String) : List SortExpression → List SortExpression
  | [] => []
  | expression :: rest =>
    if seen.contains expression.key then decisive node seen rest
    else if settles node expression.target then [expression]
    else expression :: decisive node (expression.key :: seen) rest

def reduced (order : SortOrder) : SortOrder :=
  { order with expressions := decisive order.node [] order.expressions }

def dependenciesOf (node : String) (expressions : List SortExpression) : DependencyGraph :=
  expressions.foldl (fun graph expression =>
    match expression.target with
    | .leaf field => graph.addLeaf field.name
    | .count relation => graph.addReverseEdge relation none) (.empty node)

def dependencies (order : SortOrder) : DependencyGraph :=
  dependenciesOf order.node.name order.expressions

/-- Whether a change can move some instance within the sorted list. -/
def affectedBy (order : SortOrder) (change : Change) : Bool :=
  order.expressions.any (·.affectedBy order.node.name change)

def compareBy (a b : Record) : List SortExpression → Ordering
  | [] => .eq
  | expression :: rest => (expression.compareRecords a b).then (compareBy a b rest)

def compare (order : SortOrder) (a b : Record) : Ordering := compareBy a b order.expressions

section Sorting

variable {α : Type} (order : SortOrder) (recordOf : α → Record)

/-- A sorted list, given backwards, with one more item behind those that it does not precede. -/
def place (item : α) : List α → List α
  | [] => [item]
  | last :: rest =>
    if order.compare (recordOf item) (recordOf last) = .lt then last :: place item rest
    else item :: last :: rest

/-- Items by the order of their records; those that compare as equal keep their places. -/
def sortOn (items : List α) : List α :=
  (items.foldl (fun sorted item => order.place recordOf item sorted) []).reverse

end Sorting

def sort (order : SortOrder) (records : List Record) : List Record := order.sortOn id records

end SortOrder

end LiveQuery
