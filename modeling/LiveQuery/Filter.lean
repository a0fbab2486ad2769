import LiveQuery.Statement.Coercion

set_option autoImplicit false

namespace LiveQuery

inductive Comparison where
  | eq
  | ne
  | gt
  | ge
  | lt
  | le
  deriving DecidableEq

namespace Comparison

def symbol : Comparison → String
  | .eq => "="
  | .ne => "!="
  | .gt => ">"
  | .ge => ">="
  | .lt => "<"
  | .le => "<="

/-- The comparison that holds exactly where this one does not. -/
def opposite : Comparison → Comparison
  | .eq => .ne
  | .ne => .eq
  | .gt => .le
  | .ge => .lt
  | .lt => .ge
  | .le => .gt

/-- Whether the comparison asks for an order and not just for equality. -/
def isOrder : Comparison → Bool
  | .eq | .ne => false
  | .gt | .ge | .lt | .le => true

def holds (comparison : Comparison) (order : Ordering) : Bool :=
  match comparison with
  | .eq => order.isEq
  | .ne => order.isNe
  | .gt => order.isGT
  | .ge => order.isGE
  | .lt => order.isLT
  | .le => order.isLE

end Comparison

/-- What a leaf is tested for. The value of `among` and `notAmong` is a list. -/
inductive LeafOperator where
  | compared (comparison : Comparison)
  | among
  | notAmong
  | fullText
  deriving DecidableEq

namespace LeafOperator

def symbol : LeafOperator → String
  | .compared comparison => comparison.symbol
  | .among => "IN"
  | .notAmong => "NOT IN"
  | .fullText => "MATCHES"

/-- The operator's name in messages. -/
def name : LeafOperator → String
  | .compared .eq => "Eq"
  | .compared .ne => "Not"
  | .compared .gt => "Gt"
  | .compared .ge => "Gte"
  | .compared .lt => "Lt"
  | .compared .le => "Lte"
  | .among => "In"
  | .notAmong => "NotIn"
  | .fullText => "FullText"

end LeafOperator

inductive Junction where
  | all
  | any
  deriving DecidableEq

namespace Junction

def dual : Junction → Junction
  | .all => .any
  | .any => .all

/-- The value of a junction without operands. -/
def unit : Junction → Bool
  | .all => true
  | .any => false

def word : Junction → String
  | .all => "AND"
  | .any => "OR"

end Junction

/-- A condition on instances of some node. A relation holds with a head that meets the condition
given for it, if one is given; a reverse edge to many heads asks for some such head. -/
inductive Predicate where
  | constant (value : Bool)
  | junction (kind : Junction) (operands : List Predicate)
  | negation (operand : Predicate)
  | leaf (field : Leaf) (operator : LeafOperator) (value : Value)
  | edge (link : Edge) (head : Option Predicate)
  | reverse (relation : ReverseEdge) (head : Option Predicate)
  | count (relation : ReverseEdge) (comparison : Comparison) (number : Nat)
  | raw (sql : String)
  deriving Inhabited

namespace Predicate

mutual

/-- Equality of structure, with values compared as they compare themselves. -/
def same : Predicate → Predicate → Bool
  | .constant a, .constant b => a = b
  | .junction kind as, .junction other bs => kind = other && sameAll as bs
  | .negation a, .negation b => same a b
  | .leaf field operator a, .leaf other operator' b =>
    field = other && operator = operator' && a == b
  | .edge link a, .edge other b => link = other && sameHead a b
  | .reverse relation a, .reverse other b => relation = other && sameHead a b
  | .count relation comparison n, .count other comparison' m =>
    relation = other && comparison = comparison' && n = m
  | .raw a, .raw b => a = b
  | _, _ => false

def sameAll : List Predicate → List Predicate → Bool
  | [], [] => true
  | a :: as, b :: bs => same a b && sameAll as bs
  | _, _ => false

def sameHead : Option Predicate → Option Predicate → Bool
  | none, none => true
  | some a, some b => same a b
  | _, _ => false

end

instance : BEq Predicate := ⟨same⟩

def isTrue : Predicate → Bool
  | .constant value => value
  | _ => false

def isFalse : Predicate → Bool
  | .constant value => !value
  | _ => false

mutual

def text : Predicate → String
  | .constant value => if value then "true" else "false"
  | .junction kind operands =>
    "(" ++ (" " ++ kind.word ++ " ").intercalate (texts operands) ++ ")"
  | .negation operand => "NOT " ++ text operand
  | .leaf field operator value => field.name ++ " " ++ operator.symbol ++ " " ++ value.text
  | .edge link head =>
    link.name ++
      match head with
      | some head => " \x7b " ++ text head ++ " \x7d"
      | none => " IS SET"
  | .reverse relation head =>
    relation.name ++
      match relation.multiplicity, head with
      | .unique, some head => " \x7b " ++ text head ++ " \x7d"
      | .unique, none => " EXISTS"
      | .multiple, some head => " SOME \x7b " ++ text head ++ " \x7d"
      | .multiple, none => " SOME"
  | .count relation comparison number =>
    relation.countKey ++ " " ++ comparison.symbol ++ " " ++ toString number
  | .raw sql => "RAW(" ++ sql ++ ")"

def texts : List Predicate → List String
  | [] => []
  | operand :: rest => text operand :: texts rest

end

end Predicate

/-- A predicate over the instances of a node. -/
structure Filter where
  node : Node
  predicate : Predicate

namespace Filter

def isTrue (filter : Filter) : Bool := filter.predicate.isTrue

def isFalse (filter : Filter) : Bool := filter.predicate.isFalse

def text (filter : Filter) : String := filter.predicate.text

/-- Filters are equal if they are on one node and have one structure. -/
instance : BEq Filter where
  beq a b := a.node.name = b.node.name && a.predicate == b.predicate

/-- A filter on another node than the expected one is refused. -/
def checkNode (expected : String) (filter : Filter) : Except StatementError Unit :=
  if filter.node.name = expected then .ok ()
  else .error (.nodeMismatch expected filter.node.name)

def constant (node : Node) (value : Bool) : Filter := ⟨node, .constant value⟩

def junction (node : Node) (kind : Junction) (operands : List Filter) :
    Except StatementError Filter := do
  operands.forM (checkNode node.name)
  return ⟨node, .junction kind (operands.map (·.predicate))⟩

def negation (operand : Filter) : Filter := ⟨operand.node, .negation operand.predicate⟩

def unsupported {α : Type} (field : Leaf) (operator : LeafOperator) : Except StatementError α :=
  .error (.unsupportedOperator field.node field.name operator.name)

/-- A value that may also be null, whether or not the leaf may. -/
def coerceOrNull (field : Leaf) (value : Value) : Except StatementError Value :=
  if value.isNull then .ok .null else field.coerce value

/-- The value to compare a leaf with, in the form that the leaf keeps. -/
def operand (field : Leaf) (operator : LeafOperator) (value : Value) :
    Except StatementError Value :=
  match operator with
  | .compared comparison =>
    if !comparison.isOrder then coerceOrNull field value
    else if !field.type.isComparable || value.isNull then unsupported field operator
    else field.coerce value
  | .among | .notAmong =>
    match value with
    | .list items => return .list (← items.mapM (coerceOrNull field))
    | value =>
      .error (.invalidValue field.node field.name ("list of " ++ field.type.text) value.text)
  | .fullText =>
    match value, field.type with
    | .string text, .string => .ok (.string text)
    | _, _ => unsupported field operator

def leaf (node : Node) (name : String) (operator : LeafOperator) (value : Value) :
    Except StatementError Filter := do
  let field ← node.leaf name
  return ⟨node, .leaf field operator (← operand field operator value)⟩

/-- The predicate of a head filter, which must be on the head's node. -/
def headPredicate (expected : String) : Option Filter → Except StatementError (Option Predicate)
  | none => .ok none
  | some head => do
    checkNode expected head
    return some head.predicate

def edge (node : Node) (name : String) (head : Option Filter) : Except StatementError Filter := do
  let link ← node.edge name
  return ⟨node, .edge link (← headPredicate link.head head)⟩

def reverse (node : Node) (name : String) (head : Option Filter) :
    Except StatementError Filter := do
  let relation ← node.reverseEdge name
  return ⟨node, .reverse relation (← headPredicate relation.head head)⟩

def count (node : Node) (name : String) (comparison : Comparison) (number : Nat) :
    Except StatementError Filter := do
  let relation ← node.reverseEdge name
  match relation.multiplicity with
  | .multiple => return ⟨node, .count relation comparison number⟩
  | .unique => throw (.unsupportedOperator node.name relation.name "count")

/-- A trusted SQL condition, in which a placeholder stands for the table's alias. -/
def raw (node : Node) (sql : String) : Filter := ⟨node, .raw sql⟩

end Filter

end LiveQuery
