import LiveQuery.Filter
import LiveQuery.Text.Words

set_option autoImplicit false

namespace LiveQuery

def Record.require (record : Record) (node key : String) : Except StatementError Value :=
  match record.get? key with
  | some value => .ok value
  | none => .error (.missingValue node key)

/-- Null neither precedes nor follows anything. -/
def Value.ordered (value : Value) (comparison : Comparison) (other : Value) : Bool :=
  match value.compare? other with
  | some order => !value.isNull && comparison.holds order
  | none => false

namespace LeafOperator

def listHas (list value : Value) : Bool :=
  match list with
  | .list items => items.any (·.looselyEqual value)
  | _ => false

/-- Whether a leaf's value passes the test. -/
def holds (operator : LeafOperator) (value expected : Value) : Bool :=
  match operator with
  | .compared .eq => value.looselyEqual expected
  | .compared .ne => !value.looselyEqual expected
  | .compared comparison => value.ordered comparison expected
  | .among => listHas expected value
  | .notAmong => !listHas expected value
  | .fullText =>
    match value, expected with
    | .string text, .string query => Text.matchesQuery text query
    | _, _ => false

end LeafOperator

namespace Predicate

def invalid {α : Type} (node key expected : String) (value : Value) : Except StatementError α :=
  .error (.invalidValue node key expected value.text)

/-- The number of heads: the record's count, or else the length of its list. -/
def countOf (node : String) (relation : ReverseEdge) (record : Record) :
    Except StatementError Nat :=
  match record.get? relation.countKey with
  | some (.int number) =>
    if 0 ≤ number.toInt then .ok number.toInt.toNat
    else invalid node relation.countKey "count" (.int number)
  | some other => invalid node relation.countKey "count" other
  | none => do
    match ← record.require node relation.name with
    | .list items => return items.length
    | other => invalid node relation.name "list" other

/-- Whether a related value is set and its head passes the test. -/
def testHead (node key : String) (test : Record → Except StatementError Bool) (value : Value) :
    Except StatementError Bool :=
  match value with
  | .null => .ok false
  | .record head => test head
  | other => invalid node key "node" other

/-- Whether some listed head passes the test; heads behind the first such one are not looked at. -/
def testSome (node key : String) (test : Record → Except StatementError Bool) :
    List Value → Except StatementError Bool
  | [] => .ok false
  | item :: rest => do
    if ← testHead node key test item then return true else testSome node key test rest

def testRelation (node : String) (relation : ReverseEdge)
    (test : Record → Except StatementError Bool) (value : Value) : Except StatementError Bool :=
  match relation.multiplicity with
  | .unique => testHead node relation.name test value
  | .multiple =>
    match value with
    | .list items => testSome node relation.name test items
    | other => invalid node relation.name "list" other

mutual

/-- Whether a record of the node meets the condition. -/
def evaluate (node : String) (predicate : Predicate) (record : Record) :
    Except StatementError Bool :=
  match predicate with
  | .constant value => .ok value
  | .junction kind operands => evaluateAll node kind operands record
  | .negation operand => return !(← evaluate node operand record)
  | .leaf field operator expected =>
    return operator.holds (← record.require node field.name) expected
  | .edge link head => do
    testHead node link.name (evaluateHead link.head head) (← record.require node link.name)
  | .reverse relation head => do
    testRelation node relation (evaluateHead relation.head head)
      (← record.require node relation.name)
  | .count relation comparison number =>
    return comparison.holds (compare (← countOf node relation record) number)
  | .raw _ => .error (.notExecutable node)

/-- The value of a junction; the first operand that differs from its unit settles it. -/
def evaluateAll (node : String) (kind : Junction) (operands : List Predicate) (record : Record) :
    Except StatementError Bool :=
  match operands with
  | [] => .ok kind.unit
  | operand :: rest => do
    let value ← evaluate node operand record
    if value = kind.unit then evaluateAll node kind rest record else return value

def evaluateHead (node : String) (predicate : Option Predicate) (head : Record) :
    Except StatementError Bool :=
  match predicate with
  | none => .ok true
  | some predicate => evaluate node predicate head

end

end Predicate

/-- Whether an instance with this record matches. -/
def Filter.execute (filter : Filter) (record : Record) : Except StatementError Bool :=
  filter.predicate.evaluate filter.node.name record

end LiveQuery
