import LiveQuery.Filter.Evaluation
import LiveQuery.Selection
import LiveQuery.Text.Digits

set_option autoImplicit false

namespace LiveQuery

namespace SelectionField

/-- A count as stores return it: a non-negative integer, or one written in decimal. -/
def countOf? : Value → Option Value
  | .int number => if 0 ≤ number.toInt then some (.int number) else none
  | .string text =>
    match Text.readCount text with
    | .ok number =>
      if number ≤ Int64.maxValue.toInt then some (.int (.ofNat number)) else none
    | .error _ => none
  | _ => none

def invalid {α : Type} (node key expected : String) (raw : Value) : Except StatementError α :=
  .error (.invalidValue node key expected raw.text)

/-- The listed heads, each projected; `raw` is the whole value. -/
def projectItems (node key expected : String) (raw : Value)
    (project : Record → Except StatementError Record) :
    List Value → Except StatementError (List Value)
  | [] => .ok []
  | .record head :: rest => do
    let selected ← project head
    return .record selected :: (← projectItems node key expected raw project rest)
  | _ :: _ => invalid node key expected raw

mutual

/-- The selected form of the raw value under the field's key. -/
def projectValue (node : String) (raw : Value) : SelectionField → Except StatementError Value
  | .leaf _ field => field.coerce raw
  | .edge key link head =>
    match raw with
    | .null =>
      if link.nullable then .ok .null else invalid node key ("reference to " ++ link.head) raw
    | .record record => return .record (← projectFields link.head record head)
    | _ => invalid node key ("reference to " ++ link.head) raw
  | .unique key relation head =>
    match raw with
    | .null => .ok .null
    | .record record => return .record (← projectFields relation.head record head)
    | _ => invalid node key relation.head raw
  | .multiple key relation _ head =>
    match raw with
    | .list items => do
      let project (record : Record) := projectFields relation.head record head
      return .list (← projectItems node key ("list of " ++ relation.head) raw project items)
    | _ => invalid node key ("list of " ++ relation.head) raw
  | .count key _ _ =>
    match countOf? raw with
    | some number => .ok number
    | none => invalid node key "count" raw

/-- The selected fields of a raw record, in the order of the selection. -/
def projectFields (node : String) (record : Record) :
    List SelectionField → Except StatementError Record
  | [] => .ok []
  | field :: rest => do
    let value ← projectValue node (← record.require node field.key) field
    return (field.key, value) :: (← projectFields node record rest)

end

end SelectionField

/-- A raw record in exactly the selected shape. -/
def Selection.project (selection : Selection) (record : Record) : Except StatementError Record :=
  SelectionField.projectFields selection.node.name record selection.fields

end LiveQuery
