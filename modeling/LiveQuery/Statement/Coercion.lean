import LiveQuery.Statement.Error
import LiveQuery.Text.Uuid
import LiveQuery.Value

set_option autoImplicit false

namespace LiveQuery

/-- The 64-bit integer that a float is, if it is whole and in range. -/
def Binary64.toInt64? (x : Binary64) : Option Int64 := do
  let value ← x.toInt?
  guard (Int64.minValue.toInt ≤ value && value ≤ Int64.maxValue.toInt)
  return .ofInt value

namespace LeafType

/-- A value other than null in the form that the type keeps. -/
def coerce? : LeafType → Value → Option Value
  | .boolean, .boolean value => some (.boolean value)
  | .boolean, .int value =>
    if value = 0 then some (.boolean false)
    else if value = 1 then some (.boolean true)
    else none
  | .int, .int value => some (.int value)
  | .int, .float value => value.toInt64?.map .int
  | .float, .int value => some (.float (Value.floatOfInt value))
  | .float, .float value => if value.isFinite then some (.float value) else none
  | .string, .string value => some (.string value)
  | .uuid, .string value => (Text.Uuid.canonical? value).map .string
  | .instant, .instant value => some (.instant value)
  | .instant, .string value => (Instant.read? value).map .instant
  | _, _ => none

end LeafType

namespace Leaf

def expected (leaf : Leaf) : String :=
  if leaf.nullable then leaf.type.text ++ " or null" else leaf.type.text

def coerce? (leaf : Leaf) (value : Value) : Option Value :=
  if leaf.nullable && value.isNull then some .null else leaf.type.coerce? value

/-- A raw value in the form that the leaf keeps. -/
def coerce (leaf : Leaf) (value : Value) : Except StatementError Value :=
  match leaf.coerce? value with
  | some coerced => .ok coerced
  | none => .error (.invalidValue leaf.node leaf.name leaf.expected value.text)

end Leaf

namespace Edge

def invalidReference (edge : Edge) (value : Value) : StatementError :=
  .invalidValue edge.node edge.name ("reference to " ++ edge.head) value.text

/-- The head's values for the foreign-key columns; all must be there and set. -/
def project? (head : Record) : List ForeignKeyColumn → Option Record
  | [] => some []
  | column :: rest => do
    let value ← head.get? column.headLeaf
    guard !value.isNull
    return (column.headLeaf, value) :: (← project? head rest)

/-- The reference that an edge stores: null, or its head cut down to the identifier. -/
def reference (edge : Edge) (value : Value) : Except StatementError Value :=
  match value with
  | .null => if edge.nullable then .ok .null else .error (edge.invalidReference value)
  | .record head =>
    match project? head edge.columns with
    | some fields => .ok (.record (Entries.ofList fields))
    | none => .error (edge.invalidReference value)
  | _ => .error (edge.invalidReference value)

end Edge

def Component.coerce (component : Component) (value : Value) : Except StatementError Value :=
  match component with
  | .leaf field => field.coerce value
  | .edge link => link.reference value

namespace Node

def identify (node : Node) (record : Record) (identifier : Record) :
    List Component → Except StatementError Record
  | [] => .ok identifier
  | component :: rest =>
    match record.get? component.name with
    | none => .error (.missingValue node.name component.name)
    | some raw => do
      let value ← component.coerce raw
      identify node record (identifier.insert component.name value) rest

/-- The identifier of an instance, from one of its records. -/
def identifierOf (node : Node) (record : Record) : Except StatementError Record :=
  node.identify record [] node.identifierComponents

def coerceFields (node : Node) (known : Record) :
    List (String × Value) → Except StatementError Record
  | [] => .ok known
  | (key, raw) :: rest =>
    match node.component? key with
    | none => .error (.catalog (.unknownComponent node.name key))
    | some component => do
      let value ← component.coerce raw
      coerceFields node (known.insert key value) rest

/-- Every field of a record in the form that its component keeps; other keys are refused. -/
def coerceRecord (node : Node) (record : Record) : Except StatementError Record :=
  node.coerceFields [] record

end Node

end LiveQuery
