import LiveQuery.Calendar.InstantText
import LiveQuery.Entries
import LiveQuery.Json
import LiveQuery.Number.Decimal

set_option autoImplicit false

namespace LiveQuery

inductive Value where
  | null
  | boolean (value : Bool)
  | int (value : Int64)
  | float (value : Binary64)
  | string (value : String)
  | instant (value : Instant)
  | record (fields : List (String × Value))
  | list (items : List Value)
  deriving Inhabited

abbrev Record := Entries Value

namespace Value

def isNull : Value → Bool
  | .null => true
  | _ => false

def record? : Value → Option Record
  | .record fields => some fields
  | _ => none

def list? : Value → Option (List Value)
  | .list items => some items
  | _ => none

def typeName : Value → String
  | .null => "null"
  | .boolean _ => "boolean"
  | .int _ => "int"
  | .float _ => "float"
  | .string _ => "string"
  | .instant _ => "datetime"
  | .record _ => "node"
  | .list _ => "list"

/-- The double nearest to an integer. -/
def floatOfInt (value : Int64) : Binary64 := .ofInt value.toInt

/-- Order of two scalars of one type. Integers and floats compare as floats; anything else across
types is unordered. -/
def compare? : Value → Value → Option Ordering
  | .boolean a, .boolean b => some (Ord.compare a b)
  | .int a, .int b => some (Ord.compare a.toInt b.toInt)
  | .int a, .float b => (floatOfInt a).compare? b
  | .float a, .int b => a.compare? (floatOfInt b)
  | .float a, .float b => a.compare? b
  | .string a, .string b => some (Ord.compare a b)
  | .instant a, .instant b => some (a.compare b)
  | _, _ => none

mutual

/-- Equality of structure. Floats compare as numbers, so a NaN differs from itself. -/
def same : Value → Value → Bool
  | .null, .null => true
  | .boolean a, .boolean b => a = b
  | .int a, .int b => a = b
  | .float a, .float b => a == b
  | .string a, .string b => a = b
  | .instant a, .instant b => a = b
  | .record a, .record b => sameFields a b
  | .list a, .list b => sameItems a b
  | _, _ => false

def sameItems : List Value → List Value → Bool
  | [], [] => true
  | a :: as, b :: bs => same a b && sameItems as bs
  | _, _ => false

/-- Keys, values and their order agree. -/
def sameFields : List (String × Value) → List (String × Value) → Bool
  | [], [] => true
  | (k, a) :: as, (l, b) :: bs => k = l && same a b && sameFields as bs
  | _, _ => false

end

instance : BEq Value := ⟨same⟩

mutual

/-- Equality as filters see it: null equals null only, and numbers compare across integers and
floats. -/
def looselyEqual : Value → Value → Bool
  | .null, .null => true
  | .null, _ => false
  | _, .null => false
  | .record a, .record b => sameFields a b
  | .list a, .list b => looselyEqualItems a b
  | a, b => a.compare? b == some .eq

def looselyEqualItems : List Value → List Value → Bool
  | [], [] => true
  | a :: as, b :: bs => looselyEqual a b && looselyEqualItems as bs
  | _, _ => false

end

mutual

/-- The value that a document stands for, without any schema. An integer beyond 64 bits becomes the
nearest float. -/
def ofJson : Json → Value
  | .null => .null
  | .boolean value => .boolean value
  | .integer value =>
    if Int64.minValue.toInt ≤ value ∧ value ≤ Int64.maxValue.toInt then .int (.ofInt value)
    else .float (.ofInt value)
  | .float value => .float value
  | .string value => .string value
  | .array items => .list (ofJsonItems items)
  | .object members => .record (ofJsonMembers members)

def ofJsonItems : List Json → List Value
  | [] => []
  | item :: rest => ofJson item :: ofJsonItems rest

def ofJsonMembers : List (String × Json) → List (String × Value)
  | [] => []
  | (key, value) :: rest => (key, ofJson value) :: ofJsonMembers rest

end

mutual

/-- The document for a value: instants are written to the millisecond, and a float that is not
finite is null. -/
def toJson : Value → Json
  | .null => .null
  | .boolean value => .boolean value
  | .int value => .integer value.toInt
  | .float value => if value.isFinite then .float value else .null
  | .string value => .string value
  | .instant value => .string value.millisecondText
  | .record fields => .object (toJsonFields fields)
  | .list items => .array (toJsonItems items)

def toJsonItems : List Value → List Json
  | [] => []
  | item :: rest => toJson item :: toJsonItems rest

def toJsonFields : List (String × Value) → List (String × Json)
  | [] => []
  | (key, value) :: rest => (key, toJson value) :: toJsonFields rest

end

/-- A string between single quotes; a quote inside is escaped, a backslash is not. -/
def quoted (text : String) : String :=
  let quote := '\x27'
  let escaped := text.toList.flatMap fun c => if c = quote then ['\\', quote] else [c]
  String.ofList (quote :: escaped ++ [quote])

mutual

def text : Value → String
  | .null => "null"
  | .boolean value => if value then "true" else "false"
  | .int value => toString value.toInt
  | .float value => value.text
  | .string value => quoted value
  | .instant value => "'" ++ value.millisecondText ++ "'"
  | .record fields => "\x7b" ++ ", ".intercalate (fieldTexts fields) ++ "\x7d"
  | .list items => "[" ++ ", ".intercalate (itemTexts items) ++ "]"

def itemTexts : List Value → List String
  | [] => []
  | item :: rest => text item :: itemTexts rest

def fieldTexts : List (String × Value) → List String
  | [] => []
  | (key, value) :: rest => (key ++ ": " ++ text value) :: fieldTexts rest

end

end Value

namespace Record

def text (record : Record) : String := (Value.record record).text

def same (a b : Record) : Bool := Value.sameFields a b

end Record

end LiveQuery
