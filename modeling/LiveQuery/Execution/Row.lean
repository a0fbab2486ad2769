import LiveQuery.Sql.Reading
import LiveQuery.Text.Segment

set_option autoImplicit false

namespace LiveQuery

namespace Record

/-- Writes a value under a path of keys. Whatever stands in the way is replaced by a record. -/
def insertAt (record : Record) (value : Value) : List String → Record
  | [] => record
  | [key] => record.insert key value
  | key :: next :: rest =>
    let child :=
      match record.get? key with
      | some (.record child) => child
      | _ => []
    record.insert key (.record (insertAt child value (next :: rest)))

/-- The record under a path of keys. -/
def at? (record : Record) : List String → Option Record
  | [] => some record
  | key :: rest =>
    match record.get? key with
    | some (.record child) => at? child rest
    | _ => none

/-- Alters the record under a path of keys, if there is one. -/
def alterAt (alter : Record → Record) (record : Record) : List String → Record
  | [] => alter record
  | key :: rest =>
    match record.get? key with
    | some (.record child) => record.insert key (.record (alterAt alter child rest))
    | _ => record

/-- The identifier that a record of an answer carries. -/
def carried? (record : Record) (key : String) : Option Record :=
  match record.get? key with
  | some (.record id) => some id
  | _ => none

end Record

namespace Row

mutual

def holdsNothing : Value → Bool
  | .null => true
  | .record fields => holdsNothingAt fields
  | _ => false

def holdsNothingAt : List (String × Value) → Bool
  | [] => true
  | (_, value) :: rest => holdsNothing value && holdsNothingAt rest

end

/-- Whether a related record is one that was not found. -/
def isMissing (fields : Record) : Bool :=
  match fields.carried? Sql.identifierKey with
  | some id => holdsNothingAt id
  | none => false

mutual

def collapseValue : Value → Value
  | .record fields =>
    let fields := collapse fields
    if isMissing fields then .null else .record fields
  | value => value

/-- Related records that were not found become null, the innermost first. -/
def collapse : List (String × Value) → List (String × Value)
  | [] => []
  | (key, value) :: rest =>
    (key, if key = Sql.identifierKey ∨ key = Sql.parentKey then value else collapseValue value) ::
      collapse rest

end

/-- The nested record of a row. -/
def assemble (row : Record) : Record :=
  let place (record : Record) (column : String × Value) : Record :=
    record.insertAt column.2 (Text.splitAtPoints column.1)
  collapse (row.foldl place [])

/-- Whether a row of a follow-up belongs to the record with this identifier. -/
def isChildOf (row : Record) (id : Record) : Bool :=
  match row.carried? Sql.parentKey with
  | none => false
  | some reference => reference.all fun (key, value) =>
    match id.get? key with
    | some own => own.looselyEqual value
    | none => false

end Row

end LiveQuery
