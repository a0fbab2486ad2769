import LiveQuery.Sql.Error
import LiveQuery.Statement.Coercion

set_option autoImplicit false

namespace LiveQuery.Sql

inductive Literal where
  | null
  | boolean (value : Bool)
  | int (value : Int64)
  | float (value : Binary64)
  | string (value : String)
  | instant (value : Instant)

namespace Literal

/-- Puts an escape in the place of each occurrence of a character. -/
def replaced (mark : Char) (escape text : List Char) : List Char :=
  text.flatMap fun c => if c = mark then escape else [c]

/-- A backslash stands before a character that would end the literal or start another escape; the
control characters that a server or a log may read otherwise have letters of their own. The
backslash is the first, so that no backslash of another escape is escaped. -/
def escapes : List (Char × List Char) :=
  [('\\', ['\\', '\\']), ('\x27', ['\\', '\x27']), ('"', ['\\', '"']), ('\x00', ['\\', '0']),
    ('\n', ['\\', 'n']), ('\r', ['\\', 'r']), ('\x1a', ['\\', 'Z'])]

/-- One replacement behind the other, each of the whole text. -/
def escaped (text : List Char) : List Char :=
  escapes.foldl (fun text (step : Char × List Char) => replaced step.1 step.2 text) text

def quoted (text : String) : String := "'" ++ String.ofList (escaped text.toList) ++ "'"

def text : Literal → String
  | .null => "NULL"
  | .boolean value => if value then "TRUE" else "FALSE"
  | .int value => toString value.toInt
  | .float value => value.text
  | .string value => quoted value
  | .instant value => "'" ++ value.microsecondText ++ "'"

/-- A float that has a literal. -/
def ofFloat (value : Binary64) : Except Error Literal :=
  if value.isFinite then .ok (.float value) else .error (.notFinite value)

/-- A value as a literal of a type. An integer can stand for a float. -/
def ofValue (type : LeafType) (value : Value) : Except Error Literal :=
  match type, value with
  | _, .null => .ok .null
  | .boolean, .boolean value => .ok (.boolean value)
  | .int, .int value => .ok (.int value)
  | .float, .int value => .ok (.int value)
  | .float, .float value => ofFloat value
  | .string, .string value => .ok (.string value)
  | .uuid, .string value => .ok (.string value)
  | .instant, .instant value => .ok (.instant value)
  | _, value => .error (.wrongLiteral type.text value.text)

end Literal

end LiveQuery.Sql
