import LiveQuery.Number.Decimal
import LiveQuery.Statement.Error

set_option autoImplicit false

namespace LiveQuery.Sql

inductive NameFault where
  | empty
  | holdsNul
  | tooLong (limit : Nat)
  deriving DecidableEq

def NameFault.message : NameFault → String
  | .empty => "empty"
  | .holdsNul => "contains a NUL character"
  | .tooLong limit => s!"longer than {limit} characters"

/-- The statements that write nothing if they are given nothing. -/
inductive Writing where
  | insert
  | update
  deriving DecidableEq

def Writing.word : Writing → String
  | .insert => "INSERT"
  | .update => "UPDATE"

inductive Error where
  | invalidName (name : String) (fault : NameFault)
  | wrongLiteral (expected value : String)
  | notFinite (value : Binary64)
  | unexpected (context value : String)
  | limitExceeded (limit greatest : Nat)
  | nothingToWrite (node : String) (writing : Writing)
  | statement (error : StatementError)

namespace Error

def message : Error → String
  | invalidName name fault => s!"Invalid identifier `{name}`: {fault.message}"
  | wrongLiteral expected value => s!"Literal {value} cannot be written as {expected}"
  | notFinite value => s!"Non-finite float {value.text} has no SQL literal"
  | unexpected context value => s!"Unexpected value while compiling {context}: {value}"
  | limitExceeded limit greatest =>
    s!"Limit {limit} exceeds the configured maximum of {greatest}"
  | nothingToWrite node writing =>
    s!"Nothing to write into `{node}` ({writing.word} without values)"
  | statement error => error.message

end Error

instance : MonadLift (Except StatementError) (Except Error) where
  monadLift
    | .ok value => .ok value
    | .error error => .error (.statement error)

end LiveQuery.Sql
