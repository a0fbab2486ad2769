import LiveQuery.Catalog.Basic

set_option autoImplicit false

namespace LiveQuery

inductive StatementError where
  | catalog (error : CatalogError)
  | nodeMismatch (expected found : String)
  | invalidValue (node component expected value : String)
  | missingValue (node key : String)
  | unsupportedOperator (node component operator : String)
  | notExecutable (node : String)
  | duplicateSelectionKey (node key : String)
  | invalidInput (path reason : String)
  | inconsistentChange (node identifier previous : String)
  deriving DecidableEq

namespace StatementError

def message : StatementError → String
  | catalog error => error.message
  | nodeMismatch expected found =>
    s!"Expression on `{found}` cannot be used where `{expected}` is expected"
  | invalidValue node component expected value =>
    s!"Invalid value for `{node}.{component}` (expected {expected}): {value}"
  | missingValue node key => s!"Missing value for `{key}` on `{node}`"
  | unsupportedOperator node component operator =>
    s!"Operator `{operator}` is not supported on `{node}.{component}`"
  | notExecutable node => s!"Raw filter on `{node}` cannot be evaluated in memory"
  | duplicateSelectionKey node key => s!"Selection key `{key}` is used more than once on `{node}`"
  | invalidInput path reason => s!"Invalid input at `{path}`: {reason}"
  | inconsistentChange node identifier previous =>
    s!"Change on `{node}` {identifier} cannot follow a {previous}"

end StatementError

instance : MonadLift (Except CatalogError) (Except StatementError) where
  monadLift
    | .ok value => .ok value
    | .error error => .error (.catalog error)

end LiveQuery
