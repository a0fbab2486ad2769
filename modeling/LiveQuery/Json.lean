import LiveQuery.Entries
import LiveQuery.Number.Binary64

set_option autoImplicit false

namespace LiveQuery

inductive Json where
  | null
  | boolean (value : Bool)
  | integer (value : Int)
  | float (value : Binary64)
  | string (value : String)
  | array (items : List Json)
  | object (members : List (String × Json))
  deriving Inhabited

namespace Json

def isNull : Json → Bool
  | .null => true
  | _ => false

def isObject : Json → Bool
  | .object _ => true
  | _ => false

def member? (json : Json) (key : String) : Option Json :=
  match json with
  | .object members => Entries.get? members key
  | _ => none

/-- The greatest count or offset that an input can state. -/
def greatestCount : Nat := UInt64.size - 1

/-- A number written as a non-negative integer. -/
def count? : Json → Option Nat
  | .integer value => if 0 ≤ value ∧ value ≤ greatestCount then some value.toNat else none
  | _ => none

end Json

end LiveQuery
