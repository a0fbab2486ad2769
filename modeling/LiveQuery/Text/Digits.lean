set_option autoImplicit false

namespace LiveQuery.Text

/-- The number that a run of decimal digits writes. -/
def digitsValue (digits : List Char) : Nat :=
  digits.foldl (fun value c => value * 10 + (c.toNat - '0'.toNat)) 0

inductive CountFault where
  | empty
  | invalidDigit
  | tooLarge
  deriving DecidableEq

def CountFault.message : CountFault → String
  | .empty => "cannot parse integer from empty string"
  | .invalidDigit => "invalid digit found in string"
  | .tooLarge => "number too large to fit in target type"

def withoutPlus : List Char → List Char
  | '+' :: rest => rest
  | text => text

/-- Reads on from a value: the first character that is no digit, or that takes the value out of
range, decides which fault it is. -/
def readDigits (value : Nat) : List Char → Except CountFault Nat
  | [] => .ok value
  | c :: rest =>
    if !c.isDigit then .error .invalidDigit
    else
      let value := value * 10 + (c.toNat - '0'.toNat)
      if value < UInt64.size then readDigits value rest else .error .tooLarge

/-- An unsigned 64-bit count: digits after an optional plus sign. -/
def readCount (text : String) : Except CountFault Nat :=
  if text.isEmpty then .error .empty
  else
    match withoutPlus text.toList with
    | [] => .error .invalidDigit
    | digits => readDigits 0 digits

end LiveQuery.Text
