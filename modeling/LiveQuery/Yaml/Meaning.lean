import LiveQuery.Number.Reading
import LiveQuery.Yaml.Scalar

set_option autoImplicit false

namespace LiveQuery.Yaml

inductive Meaning where
  | null
  | boolean (value : Bool)
  /-- A natural number of 64 bits. -/
  | natural (value : Nat)
  /-- A negative number of 64 bits, or a float. -/
  | number
  /-- An integer that takes more than 64 bits but at most 128. -/
  | oversized
  | text
  deriving DecidableEq

def isNull (text : String) : Bool := ["~", "null", "Null", "NULL"].contains text

def boolean? (text : String) : Option Bool :=
  if ["true", "True", "TRUE"].contains text then some true
  else if ["false", "False", "FALSE"].contains text then some false
  else none

def isSign (c : Char) : Bool := c = '+' || c = '-'

def withoutSign (text : List Char) : List Char :=
  if text.head?.any isSign then text.tail else text

/-- Digits with a leading zero are no number but a text. -/
def isPadded (text : List Char) : Bool :=
  let digits := withoutSign text
  1 < digits.length && digits.head? = some '0' && digits.all Char.isDigit

def digitsIn? (base : Nat) (digits : List Char) : Option Nat := do
  guard !digits.isEmpty
  digits.foldlM (fun value c => do
    let digit ← hexDigit? c
    guard (digit < base)
    return value * base + digit) 0

/-- A number without a sign: decimal, or in one of the bases that have a mark. -/
def unsigned? : List Char → Option Nat
  | '0' :: 'x' :: rest => digitsIn? 16 rest
  | '0' :: 'o' :: rest => digitsIn? 8 rest
  | '0' :: 'b' :: rest => digitsIn? 2 rest
  | digits => if isPadded digits then none else digitsIn? 10 digits

def natural? (text : List Char) : Option Nat := unsigned? (Text.withoutPlus text)

/-- The absolute value of a number with a minus sign. -/
def negated? : List Char → Option Nat
  | '-' :: rest => unsigned? rest
  | _ => none

/-- The power of ten that ends a number. -/
def exponent? : List Char → Option Int
  | [] => some 0
  | c :: rest => do
    let digits := withoutSign rest
    guard ((c = 'e' || c = 'E') && !digits.isEmpty && digits.all Char.isDigit)
    let value : Int := Text.digitsValue digits
    return if rest.head? = some '-' then -value else value

/-- Digits with a point anywhere among them or none, and a power of ten. -/
def numeral? (text : List Char) : Option Numeral := do
  let unsigned := withoutSign text
  let whole := unsigned.takeWhile Char.isDigit
  let rest := unsigned.drop whole.length
  let places := if rest.head? = some '.' then rest.tail.takeWhile Char.isDigit else []
  let rest := if rest.head? = some '.' then rest.tail.drop places.length else rest
  guard !(whole.isEmpty && places.isEmpty)
  return ⟨text.head? = some '-', whole, places, ← exponent? rest⟩

def specialFloats : List String :=
  [".inf", ".Inf", ".INF", "+.inf", "+.Inf", "+.INF", "-.inf", "-.Inf", "-.INF",
    ".nan", ".NaN", ".NAN"]

/-- Whether a text writes a double. A number outside the range of doubles does not. -/
def isFloat (text : String) : Bool :=
  specialFloats.contains text || ((numeral? text.toList).bind Numeral.nearest?).isSome

/-- What a text means as an integer. One that takes more than 128 bits is none. -/
def integer? (text : String) : Option Meaning :=
  match natural? text.toList, negated? text.toList with
  | some value, _ =>
    if value < UInt64.size then some (.natural value)
    else if value < 1 <<< 128 then some .oversized
    else none
  | none, some value =>
    if value ≤ 1 <<< 63 then some .number
    else if value ≤ 1 <<< 127 then some .oversized
    else none
  | none, none => none

def Meaning.ofText (text : String) : Meaning :=
  if text.isEmpty || isNull text then .null
  else
    match boolean? text with
    | some value => .boolean value
    | none =>
      match integer? text with
      | some meaning => meaning
      | none => if !isPadded text.toList && isFloat text then .number else .text

end LiveQuery.Yaml
