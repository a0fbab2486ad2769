import LiveQuery.Text.Unmarked
import LiveQuery.Value

set_option autoImplicit false

namespace LiveQuery

namespace Decimal

/-- The digits of a positive decimal without the zeros at its end, and the power of ten of the first
digit. -/
def significant (decimal : Decimal) : List Char × Int :=
  let digits := Nat.toDigits 10 decimal.digits
  ((digits.reverse.dropWhile (· = '0')).reverse, decimal.exponent + digits.length - 1)

/-- One digit before the point, and a power of ten. -/
def scientific (decimal : Decimal) : String :=
  match decimal.significant with
  | ([], _) => "0e0"
  | ([digit], power) => s!"{digit}e{power}"
  | (first :: rest, power) => s!"{first}.{String.ofList rest}e{power}"

end Decimal

namespace Binary64

/-- Positional from a ten-thousandth up to 10^16, and always with a point there. -/
def Magnitude.outline (m : Magnitude) : String :=
  if m.mantissa = 0 then "0.0"
  else
    let decimal := m.interval.shortest
    let power := decimal.significant.2
    if power < -4 ∨ 16 ≤ power then decimal.scientific
    else if decimal.text.toList.contains '.' then decimal.text
    else decimal.text ++ ".0"

def outline : Binary64 → String
  | .finite negative m => (if negative then "-" else "") ++ m.outline
  | value => value.text

end Binary64

namespace Instant

/-- A fraction of a second in thousandths, millionths or billionths, whichever is exact. -/
def fractionOutline (nanos : Nat) : String :=
  if nanos = 0 then ""
  else if nanos % 1000000 = 0 then "." ++ padded 3 (nanos / 1000000)
  else if nanos % 1000 = 0 then "." ++ padded 6 (nanos / 1000)
  else "." ++ padded 9 nanos

def outline (instant : Instant) : String :=
  dateText instant.date ++ "T" ++ timeText instant.timeOfDay ++
    fractionOutline instant.subsecondNanos ++ "Z"

end Instant

namespace Text

def characterOutline (c : Char) : String :=
  if c = '"' then "\\\""
  else if c = '\\' then "\\\\"
  else if c = '\n' then "\\n"
  else if c = '\r' then "\\r"
  else if c = '\t' then "\\t"
  else if c = '\x00' then "\\0"
  else if isUnmarked c then
    "\\u\x7b" ++ String.ofList (Nat.toDigits 16 c.toNat) ++ "\x7d"
  else String.singleton c

/-- A text between quotes, with escapes for all that could be misread. -/
def outline (text : String) : String :=
  "\"" ++ String.join (text.toList.map characterOutline) ++ "\""

end Text

namespace Value

mutual

def outline : Value → String
  | .null => "Null"
  | .boolean value => "Boolean(" ++ (if value then "true" else "false") ++ ")"
  | .int value => "Int(" ++ toString value.toInt ++ ")"
  | .float value => "Float(" ++ value.outline ++ ")"
  | .string value => "String(" ++ Text.outline value ++ ")"
  | .instant value => "DateTime(" ++ value.outline ++ ")"
  | .record fields =>
    "Node(NodeValue \x7b entries: [" ++ ", ".intercalate (fieldOutlines fields) ++ "] \x7d)"
  | .list items => "List([" ++ ", ".intercalate (itemOutlines items) ++ "])"

def itemOutlines : List Value → List String
  | [] => []
  | item :: rest => outline item :: itemOutlines rest

def fieldOutlines : List (String × Value) → List String
  | [] => []
  | (key, value) :: rest =>
    ("(" ++ Text.outline key ++ ", " ++ outline value ++ ")") :: fieldOutlines rest

end

def outlineOption : Option Value → String
  | none => "None"
  | some value => "Some(" ++ outline value ++ ")"

end Value

end LiveQuery
