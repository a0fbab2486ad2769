import LiveQuery.Entries
import LiveQuery.Json
import LiveQuery.Number.Reading

set_option autoImplicit false

namespace LiveQuery.Json

def isBlank (c : Char) : Bool := c = ' ' || c = '\n' || c = '\t' || c = '\r'

def skipBlanks (text : List Char) : List Char := text.dropWhile isBlank

def hexDigit? (c : Char) : Option Nat :=
  if '0' ≤ c ∧ c ≤ '9' then some (c.toNat - '0'.toNat)
  else if 'a' ≤ c ∧ c ≤ 'f' then some (c.toNat - 'a'.toNat + 10)
  else if 'A' ≤ c ∧ c ≤ 'F' then some (c.toNat - 'A'.toNat + 10)
  else none

def hexQuad? (a b c d : Char) : Option Nat := do
  return ((← hexDigit? a) * 16 + (← hexDigit? b)) * 256 + ((← hexDigit? c) * 16 + (← hexDigit? d))

def shortEscape? : Char → Option Char
  | '"' => some '"'
  | '\\' => some '\\'
  | '/' => some '/'
  | 'b' => some '\x08'
  | 'f' => some '\x0c'
  | 'n' => some '\n'
  | 'r' => some '\r'
  | 't' => some '\t'
  | _ => none

/-- A code unit that stands for a character by itself. -/
def isWholeUnit (unit : Nat) : Bool := unit < 0xD800 || 0xDFFF < unit

/-- The character of a pair of escaped surrogates. -/
def surrogatePair? (high low : Nat) : Option Char :=
  if 0xD800 ≤ high ∧ high ≤ 0xDBFF ∧ 0xDC00 ≤ low ∧ low ≤ 0xDFFF then
    some (Char.ofNat (0x10000 + (high - 0xD800) * 0x400 + (low - 0xDC00)))
  else none

/-- The characters of a string up to its closing quote, and the text after it. -/
def stringTail? : List Char → Option (List Char × List Char)
  | '"' :: rest => some ([], rest)
  | '\\' :: 'u' :: a :: b :: c :: d :: rest => do
    let unit ← hexQuad? a b c d
    if isWholeUnit unit then
      let (tail, after) ← stringTail? rest
      return (Char.ofNat unit :: tail, after)
    else
      match rest with
      | '\\' :: 'u' :: e :: f :: g :: h :: rest => do
        let char ← surrogatePair? unit (← hexQuad? e f g h)
        let (tail, after) ← stringTail? rest
        return (char :: tail, after)
      | _ => none
  | '\\' :: c :: rest => do
    let char ← shortEscape? c
    let (tail, after) ← stringTail? rest
    return (char :: tail, after)
  | c :: rest => do
    guard (' ' ≤ c)
    let (tail, after) ← stringTail? rest
    return (c :: tail, after)
  | [] => none

def takeDigits (text : List Char) : List Char × List Char := text.span Char.isDigit

/-- Integers are kept as such as long as 64 bits hold them; a minus zero is a float. -/
def wholeNumber? (rounding : Rounding) (negative : Bool) (whole : List Char) : Option Json :=
  let digits := Text.digitsValue whole
  if negative ∧ digits ≠ 0 ∧ Int64.minValue.toInt ≤ -digits then some (.integer (-digits))
  else if !negative ∧ digits ≤ greatestCount then some (.integer digits)
  else (Numeral.read? ⟨negative, whole, [], 0⟩ rounding).map .float

def fraction? : List Char → Option (List Char × List Char)
  | '.' :: rest =>
    let (digits, after) := takeDigits rest
    if digits.isEmpty then none else some (digits, after)
  | text => some ([], text)

def exponentSign : List Char → Bool × List Char
  | '-' :: rest => (true, rest)
  | '+' :: rest => (false, rest)
  | text => (false, text)

def exponent? : List Char → Option (Option Int × List Char)
  | c :: rest =>
    if c = 'e' ∨ c = 'E' then
      let (negative, rest) := exponentSign rest
      let (digits, after) := takeDigits rest
      if digits.isEmpty then none
      else
        let value : Int := Text.digitsValue digits
        some (some (if negative then -value else value), after)
    else some (none, c :: rest)
  | [] => some (none, [])

/-- An unsigned number: no leading zeros, and digits on both sides of a point. -/
def unsigned? (rounding : Rounding) (negative : Bool) (text : List Char) :
    Option (Json × List Char) := do
  let (whole, rest) := takeDigits text
  guard (!whole.isEmpty)
  guard (whole.length = 1 || whole.head? != some '0')
  let (places, rest) ← fraction? rest
  let (exponent, rest) ← exponent? rest
  if places.isEmpty ∧ exponent.isNone then
    return (← wholeNumber? rounding negative whole, rest)
  else
    let value ← Numeral.read? ⟨negative, whole, places, exponent.getD 0⟩ rounding
    return (.float value, rest)

def keyword? (word : String) (value : Json) (text : List Char) : Option (Json × List Char) :=
  if word.toList.isPrefixOf text then some (value, text.drop word.length) else none

mutual

/-- One value at the head of the text. `depth` is the nesting still allowed; `fuel` bounds the
number of steps and is never used up when it is twice the length of the text. -/
def value? (rounding : Rounding) (fuel depth : Nat) (text : List Char) :
    Option (Json × List Char) :=
  match fuel with
  | 0 => none
  | fuel + 1 =>
    match skipBlanks text with
    | '"' :: rest => do
      let (chars, rest) ← stringTail? rest
      return (.string (String.ofList chars), rest)
    | '[' :: rest => do
      guard (1 < depth)
      match skipBlanks rest with
      | ']' :: rest => return (.array [], rest)
      | rest =>
        let (items, rest) ← items? rounding fuel (depth - 1) rest
        return (.array items, rest)
    | '\x7b' :: rest => do
      guard (1 < depth)
      match skipBlanks rest with
      | '\x7d' :: rest => return (.object [], rest)
      | rest =>
        let (members, rest) ← members? rounding fuel (depth - 1) [] rest
        return (.object members, rest)
    | '-' :: rest => unsigned? rounding true rest
    | 'n' :: rest => keyword? "null" .null ('n' :: rest)
    | 't' :: rest => keyword? "true" (.boolean true) ('t' :: rest)
    | 'f' :: rest => keyword? "false" (.boolean false) ('f' :: rest)
    | rest => unsigned? rounding false rest

/-- The items of an array up to its closing bracket. -/
def items? (rounding : Rounding) (fuel depth : Nat) (text : List Char) :
    Option (List Json × List Char) :=
  match fuel with
  | 0 => none
  | fuel + 1 => do
    let (item, rest) ← value? rounding fuel depth text
    match skipBlanks rest with
    | ',' :: rest =>
      let (items, rest) ← items? rounding fuel depth rest
      return (item :: items, rest)
    | ']' :: rest => return ([item], rest)
    | _ => none

/-- The members of an object up to its closing brace, added to those already read. -/
def members? (rounding : Rounding) (fuel depth : Nat) (known : Entries Json)
    (text : List Char) : Option (Entries Json × List Char) :=
  match fuel with
  | 0 => none
  | fuel + 1 =>
    match skipBlanks text with
    | '"' :: rest => do
      let (key, rest) ← stringTail? rest
      match skipBlanks rest with
      | ':' :: rest =>
        let (value, rest) ← value? rounding fuel depth rest
        let known := known.insert (String.ofList key) value
        match skipBlanks rest with
        | ',' :: rest => members? rounding fuel depth known rest
        | '\x7d' :: rest => return (known, rest)
        | _ => none
      | _ => none
    | _ => none

end

/-- Arrays and objects may be nested in each other less than this many times. -/
def depthLimit : Nat := 128

/-- A whole text that is one value. -/
def read? (rounding : Rounding) (text : String) : Option Json := do
  let chars := text.toList
  let (value, rest) ← value? rounding (2 * chars.length + 2) depthLimit chars
  guard (skipBlanks rest).isEmpty
  return value

end LiveQuery.Json
