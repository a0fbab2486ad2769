set_option autoImplicit false

namespace LiveQuery.Text.Uuid

def isHexDigit (c : Char) : Bool :=
  c.isDigit || ('a' ≤ c && c ≤ 'f') || ('A' ≤ c && c ≤ 'F')

/-- The digits in groups, joined by hyphens. -/
def hyphenated (digits : List Char) : List Char :=
  digits.take 8 ++ '-' :: (digits.drop 8).take 4 ++ '-' :: (digits.drop 12).take 4 ++
    '-' :: (digits.drop 16).take 4 ++ '-' :: digits.drop 20

/-- The scheme is read in any letter case, as the digits are. A reader that wants it in lower case
accepts fewer texts and reads those alike. -/
def urnScheme : List Char := "urn:uuid:".toList

/-- The hyphenated form within braces or behind the scheme, or the text itself. -/
def unwrapped (text : List Char) : List Char :=
  if text.length = 38 ∧ text.head? = some '\x7b' ∧ text.getLast? = some '\x7d' then
    (text.drop 1).dropLast
  else if text.length = 45 ∧ urnScheme.isPrefixOf text then text.drop urnScheme.length
  else text

/-- The canonical spelling, lower case and hyphenated. -/
def canonical? (text : String) : Option String :=
  let lower := text.toList.map Char.toLower
  let grouped := unwrapped lower
  let digits := grouped.filter (· != '-')
  if digits.length = 32 ∧ digits.all isHexDigit ∧
      (lower = digits ∨ grouped = hyphenated digits) then
    some (String.ofList (hyphenated digits))
  else none

end LiveQuery.Text.Uuid
