import LiveQuery.Text.Digits
import LiveQuery.Yaml.Scalar

set_option autoImplicit false

namespace LiveQuery.Yaml

def isNameChar (c : Char) : Bool := c.isAlphanum || c = '_' || c = '-'

/-- The name of an anchor, and the place behind it. -/
def anchorName? (cursor : Cursor) : Option (String × Cursor) := do
  let name := cursor.text.takeWhile isNameChar
  let cursor := cursor.skip name.length
  guard (!name.isEmpty && (endsWord cursor.text ||
    cursor.text.head?.any fun c => ['?', ':', ',', ']', '\x7d', '%', '@', '\x60'].contains c))
  return (String.ofList name, cursor)

/-- Marks that may stand in any tag. -/
def tagMarks : List Char :=
  [';', '/', '?', ':', '@', '&', '=', '+', '$', '.', '%', '!', '~', '*', '\x27', '(', ')']

/-- Characters of a tag. In the long form, and in directives, marks of lists are among them. -/
def isTagChar (long : Bool) (c : Char) : Bool :=
  isNameChar c || tagMarks.contains c ||
    (long && (c = ',' || c = '[' || c = ']'))

/-- How many octets a character has that starts with this one. -/
def octetCount? (lead : Nat) : Option Nat :=
  if lead < 0x80 then some 1
  else if 0xC0 ≤ lead ∧ lead < 0xE0 then some 2
  else if 0xE0 ≤ lead ∧ lead < 0xF0 then some 3
  else if 0xF0 ≤ lead ∧ lead < 0xF8 then some 4
  else none

def escapedOctet? : List Char → Option (Nat × List Char)
  | '%' :: a :: b :: rest => do return ((← hexValue? [a, b]), rest)
  | _ => none

/-- The octets that continue a character. -/
def continuation? : Nat → List Char → Option (List Char)
  | 0, text => some text
  | count + 1, text => do
    let (octet, rest) ← escapedOctet? text
    guard (0x80 ≤ octet && octet < 0xC0)
    continuation? count rest

/-- A tag with its escapes resolved. Each octet beyond ASCII becomes a character of no meaning. -/
def unescaped? : Nat → List Char → Option (List Char)
  | _, [] => some []
  | 0, _ => none
  | fuel + 1, c :: rest =>
    if c = '%' then do
      let (lead, rest) ← escapedOctet? (c :: rest)
      let rest ← continuation? ((← octetCount? lead) - 1) rest
      return Char.ofNat lead :: (← unescaped? fuel rest)
    else do return c :: (← unescaped? fuel rest)

/-- The characters of a tag at a place, resolved, and the place behind them. -/
def tagText? (long : Bool) (cursor : Cursor) : Option (List Char × Cursor) := do
  let run := cursor.text.takeWhile (isTagChar long)
  return (← unescaped? run.length run, cursor.skip run.length)

/-- A tag by its handle and the rest of it. An empty handle stands for no shorthand at all. -/
structure TagName where
  handle : List Char
  suffix : List Char

/-- An exclamation mark, a word behind it and another such mark if there is one. -/
def tagHandle? (text : List Char) : Option (List Char) :=
  match text with
  | '!' :: rest =>
    let word := rest.takeWhile isNameChar
    if (rest.drop word.length).head? = some '!' then some ('!' :: word ++ ['!'])
    else some ('!' :: word)
  | _ => none

/-- Whether a handle is closed by a second mark. -/
def isClosed (handle : List Char) : Bool := 1 < handle.length && handle.getLast? = some '!'

/-- A tag in its long form, with a named handle, with the handle of one mark, or the mark alone. -/
def tagName? (cursor : Cursor) : Option (TagName × Cursor) := do
  match cursor.text with
  | '!' :: '<' :: _ =>
    let (text, cursor) ← tagText? true (cursor.skip 2)
    guard (!text.isEmpty && cursor.startsWith '>')
    return (⟨[], text⟩, cursor.next)
  | text =>
    let handle ← tagHandle? text
    if isClosed handle then
      let (suffix, cursor) ← tagText? false (cursor.skip handle.length)
      guard !suffix.isEmpty
      return (⟨handle, suffix⟩, cursor)
    else
      let (suffix, cursor) ← tagText? false cursor.next
      return (if suffix.isEmpty then ⟨[], ['!']⟩ else ⟨['!'], suffix⟩, cursor)

/-- A tag ends at a blank, or within brackets before a comma. -/
def tag? (flow : Bool) (cursor : Cursor) : Option (TagName × Cursor) := do
  let (name, cursor) ← tagName? cursor
  guard (endsWord cursor.text || (flow && cursor.startsWith ','))
  return (name, cursor)

inductive Directive where
  | version (major minor : Nat)
  /-- What a handle stands for. -/
  | handle (handle stem : List Char)

/-- A number of a version has at most nine digits. -/
def versionNumber? (cursor : Cursor) : Option (Nat × Cursor) := do
  let digits := cursor.text.takeWhile Char.isDigit
  guard (!digits.isEmpty && digits.length ≤ 9)
  return (Text.digitsValue digits, cursor.skip digits.length)

def directiveBody? (cursor : Cursor) : Option (Directive × Cursor) := do
  let name := cursor.text.takeWhile isNameChar
  let cursor := cursor.skip name.length
  guard (endsWord cursor.text)
  let cursor := cursor.skipWhile isBlank
  match String.ofList name with
  | "YAML" =>
    let (major, cursor) ← versionNumber? cursor
    guard (cursor.startsWith '.')
    let (minor, cursor) ← versionNumber? cursor.next
    return (.version major minor, cursor)
  | "TAG" =>
    let handle ← tagHandle? cursor.text
    guard (isClosed handle || handle = ['!'])
    let cursor := cursor.skip handle.length
    guard (cursor.text.head?.any isBlank)
    let (stem, cursor) ← tagText? true (cursor.skipWhile isBlank)
    guard (!stem.isEmpty && endsWord cursor.text)
    return (.handle handle stem, cursor)
  | _ => none

/-- A directive behind its percent sign, and the line after it. -/
def directive? (cursor : Cursor) : Option (Directive × Cursor) := do
  let (directive, cursor) ← directiveBody? cursor
  return (directive, ← cursor.skipRemark.nextLine?)

end LiveQuery.Yaml
