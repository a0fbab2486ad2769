set_option autoImplicit false

namespace LiveQuery.Yaml

/-- The rest of a text, with the number of octets and lines before it and its column. -/
structure Cursor where
  text : List Char
  index : Nat
  line : Nat
  column : Nat

def isBlank (c : Char) : Bool := c = ' ' || c = '\t'

/-- Line ends, once those that stand for a line feed are written as one. -/
def isBreak (c : Char) : Bool := c = '\n' || c = '\u2028' || c = '\u2029'

def isSpacing (c : Char) : Bool := isBlank c || isBreak c

/-- Whether nothing of a word follows: the text ends, or a blank or line end comes. -/
def endsWord : List Char → Bool
  | [] => true
  | c :: _ => isSpacing c

/-- Characters that may stand in a text: all that are not controls, and of these the tab and the
line ends. -/
def isAllowed (c : Char) : Bool :=
  c = '\t' || c = '\n' || c = '\r' || (0x20 ≤ c.toNat && c.toNat ≤ 0x7E) || c = '\u0085' ||
    (0xA0 ≤ c.toNat && c.toNat ≤ 0xFFFD) || 0x10000 ≤ c.toNat

/-- A return, alone or before a line feed, and a next-line control stand for a line feed. -/
def uniformBreaks : List Char → List Char
  | '\r' :: '\n' :: rest => '\n' :: uniformBreaks rest
  | c :: rest => (if c = '\r' || c = '\u0085' then '\n' else c) :: uniformBreaks rest
  | [] => []

namespace Cursor

/-- The start of a text, unless it holds a character that no text may hold. -/
def start? (text : String) : Option Cursor :=
  let chars := text.toList
  if chars.all isAllowed then some ⟨uniformBreaks chars, 0, 0, 0⟩ else none

def next (cursor : Cursor) : Cursor :=
  match cursor.text with
  | [] => cursor
  | c :: rest =>
    if isBreak c then ⟨rest, cursor.index + c.utf8Size, cursor.line + 1, 0⟩
    else ⟨rest, cursor.index + c.utf8Size, cursor.line, cursor.column + 1⟩

def skip (cursor : Cursor) : Nat → Cursor
  | 0 => cursor
  | count + 1 => cursor.next.skip count

def skipWhile (cursor : Cursor) (passes : Char → Bool) : Cursor :=
  cursor.skip (cursor.text.takeWhile passes).length

/-- Past blanks and a comment, to the end of the line if nothing else stands on it. -/
def skipRemark (cursor : Cursor) : Cursor :=
  let cursor := cursor.skipWhile isBlank
  if cursor.text.head? = some '#' then cursor.skipWhile (!isBreak ·) else cursor

/-- The start of the next line, if this one has ended. -/
def nextLine? (cursor : Cursor) : Option Cursor :=
  match cursor.text with
  | [] => some cursor
  | c :: _ => if isBreak c then some cursor.next else none

def startsWith (cursor : Cursor) (c : Char) : Bool := cursor.text.head? = some c

def isMarked (cursor : Cursor) (c : Char) : Bool :=
  cursor.column = 0 && [c, c, c].isPrefixOf cursor.text && endsWord (cursor.text.drop 3)

def atDocumentStart (cursor : Cursor) : Bool := cursor.isMarked '-'

def atDocumentEnd (cursor : Cursor) : Bool := cursor.isMarked '.'

/-- Whether the line starts with a mark that parts documents. -/
def atDocumentMark (cursor : Cursor) : Bool := cursor.atDocumentStart || cursor.atDocumentEnd

end Cursor

end LiveQuery.Yaml
