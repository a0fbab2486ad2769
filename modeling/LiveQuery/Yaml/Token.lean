import LiveQuery.Yaml.Name

/-!
Tokens of a YAML text. Block collections show by indentation alone; their tokens are put in where a
line is indented further than the one around it, and where it is not any more. What stands before a
colon turns out to be a key only there, so the token for it is put in afterwards.
-/

set_option autoImplicit false

namespace LiveQuery.Yaml

inductive Token where
  | directive (directive : Directive)
  | documentStart
  | documentEnd
  | blockList
  | blockMap
  | blockEnd
  | flowList
  | flowListEnd
  | flowMap
  | flowMapEnd
  | comma
  | dash
  | key
  | value
  | reference (name : String)
  | anchor (name : String)
  | tag (name : TagName)
  | scalar (style : Style) (text : List Char)

/-- A place where a key may have started: the number of tokens before it, and whether nothing but a
key can stand there. -/
structure KeyStart where
  position : Nat
  cursor : Cursor
  required : Bool

/-- A text that is partly cut into tokens. The margin is the least column of a block collection
within the present one. -/
structure Lexing where
  cursor : Cursor
  tokens : Array Token
  margin : Nat
  outerMargins : List Nat
  keyAllowed : Bool
  /-- Where a key may have started on this level of brackets. -/
  keyStart : Option KeyStart
  /-- The same for the levels around it, the innermost first. -/
  outerKeyStarts : List (Option KeyStart)

namespace Lexing

/-- Whether brackets or braces are open. -/
def flow (lexing : Lexing) : Bool := !lexing.outerKeyStarts.isEmpty

def push (lexing : Lexing) (token : Token) : Lexing :=
  { lexing with tokens := lexing.tokens.push token }

def insert (lexing : Lexing) (position : Nat) (token : Token) : Lexing :=
  { lexing with
    tokens := (lexing.tokens.extract 0 position).push token ++
      lexing.tokens.extract position lexing.tokens.size }

/-- Past blanks, comments and line ends. In a block, a new line allows for a key; where one may
start, no tab may stand. -/
def toWord (flow : Bool) : Nat → Bool → Cursor → Bool × Cursor
  | 0, allowed, cursor => (allowed, cursor)
  | fuel + 1, allowed, cursor =>
    let cursor :=
      if cursor.column = 0 && cursor.startsWith '\ufeff' then cursor.next else cursor
    let cursor := cursor.skipWhile fun c => c = ' ' || ((flow || !allowed) && c = '\t')
    let cursor := if cursor.startsWith '#' then cursor.skipWhile (!isBreak ·) else cursor
    if cursor.text.head?.any isBreak then toWord flow fuel (allowed || !flow) cursor.next
    else (allowed, cursor)

/-- A key stands on one line and takes at most 1024 octets. -/
def KeyStart.isPast (start : KeyStart) (cursor : Cursor) : Bool :=
  start.cursor.line < cursor.line || start.cursor.index + 1024 < cursor.index

/-- What is left of a place for a key at a later cursor. -/
def KeyStart.keep? (cursor : Cursor) (start : Option KeyStart) : Option (Option KeyStart) :=
  match start with
  | some start =>
    if KeyStart.isPast start cursor then (if start.required then none else some none)
    else some (some start)
  | none => some none

/-- Gives up the place where a key may have started. -/
def dropKey? (lexing : Lexing) : Option Lexing := do
  guard !(lexing.keyStart.any (·.required))
  return { lexing with keyStart := none }

/-- Notes that a key may start here. It has to be one where a line of a block map starts. -/
def noteKey? (lexing : Lexing) : Option Lexing := do
  if lexing.keyAllowed then
    let lexing ← lexing.dropKey?
    let required := !lexing.flow && lexing.margin = lexing.cursor.column + 1
    return { lexing with
      keyStart := some ⟨lexing.tokens.size, lexing.cursor, required⟩ }
  else return lexing

/-- Opens a block collection at a column that lies further right than the present one. -/
def openBlock (lexing : Lexing) (column position : Nat) (token : Token) : Lexing :=
  if lexing.flow || column < lexing.margin then lexing
  else
    { lexing.insert position token with
      margin := column + 1
      outerMargins := lexing.margin :: lexing.outerMargins }

/-- Closes the block collections whose margin is greater than a limit. -/
def closeBlocks (limit : Nat) : List Nat → Lexing → Lexing
  | [], lexing => lexing
  | margin :: outer, lexing =>
    if lexing.margin ≤ limit then lexing
    else closeBlocks limit outer { lexing.push .blockEnd with margin, outerMargins := outer }

def close (lexing : Lexing) (limit : Nat) : Lexing :=
  if lexing.flow then lexing else closeBlocks limit lexing.outerMargins lexing

def passed (lexing : Lexing) (count : Nat) : Lexing :=
  { lexing with cursor := lexing.cursor.skip count }

/-- A token between documents, with the cursor behind it. -/
def betweenDocuments? (lexing : Lexing) (token : Token) (cursor : Cursor) : Option Lexing := do
  let lexing ← (lexing.close 0).dropKey?
  return { lexing.push token with keyAllowed := false, cursor }

def openFlow? (lexing : Lexing) (token : Token) : Option Lexing := do
  let lexing ← lexing.noteKey?
  return { (lexing.push token).passed 1 with
    keyAllowed := true
    keyStart := none
    outerKeyStarts := lexing.keyStart :: lexing.outerKeyStarts }

def closeFlow? (lexing : Lexing) (token : Token) : Option Lexing := do
  let lexing ← lexing.dropKey?
  return { (lexing.push token).passed 1 with
    keyAllowed := false
    keyStart := lexing.outerKeyStarts.head?.getD none
    outerKeyStarts := lexing.outerKeyStarts.tail }

def comma? (lexing : Lexing) : Option Lexing := do
  return { ((← lexing.dropKey?).push .comma).passed 1 with keyAllowed := true }

/-- A dash. Within brackets it stands for no item, but that shows where the tokens are put
together. -/
def dash? (lexing : Lexing) : Option Lexing := do
  guard (lexing.flow || lexing.keyAllowed)
  let lexing ← (lexing.openBlock lexing.cursor.column lexing.tokens.size .blockList).dropKey?
  return { (lexing.push .dash).passed 1 with keyAllowed := true }

/-- A question mark before a key of any form. -/
def key? (lexing : Lexing) : Option Lexing := do
  guard (lexing.flow || lexing.keyAllowed)
  let lexing ← (lexing.openBlock lexing.cursor.column lexing.tokens.size .blockMap).dropKey?
  return { (lexing.push .key).passed 1 with keyAllowed := !lexing.flow }

/-- A colon. If a key may have started before it, that is what it was. -/
def value? (lexing : Lexing) : Option Lexing := do
  match lexing.keyStart with
  | some start =>
    let lexing := lexing.insert start.position .key
    let lexing := lexing.openBlock start.cursor.column start.position .blockMap
    return { (lexing.push .value).passed 1 with keyStart := none, keyAllowed := false }
  | none =>
    guard (lexing.flow || lexing.keyAllowed)
    let lexing := lexing.openBlock lexing.cursor.column lexing.tokens.size .blockMap
    return { (lexing.push .value).passed 1 with keyAllowed := !lexing.flow }

/-- An anchor, or a reference to one, behind its mark. -/
def anchor? (lexing : Lexing) (token : String → Token) : Option Lexing := do
  let lexing ← lexing.noteKey?
  let (name, cursor) ← anchorName? lexing.cursor.next
  return { lexing.push (token name) with keyAllowed := false, cursor }

def tag? (lexing : Lexing) : Option Lexing := do
  let lexing ← lexing.noteKey?
  let (name, cursor) ← Yaml.tag? lexing.flow lexing.cursor
  return { lexing.push (.tag name) with keyAllowed := false, cursor }

/-- A block scalar is no key; one may start behind it. -/
def block? (lexing : Lexing) (style : Style) : Option Lexing := do
  let lexing ← lexing.dropKey?
  let (text, cursor) ← Yaml.block? (style = .folded) lexing.margin lexing.cursor.next
  return { lexing.push (.scalar style text) with keyAllowed := true, cursor }

def quoted? (lexing : Lexing) (quote : Char) : Option Lexing := do
  let lexing ← lexing.noteKey?
  let (text, cursor) ← Yaml.quoted? quote lexing.cursor.text.length [] lexing.cursor.next
  return { lexing.push (.scalar .quoted text) with keyAllowed := false, cursor }

/-- Whether a plain scalar may start with these characters. -/
def startsPlain (flow : Bool) : List Char → Bool
  | [] => false
  | c :: rest =>
    if c = '-' then !rest.head?.any isBlank
    else if c = '?' || c = ':' then !flow && !endsWord rest
    else !(isFlowMark c || isSpacing c ||
      ['#', '&', '*', '!', '|', '>', '\x27', '"', '%', '@', '\x60'].contains c)

/-- A plain scalar. The line ends behind it have been passed, so that a key may start there. -/
def plain? (lexing : Lexing) : Option Lexing := do
  guard (startsPlain lexing.flow lexing.cursor.text)
  let lexing ← lexing.noteKey?
  let (text, broken, cursor) ←
    Yaml.plain? lexing.flow lexing.margin lexing.cursor.text.length [] (.blanks []) lexing.cursor
  return { lexing.push (.scalar .plain text) with keyAllowed := broken, cursor }

/-- The next token of a text that has not ended. -/
def token? (lexing : Lexing) : Option Lexing := do
  let cursor := lexing.cursor
  if cursor.column = 0 && cursor.startsWith '%' then
    let (directive, cursor) ← directive? cursor.next
    lexing.betweenDocuments? (.directive directive) cursor
  else if cursor.atDocumentStart then lexing.betweenDocuments? .documentStart (cursor.skip 3)
  else if cursor.atDocumentEnd then lexing.betweenDocuments? .documentEnd (cursor.skip 3)
  else
    match cursor.text with
    | '[' :: _ => lexing.openFlow? .flowList
    | '\x7b' :: _ => lexing.openFlow? .flowMap
    | ']' :: _ => lexing.closeFlow? .flowListEnd
    | '\x7d' :: _ => lexing.closeFlow? .flowMapEnd
    | ',' :: _ => lexing.comma?
    | '*' :: _ => lexing.anchor? .reference
    | '&' :: _ => lexing.anchor? .anchor
    | '!' :: _ => lexing.tag?
    | '\x27' :: _ => lexing.quoted? '\x27'
    | '"' :: _ => lexing.quoted? '"'
    | '-' :: rest => if endsWord rest then lexing.dash? else lexing.plain?
    | '?' :: rest => if lexing.flow || endsWord rest then lexing.key? else lexing.plain?
    | ':' :: rest => if lexing.flow || endsWord rest then lexing.value? else lexing.plain?
    | '|' :: _ => if lexing.flow then none else lexing.block? .literal
    | '>' :: _ => if lexing.flow then none else lexing.block? .folded
    | _ => lexing.plain?

/-- The text up to its next word. Places for keys that lie too far back are given up, and block
collections are closed that the word does not stand in. -/
def advance? (lexing : Lexing) : Option Lexing := do
  let (keyAllowed, cursor) :=
    toWord lexing.flow (lexing.cursor.text.length + 1) lexing.keyAllowed lexing.cursor
  let keyStart ← KeyStart.keep? cursor lexing.keyStart
  let outerKeyStarts ← lexing.outerKeyStarts.mapM (KeyStart.keep? cursor)
  return { lexing with cursor, keyAllowed, keyStart, outerKeyStarts }.close (cursor.column + 1)

def run? : Nat → Lexing → Option (List Token)
  | 0, _ => none
  | fuel + 1, lexing => do
    let lexing ← lexing.advance?
    if lexing.cursor.text.isEmpty then
      return (← (lexing.close 0).dropKey?).tokens.toList
    else run? fuel (← lexing.token?)

end Lexing

/-- The tokens of a text. -/
def tokens? (text : String) : Option (List Token) := do
  let cursor ← Cursor.start? text
  Lexing.run? (cursor.text.length + 1) ⟨cursor, #[], 0, [], true, none, []⟩

end LiveQuery.Yaml
