import LiveQuery.Yaml.Cursor

set_option autoImplicit false

namespace LiveQuery.Yaml

inductive Style where
  | plain
  | quoted
  | literal
  | folded
  deriving DecidableEq

/-- What stands between two parts of a scalar: blanks on one line, or line ends. An escaped line
end is not counted as the first of them. -/
inductive Gap where
  | blanks (text : List Char)
  | lines (first : Option Char) (further : List Char)

namespace Gap

def isBroken : Gap → Bool
  | .blanks _ => false
  | .lines _ _ => true

/-- What a gap means: one line feed is a blank, of several the first is dropped. The separators of
lines and paragraphs stay as they are. -/
def text : Gap → List Char
  | .blanks text => text
  | .lines first further =>
    if first = some '\n' then (if further.isEmpty then [' '] else further)
    else first.toList ++ further

def ofSpacing (run : List Char) : Gap :=
  match run.filter isBreak with
  | [] => .blanks run
  | first :: further => .lines (some first) further

end Gap

def isFlowMark (c : Char) : Bool :=
  c = ',' || c = '[' || c = ']' || c = '\x7b' || c = '\x7d'

/-- The part of a plain scalar up to the next blank. A colon ends it before a blank; within brackets
it may not touch one of their marks. -/
def plainRun? (flow : Bool) : List Char → Option (List Char)
  | [] => some []
  | c :: rest =>
    if isSpacing c then some []
    else if flow && c = ':' && rest.head?.any (fun d => isFlowMark d || d = '?') then none
    else if (c = ':' && endsWord rest) || (flow && isFlowMark c) then some []
    else (plainRun? flow rest).map (c :: ·)

/-- Whether a tab stands where a line has to be indented. -/
def hasEarlyTab (margin : Nat) (run : List Char) : Bool :=
  (run.splitOnP isBreak).tail.any fun line => (line.take margin).contains '\t'

/-- The rest of a plain scalar behind what is known of it and the gap before the cursor: its text,
whether a line end was passed behind it, and the place of the next token. -/
def plain? (flow : Bool) (margin : Nat) :
    Nat → List Char → Gap → Cursor → Option (List Char × Bool × Cursor)
  | 0, _, _, _ => none
  | fuel + 1, known, gap, cursor => do
    if cursor.atDocumentMark || cursor.startsWith '#' then return (known, gap.isBroken, cursor)
    let run ← plainRun? flow cursor.text
    let (known, gap) := if run.isEmpty then (known, gap) else (known ++ gap.text ++ run, .blanks [])
    let cursor := cursor.skip run.length
    let spacing := cursor.text.takeWhile isSpacing
    if spacing.isEmpty then return (known, gap.isBroken, cursor)
    guard !hasEarlyTab margin spacing
    let gap := Gap.ofSpacing spacing
    let cursor := cursor.skip spacing.length
    if !flow && cursor.column < margin then return (known, gap.isBroken, cursor)
    plain? flow margin fuel known gap cursor

def hexDigit? (c : Char) : Option Nat :=
  if c.isDigit then some (c.toNat - '0'.toNat)
  else if 'a' ≤ c ∧ c ≤ 'f' then some (c.toNat - 'a'.toNat + 10)
  else if 'A' ≤ c ∧ c ≤ 'F' then some (c.toNat - 'A'.toNat + 10)
  else none

def hexValue? (digits : List Char) : Option Nat :=
  digits.foldlM (fun value c => do return value * 16 + (← hexDigit? c)) 0

def shortEscape? : Char → Option Char
  | '0' => some '\x00'
  | 'a' => some '\x07'
  | 'b' => some '\x08'
  | 't' => some '\t'
  | '\t' => some '\t'
  | 'n' => some '\n'
  | 'v' => some '\x0b'
  | 'f' => some '\x0c'
  | 'r' => some '\r'
  | 'e' => some '\x1b'
  | ' ' => some ' '
  | '"' => some '"'
  | '/' => some '/'
  | '\\' => some '\\'
  | 'N' => some '\u0085'
  | '_' => some '\u00a0'
  | 'L' => some '\u2028'
  | 'P' => some '\u2029'
  | _ => none

def escapeWidth : Char → Nat
  | 'x' => 2
  | 'u' => 4
  | 'U' => 8
  | _ => 0

/-- The character that an escape stands for, and the length of the escape without its backslash. -/
def escape? : List Char → Option (Char × Nat)
  | [] => none
  | c :: rest =>
    match escapeWidth c with
    | 0 => do return (← shortEscape? c, 1)
    | width => do
      let code ← hexValue? (rest.take width)
      guard (width ≤ rest.length && code.isValidChar)
      return (Char.ofNat code, width + 1)

/-- The text of a quoted scalar up to its closing quote, behind what is known of it, and the place
behind that quote. No line of it may start with a mark that parts documents. -/
def quoted? (quote : Char) : Nat → List Char → Cursor → Option (List Char × Cursor)
  | 0, _, _ => none
  | fuel + 1, known, cursor =>
    match cursor.text with
    | [] => none
    | c :: rest =>
      if isSpacing c then do
        let spacing := cursor.text.takeWhile isSpacing
        let cursor := cursor.skip spacing.length
        guard !cursor.atDocumentMark
        quoted? quote fuel (known ++ (Gap.ofSpacing spacing).text) cursor
      else if c = quote then
        if quote = '\x27' && rest.head? = some quote then
          quoted? quote fuel (known ++ [quote]) (cursor.skip 2)
        else some (known, cursor.next)
      else if c = '\\' && quote = '"' then
        if rest.head?.any isBreak then do
          let spacing := (rest.drop 1).takeWhile isSpacing
          let cursor := cursor.skip (2 + spacing.length)
          guard !cursor.atDocumentMark
          quoted? quote fuel (known ++ (Gap.lines none (spacing.filter isBreak)).text) cursor
        else do
          let (char, length) ← escape? rest
          quoted? quote fuel (known ++ [char]) (cursor.skip (1 + length))
      else quoted? quote fuel (known ++ [c]) cursor.next

/-- What becomes of the line ends behind the last line of a block scalar. -/
inductive Chomping where
  | strip
  | clip
  | keep
  deriving DecidableEq

def chomping? : Char → Option Chomping
  | '-' => some .strip
  | '+' => some .keep
  | _ => none

def indentDigit? (c : Char) : Option Nat :=
  if '1' ≤ c ∧ c ≤ '9' then some (c.toNat - '0'.toNat) else none

/-- The marks behind the sign of a block scalar, in either order: what becomes of its last line
ends, and how far its lines are indented. Also the number of the marks. -/
def blockMarks : List Char → Chomping × Option Nat × Nat
  | [] => (.clip, none, 0)
  | c :: rest =>
    match chomping? c, indentDigit? c with
    | some chomping, _ =>
      match rest.head?.bind indentDigit? with
      | some indent => (chomping, some indent, 2)
      | none => (chomping, none, 1)
    | none, some indent =>
      match rest.head?.bind chomping? with
      | some chomping => (chomping, some indent, 2)
      | none => (.clip, some indent, 1)
    | none, none => (.clip, none, 0)

/-- The line ends before the next line of a block scalar that is not empty, the greatest column
reached on the way, and the place in that line behind its indentation. A tab cannot indent. -/
def blockBreaks? (indent : Option Nat) :
    Nat → List Char → Nat → Cursor → Option (List Char × Nat × Cursor)
  | 0, _, _, _ => none
  | fuel + 1, known, reached, cursor => do
    let blanks := (cursor.text.takeWhile (· = ' ')).length
    let count := (indent.map fun indent => min blanks (indent - cursor.column)).getD blanks
    let cursor := cursor.skip count
    let reached := max reached cursor.column
    guard !(indent.all (cursor.column < ·) && cursor.startsWith '\t')
    match cursor.text with
    | c :: _ =>
      if isBreak c then blockBreaks? indent fuel (known ++ [c]) reached cursor.next
      else return (known, reached, cursor)
    | [] => return (known, reached, cursor)

/-- A block scalar while it is read: its text, the end of its last line and the further line ends
behind that, and whether the last line starts with a blank. -/
structure BlockLines where
  text : List Char
  lineEnd : List Char
  further : List Char
  blank : Bool

/-- Adds one line. In a folded scalar a line end between two lines that start without a blank
becomes a blank, or nothing if further line ends follow it. -/
def BlockLines.push (known : BlockLines) (folded : Bool) (line lineEnd further : List Char) :
    BlockLines :=
  let blank := line.head?.any isBlank
  let joint :=
    if folded && known.lineEnd = ['\n'] && !known.blank && !blank then
      if known.further.isEmpty then [' '] else []
    else known.lineEnd
  ⟨known.text ++ joint ++ known.further ++ line, lineEnd, further, blank⟩

def BlockLines.chomp (known : BlockLines) : Chomping → List Char
  | .strip => known.text
  | .clip => known.text ++ known.lineEnd
  | .keep => known.text ++ known.lineEnd ++ known.further

def blockLines? (folded : Bool) (indent : Nat) :
    Nat → BlockLines → Cursor → Option (BlockLines × Cursor)
  | 0, _, _ => none
  | fuel + 1, known, cursor => do
    if cursor.text.isEmpty || cursor.column ≠ indent then return (known, cursor)
    let line := cursor.text.takeWhile (!isBreak ·)
    let cursor := cursor.skip line.length
    let lineEnd := cursor.text.take 1
    let (further, _, cursor) ← blockBreaks? (some indent) (fuel + 1) [] 0 cursor.next
    blockLines? folded indent fuel (known.push folded line lineEnd further) cursor

/-- A block scalar whose sign has been passed. Its lines are indented as its marks say, or else as
its first line that is not empty, but at least up to the margin and by one column. -/
def block? (folded : Bool) (margin : Nat) (cursor : Cursor) : Option (List Char × Cursor) := do
  let (chomping, mark, count) := blockMarks cursor.text
  let cursor ← ((cursor.skip count).skipRemark).nextLine?
  let fuel := cursor.text.length + 1
  let given := mark.map (margin - 1 + ·)
  let (further, reached, cursor) ← blockBreaks? given fuel [] 0 cursor
  let indent := given.getD (max reached (max margin 1))
  let (lines, cursor) ← blockLines? folded indent fuel ⟨[], [], further, false⟩ cursor
  return (lines.chomp chomping, cursor)

end LiveQuery.Yaml
