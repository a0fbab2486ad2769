import LiveQuery.Sql.Literal
import LiveQuery.Sql.Name

/-!
How a server in its default mode cuts the text of a statement into tokens: backslashes escape
inside strings, a doubled quote stands for itself, and names may stand between backticks. Where a
server would read more than is told here, as in comments, introducers of strings, variables or
numbers with an exponent, nothing is read at all.
-/

set_option autoImplicit false

namespace LiveQuery.Sql

inductive Token where
  | word (text : String)
  | name (text : String)
  | string (text : String)
  | number (text : String)
  | symbol (text : String)
  deriving DecidableEq

namespace Lexer

def isBlank (c : Char) : Bool :=
  c = ' ' || c = '\t' || c = '\n' || c = '\x0b' || c = '\x0c' || c = '\r'

def isWordCharacter (c : Char) : Bool := c.isAlphanum || c = '_' || c = '$' || 0x80 ≤ c.toNat

/-- What a backslash and the character behind it stand for. -/
def unescaped : Char → List Char
  | '0' => ['\x00']
  | 'b' => ['\x08']
  | 't' => ['\t']
  | 'n' => ['\n']
  | 'r' => ['\r']
  | 'Z' => ['\x1a']
  | '%' => ['\\', '%']
  | '_' => ['\\', '_']
  | c => [c]

/-- More contents, in front of what has been read behind them. -/
def prepend (front : List Char) (read : Option (List Char × List Char)) :
    Option (List Char × List Char) :=
  read.map fun (contents, behind) => (front ++ contents, behind)

/-- The contents of a string up to its closing quote, and what stands behind that. -/
def readString (quote : Char) : List Char → Option (List Char × List Char)
  | [] => none
  | '\\' :: c :: rest => prepend (unescaped c) (readString quote rest)
  | c :: rest =>
    if c = quote then
      match rest with
      | [] => some ([], [])
      | next :: behind =>
        if next = quote then prepend [quote] (readString quote behind)
        else some ([], next :: behind)
    else prepend [c] (readString quote rest)

/-- A quoted name up to its closing backtick, and what stands behind that. -/
def readName : List Char → Option (List Char × List Char)
  | [] => none
  | c :: rest =>
    if c = '\x00' then none
    else if c = '\x60' then
      match rest with
      | [] => some ([], [])
      | next :: behind =>
        if next = '\x60' then prepend ['\x60'] (readName behind) else some ([], next :: behind)
    else prepend [c] (readName rest)

/-- A word, unless it introduces a string. -/
def readWord (text : List Char) : Option (Token × List Char) :=
  let behind := text.dropWhile isWordCharacter
  if behind.head? = some '\x27' ∨ behind.head? = some '"' then none
  else some (.word (String.ofList (text.takeWhile isWordCharacter)), behind)

/-- A number of these digits, unless it goes on behind them. -/
def numberOf (digits behind : List Char) : Option (Token × List Char) :=
  if behind.head?.any fun c => isWordCharacter c || c = '.' then none
  else some (.number (String.ofList digits), behind)

def readNumber (text : List Char) : Option (Token × List Char) :=
  let whole := text.takeWhile Char.isDigit
  match text.dropWhile Char.isDigit with
  | '.' :: rest =>
    let places := rest.takeWhile Char.isDigit
    if places.isEmpty then none else numberOf (whole ++ '.' :: places) (rest.dropWhile Char.isDigit)
  | behind => numberOf whole behind

/-- A symbol that is part of a longer one stands behind it. -/
def symbols : List (List Char) :=
  [['<', '=', '>'], ['<', '='], ['>', '='], ['<', '>'], ['!', '='], ['<', '<'], ['>', '>'],
    ['|', '|'], ['&', '&'], ['('], [')'], [','], ['.'], [';'], ['='], ['<'], ['>'], ['+'], ['-'],
    ['*'], ['/'], ['%'], ['!'], ['&'], ['|'], ['^'], ['~']]

/-- A symbol, unless it opens a comment or a number. -/
def readSymbol (text : List Char) : Option (Token × List Char) :=
  match text with
  | '-' :: '-' :: _ | '/' :: '*' :: _ => none
  | text => do
    let symbol ← symbols.find? (·.isPrefixOf text)
    let behind := text.drop symbol.length
    if symbol = ['.'] ∧ behind.head?.any Char.isDigit then none
    else return (.symbol (String.ofList symbol), behind)

/-- The token that a text starts with, and what stands behind it. -/
def next : List Char → Option (Token × List Char)
  | [] => none
  | c :: rest =>
    if c = '\x27' ∨ c = '"' then
      (readString c rest).map fun (contents, behind) => (.string (String.ofList contents), behind)
    else if c = '\x60' then
      (readName rest).map fun (contents, behind) => (.name (String.ofList contents), behind)
    else if c.isDigit then readNumber (c :: rest)
    else if isWordCharacter c then readWord (c :: rest)
    else readSymbol (c :: rest)

theorem of_prepend {front contents behind : List Char} {read : Option (List Char × List Char)}
    (known : prepend front read = some (contents, behind)) :
    ∃ inner, read = some (inner, behind) := by
  obtain ⟨⟨inner, rest⟩, found, same⟩ := Option.map_eq_some_iff.mp known
  cases same
  exact ⟨inner, found⟩

theorem length_of_readString {quote : Char} {text contents behind : List Char}
    (read : readString quote text = some (contents, behind)) : behind.length < text.length := by
  fun_induction readString quote text generalizing contents <;> grind [of_prepend]

theorem length_of_readName {text contents behind : List Char}
    (read : readName text = some (contents, behind)) : behind.length < text.length := by
  fun_induction readName text generalizing contents <;> grind [of_prepend]

theorem length_dropWhile_le (p : Char → Bool) (text : List Char) :
    (text.dropWhile p).length ≤ text.length := (List.dropWhile_suffix p).length_le

theorem length_of_readWord {c : Char} {rest behind : List Char} {token : Token}
    (opens : isWordCharacter c = true) (read : readWord (c :: rest) = some (token, behind)) :
    behind.length ≤ rest.length := by
  have shorter := length_dropWhile_le isWordCharacter rest
  simp only [readWord, List.dropWhile_cons, opens, ↓reduceIte] at read
  split at read
  · cases read
  · cases read
    exact shorter

theorem length_of_numberOf {digits text behind : List Char} {token : Token}
    (read : numberOf digits text = some (token, behind)) : behind = text := by
  unfold numberOf at read
  split at read
  · cases read
  · cases read
    rfl

theorem length_of_readNumber {c : Char} {rest behind : List Char} {token : Token}
    (opens : c.isDigit = true) (read : readNumber (c :: rest) = some (token, behind)) :
    behind.length ≤ rest.length := by
  have shorter := length_dropWhile_le Char.isDigit rest
  simp only [readNumber, List.dropWhile_cons, opens, ↓reduceIte] at read
  split at read
  case h_1 places point =>
    have further := length_dropWhile_le Char.isDigit places
    split at read
    · cases read
    · rw [length_of_numberOf read]
      rw [point, List.length_cons] at shorter
      omega
  case h_2 =>
    rw [length_of_numberOf read]
    exact shorter

theorem length_of_readSymbol {c : Char} {rest behind : List Char} {token : Token}
    (read : readSymbol (c :: rest) = some (token, behind)) : behind.length ≤ rest.length := by
  have filled : ∀ symbol ∈ symbols, symbol ≠ [] := by decide
  unfold readSymbol at read
  split at read
  · cases read
  · cases read
  · obtain ⟨symbol, found, behind⟩ := Option.bind_eq_some_iff.mp read
    have long := List.length_pos_iff.mpr (filled symbol (List.mem_of_find?_eq_some found))
    dsimp only at behind
    split at behind
    · cases behind
    · cases behind
      rw [List.length_drop, List.length_cons]
      omega

/-- A token takes something off a text. -/
theorem length_of_next {text behind : List Char} {token : Token}
    (read : next text = some (token, behind)) : behind.length < text.length := by
  cases text with
  | nil => cases read
  | cons c rest =>
    rw [next] at read
    by_cases quote : c = '\x27' ∨ c = '"'
    · rw [if_pos quote] at read
      obtain ⟨⟨contents, behind⟩, inner, same⟩ := Option.map_eq_some_iff.mp read
      cases same
      have shorter := length_of_readString inner
      rw [List.length_cons]
      omega
    rw [if_neg quote] at read
    by_cases backtick : c = '\x60'
    · rw [if_pos backtick] at read
      obtain ⟨⟨contents, behind⟩, inner, same⟩ := Option.map_eq_some_iff.mp read
      cases same
      have shorter := length_of_readName inner
      rw [List.length_cons]
      omega
    rw [if_neg backtick] at read
    rw [List.length_cons, Nat.lt_succ_iff]
    by_cases digit : c.isDigit = true
    · rw [if_pos digit] at read
      exact length_of_readNumber digit read
    rw [if_neg digit] at read
    by_cases word : isWordCharacter c = true
    · rw [if_pos word] at read
      exact length_of_readWord word read
    · rw [if_neg word] at read
      exact length_of_readSymbol read

/-- The tokens of a text. -/
def tokens? : List Char → Option (List Token)
  | [] => some []
  | c :: rest =>
    if isBlank c then tokens? rest
    else
      match _read : next (c :: rest) with
      | none => none
      | some (token, behind) => (tokens? behind).map (token :: ·)
termination_by text => text.length
decreasing_by
  · exact Nat.lt_succ_self _
  · exact length_of_next ‹_›

theorem tokens?_blank {c : Char} {rest : List Char} (blank : isBlank c = true) :
    tokens? (c :: rest) = tokens? rest := by
  rw [tokens?, if_pos blank]

theorem next_blank {c : Char} {rest : List Char} (blank : isBlank c = true) :
    next (c :: rest) = none := by
  have known : c ∈ [' ', '\t', '\n', '\x0b', '\x0c', '\r'] := by
    simpa [isBlank, or_assoc] using blank
  simp only [List.mem_cons, List.not_mem_nil, or_false] at known
  rcases known with rfl | rfl | rfl | rfl | rfl | rfl <;> rfl

theorem tokens?_next {text behind : List Char} {token : Token}
    (read : next text = some (token, behind)) :
    tokens? text = (tokens? behind).map (token :: ·) := by
  cases text with
  | nil => cases read
  | cons c rest =>
    by_cases blank : isBlank c = true
    · rw [next_blank blank] at read
      cases read
    · rw [tokens?, if_neg blank]
      split
      · next none =>
        rw [none] at read
        cases read
      · next found =>
        rw [found] at read
        cases read
        rfl

section Quoted

variable {rest : List Char}

theorem readString_close {quote : Char} (plain : quote ≠ '\\') (apart : rest.head? ≠ some quote) :
    readString quote (quote :: rest) = some ([], rest) := by
  cases rest with
  | nil => simp [readString]
  | cons c rest =>
    have differs : c ≠ quote := by simpa using apart
    simp [readString, plain, differs]

theorem readString_plain {quote c : Char} (plain : c ≠ '\\') (inside : c ≠ quote) :
    readString quote (c :: rest) = prepend [c] (readString quote rest) := by
  cases rest <;> simp [readString, plain, inside]

theorem readName_plain {c : Char} (visible : c ≠ '\x00') (inside : c ≠ '\x60') :
    readName (c :: rest) = prepend [c] (readName rest) := by
  cases rest <;> simp [readName, visible, inside]

/-- What all replacements together make of a character. -/
def escapedCharacter (c : Char) : List Char :=
  if c = '\\' then ['\\', '\\']
  else if c = '\x27' then ['\\', '\x27']
  else if c = '"' then ['\\', '"']
  else if c = '\x00' then ['\\', '0']
  else if c = '\n' then ['\\', 'n']
  else if c = '\r' then ['\\', 'r']
  else if c = '\x1a' then ['\\', 'Z']
  else [c]

theorem escapedCharacter_plain {c : Char}
    (plain : c ∉ ['\\', '\x27', '"', '\x00', '\n', '\r', '\x1a']) : escapedCharacter c = [c] := by
  simp only [List.mem_cons, List.not_mem_nil, or_false, not_or] at plain
  simp [escapedCharacter, plain]

theorem escaped_append (first second : List Char) :
    Literal.escaped (first ++ second) = Literal.escaped first ++ Literal.escaped second := by
  unfold Literal.escaped
  induction Literal.escapes generalizing first second with
  | nil => rfl
  | cons step rest ih =>
    rw [List.foldl_cons, List.foldl_cons, List.foldl_cons, ← ih, Literal.replaced,
      List.flatMap_append]
    rfl

theorem escaped_singleton (c : Char) : Literal.escaped [c] = escapedCharacter c := by
  by_cases special : c ∈ ['\\', '\x27', '"', '\x00', '\n', '\r', '\x1a']
  · simp only [List.mem_cons, List.not_mem_nil, or_false] at special
    rcases special with rfl | rfl | rfl | rfl | rfl | rfl | rfl <;> rfl
  · rw [escapedCharacter_plain special]
    simp only [List.mem_cons, List.not_mem_nil, or_false, not_or] at special
    simp [Literal.escaped, Literal.escapes, Literal.replaced, special]

theorem escaped_cons (c : Char) (text : List Char) :
    Literal.escaped (c :: text) = escapedCharacter c ++ Literal.escaped text := by
  rw [← List.singleton_append, escaped_append, escaped_singleton]

theorem escapedCharacter_cases (c : Char) :
    (∃ letter, escapedCharacter c = ['\\', letter] ∧ unescaped letter = [c]) ∨
      escapedCharacter c = [c] ∧ c ≠ '\\' ∧ c ≠ '\x27' := by
  by_cases special : c ∈ ['\\', '\x27', '"', '\x00', '\n', '\r', '\x1a']
  · simp only [List.mem_cons, List.not_mem_nil, or_false] at special
    rcases special with rfl | rfl | rfl | rfl | rfl | rfl | rfl <;> exact Or.inl ⟨_, rfl, rfl⟩
  · refine Or.inr ⟨escapedCharacter_plain special, ?_, ?_⟩
    · exact fun same => special (by simp [same])
    · exact fun same => special (by simp [same])

theorem readString_escaped (apart : rest.head? ≠ some '\x27') (text : List Char) :
    readString '\x27' (Literal.escaped text ++ '\x27' :: rest) = some (text, rest) := by
  induction text with
  | nil => exact readString_close (by decide) apart
  | cons c text ih =>
    rw [escaped_cons, List.append_assoc]
    rcases escapedCharacter_cases c with ⟨letter, written, meaning⟩ | ⟨written, plain, inside⟩
    · rw [written, List.cons_append, List.cons_append, List.nil_append, readString, ih, meaning]
      rfl
    · rw [written, List.cons_append, List.nil_append, readString_plain plain inside, ih]
      rfl

/-- A doubled backtick is read as one, and the backtick behind a name ends it. -/
theorem readName_quoted (apart : rest.head? ≠ some '\x60') {text : List Char}
    (valid : '\x00' ∉ text) :
    readName (text.flatMap Name.quotedCharacter ++ '\x60' :: rest) = some (text, rest) := by
  induction text with
  | nil =>
    cases rest with
    | nil => rfl
    | cons c rest =>
      have differs : c ≠ '\x60' := by simpa using apart
      simp [readName, differs]
  | cons c text ih =>
    have behind := ih fun nul => valid (List.mem_cons_of_mem _ nul)
    have visible : c ≠ '\x00' := fun same => valid (same ▸ List.mem_cons_self ..)
    rw [List.flatMap_cons, List.append_assoc]
    by_cases backtick : c = '\x60'
    · rw [Name.quotedCharacter, if_pos backtick, List.cons_append, List.cons_append,
        List.nil_append, backtick]
      simp [readName, behind, prepend]
    · rw [Name.quotedCharacter, if_neg backtick, List.cons_append, List.nil_append,
        readName_plain visible backtick, behind]
      rfl

theorem next_quoted (text : String) (apart : rest.head? ≠ some '\x27') :
    next ((Literal.quoted text).toList ++ rest) = some (.string text, rest) := by
  have written : (Literal.quoted text).toList ++ rest =
      '\x27' :: (Literal.escaped text.toList ++ '\x27' :: rest) := by
    simp [Literal.quoted]
  rw [written, next, if_pos (Or.inl rfl), readString_escaped apart]
  simp

theorem not_mem_nul {limit : Nat} (name : Name limit) : '\x00' ∉ name.text.toList := by
  have valid := name.valid
  unfold Name.fault? at valid
  intro nul
  split at valid
  · cases valid
  · rw [if_pos (by simpa using nul)] at valid
    cases valid

theorem next_name {limit : Nat} (name : Name limit) (apart : rest.head? ≠ some '\x60') :
    next (name.quoted.toList ++ rest) = some (.name name.text, rest) := by
  have written : name.quoted.toList ++ rest =
      '\x60' :: (name.text.toList.flatMap Name.quotedCharacter ++ '\x60' :: rest) := by
    simp [Name.quoted]
  rw [written, next, if_neg (by decide), if_pos rfl, readName_quoted apart (not_mem_nul name)]
  simp

end Quoted

end Lexer

end LiveQuery.Sql
