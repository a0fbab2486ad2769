import LiveQuery.Proofs.Sql.Grammar
import LiveQuery.Proofs.Sql.Lexer

set_option autoImplicit false

namespace LiveQuery.Sql

open Lexer

/-- Tokens that may differ in what a string holds, and in nothing else. -/
def Token.Akin (a b : Token) : Prop := a = b ∨ ∃ s t, a = .string s ∧ b = .string t

/-- Whatever stands behind the text, if it may stand there, the text is read as these tokens. -/
def Lexes (follows : List Char → Prop) (text : String) (tokens : List Token) : Prop :=
  ∀ rest, follows rest → tokens? (text.toList ++ rest) = (tokens? rest).map (tokens ++ ·)

/-- Anything may stand behind. -/
def Free (_ : List Char) : Prop := True

/-- What may stand behind a word, a number or a quoted part. -/
def Apart (rest : List Char) : Prop := ∀ c, rest.head? = some c → c ∈ [' ', '(', ')', ',']

section Pieces

variable {P Q : List Char → Prop} {a b : String} {ts us : List Token}

theorem Lexes.append (first : Lexes P a ts) (second : Lexes Q b us)
    (fits : ∀ rest, Q rest → P (b.toList ++ rest)) : Lexes Q (a ++ b) (ts ++ us) := by
  intro rest follows
  rw [String.toList_append, List.append_assoc, first _ (fits rest follows), second rest follows,
    Option.map_map]
  congr 1
  funext tokens
  exact (List.append_assoc ts us tokens).symm

theorem lexes_of_next {token : Token}
    (reads : ∀ rest, P rest → next (a.toList ++ rest) = some (token, rest)) :
    Lexes P a [token] := fun rest follows => tokens?_next (reads rest follows)

theorem lexes_blank : Lexes Free " " [] := by
  intro rest _
  show tokens? (' ' :: rest) = _
  rw [tokens?_blank rfl]
  exact Option.map_id'.symm

/-- A text that starts with a sign that may stand behind words. -/
def Parted (text : String) : Prop := ∃ c ∈ [' ', '(', ')', ','], text.toList.head? = some c

theorem Parted.apart (parted : Parted a) (rest : List Char) : Apart (a.toList ++ rest) := by
  obtain ⟨c, sign, starts⟩ := parted
  intro c' starts'
  rw [List.head?_append, starts] at starts'
  cases starts'
  exact sign

theorem Parted.append (parted : Parted a) (b : String) : Parted (a ++ b) := by
  obtain ⟨c, sign, starts⟩ := parted
  refine ⟨c, sign, ?_⟩
  rw [String.toList_append, List.head?_append, starts]
  rfl

theorem Apart.ne {rest : List Char} {c : Char} (apart : Apart rest)
    (other : c ∉ [' ', '(', ')', ',']) : rest.head? ≠ some c := fun starts => other (apart c starts)

theorem forall_sign {P : Char → Prop} (blank : P ' ') (opening : P '(') (closing : P ')')
    (comma : P ',') : ∀ c ∈ [' ', '(', ')', ','], P c := by
  simp only [List.forall_mem_cons, List.not_mem_nil, false_imp_iff, implies_true, and_true]
  exact ⟨blank, opening, closing, comma⟩

theorem Apart.takeWhile {rest : List Char} (apart : Apart rest) {p : Char → Bool}
    (stops : ∀ c ∈ [' ', '(', ')', ','], p c = false) :
    rest.takeWhile p = [] ∧ rest.dropWhile p = rest := by
  cases rest with
  | nil => exact ⟨rfl, rfl⟩
  | cons c rest =>
    have stop := stops c (apart c rfl)
    exact ⟨by simp [stop], by simp [stop]⟩

/-- A run of characters of one kind ends where the text behind it is apart. -/
theorem Apart.run {front rest : List Char} (apart : Apart rest) {p : Char → Bool}
    (stops : ∀ c ∈ [' ', '(', ')', ','], p c = false) (all : ∀ c ∈ front, p c = true) :
    (front ++ rest).takeWhile p = front ∧ (front ++ rest).dropWhile p = rest := by
  have ⟨taken, dropped⟩ := apart.takeWhile stops
  rw [List.takeWhile_append_of_pos all, List.dropWhile_append_of_pos all, taken, dropped]
  exact ⟨List.append_nil front, rfl⟩

theorem isWordCharacter_of_isAlpha {c : Char} (letter : c.isAlpha = true) :
    isWordCharacter c = true := by
  simp [isWordCharacter, Char.isAlphanum, letter]

theorem not_isDigit_of_isAlpha {c : Char} (letter : c.isAlpha = true) : c.isDigit = false := by
  change (decide (c.val ≥ 'A'.val ∧ c.val ≤ 'Z'.val) ||
    decide (c.val ≥ 'a'.val) && decide (c.val ≤ 'z'.val)) = true at letter
  simp only [Bool.or_eq_true, Bool.and_eq_true, decide_eq_true_eq, ge_iff_le,
    UInt32.le_iff_toNat_le] at letter
  simp only [Char.isDigit, Bool.and_eq_false_iff, decide_eq_false_iff_not, ge_iff_le,
    UInt32.le_iff_toNat_le]
  have nine : '9'.val.toNat = 57 := rfl
  have upper : 'A'.val.toNat = 65 := rfl
  have lower : 'a'.val.toNat = 97 := rfl
  omega

theorem lexes_word {word : String} (letters : word.toList.all Char.isAlpha = true)
    (filled : word.toList ≠ []) : Lexes Apart word [.word word] := by
  refine lexes_of_next fun rest apart => ?_
  rw [List.all_eq_true] at letters
  obtain ⟨c, more, whole⟩ := List.exists_cons_of_ne_nil filled
  have letter : c.isAlpha = true := letters c (by simp [whole])
  have unquoted : ¬ (c = '\x27' ∨ c = '"') := by
    rintro (rfl | rfl) <;> exact absurd letter (by decide)
  have unticked : c ≠ '\x60' := by
    rintro rfl
    exact absurd letter (by decide)
  have ⟨taken, dropped⟩ := apart.run (p := isWordCharacter) (forall_sign rfl rfl rfl rfl)
    fun c inside => isWordCharacter_of_isAlpha (letters c inside)
  rw [whole, List.cons_append, next, if_neg unquoted, if_neg unticked,
    not_isDigit_of_isAlpha letter, if_neg Bool.false_ne_true,
    if_pos (isWordCharacter_of_isAlpha letter), ← List.cons_append, ← whole, readWord, taken,
    dropped, if_neg, String.ofList_toList]
  rintro (quote | quote)
  · exact apart.ne (by decide) quote
  · exact apart.ne (by decide) quote

theorem next_digit {c : Char} {rest : List Char} (digit : c.isDigit = true) :
    next (c :: rest) = readNumber (c :: rest) := by
  have unquoted : ¬ (c = '\x27' ∨ c = '"') := by
    rintro (rfl | rfl) <;> exact absurd digit (by decide)
  have unticked : c ≠ '\x60' := by
    rintro rfl
    exact absurd digit (by decide)
  rw [next, if_neg unquoted, if_neg unticked, if_pos digit]

theorem numberOf_apart {digits rest : List Char} (apart : Apart rest) :
    numberOf digits rest = some (.number (String.ofList digits), rest) := by
  have ends : ¬ (rest.head?.any fun c => isWordCharacter c || c = '.') = true := by
    cases rest with
    | nil => simp
    | cons c rest =>
      have sign := apart c rfl
      have stops : ∀ c ∈ [' ', '(', ')', ','], ¬ (isWordCharacter c || c = '.') = true :=
        forall_sign (by decide) (by decide) (by decide) (by decide)
      exact stops c sign
  rw [numberOf, if_neg ends]

/-- Digits, perhaps with a point between them. -/
structure Numeral (text : List Char) : Prop where
  read : ∀ rest, Apart rest →
    next (text ++ rest) = some (.number (String.ofList text), rest)
  digit : ∃ c, text.head? = some c ∧ c.isDigit = true

theorem numeral_of_digits {digits : List Char} (all : ∀ c ∈ digits, c.isDigit = true)
    (filled : digits ≠ []) : Numeral digits := by
  obtain ⟨c, more, whole⟩ := List.exists_cons_of_ne_nil filled
  have digit : c.isDigit = true := all c (by simp [whole])
  refine ⟨fun rest apart => ?_, c, by rw [whole]; rfl, digit⟩
  have ⟨taken, dropped⟩ := apart.run (p := Char.isDigit) (forall_sign rfl rfl rfl rfl) all
  have point : ∀ behind, rest ≠ '.' :: behind := by
    rintro behind rfl
    exact apart.ne (by decide) rfl
  rw [whole, List.cons_append, next_digit digit, ← List.cons_append, ← whole, readNumber, taken,
    dropped]
  split
  · exact absurd rfl (point _)
  · exact numberOf_apart apart

theorem numeral_of_decimals {whole places : List Char} (all : ∀ c ∈ whole, c.isDigit = true)
    (filled : whole ≠ []) (all' : ∀ c ∈ places, c.isDigit = true) (filled' : places ≠ []) :
    Numeral (whole ++ '.' :: places) := by
  obtain ⟨c, more, starts⟩ := List.exists_cons_of_ne_nil filled
  have digit : c.isDigit = true := all c (by simp [starts])
  refine ⟨fun rest apart => ?_, c, by rw [starts]; rfl, digit⟩
  have ⟨taken', dropped'⟩ := apart.run (p := Char.isDigit) (forall_sign rfl rfl rfl rfl) all'
  have ends : ('.' :: (places ++ rest)).takeWhile Char.isDigit = [] := rfl
  have taken : (whole ++ '.' :: (places ++ rest)).takeWhile Char.isDigit = whole := by
    rw [List.takeWhile_append_of_pos all, ends, List.append_nil]
  have dropped : (whole ++ '.' :: (places ++ rest)).dropWhile Char.isDigit =
      '.' :: (places ++ rest) := by
    rw [List.dropWhile_append_of_pos all]
    rfl
  have opened : whole ++ '.' :: (places ++ rest) = c :: (more ++ '.' :: (places ++ rest)) := by
    rw [starts]
    rfl
  rw [List.append_assoc, List.cons_append, opened, next_digit digit, ← opened, readNumber, taken,
    dropped]
  show (if ((places ++ rest).takeWhile Char.isDigit).isEmpty then none
    else numberOf (whole ++ '.' :: (places ++ rest).takeWhile Char.isDigit)
      ((places ++ rest).dropWhile Char.isDigit)) = _
  rw [taken', dropped', if_neg (by simpa using filled')]
  exact numberOf_apart apart

theorem Numeral.lexes {text : List Char} (numeral : Numeral text) :
    Lexes Apart (String.ofList text) [.number (String.ofList text)] :=
  lexes_of_next fun rest apart => by rw [String.toList_ofList, numeral.read rest apart]

theorem Numeral.lexes_negated {text : List Char} (numeral : Numeral text) :
    Lexes Apart ("-" ++ String.ofList text) [.symbol "-", .number (String.ofList text)] := by
  obtain ⟨c, starts, digit⟩ := numeral.digit
  have sign : Lexes (fun rest => rest.head? = some c) "-" [.symbol "-"] := by
    refine lexes_of_next fun rest follows => ?_
    cases rest with
    | nil => cases follows
    | cons d rest =>
      cases follows
      show readSymbol ('-' :: c :: rest) = _
      unfold readSymbol
      split
      · next same =>
        cases same
        exact absurd digit (by decide)
      · next same => cases same
      · rfl
  refine sign.append numeral.lexes fun rest _ => ?_
  rw [String.toList_ofList, List.head?_append, starts]
  rfl

theorem digits_toDigits (value : Nat) : ∀ c ∈ Nat.toDigits 10 value, c.isDigit = true :=
  fun _ inside => Nat.isDigit_of_mem_toDigits (by decide) (by decide) inside

theorem lexes_nat (value : Nat) : Lexes Apart (toString value) [.number (toString value)] :=
  (numeral_of_digits (digits_toDigits value) Nat.toDigits_ne_nil).lexes

theorem lexes_int (value : Int) : ∃ tokens, Lexes Apart (toString value) tokens := by
  cases value with
  | ofNat magnitude => exact ⟨_, lexes_nat magnitude⟩
  | negSucc magnitude =>
    have digits := numeral_of_digits (digits_toDigits (magnitude + 1)) Nat.toDigits_ne_nil
    exact ⟨_, digits.lexes_negated⟩

theorem digits_padded (width value : Nat) :
    ∀ c ∈ (Nat.toDigits 10 value).leftpad width '0', c.isDigit = true := by
  intro c inside
  rcases List.mem_append.mp (show c ∈ List.replicate _ '0' ++ _ from inside) with zero | digit
  · rw [List.eq_of_mem_replicate zero]
    rfl
  · exact digits_toDigits value c digit

theorem numeral_of_decimal (decimal : Decimal) :
    ∃ digits, decimal.text = String.ofList digits ∧ Numeral digits := by
  have whole (value : Nat) : Numeral (Nat.toDigits 10 value) :=
    numeral_of_digits (digits_toDigits value) Nat.toDigits_ne_nil
  unfold Decimal.text
  split
  · exact ⟨_, rfl, whole _⟩
  dsimp only
  split
  · exact ⟨_, rfl, whole _⟩
  next filled =>
    have places := digits_padded (-decimal.exponent).toNat
      (decimal.digits % 10 ^ (-decimal.exponent).toNat)
    generalize (Nat.toDigits 10 (decimal.digits % 10 ^ (-decimal.exponent).toNat)).leftpad
      (-decimal.exponent).toNat '0' = padded at places filled ⊢
    have kept : ∀ c ∈ (padded.reverse.dropWhile (· = '0')).reverse, c.isDigit = true := by
      intro c inside
      have inside := (List.dropWhile_suffix _).subset (List.mem_reverse.mp inside)
      exact places c (List.mem_reverse.mp inside)
    generalize decimal.digits / 10 ^ (-decimal.exponent).toNat = units
    have numeral := numeral_of_decimals (digits_toDigits units) Nat.toDigits_ne_nil kept
      (by simpa using filled)
    refine ⟨_, ?_, numeral⟩
    rw [← List.singleton_append, String.ofList_append, String.ofList_append, ← String.append_assoc]
    rfl

theorem lexes_float {value : Binary64} (finite : value.isFinite = true) :
    ∃ tokens, Lexes Apart value.text tokens := by
  cases value with
  | nan => cases finite
  | infinite => cases finite
  | finite negative m =>
    have numeral : ∃ digits, m.text = String.ofList digits ∧ Numeral digits := by
      unfold Binary64.Magnitude.text
      split
      · exact ⟨['0'], rfl, numeral_of_digits (List.forall_mem_singleton.mpr rfl) (by decide)⟩
      · exact numeral_of_decimal _
    obtain ⟨digits, written, numeral⟩ := numeral
    rw [Binary64.text, written]
    cases negative with
    | true => exact ⟨_, numeral.lexes_negated⟩
    | false => exact ⟨_, by simpa using numeral.lexes⟩

theorem lexes_sign {sign : Char} (reads : ∀ rest, next (sign :: rest) =
    some (.symbol (String.ofList [sign]), rest)) :
    Lexes Free (String.ofList [sign]) [.symbol (String.ofList [sign])] :=
  lexes_of_next fun rest _ => by rw [String.toList_ofList]; exact reads rest

theorem lexes_open : Lexes Free "(" [.symbol "("] := lexes_sign fun _ => rfl

theorem lexes_close : Lexes Free ")" [.symbol ")"] := lexes_sign fun _ => rfl

theorem lexes_comma : Lexes Free "," [.symbol ","] := lexes_sign fun _ => rfl

theorem lexes_spaced {symbol : String} (reads : ∀ rest, next (symbol.toList ++ ' ' :: rest) =
    some (.symbol symbol, ' ' :: rest)) : Lexes Free (" " ++ symbol ++ " ") [.symbol symbol] := by
  have inner : Lexes (fun rest => ∃ behind, rest = ' ' :: behind) symbol [.symbol symbol] := by
    refine lexes_of_next ?_
    rintro rest ⟨behind, rfl⟩
    exact reads behind
  have front : Lexes (fun rest => ∃ behind, rest = ' ' :: behind) (" " ++ symbol)
      ([] ++ [.symbol symbol]) := lexes_blank.append inner fun _ _ => trivial
  exact front.append lexes_blank fun rest _ => ⟨rest, rfl⟩

theorem lexes_comparison (comparison : Comparison) :
    Lexes Free (" " ++ comparison.symbol ++ " ") [.symbol comparison.symbol] := by
  cases comparison <;> exact lexes_spaced fun _ => rfl

theorem lexes_operator (operator : Operator) :
    Lexes Free (" " ++ operator.symbol ++ " ") [.symbol operator.symbol] := by
  cases operator with
  | compared comparison => cases comparison <;> exact lexes_spaced fun _ => rfl
  | nullSafe => exact lexes_spaced fun _ => rfl

theorem lexes_name {limit : Nat} (name : Name limit) :
    Lexes (fun rest => rest.head? ≠ some '\x60') name.quoted [.name name.text] :=
  lexes_of_next fun _ apart => next_name name apart

theorem lexes_quoted (text : String) : Lexes Apart (Literal.quoted text) [.string text] :=
  lexes_of_next fun _ apart => next_quoted text (apart.ne (by decide))

theorem head?_quoted {limit : Nat} (name : Name limit) (rest : List Char) :
    (name.quoted.toList ++ rest).head? = some '\x60' := by
  simp only [Name.quoted, String.toList_append, List.append_assoc]
  rfl

theorem lexes_column (column : Column) : Lexes Apart column.text
    [.name column.table.text, .symbol ".", .name column.name.text] := by
  have point : Lexes (fun rest => rest.head? = some '\x60') "." [.symbol "."] := by
    refine lexes_of_next fun rest starts => ?_
    obtain ⟨behind, rfl⟩ := List.head?_eq_some_iff.mp starts
    rfl
  have front : Lexes (fun rest => rest.head? = some '\x60') (column.table.quoted ++ ".")
      [.name column.table.text, .symbol "."] :=
    (lexes_name column.table).append point fun rest _ => by simp
  have behind : Lexes Apart column.name.quoted [.name column.name.text] :=
    lexes_of_next fun _ apart => next_name column.name (apart.ne (by decide))
  exact front.append behind fun rest _ => head?_quoted column.name rest

/-- A text without anything that has to be escaped. -/
def Unescaped (text : String) : Prop :=
  Literal.escaped text.toList = text.toList

theorem Unescaped.append (first : Unescaped a) (second : Unescaped b) : Unescaped (a ++ b) := by
  unfold Unescaped at *
  rw [String.toList_append, escaped_append, first, second]

theorem unescaped_padded (width value : Nat) : Unescaped (Instant.padded width value) := by
  have digits := digits_padded width value
  unfold Unescaped Instant.padded
  rw [String.toList_ofList]
  generalize (Nat.toDigits 10 value).leftpad width '0' = padded at digits ⊢
  induction padded with
  | nil => rfl
  | cons c rest ih =>
    rw [List.forall_mem_cons] at digits
    have plain : c ∉ ['\\', '\x27', '"', '\x00', '\n', '\r', '\x1a'] := by
      intro special
      simp only [List.mem_cons, List.not_mem_nil, or_false] at special
      rcases special with rfl | rfl | rfl | rfl | rfl | rfl | rfl <;>
        exact absurd digits.1 (by decide)
    rw [escaped_cons, escapedCharacter_plain plain, ih digits.2]
    rfl

theorem unescaped_year (year : Int) : Unescaped (Instant.yearText year) := by
  unfold Instant.yearText
  split
  · exact unescaped_padded 4 _
  · refine Unescaped.append ?_ (unescaped_padded 4 _)
    split <;> rfl

theorem unescaped_instant (instant : Instant) : Unescaped instant.microsecondText := by
  have hyphen : Unescaped "-" := rfl
  have colon : Unescaped ":" := rfl
  have blank : Unescaped " " := rfl
  have point : Unescaped "." := rfl
  have date : Unescaped (Instant.dateText instant.date) :=
    ((((unescaped_year _).append hyphen).append (unescaped_padded _ _)).append hyphen).append
      (unescaped_padded _ _)
  have time : Unescaped (Instant.timeText instant.timeOfDay) :=
    ((((unescaped_padded _ _).append colon).append (unescaped_padded _ _)).append colon).append
      (unescaped_padded _ _)
  exact (((date.append blank).append time).append point).append (unescaped_padded _ _)

theorem lexes_instant (instant : Instant) :
    Lexes Apart ("'" ++ instant.microsecondText ++ "'") [.string instant.microsecondText] := by
  have written : "'" ++ instant.microsecondText ++ "'" =
      Literal.quoted instant.microsecondText := by
    rw [Literal.quoted, unescaped_instant instant, String.ofList_toList]
  rw [written]
  exact lexes_quoted instant.microsecondText

end Pieces

end LiveQuery.Sql
