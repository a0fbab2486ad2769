import LiveQuery.Calendar.Instant
import LiveQuery.Text.Blank
import LiveQuery.Text.Digits

set_option autoImplicit false

namespace LiveQuery.Instant

-- A power is the one of the core library, whatever else is imported.
attribute [local instance (high)] instPowNat

/-- The longest run of digits, but at most `most` of them, if there are `least`. -/
def number? (least most : Nat) (text : List Char) : Option (Nat × List Char) :=
  let digits := (text.take most).takeWhile Char.isDigit
  if digits.length < least then none
  else some (Text.digitsValue digits, text.drop digits.length)

def expect? (c : Char) : List Char → Option (List Char)
  | d :: rest => if d = c then some rest else none
  | [] => none

/-- Nanoseconds from the digits after a point; those past the ninth are dropped. -/
def fraction? : List Char → Option (Nat × List Char)
  | '.' :: rest =>
    let digits := rest.takeWhile Char.isDigit
    if digits.isEmpty then none
    else
      let kept := digits.take 9
      some (Text.digitsValue kept * 10 ^ (9 - kept.length), rest.drop digits.length)
  | text => some (0, text)

/-- Seconds ahead of UTC, as `Z` or as signed hours and minutes. A minus may be a hyphen or the
mathematical sign. -/
def offset? : List Char → Option (Int × List Char)
  | 'Z' :: rest | 'z' :: rest => some (0, rest)
  | sign :: rest => do
    guard (sign = '+' || sign = '-' || sign = '\u2212')
    let (hours, rest) ← number? 2 2 rest
    let (minutes, rest) ← number? 2 2 (← expect? ':' rest)
    guard (hours < 24 && minutes < 60)
    let seconds : Int := (hours * 3600 + minutes * 60 : Nat)
    return (if sign = '+' then seconds else -seconds, rest)
  | [] => none

def dateSeparator? : List Char → Option (List Char)
  | 'T' :: rest | 't' :: rest | ' ' :: rest => some rest
  | _ => none

/-- Date, separator, time, optional fraction and offset, with fixed widths. -/
def readInternet? (text : List Char) : Option Instant := do
  let (year, rest) ← number? 4 4 text
  let (month, rest) ← number? 2 2 (← expect? '-' rest)
  let (day, rest) ← number? 2 2 (← expect? '-' rest)
  let (hour, rest) ← number? 2 2 (← dateSeparator? rest)
  let (minute, rest) ← number? 2 2 (← expect? ':' rest)
  let (second, rest) ← number? 2 2 (← expect? ':' rest)
  let (nanos, rest) ← fraction? rest
  let (offset, rest) ← offset? rest
  guard rest.isEmpty
  ofFields? ⟨year, month, day⟩ ⟨hour, minute, second⟩ nanos offset

def skipBlanks (text : List Char) : List Char := text.dropWhile Text.isBlank

/-- A year has at most four digits unless it is signed. -/
def year? (text : List Char) : Option (Int × List Char) :=
  match skipBlanks text with
  | '-' :: rest => (number? 1 rest.length rest).map fun (year, rest) => (-year, rest)
  | '+' :: rest => (number? 1 rest.length rest).map fun (year, rest) => (year, rest)
  | rest => (number? 1 4 rest).map fun (year, rest) => (year, rest)

def field? (text : List Char) : Option (Nat × List Char) := number? 1 2 (skipBlanks text)

/-- Date and time with optional fraction; numbers may be short and blanks may precede them. -/
def readPlain? (text : List Char) : Option Instant := do
  let (year, rest) ← year? text
  let (month, rest) ← field? (← expect? '-' rest)
  let (day, rest) ← field? (← expect? '-' rest)
  let (hour, rest) ← field? rest
  let (minute, rest) ← field? (← expect? ':' rest)
  let (second, rest) ← field? (← expect? ':' rest)
  let (nanos, rest) ← fraction? rest
  guard rest.isEmpty
  ofFields? ⟨year, month, day⟩ ⟨hour, minute, second⟩ nanos 0

def read? (text : String) : Option Instant :=
  readInternet? text.toList <|> readPlain? text.toList

def padded (width value : Nat) : String :=
  String.ofList ((Nat.toDigits 10 value).leftpad width '0')

/-- Years outside four digits carry a sign. -/
def yearText (year : Int) : String :=
  if 0 ≤ year ∧ year ≤ 9999 then padded 4 year.toNat
  else (if year < 0 then "-" else "+") ++ padded 4 year.natAbs

def dateText (date : Date) : String :=
  yearText date.year ++ "-" ++ padded 2 date.month ++ "-" ++ padded 2 date.day

def timeText (time : TimeOfDay) : String :=
  padded 2 time.hour ++ ":" ++ padded 2 time.minute ++ ":" ++ padded 2 time.second

/-- The internet form in UTC, cut to milliseconds. -/
def millisecondText (instant : Instant) : String :=
  dateText instant.date ++ "T" ++ timeText instant.timeOfDay ++ "." ++
    padded 3 (instant.subsecondNanos / 1000000) ++ "Z"

/-- The plain form in UTC, cut to microseconds. -/
def microsecondText (instant : Instant) : String :=
  dateText instant.date ++ " " ++ timeText instant.timeOfDay ++ "." ++
    padded 6 (instant.subsecondNanos / 1000)

end LiveQuery.Instant
