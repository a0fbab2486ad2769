import LiveQuery.Calendar.InstantText
import LiveQuery.Proofs.Calendar.Days
import LiveQuery.Proofs.Text.Digits
import Mathlib.Algebra.Group.Nat.Defs
import Mathlib.Data.List.TakeWhile

set_option autoImplicit false

namespace LiveQuery.Instant

variable {mark : Char} {front front' : List Char} {width m n : Nat}

theorem isDigit_of_mem_padded {c : Char} (inside : c ∈ (padded width m).toList) :
    c.isDigit = true := by
  unfold padded at inside
  rw [String.toList_ofList] at inside
  exact Text.isDigit_of_mem_leftpad inside

theorem not_mem_padded (digit : mark.isDigit = false) : mark ∉ (padded width m).toList :=
  Text.not_mem_of_isDigit (fun _ => isDigit_of_mem_padded) digit

theorem padded_injective (width : Nat) : Function.Injective (padded width) := by
  intro m n same
  unfold padded at same
  rw [← Text.ofDigitChars_leftpad width m, String.ofList_inj.mp same,
    Text.ofDigitChars_leftpad]

theorem eq_of_last_padded (digit : mark.isDigit = false)
    (same : front ++ mark :: (padded width m).toList = front' ++ mark :: (padded width n).toList) :
    front = front' ∧ m = n := by
  obtain ⟨fronts, numbers⟩ := Text.eq_of_last (not_mem_padded digit) (not_mem_padded digit) same
  exact ⟨fronts, padded_injective width (String.toList_inj.mp numbers)⟩

theorem yearText_injective : Function.Injective yearText := by
  -- a sign is no digit
  have unsigned {sign : Char} {m n : Nat} (digit : sign.isDigit = false) :
      (padded 4 m).toList ≠ sign :: (padded 4 n).toList := by
    intro same
    have first := List.mem_cons_self (a := sign) (l := (padded 4 n).toList)
    rw [← same] at first
    exact not_mem_padded digit first
  have read (year : Int) :
      (0 ≤ year ∧ (yearText year).toList = (padded 4 year.toNat).toList) ∨
      (year < 0 ∧ (yearText year).toList = '-' :: (padded 4 year.natAbs).toList) ∨
      (0 ≤ year ∧ (yearText year).toList = '+' :: (padded 4 year.natAbs).toList) := by
    unfold yearText
    by_cases few : 0 ≤ year ∧ year ≤ 9999
    · rw [if_pos few]
      exact Or.inl ⟨few.1, rfl⟩
    · rw [if_neg few]
      by_cases negative : year < 0
      · rw [if_pos negative, String.toList_append]
        exact Or.inr (Or.inl ⟨negative, rfl⟩)
      · rw [if_neg negative, String.toList_append]
        exact Or.inr (Or.inr ⟨by omega, rfl⟩)
  have number {m n : Nat} (same : (padded 4 m).toList = (padded 4 n).toList) : m = n :=
    padded_injective 4 (String.toList_inj.mp same)
  intro year year' same
  have same := congrArg String.toList same
  rcases read year with ⟨sign, text⟩ | ⟨sign, text⟩ | ⟨sign, text⟩ <;>
    rcases read year' with ⟨sign', text'⟩ | ⟨sign', text'⟩ | ⟨sign', text'⟩ <;>
    rw [text, text'] at same
  · have equal := number same
    omega
  · exact absurd same (unsigned (by decide))
  · exact absurd same (unsigned (by decide))
  · exact absurd same.symm (unsigned (by decide))
  · have equal := number (List.cons.inj same).2
    omega
  · exact absurd (List.cons.inj same).1 (by decide)
  · exact absurd same.symm (unsigned (by decide))
  · exact absurd (List.cons.inj same).1 (by decide)
  · have equal := number (List.cons.inj same).2
    omega

theorem dateText_injective : Function.Injective dateText := by
  have read (date : Date) : (dateText date).toList =
      ((yearText date.year).toList ++ '-' :: (padded 2 date.month).toList) ++
        '-' :: (padded 2 date.day).toList := by
    simp [dateText]
  intro date date' same
  have same := congrArg String.toList same
  rw [read, read] at same
  obtain ⟨fronts, days⟩ := eq_of_last_padded (by decide) same
  obtain ⟨years, months⟩ := eq_of_last_padded (by decide) fronts
  have years := yearText_injective (String.toList_inj.mp years)
  cases date
  cases date'
  cases years
  cases months
  cases days
  rfl

theorem toList_timeText (time : TimeOfDay) : (timeText time).toList =
    ((padded 2 time.hour).toList ++ ':' :: (padded 2 time.minute).toList) ++
      ':' :: (padded 2 time.second).toList := by
  simp [timeText]

theorem timeText_injective : Function.Injective timeText := by
  intro time time' same
  have same := congrArg String.toList same
  rw [toList_timeText, toList_timeText] at same
  obtain ⟨fronts, seconds⟩ := eq_of_last_padded (by decide) same
  obtain ⟨hours, minutes⟩ := eq_of_last_padded (by decide) fronts
  have hours := padded_injective 2 (String.toList_inj.mp hours)
  cases time
  cases time'
  cases hours
  cases minutes
  cases seconds
  rfl

theorem not_mem_timeText (time : TimeOfDay) (digit : mark.isDigit = false) (colon : mark ≠ ':') :
    mark ∉ (timeText time).toList := by
  rw [toList_timeText]
  simp [not_mem_padded digit, colon]

/-- The millisecond that an instant lies in. -/
def millisecond (instant : Instant) : Nat := instant.subsecondNanos / 1000000

theorem toList_millisecondText (instant : Instant) : instant.millisecondText.toList =
    (((dateText instant.date).toList ++ 'T' :: (timeText instant.timeOfDay).toList) ++
      '.' :: (padded 3 instant.millisecond).toList) ++ ['Z'] := by
  simp [millisecondText, millisecond]

variable {a b : Instant}

theorem millisecondText_eq_iff : a.millisecondText = b.millisecondText ↔
    a.date = b.date ∧ a.timeOfDay = b.timeOfDay ∧ a.millisecond = b.millisecond := by
  constructor
  · intro same
    have same := congrArg String.toList same
    rw [toList_millisecondText, toList_millisecondText] at same
    obtain ⟨fronts, milliseconds⟩ := eq_of_last_padded (by decide) (List.append_cancel_right same)
    have absent (time : TimeOfDay) : 'T' ∉ (timeText time).toList :=
      not_mem_timeText time (by decide) (by decide)
    obtain ⟨dates, times⟩ := Text.eq_of_last (absent _) (absent _) fronts
    exact ⟨dateText_injective (String.toList_inj.mp dates),
      timeText_injective (String.toList_inj.mp times), milliseconds⟩
  · rintro ⟨dates, times, milliseconds⟩
    apply String.toList_inj.mp
    rw [toList_millisecondText, toList_millisecondText, dates, times, milliseconds]

theorem blank_not_mem_millisecondText (instant : Instant) : ' ' ∉ instant.millisecondText.toList := by
  have padded {width n : Nat} : ' ' ∉ (padded width n).toList := not_mem_padded (by decide)
  have year : ' ' ∉ (yearText instant.date.year).toList := by
    unfold yearText
    split
    · exact padded
    · split <;> simp [padded]
  rw [toList_millisecondText]
  simp [dateText, year, padded, not_mem_timeText]

/-- What the text tells of an instant: its millisecond. A second that leaps past any other than the
last one of its minute reads as the next. -/
def told (instant : Instant) : Instant :=
  if instant.nanos < nanosPerSecond ∨ instant.seconds % 60 = 59 then
    ⟨instant.seconds, instant.nanos / 1000000 * 1000000, by have := instant.nanos_lt; omega⟩
  else
    ⟨instant.seconds + 1, instant.subsecondNanos / 1000000 * 1000000, by
      unfold subsecondNanos nanosPerSecond
      omega⟩

theorem told_cases (instant : Instant) :
    ((instant.nanos < 1000000000 ∨ instant.seconds % 60 = 59) ∧
      instant.told.seconds = instant.seconds ∧
      instant.told.nanos = instant.nanos / 1000000 * 1000000) ∨
    (1000000000 ≤ instant.nanos ∧ instant.seconds % 60 ≠ 59 ∧
      instant.told.seconds = instant.seconds + 1 ∧
      instant.told.nanos = instant.nanos % 1000000000 / 1000000 * 1000000) := by
  unfold told
  split
  · rename_i plain
    exact Or.inl ⟨plain, rfl, rfl⟩
  · rename_i leaps
    obtain ⟨long, early⟩ := not_or.mp leaps
    exact Or.inr ⟨Nat.not_lt.mp long, early, rfl, rfl⟩

theorem eq_iff : a = b ↔ a.seconds = b.seconds ∧ a.nanos = b.nanos := by
  cases a
  cases b
  rw [mk.injEq]

theorem told_told (instant : Instant) : instant.told.told = instant.told := by
  rw [eq_iff]
  rcases instant.told_cases with ⟨plain, seconds, nanos⟩ | ⟨long, early, seconds, nanos⟩ <;>
    rcases instant.told.told_cases with ⟨plain', seconds', nanos'⟩ | ⟨long', early', seconds', nanos'⟩ <;>
    omega

theorem minute_eq_iff (s t : Int) : (s / 86400 = t / 86400 ∧
    (s % 86400).toNat / 3600 = (t % 86400).toNat / 3600 ∧
      (s % 86400).toNat / 60 % 60 = (t % 86400).toNat / 60 % 60) ↔ s / 60 = t / 60 := by
  constructor
  · rintro ⟨days, hours, minutes⟩
    omega
  · intro same
    omega

theorem second_eq (s : Int) : (s % 86400).toNat % 60 = (s % 60).toNat := by
  omega

theorem millisecondText_eq_iff_minute : a.millisecondText = b.millisecondText ↔
    a.seconds / 60 = b.seconds / 60 ∧
      (a.seconds % 60).toNat + a.nanos / 1000000000 =
        (b.seconds % 60).toNat + b.nanos / 1000000000 ∧
      a.millisecond = b.millisecond := by
  rw [millisecondText_eq_iff, ← minute_eq_iff, ← second_eq, ← second_eq]
  unfold date timeOfDay secondsPerDay nanosPerSecond
  rw [Date.ofDays_injective.eq_iff, TimeOfDay.mk.injEq]
  tauto

theorem millisecondText_eq_iff_told : a.millisecondText = b.millisecondText ↔ a.told = b.told := by
  have within := a.nanos_lt
  have within' := b.nanos_lt
  rw [millisecondText_eq_iff_minute, eq_iff]
  unfold millisecond subsecondNanos nanosPerSecond
  rcases a.told_cases with ⟨plain, seconds, nanos⟩ | ⟨long, early, seconds, nanos⟩ <;>
    rcases b.told_cases with ⟨plain', seconds', nanos'⟩ | ⟨long', early', seconds', nanos'⟩ <;>
    rw [seconds, seconds', nanos, nanos'] <;>
    clear seconds seconds' nanos nanos' <;>
    omega

theorem millisecondText_told (instant : Instant) :
    instant.told.millisecondText = instant.millisecondText :=
  millisecondText_eq_iff_told.mpr instant.told_told

section Read

variable {instant : Instant}

theorem toList_padded (width n : Nat) :
    (padded width n).toList = (Nat.toDigits 10 n).leftpad width '0' :=
  String.toList_ofList ..

theorem length_padded (wide : 0 < width) (small : n < 10 ^ width) :
    (padded width n).toList.length = width := by
  rw [toList_padded, List.length_leftpad,
    Nat.max_eq_left ((Nat.length_toDigits_le_iff (by decide) wide).mpr small)]

theorem digitsValue_padded (width n : Nat) : Text.digitsValue (padded width n).toList = n := by
  rw [Text.digitsValue_eq, toList_padded, Text.ofDigitChars_leftpad]

theorem number?_padded (wide : 0 < width) (small : n < 10 ^ width) (rest : List Char) :
    number? width width ((padded width n).toList ++ rest) = some (n, rest) := by
  have long := length_padded wide small
  have digits : ∀ c ∈ (padded width n).toList, c.isDigit = true := fun _ => isDigit_of_mem_padded
  unfold number?
  dsimp only
  rw [List.take_left' long, List.takeWhile_eq_self_iff.mpr digits, long,
    if_neg (Nat.lt_irrefl width), digitsValue_padded, List.drop_left' long]

theorem fraction?_padded (small : n < 1000) :
    fraction? ('.' :: ((padded 3 n).toList ++ ['Z'])) = some (n * 1000000, ['Z']) := by
  have long : (padded 3 n).toList.length = 3 := length_padded (by decide) small
  have digits : ∀ c ∈ (padded 3 n).toList, c.isDigit = true := fun _ => isDigit_of_mem_padded
  have taken : ((padded 3 n).toList ++ ['Z']).takeWhile Char.isDigit = (padded 3 n).toList := by
    rw [List.takeWhile_append_of_pos digits]
    exact List.append_nil _
  have some_digit : (padded 3 n).toList.isEmpty = false := by
    rw [List.isEmpty_eq_false_iff, ← List.length_pos_iff, long]
    decide
  have kept : (padded 3 n).toList.take 9 = (padded 3 n).toList :=
    List.take_of_length_le (by rw [long]; decide)
  simp only [fraction?, taken, some_digit, kept, long, digitsValue_padded, List.drop_left' long,
    Bool.false_eq_true, ↓reduceIte]

theorem dateText_eq {date : Date} (low : 0 ≤ date.year) (high : date.year ≤ 9999) :
    (dateText date).toList = (padded 4 date.year.toNat).toList ++ '-' ::
      ((padded 2 date.month).toList ++ '-' :: (padded 2 date.day).toList) := by
  simp [dateText, yearText, low, high]

theorem bind_of_eq_some {α β : Type} {attempt : Option α} {value : α} {next : α → Option β}
    (read : attempt = some value) : (attempt >>= next) = next value := by
  rw [read]
  rfl

/-- The fields of a date and a time in the internet form. -/
theorem readInternet?_text {date : Date} {time : TimeOfDay} {fraction : Nat}
    (low : 0 ≤ date.year) (high : date.year ≤ 9999) (dates : date.valid = true)
    (times : time.valid = true) (small : fraction < 1000) :
    readInternet? ((((dateText date).toList ++ 'T' :: (timeText time).toList) ++
        '.' :: (padded 3 fraction).toList) ++ ['Z']) =
      ofFields? date time (fraction * 1000000) 0 := by
  obtain ⟨year, month, day⟩ := date
  obtain ⟨hour, minute, second⟩ := time
  obtain ⟨number, rfl⟩ := Int.eq_ofNat_of_zero_le low
  have months : month < 100 := by
    simp only [Date.valid, Bool.and_eq_true, decide_eq_true_eq] at dates
    omega
  have days : day < 100 := by
    have most : Date.daysInMonth number month ≤ 31 := by
      unfold Date.daysInMonth
      split
      · split <;> decide
      all_goals decide
    simp only [Date.valid, Bool.and_eq_true, decide_eq_true_eq] at dates
    omega
  simp only [TimeOfDay.valid, Bool.and_eq_true, decide_eq_true_eq] at times
  obtain ⟨⟨hours, minutes⟩, seconds⟩ := times
  have years : number < 10 ^ 4 := by
    have most : (number : Int) ≤ 9999 := high
    omega
  have numbers {n : Nat} (small : n < 100) (rest : List Char) :
      number? 2 2 ((padded 2 n).toList ++ rest) = some (n, rest) :=
    number?_padded (by decide) small rest
  have expected (mark : Char) (rest : List Char) : expect? mark (mark :: rest) = some rest :=
    if_pos rfl
  have separated (rest : List Char) : dateSeparator? ('T' :: rest) = some rest := rfl
  rw [dateText_eq low high, toList_timeText]
  simp only [List.append_assoc, List.cons_append, Int.toNat_natCast]
  unfold readInternet?
  -- field by field, in the order in which they stand
  refine (bind_of_eq_some (number?_padded (by decide) years _)).trans ?_
  refine (bind_of_eq_some (expected '-' _)).trans ?_
  refine (bind_of_eq_some (numbers months _)).trans ?_
  refine (bind_of_eq_some (expected '-' _)).trans ?_
  refine (bind_of_eq_some (numbers days _)).trans ?_
  refine (bind_of_eq_some (separated _)).trans ?_
  refine (bind_of_eq_some (numbers (Nat.lt_trans hours (by decide)) _)).trans ?_
  refine (bind_of_eq_some (expected ':' _)).trans ?_
  refine (bind_of_eq_some (numbers (Nat.lt_trans minutes (by decide)) _)).trans ?_
  refine (bind_of_eq_some (expected ':' _)).trans ?_
  refine (bind_of_eq_some (numbers (Nat.lt_of_le_of_lt seconds (by decide)) _)).trans ?_
  refine (bind_of_eq_some (fraction?_padded small)).trans ?_
  rfl

theorem valid_timeOfDay (instant : Instant) : instant.timeOfDay.valid = true := by
  have within := instant.nanos_lt
  unfold timeOfDay TimeOfDay.valid secondsPerDay nanosPerSecond
  simp only [Bool.and_eq_true, decide_eq_true_eq]
  omega

/-- Date, time of day and millisecond make the instant that is told. -/
theorem ofFields?_told (low : 0 ≤ instant.date.year) (high : instant.date.year ≤ 9999) :
    ofFields? instant.date instant.timeOfDay (instant.millisecond * 1000000) 0 =
      some instant.told := by
  have dates : instant.date.valid = true := Date.valid_ofDays _
  have days : instant.date.toDays = instant.seconds / 86400 := Date.toDays_ofDays _
  have within := instant.nanos_lt
  have year : firstYear ≤ instant.date.year ∧ instant.date.year ≤ lastYear := by
    unfold firstYear lastYear
    omega
  unfold ofFields?
  rw [if_pos (by simp only [dates, instant.valid_timeOfDay, year, decide_true, Bool.and_self]), days]
  have milliseconds : instant.millisecond = instant.nanos % 1000000000 / 1000000 := rfl
  have small : instant.millisecond < 1000 := by omega
  have hours : instant.timeOfDay.hour = (instant.seconds % 86400).toNat / 3600 := rfl
  have minutes : instant.timeOfDay.minute = (instant.seconds % 86400).toNat / 60 % 60 := rfl
  have seconds : instant.timeOfDay.second =
      (instant.seconds % 86400).toNat % 60 + instant.nanos / 1000000000 := rfl
  rw [dif_pos (by unfold nanosPerSecond; split <;> omega), Option.some.injEq, eq_iff]
  unfold secondsPerDay nanosPerSecond
  dsimp only
  rcases instant.told_cases with ⟨plain, whole, parts⟩ | ⟨long, early, whole, parts⟩ <;>
    rw [whole, parts] <;> split <;> omega

theorem read?_millisecondText (low : 0 ≤ instant.date.year) (high : instant.date.year ≤ 9999) :
    read? instant.millisecondText = some instant.told := by
  have small : instant.millisecond < 1000 := by
    unfold millisecond subsecondNanos nanosPerSecond
    omega
  unfold read?
  rw [toList_millisecondText, readInternet?_text low high (Date.valid_ofDays _)
    instant.valid_timeOfDay small, ofFields?_told low high]
  rfl

/-- An instant is told in full when it lies on a whole millisecond, and no second leaps but the last
one of its minute. -/
theorem told_eq_self_iff : instant.told = instant ↔
    instant.nanos % 1000000 = 0 ∧ (instant.nanos < 1000000000 ∨ instant.seconds % 60 = 59) := by
  rw [eq_iff]
  rcases instant.told_cases with ⟨plain, whole, parts⟩ | ⟨long, early, whole, parts⟩ <;>
    rw [whole, parts] <;> omega

end Read

end LiveQuery.Instant
