import LiveQuery.Calendar.Instant

set_option autoImplicit false

namespace LiveQuery.Date

/-- The year of a day in its era. -/
def yearOfEra (day : Int) : Int := (day - day / 1460 + day / 36524 - day / 146096) / 365

/-- How many days of an era come before one of its years. -/
def daysBefore (year : Int) : Int := 365 * year + year / 4 - year / 100

theorem exists_spans {day : Int} (low : 0 ≤ day) (high : day < 146097) :
    ∃ century span rest : Int, day = 36524 * century + 1461 * span + rest ∧
      (0 ≤ century ∧ century ≤ 3) ∧ (0 ≤ span ∧ span ≤ 24) ∧ (0 ≤ rest ∧ rest ≤ 1460) ∧
        (span = 24 → rest = 1460 → century = 3) := by
  obtain ⟨century, first, last, within, ends⟩ : ∃ century : Int, 0 ≤ century ∧ century ≤ 3 ∧
      (0 ≤ day - 36524 * century ∧ day - 36524 * century ≤ 36524) ∧
        (day - 36524 * century = 36524 → century = 3) := by
    by_cases one : day < 36524
    · exact ⟨0, by omega⟩
    by_cases two : day < 73048
    · exact ⟨1, by omega⟩
    by_cases three : day < 109572
    · exact ⟨2, by omega⟩
    · exact ⟨3, by omega⟩
  generalize same : day - 36524 * century = inside at within ends
  exact ⟨century, inside / 1461, inside % 1461, by omega, ⟨first, last⟩, by omega, by omega,
    by omega⟩

theorem yearOfEra_spans {century span rest : Int} (centuries : 0 ≤ century ∧ century ≤ 3)
    (spans : 0 ≤ span ∧ span ≤ 24) (days : 0 ≤ rest ∧ rest ≤ 1460)
    (ends : span = 24 → rest = 1460 → century = 3) :
    yearOfEra (36524 * century + 1461 * span + rest) =
      100 * century + 4 * span + min (rest / 365) 3 := by
  have quads : (36524 * century + 1461 * span + rest) / 1460 =
      25 * century + span + if 24 * century + span + rest < 1460 then 0 else 1 := by
    split <;> omega
  have hundreds : (36524 * century + 1461 * span + rest) / 36524 =
      century + if span = 24 ∧ rest = 1460 then 1 else 0 := by
    split <;> omega
  have last : (36524 * century + 1461 * span + rest) / 146096 =
      if span = 24 ∧ rest = 1460 then 1 else 0 := by
    split <;> omega
  unfold yearOfEra
  rw [quads, hundreds, last]
  split <;> split <;> omega

/-- A day of an era as a day of its year, counted from March. -/
def dayOfYear (day : Int) : Int := day - daysBefore (yearOfEra day)

theorem yearOfEra_bounds {day : Int} (low : 0 ≤ day) (high : day < 146097) :
    (0 ≤ yearOfEra day ∧ yearOfEra day < 400) ∧ 0 ≤ dayOfYear day ∧ dayOfYear day ≤ 365 := by
  obtain ⟨century, span, rest, rfl, centuries, spans, days, ends⟩ := exists_spans low high
  unfold dayOfYear
  rw [yearOfEra_spans centuries spans days ends]
  have quads : (100 * century + 4 * span + min (rest / 365) 3) / 4 = 25 * century + span := by omega
  have hundreds : (100 * century + 4 * span + min (rest / 365) 3) / 100 = century := by omega
  unfold daysBefore
  rw [quads, hundreds]
  omega

/-- The month of a day of a year, counted from March. -/
def monthFromMarch (day : Int) : Int := (5 * day + 2) / 153

theorem monthFromMarch_bounds {day : Int} (low : 0 ≤ day) (high : day ≤ 365) :
    0 ≤ monthFromMarch day ∧ monthFromMarch day < 12 := by
  unfold monthFromMarch
  omega

/-- How many days of a year come before one of its months. -/
def daysBeforeMonth (month : Int) : Int := (153 * month + 2) / 5

theorem daysBeforeMonth_le (day : Int) : daysBeforeMonth (monthFromMarch day) ≤ day := by
  unfold daysBeforeMonth monthFromMarch
  omega

/-- The number of a month in the calendar. -/
def monthNumber (month : Int) : Int := if month < 10 then month + 3 else month - 9

theorem eq_of_monthNumber {month month' : Int} (within : 0 ≤ month ∧ month < 12)
    (within' : 0 ≤ month' ∧ month' < 12)
    (same : (monthNumber month).toNat = (monthNumber month').toNat) : month = month' := by
  unfold monthNumber at same
  omega

theorem ofDays_eq (days : Int) : ofDays days =
    let day := (days + 719468) % 146097
    let month := monthFromMarch (dayOfYear day)
    let year := yearOfEra day + (days + 719468) / 146097 * 400
    ⟨if monthNumber month ≤ 2 then year + 1 else year, (monthNumber month).toNat,
      (dayOfYear day - daysBeforeMonth month + 1).toNat⟩ := rfl

/-- No two days have one date. -/
theorem ofDays_injective : Function.Injective ofDays := by
  intro first second same
  have low : 0 ≤ (first + 719468) % 146097 := Int.emod_nonneg _ (by decide)
  have low' : 0 ≤ (second + 719468) % 146097 := Int.emod_nonneg _ (by decide)
  have high : (first + 719468) % 146097 < 146097 := Int.emod_lt_of_pos _ (by decide)
  have high' : (second + 719468) % 146097 < 146097 := Int.emod_lt_of_pos _ (by decide)
  have split := Int.mul_ediv_add_emod (first + 719468) 146097
  have split' := Int.mul_ediv_add_emod (second + 719468) 146097
  rw [ofDays_eq, ofDays_eq] at same
  generalize (first + 719468) % 146097 = day at *
  generalize (second + 719468) % 146097 = day' at *
  generalize (first + 719468) / 146097 = era at *
  generalize (second + 719468) / 146097 = era' at *
  obtain ⟨years, days⟩ := yearOfEra_bounds low high
  obtain ⟨years', days'⟩ := yearOfEra_bounds low' high'
  simp only [mk.injEq] at same
  obtain ⟨year, month, dayOfMonth⟩ := same
  have months := eq_of_monthNumber (monthFromMarch_bounds days.1 days.2)
    (monthFromMarch_bounds days'.1 days'.2) month
  have before := daysBeforeMonth_le (dayOfYear day)
  have before' := daysBeforeMonth_le (dayOfYear day')
  rw [months] at year dayOfMonth before
  have sameDay : dayOfYear day = dayOfYear day' := by omega
  have shifted : yearOfEra day + era * 400 = yearOfEra day' + era' * 400 := by
    split at year
    · omega
    · exact year
  have sameEra : era = era' := by omega
  have sameYear : yearOfEra day = yearOfEra day' := by omega
  unfold dayOfYear at sameDay
  rw [sameYear] at sameDay
  omega

theorem monthNumber_bounds {month : Int} (within : 0 ≤ month ∧ month < 12) :
    1 ≤ (monthNumber month).toNat ∧ (monthNumber month).toNat ≤ 12 := by
  unfold monthNumber
  omega

theorem lt_daysBeforeMonth (day : Int) : day < daysBeforeMonth (monthFromMarch day + 1) := by
  unfold daysBeforeMonth monthFromMarch
  omega

theorem daysInMonth_monthNumber (year : Int) {month : Int} (low : 0 ≤ month) (high : month < 11) :
    (daysInMonth year (monthNumber month).toNat : Int) =
      daysBeforeMonth (month + 1) - daysBeforeMonth month := by
  obtain rfl | rfl | rfl | rfl | rfl | rfl | rfl | rfl | rfl | rfl | rfl :
      month = 0 ∨ month = 1 ∨ month = 2 ∨ month = 3 ∨ month = 4 ∨ month = 5 ∨ month = 6 ∨
        month = 7 ∨ month = 8 ∨ month = 9 ∨ month = 10 := by omega
  all_goals rfl

theorem isLeapYear_of_last {day era : Int} (low : 0 ≤ day) (high : day < 146097)
    (last : dayOfYear day = 365) : isLeapYear (yearOfEra day + era * 400 + 1) = true := by
  obtain ⟨century, span, rest, rfl, centuries, spans, days, ends⟩ := exists_spans low high
  unfold dayOfYear at last
  rw [yearOfEra_spans centuries spans days ends] at last ⊢
  have quads : (100 * century + 4 * span + min (rest / 365) 3) / 4 = 25 * century + span := by omega
  have hundreds : (100 * century + 4 * span + min (rest / 365) 3) / 100 = century := by omega
  unfold daysBefore at last
  rw [quads, hundreds] at last
  have full : rest = 1460 := by omega
  subst full
  unfold isLeapYear
  simp only [Bool.and_eq_true, Bool.or_eq_true, decide_eq_true_iff, bne_iff_ne]
  omega

/-- The date of a day exists. -/
theorem valid_ofDays (days : Int) : (ofDays days).valid = true := by
  have low : 0 ≤ (days + 719468) % 146097 := Int.emod_nonneg _ (by decide)
  have high : (days + 719468) % 146097 < 146097 := Int.emod_lt_of_pos _ (by decide)
  rw [ofDays_eq]
  dsimp only
  generalize (days + 719468) % 146097 = day at *
  generalize (days + 719468) / 146097 = era at *
  have leap (last : dayOfYear day = 365) : isLeapYear (yearOfEra day + era * 400 + 1) = true :=
    isLeapYear_of_last low high last
  obtain ⟨-, first, last⟩ := yearOfEra_bounds low high
  have after := daysBeforeMonth_le (dayOfYear day)
  have before := lt_daysBeforeMonth (dayOfYear day)
  have within := monthFromMarch_bounds first last
  have months := monthNumber_bounds within
  generalize monthFromMarch (dayOfYear day) = month at *
  simp only [valid, Bool.and_eq_true, decide_eq_true_eq]
  refine ⟨⟨months, by omega⟩, ?_⟩
  by_cases february : month = 11
  · -- it has a day 29 only where the year has a 366th day
    subst february
    simp only [show monthNumber 11 = 2 from rfl, show daysBeforeMonth 11 = 337 from rfl,
      Int.reduceToNat, Int.reduceLE, ↓reduceIte, daysInMonth]
    split
    · omega
    · rename_i common
      have short : dayOfYear day ≠ 365 := fun full => common (leap full)
      omega
  · have length := daysInMonth_monthNumber (if monthNumber month ≤ 2
      then yearOfEra day + era * 400 + 1 else yearOfEra day + era * 400) within.1 (by omega)
    omega

/-- A date is the date of its day. -/
theorem toDays_ofDays (days : Int) : (ofDays days).toDays = days := by
  have low : 0 ≤ (days + 719468) % 146097 := Int.emod_nonneg _ (by decide)
  have high : (days + 719468) % 146097 < 146097 := Int.emod_lt_of_pos _ (by decide)
  have whole := Int.mul_ediv_add_emod (days + 719468) 146097
  rw [ofDays_eq]
  dsimp only
  generalize (days + 719468) % 146097 = day at *
  generalize (days + 719468) / 146097 = era at *
  obtain ⟨years, first, last⟩ := yearOfEra_bounds low high
  have after := daysBeforeMonth_le (dayOfYear day)
  have within := monthFromMarch_bounds first last
  have spent : dayOfYear day = day - daysBefore (yearOfEra day) := rfl
  generalize monthFromMarch (dayOfYear day) = month at *
  generalize yearOfEra day = year at *
  -- the month is counted from March again, and with it the year
  have month_eq : (((monthNumber month).toNat : Int) + 9) % 12 = month := by
    unfold monthNumber
    omega
  have year_eq : (if (monthNumber month).toNat ≤ 2
      then (if monthNumber month ≤ 2 then year + era * 400 + 1 else year + era * 400) - 1
      else if monthNumber month ≤ 2 then year + era * 400 + 1 else year + era * 400) =
        year + era * 400 := by
    unfold monthNumber
    split <;> split <;> omega
  have era_eq : (year + era * 400) / 400 = era := by omega
  have inEra : (year + era * 400) % 400 = year := by omega
  unfold toDays
  dsimp only
  rw [month_eq, year_eq, era_eq, inEra]
  unfold daysBefore at spent
  unfold daysBeforeMonth at *
  omega

end LiveQuery.Date
