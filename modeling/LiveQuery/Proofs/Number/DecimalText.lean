import LiveQuery.Number.Decimal
import LiveQuery.Proofs.Text.Digits
import Mathlib.Algebra.Order.Field.Basic
import Mathlib.Data.List.TakeWhile
import Mathlib.Data.Rat.Cast.Order
import Mathlib.Tactic.FieldSimp
import Mathlib.Tactic.Ring

set_option autoImplicit false

namespace LiveQuery.Decimal

-- A power is the one of the core library, whatever else is imported.
attribute [local instance (high)] instPowNat

/-- The number that a decimal stands for. -/
def value (decimal : Decimal) : ℚ := decimal.digits * 10 ^ decimal.exponent

/-- The number of the digits behind a point. -/
def fraction (places : List Char) : ℚ := Nat.ofDigitChars 10 places 0 / 10 ^ places.length

/-- The number that digits write, with those behind a point, if there is one. -/
def reading (text : List Char) : ℚ :=
  Nat.ofDigitChars 10 (text.takeWhile (· != '.')) 0 + fraction (text.dropWhile (· != '.')).tail

variable {whole places : List Char}

theorem point_ne_of_isDigit {c : Char} (digit : c.isDigit = true) : (c != '.') = true := by
  rw [bne_iff_ne]
  rintro rfl
  cases digit

theorem reading_whole (digits : ∀ c ∈ whole, c.isDigit = true) :
    reading whole = Nat.ofDigitChars 10 whole 0 := by
  have plain : ∀ c ∈ whole, (c != '.') = true := fun c inside => point_ne_of_isDigit (digits c inside)
  rw [reading, List.takeWhile_eq_self_iff.mpr plain, List.dropWhile_eq_nil_iff.mpr plain]
  simp [fraction]

theorem reading_point (digits : ∀ c ∈ whole, c.isDigit = true) :
    reading (whole ++ '.' :: places) = Nat.ofDigitChars 10 whole 0 + fraction places := by
  have plain : ∀ c ∈ whole, (c != '.') = true := fun c inside => point_ne_of_isDigit (digits c inside)
  rw [reading, List.takeWhile_append_of_pos plain, List.dropWhile_append_of_pos plain]
  simp

theorem fraction_append_zeros (places : List Char) (count : Nat) :
    fraction (places ++ List.replicate count '0') = fraction places := by
  unfold fraction
  rw [Nat.ofDigitChars_append, Nat.ofDigitChars_replicate_zero, List.length_append,
    List.length_replicate]
  push_cast
  rw [pow_add]
  field_simp

theorem exists_trailing_zeros (places : List Char) :
    ∃ count, places = (places.reverse.dropWhile (· = '0')).reverse ++ List.replicate count '0' := by
  have split := List.takeWhile_append_dropWhile (p := (· = '0')) (l := places.reverse)
  have zeros : places.reverse.takeWhile (· = '0') =
      List.replicate (places.reverse.takeWhile (· = '0')).length '0' := by
    refine List.eq_replicate_iff.mpr ⟨rfl, fun c inside => ?_⟩
    have zero := List.mem_takeWhile_imp inside
    exact of_decide_eq_true zero
  refine ⟨(places.reverse.takeWhile (· = '0')).length, ?_⟩
  conv_lhs => rw [← List.reverse_reverse places, ← split, List.reverse_append, zeros,
    List.reverse_replicate]

theorem fraction_stripped (places : List Char) :
    fraction (places.reverse.dropWhile (· = '0')).reverse = fraction places := by
  obtain ⟨count, split⟩ := exists_trailing_zeros places
  conv_rhs => rw [split]
  rw [fraction_append_zeros]

theorem fraction_leftpad {count number : Nat} (positive : 0 < count) (small : number < 10 ^ count) :
    fraction ((Nat.toDigits 10 number).leftpad count '0') = number / 10 ^ count := by
  have short : (Nat.toDigits 10 number).length ≤ count :=
    (Nat.length_toDigits_le_iff (by decide) positive).mpr small
  have filled : ((Nat.toDigits 10 number).leftpad count '0').length = count := by
    rw [List.length_leftpad, Nat.max_eq_left short]
  rw [fraction, Text.ofDigitChars_leftpad, filled]

theorem isDigit_toDigits (number : Nat) : ∀ c ∈ Nat.toDigits 10 number, c.isDigit = true :=
  fun _ inside => Nat.isDigit_of_mem_toDigits (by decide) (by decide) inside

/-- The text of a decimal is read as the decimal. -/
theorem reading_text (decimal : Decimal) : reading decimal.text.toList = decimal.value := by
  obtain ⟨digits, exponent⟩ := decimal
  unfold text value
  dsimp only
  by_cases large : 0 ≤ exponent
  · obtain ⟨power, rfl⟩ := Int.eq_ofNat_of_zero_le large
    rw [if_pos large, Nat.toString_eq_repr, Nat.toList_repr, reading_whole (isDigit_toDigits _),
      Nat.ofDigitChars_ten_toDigits, Int.toNat_natCast]
    push_cast
    rw [zpow_natCast]
  · obtain ⟨count, rfl⟩ : ∃ count : Nat, exponent = -count := ⟨(-exponent).toNat, by omega⟩
    have positive : 0 < count := by omega
    have power : 0 < 10 ^ count := Nat.pow_pos (by decide)
    have same : (-(-(count : Int))).toNat = count := by omega
    rw [if_neg large, same]
    have parts : (digits : ℚ) * 10 ^ (-(count : Int)) =
        (digits / 10 ^ count : Nat) + (digits % 10 ^ count : Nat) / 10 ^ count := by
      have split : (digits : ℚ) =
          10 ^ count * (digits / 10 ^ count : Nat) + (digits % 10 ^ count : Nat) := by
        exact_mod_cast (Nat.div_add_mod digits (10 ^ count)).symm
      conv_lhs => rw [split]
      rw [zpow_neg, zpow_natCast]
      field_simp
    have behind := fraction_stripped ((Nat.toDigits 10 (digits % 10 ^ count)).leftpad count '0')
    rw [fraction_leftpad positive (Nat.mod_lt _ power)] at behind
    rw [parts, ← behind]
    split
    · rename_i empty
      rw [List.isEmpty_iff] at empty
      rw [Nat.toString_eq_repr, Nat.toList_repr, reading_whole (isDigit_toDigits _),
        Nat.ofDigitChars_ten_toDigits, empty]
      simp [fraction]
    · simp only [String.toList_append, Nat.toString_eq_repr, Nat.toList_repr, String.toList_ofList]
      rw [List.append_assoc]
      refine (reading_point (isDigit_toDigits _)).trans ?_
      rw [Nat.ofDigitChars_ten_toDigits]
      rfl

/-- The text of a decimal consists of digits and a point. -/
theorem isDigit_or_point_of_mem_text {decimal : Decimal} {c : Char}
    (inside : c ∈ decimal.text.toList) : c.isDigit = true ∨ c = '.' := by
  have whole (number : Nat) (inside : c ∈ (toString number).toList) : c.isDigit = true := by
    rw [Nat.toString_eq_repr, Nat.toList_repr] at inside
    exact isDigit_toDigits number c inside
  unfold text at inside
  split at inside
  · exact Or.inl (whole _ inside)
  · dsimp only at inside
    have digits (d : Char) := @Text.isDigit_of_mem_leftpad d (-decimal.exponent).toNat
      (decimal.digits % 10 ^ (-decimal.exponent).toNat)
    generalize (Nat.toDigits 10 (decimal.digits % 10 ^ (-decimal.exponent).toNat)).leftpad
      (-decimal.exponent).toNat '0' = padded at inside digits
    generalize decimal.digits / 10 ^ (-decimal.exponent).toNat = units at inside
    split at inside
    · exact Or.inl (whole _ inside)
    · rw [String.toList_append, String.toList_append] at inside
      rcases List.mem_append.mp inside with front | places
      · rcases List.mem_append.mp front with front | point
        · exact Or.inl (whole _ front)
        · exact Or.inr (List.mem_singleton.mp point)
      · rw [String.toList_ofList] at places
        have kept := (List.dropWhile_suffix _).subset (List.mem_reverse.mp places)
        exact Or.inl (digits c (List.mem_reverse.mp kept))

end LiveQuery.Decimal
