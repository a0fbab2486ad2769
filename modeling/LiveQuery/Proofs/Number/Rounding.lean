import LiveQuery.Value

set_option autoImplicit false

namespace LiveQuery

-- A power is the one of the core library, whatever else is imported.
attribute [local instance (high)] instPowNat

namespace Binary64

variable {negative : Bool} {num den mantissa : Nat} {exponent : Int}

theorem roundDiv_bounds (num den : Nat) :
    num / den ≤ roundDiv num den ∧ roundDiv num den ≤ num / den + 1 := by
  simp only [roundDiv]
  split
  · omega
  · split
    · omega
    · split <;> omega

theorem roundDiv_one (num : Nat) : roundDiv num 1 = num := by
  simp only [roundDiv, Nat.div_one, Nat.mod_one, Nat.mul_zero, Nat.zero_lt_one, ↓reduceIte]

theorem roundDiv_mono {num' : Nat} (le : num ≤ num') : roundDiv num den ≤ roundDiv num' den := by
  have floors : num / den ≤ num' / den := Nat.div_le_div_right le
  rcases Nat.lt_or_eq_of_le floors with less | same
  · exact Nat.le_trans (roundDiv_bounds num den).2 (Nat.le_trans less (roundDiv_bounds num' den).1)
  · have rests : num % den ≤ num' % den := by
      have whole := Nat.div_add_mod num den
      have whole' := Nat.div_add_mod num' den
      rw [same] at whole
      omega
    simp only [roundDiv, same]
    generalize num % den = rest, num' % den = rest', num' / den = floor at rests
    grind

/-- The number of units in a power of two. -/
def unitsAt (exponent : Int) : Nat := 2 ^ (exponent + 1074).toNat

theorem unitsAt_add {raised : Int} {extra : Nat} (sum : exponent + extra = raised)
    (least : -1074 ≤ exponent) : unitsAt raised = 2 ^ extra * unitsAt exponent := by
  have exponents : (raised + 1074).toNat = extra + (exponent + 1074).toNat := by omega
  rw [unitsAt, exponents, Nat.pow_add, unitsAt]

theorem ofParts_eq (short : mantissa < 2 ^ precision) (least : -1074 ≤ exponent)
    (greatest : exponent ≤ 971) (full : 2 ^ (precision - 1) ≤ mantissa ∨ exponent = -1074) :
    ∃ m, ofParts negative mantissa exponent = .finite negative m ∧
      m.units = mantissa * unitsAt exponent :=
  ⟨_, dif_pos ⟨short, least, greatest, full⟩, rfl⟩

theorem binaryOrder_one (positive : num ≠ 0) : binaryOrder num 1 = num.log2 := by
  have order : ((num.log2 : Int) - (Nat.log2 1 : Nat)) = num.log2 := by
    have one : Nat.log2 1 = 0 := by decide
    rw [one]
    omega
  have within : 2 ^ num.log2 ≤ num := Nat.log2_self_le positive
  unfold binaryOrder
  simp only [order, scaleDown, Int.natCast_nonneg, ↓reduceIte, Int.toNat_natCast, Nat.one_mul,
    within]

/-- The leading bits of an integer, as many as a mantissa has. -/
theorem leading_bounds (positive : num ≠ 0) {scaled : Nat × Nat}
    (leading : scaleDown num 1 ((num.log2 : Int) - 52) = scaled) :
    2 ^ (precision - 1) ≤ scaled.1 / scaled.2 ∧ scaled.1 / scaled.2 < 2 ^ precision := by
  have low : 2 ^ num.log2 ≤ num := Nat.log2_self_le positive
  have high : num < 2 ^ (num.log2 + 1) := Nat.lt_log2_self
  generalize num.log2 = order at leading low high
  unfold scaleDown at leading
  by_cases long : (0 : Int) ≤ (order : Int) - 52
  · obtain ⟨extra, rfl⟩ : ∃ extra, order = 52 + extra := ⟨order - 52, by omega⟩
    have shift : (((52 + extra : Nat) : Int) - 52).toNat = extra := by omega
    rw [if_pos long, shift, Nat.one_mul] at leading
    subst leading
    have unit : 0 < 2 ^ extra := Nat.two_pow_pos extra
    constructor
    · apply (Nat.le_div_iff_mul_le unit).mpr
      rwa [← Nat.pow_add]
    · apply (Nat.div_lt_iff_lt_mul unit).mpr
      rw [← Nat.pow_add]
      rwa [Nat.add_right_comm] at high
  · obtain ⟨extra, full⟩ : ∃ extra, order + extra = 52 := ⟨52 - order, by omega⟩
    have shift : (-((order : Int) - 52)).toNat = extra := by omega
    rw [if_neg long, shift] at leading
    subst leading
    have unit : 0 < 2 ^ extra := Nat.two_pow_pos extra
    rw [Nat.div_one]
    constructor
    · have scaled := Nat.mul_le_mul_right (2 ^ extra) low
      rw [← Nat.pow_add, full] at scaled
      exact scaled
    · have scaled := Nat.mul_lt_mul_of_pos_right high unit
      rw [← Nat.pow_add, Nat.add_right_comm, full] at scaled
      exact scaled

/-- The integer that an integer is rounded to: its leading bits, as many as a mantissa has, and
zeros. -/
def nearest (num : Nat) : Nat :=
  roundDiv num (2 ^ (num.log2 - 52)) * 2 ^ (num.log2 - 52)

theorem nearest_of_short (short : num.log2 ≤ 52) : nearest num = num := by
  rw [nearest, Nat.sub_eq_zero_of_le short, Nat.pow_zero, roundDiv_one, Nat.mul_one]

theorem nearest_bounds (positive : num ≠ 0) :
    2 ^ num.log2 ≤ nearest num ∧ nearest num ≤ 2 ^ (num.log2 + 1) := by
  have low : 2 ^ num.log2 ≤ num := Nat.log2_self_le positive
  have high : num < 2 ^ (num.log2 + 1) := Nat.lt_log2_self
  rcases Nat.le_total num.log2 52 with short | long
  · rw [nearest_of_short short]
    exact ⟨low, Nat.le_of_lt high⟩
  · obtain ⟨extra, order⟩ : ∃ extra, num.log2 = 52 + extra := ⟨num.log2 - 52, by omega⟩
    have leading : scaleDown num 1 ((num.log2 : Int) - 52) = (num, 2 ^ extra) := by
      have shift : ((num.log2 : Int) - 52) = extra := by omega
      rw [shift, scaleDown, if_pos (Int.natCast_nonneg extra), Int.toNat_natCast, Nat.one_mul]
    obtain ⟨above, below⟩ := leading_bounds positive leading
    obtain ⟨floor, ceiling⟩ := roundDiv_bounds num (2 ^ extra)
    rw [nearest, order, Nat.add_sub_cancel_left, Nat.add_right_comm, Nat.pow_add,
      Nat.pow_add _ _ extra]
    exact ⟨Nat.mul_le_mul_right _ (Nat.le_trans above floor),
      Nat.mul_le_mul_right _ (Nat.le_trans ceiling below)⟩

theorem nearest_mono {num' : Nat} (le : num ≤ num') : nearest num ≤ nearest num' := by
  by_cases zero : num = 0
  · subst zero
    rw [nearest_of_short (by decide)]
    exact Nat.zero_le _
  · have positive : num' ≠ 0 := by omega
    have orders : num.log2 ≤ num'.log2 :=
      (Nat.le_log2 positive).mpr (Nat.le_trans (Nat.log2_self_le zero) le)
    rcases Nat.lt_or_eq_of_le orders with less | same
    · calc nearest num
        _ ≤ 2 ^ (num.log2 + 1) := (nearest_bounds zero).2
        _ ≤ 2 ^ num'.log2 := Nat.pow_le_pow_right (by decide) less
        _ ≤ nearest num' := (nearest_bounds positive).1
    · rw [nearest, nearest, same]
      exact Nat.mul_le_mul_right _ (roundDiv_mono le)

theorem units_of_scaleDown {shift : Int} (order : (num.log2 : Int) - 52 = shift) :
    roundDiv (scaleDown num 1 shift).1 (scaleDown num 1 shift).2 * unitsAt shift =
      nearest num * unitsAt 0 := by
  by_cases long : 0 ≤ shift
  · obtain ⟨extra, rfl⟩ := Int.eq_ofNat_of_zero_le long
    have bits : num.log2 - 52 = extra := by omega
    rw [scaleDown, if_pos long, Int.toNat_natCast, Nat.one_mul, nearest, bits, Nat.mul_assoc,
      unitsAt_add (Int.zero_add _) (by decide)]
  · obtain ⟨extra, negated⟩ := Int.eq_ofNat_of_zero_le (a := -shift) (by omega)
    have back : shift + extra = 0 := by omega
    rw [scaleDown, if_neg long, negated, Int.toNat_natCast, roundDiv_one,
      nearest_of_short (by omega), unitsAt_add back (by omega), Nat.mul_assoc]

/-- The double of an integer has the value that the integer is rounded to. -/
theorem ofFraction_one_eq (order : num.log2 ≤ 1022) :
    ∃ m, ofFraction negative num 1 = .finite negative m ∧ m.units = nearest num * unitsAt 0 := by
  unfold ofFraction
  by_cases zero : num = 0
  · subst zero
    obtain ⟨m, parts, units⟩ := @ofParts_eq negative 0 (-1074) (by decide) (by decide) (by decide)
      (Or.inr rfl)
    have nothing : nearest 0 = 0 := nearest_of_short (by decide)
    refine ⟨m, parts, units.trans ?_⟩
    rw [nothing, Nat.zero_mul, Nat.zero_mul]
  · rw [if_neg zero]
    have exponent : max (-1074) (binaryOrder num 1 + 1 - (precision : Int)) =
        (num.log2 : Int) - 52 := by
      rw [binaryOrder_one zero]
      change max (-1074) ((num.log2 : Int) + 1 - 53) = _
      omega
    simp only [exponent]
    generalize shifted : (num.log2 : Int) - 52 = shift
    have value := units_of_scaleDown shifted
    generalize leading : scaleDown num 1 shift = scaled at value
    obtain ⟨low, high⟩ := leading_bounds zero (shifted ▸ leading)
    obtain ⟨above, below⟩ := roundDiv_bounds scaled.1 scaled.2
    by_cases carried : roundDiv scaled.1 scaled.2 = 2 ^ precision
    · rw [if_pos carried]
      obtain ⟨m, parts, units⟩ := @ofParts_eq negative (2 ^ (precision - 1)) (shift + 1)
        (by decide) (by omega) (by omega) (Or.inl (Nat.le_refl _))
      have raised : unitsAt (shift + 1) = 2 ^ 1 * unitsAt shift :=
        unitsAt_add rfl (by omega)
      have carry : 2 ^ (precision - 1) * 2 ^ 1 = 2 ^ precision := rfl
      refine ⟨m, parts, units.trans ?_⟩
      rw [← value, carried, raised, ← Nat.mul_assoc, carry]
    · rw [if_neg carried]
      have short : roundDiv scaled.1 scaled.2 < 2 ^ precision :=
        Nat.lt_of_le_of_ne (Nat.le_trans below high) carried
      obtain ⟨m, parts, units⟩ := @ofParts_eq negative _ shift short (by omega) (by omega)
        (Or.inl (Nat.le_trans low above))
      exact ⟨m, parts, units.trans value⟩

end Binary64

theorem Value.floatOfInt_eq (value : Int64) :
    ∃ m, Value.floatOfInt value = .finite (decide (value.toInt < 0)) m ∧
      m.units = Binary64.nearest value.toInt.natAbs * Binary64.unitsAt 0 := by
  have within : value.toInt.natAbs < 2 ^ 64 := by
    have low : -2 ^ 63 ≤ value.toInt := value.le_toInt
    have high : value.toInt < 2 ^ 63 := value.toInt_lt
    omega
  refine Binary64.ofFraction_one_eq ?_
  by_cases zero : value.toInt.natAbs = 0
  · rw [zero]
    decide
  · have order := (Nat.log2_lt zero).mpr within
    omega

theorem Value.isFinite_floatOfInt (value : Int64) : (Value.floatOfInt value).isFinite = true := by
  obtain ⟨m, float, -⟩ := Value.floatOfInt_eq value
  rw [float]
  rfl

end LiveQuery
