import LiveQuery.Proofs.Number.DecimalText
import Mathlib.Tactic.Linarith
import Mathlib.Tactic.NormNum
import Mathlib.Tactic.Positivity

set_option autoImplicit false

namespace LiveQuery

-- A power is the one of the core library, whatever else is imported.
attribute [local instance (high)] instPowNat

namespace Decimal

theorem ten_zpow (step : Int) :
    (10 : ℚ) ^ step * ((10 ^ (-step).toNat : Nat) : ℚ) = ((10 ^ step.toNat : Nat) : ℚ) := by
  push_cast
  rw [← zpow_natCast, ← zpow_natCast, ← zpow_add₀ (by norm_num)]
  congr 1
  omega

theorem pow_digitCount_le {number : Nat} (positive : 0 < number) :
    10 ^ (digitCount number - 1) ≤ number := by
  unfold digitCount
  by_cases single : (Nat.toDigits 10 number).length ≤ 1
  · rw [Nat.sub_eq_zero_of_le single]
    exact positive
  · have long : ¬ (Nat.toDigits 10 number).length ≤ (Nat.toDigits 10 number).length - 1 := by omega
    rw [Nat.length_toDigits_le_iff (by decide) (by omega)] at long
    omega

theorem lt_pow_digitCount (number : Nat) : number < 10 ^ digitCount number := by
  have some : 0 < (Nat.toDigits 10 number).length := List.length_pos_iff.mpr Nat.toDigits_ne_nil
  exact (Nat.length_toDigits_le_iff (by decide) some).mp (Nat.le_refl _)

theorem reached_iff (num den : Nat) (power : Int) :
    (if 0 ≤ power then den * 10 ^ power.toNat ≤ num else den ≤ num * 10 ^ (-power).toNat) ↔
      (10 : ℚ) ^ power * den ≤ num := by
  have unit : (0 : ℚ) < ((10 ^ (-power).toNat : Nat) : ℚ) := by
    exact_mod_cast Nat.pow_pos (by decide)
  have scaled : (10 : ℚ) ^ power * den * ((10 ^ (-power).toNat : Nat) : ℚ) =
      ((den * 10 ^ power.toNat : Nat) : ℚ) := by
    rw [Nat.cast_mul, ← ten_zpow power]
    ring
  rw [← mul_le_mul_iff_of_pos_right unit, scaled]
  split
  · rename_i sign
    rw [Int.toNat_eq_zero.mpr (show -power ≤ 0 by omega)]
    simp only [Nat.pow_zero, Nat.cast_one, mul_one]
    exact_mod_cast Iff.rfl
  · rename_i sign
    rw [Int.toNat_eq_zero.mpr (show power ≤ 0 by omega)]
    simp only [Nat.pow_zero, Nat.mul_one]
    exact_mod_cast Iff.rfl

/-- A power of ten below the order of a number is at most the number. -/
theorem pow_decimalOrder_le {num : Nat} (den : Nat) (positive : 0 < num) :
    (10 : ℚ) ^ (decimalOrder num den - 1) * den ≤ num := by
  unfold decimalOrder
  simp only [reached_iff]
  generalize estimated : (digitCount num : Int) - digitCount den = estimate
  split
  · rename_i reached
    rwa [add_sub_cancel_right]
  · -- the number of digits alone tells the order up to one
    have few : (den : ℚ) ≤ ((10 ^ digitCount den : Nat) : ℚ) := by
      exact_mod_cast (lt_pow_digitCount den).le
    have many : ((10 ^ (digitCount num - 1) : Nat) : ℚ) ≤ num := by
      exact_mod_cast pow_digitCount_le positive
    have some : 0 < digitCount num := List.length_pos_iff.mpr Nat.toDigits_ne_nil
    have power : (10 : ℚ) ^ (estimate - 1) * ((10 ^ digitCount den : Nat) : ℚ) =
        ((10 ^ (digitCount num - 1) : Nat) : ℚ) := by
      push_cast
      rw [← zpow_natCast, ← zpow_natCast, ← zpow_add₀ (by norm_num)]
      congr 1
      omega
    have least : (0 : ℚ) < 10 ^ (estimate - 1) := zpow_pos (by norm_num) _
    calc (10 : ℚ) ^ (estimate - 1) * den
        ≤ 10 ^ (estimate - 1) * ((10 ^ digitCount den : Nat) : ℚ) :=
          mul_le_mul_of_nonneg_left few least.le
      _ = ((10 ^ (digitCount num - 1) : Nat) : ℚ) := power
      _ ≤ num := many

namespace Interval

variable {interval : Interval} {x : ℚ} {step : Int} {digits : Nat}

/-- A real lies in the interval. -/
def Holds (interval : Interval) (x : ℚ) : Prop :=
  if interval.closed then interval.low ≤ x * interval.den ∧ x * interval.den ≤ interval.high
  else interval.low < x * interval.den ∧ x * interval.den < interval.high

theorem holds_of_lt (low : interval.low < x * interval.den)
    (high : x * interval.den < interval.high) : interval.Holds x := by
  unfold Holds
  split
  · exact ⟨low.le, high.le⟩
  · exact ⟨low, high⟩

theorem cast_point (interval : Interval) (digits : Nat) (step : Int) :
    ((digits * (interval.den * 10 ^ step.toNat) : Nat) : ℚ) =
      digits * 10 ^ step * interval.den * ((10 ^ (-step).toNat : Nat) : ℚ) := by
  rw [Nat.cast_mul, Nat.cast_mul, ← ten_zpow step]
  ring

/-- Points of a grid are tested as the reals that they are. -/
theorem contains_iff (interval : Interval) (digits : Nat) (step : Int) :
    interval.contains (digits * (interval.den * 10 ^ step.toNat)) (10 ^ (-step).toNat) = true ↔
      interval.Holds (digits * 10 ^ step) := by
  have unit : (0 : ℚ) < ((10 ^ (-step).toNat : Nat) : ℚ) := by positivity
  have point := interval.cast_point digits step
  generalize 10 ^ (-step).toNat = scale at unit point
  generalize digits * (interval.den * 10 ^ step.toNat) = num at point
  generalize (digits : ℚ) * 10 ^ step = x at point
  have below : interval.low * scale ≤ num ↔ (interval.low : ℚ) ≤ x * interval.den := by
    rw [← mul_le_mul_iff_of_pos_right unit, ← point]
    exact_mod_cast Iff.rfl
  have above : num ≤ interval.high * scale ↔ x * interval.den ≤ interval.high := by
    rw [← mul_le_mul_iff_of_pos_right unit, ← point]
    exact_mod_cast Iff.rfl
  have below' : interval.low * scale < num ↔ (interval.low : ℚ) < x * interval.den := by
    rw [← mul_lt_mul_iff_of_pos_right unit, ← point]
    exact_mod_cast Iff.rfl
  have above' : num < interval.high * scale ↔ x * interval.den < interval.high := by
    rw [← mul_lt_mul_iff_of_pos_right unit, ← point]
    exact_mod_cast Iff.rfl
  unfold contains Holds
  split <;> simp only [Bool.and_eq_true, decide_eq_true_eq, below, above, below', above']

theorem holds_of_onGrid? (found : interval.onGrid? step = some digits) :
    interval.Holds (digits * 10 ^ step) := by
  unfold onGrid? at found
  simp only at found
  generalize interval.value * 10 ^ (-step).toNat / (interval.den * 10 ^ step.toNat) = floor at found
  have below := contains_iff interval floor step
  have above := contains_iff interval (floor + 1) step
  rw [Nat.succ_mul] at above
  split at found
  · rename_i within within'
    split at found <;> cases found
    · exact below.mp within
    · exact above.mp within'
  · rename_i within _
    cases found
    exact below.mp within
  · rename_i _ within
    cases found
    exact above.mp within
  · cases found

theorem floor_bounds (nonzero : 0 < interval.den) {floor : Nat}
    (floored : interval.value * 10 ^ (-step).toNat / (interval.den * 10 ^ step.toNat) = floor) :
    (floor : ℚ) * 10 ^ step * interval.den ≤ interval.value ∧
      interval.value < ((floor + 1 : Nat) : ℚ) * 10 ^ step * interval.den := by
  have unit : (0 : ℚ) < ((10 ^ (-step).toNat : Nat) : ℚ) := by positivity
  have size : 0 < interval.den * 10 ^ step.toNat := Nat.mul_pos nonzero (Nat.pow_pos (by decide))
  have below := Nat.div_mul_le_self (interval.value * 10 ^ (-step).toNat)
    (interval.den * 10 ^ step.toNat)
  have above := Nat.lt_mul_div_succ (interval.value * 10 ^ (-step).toNat) size
  rw [floored] at below above
  rw [Nat.mul_comm (interval.den * 10 ^ step.toNat)] at above
  constructor
  · rw [← mul_le_mul_iff_of_pos_right unit, ← interval.cast_point floor step]
    exact_mod_cast below
  · rw [← mul_lt_mul_iff_of_pos_right unit, ← interval.cast_point (floor + 1) step]
    exact_mod_cast above

/-- A grid that is finer than the interval has a point in it. -/
theorem onGrid?_isSome (nonzero : 0 < interval.den) (low : interval.low < interval.value)
    (high : interval.value < interval.high)
    (fine : (10 : ℚ) ^ step * interval.den < interval.high - interval.low) :
    (interval.onGrid? step).isSome = true := by
  unfold onGrid?
  simp only
  generalize floored : interval.value * 10 ^ (-step).toNat / (interval.den * 10 ^ step.toNat) = floor
  have below := contains_iff interval floor step
  have above := contains_iff interval (floor + 1) step
  rw [Nat.succ_mul] at above
  obtain ⟨left, right⟩ := floor_bounds nonzero floored
  have low : (interval.low : ℚ) < interval.value := by exact_mod_cast low
  have high : (interval.value : ℚ) < interval.high := by exact_mod_cast high
  split
  · rfl
  · rfl
  · rfl
  · -- the two neighbours would lie outside, further apart than the grid is wide
    rename_i outside outside'
    have short : (floor : ℚ) * 10 ^ step * interval.den ≤ interval.low := by
      by_contra inside
      rw [below.mpr (holds_of_lt (not_le.mp inside) (left.trans_lt high))] at outside
      cases outside
    have long : (interval.high : ℚ) ≤ ((floor + 1 : Nat) : ℚ) * 10 ^ step * interval.den := by
      by_contra inside
      rw [above.mpr (holds_of_lt (low.trans right) (not_le.mp inside))] at outside'
      cases outside'
    push_cast at long
    exfalso
    linarith

theorem holds_shortestFrom {order : Int} {fuel count enough : Nat} (soon : enough < fuel)
    (found : (interval.onGrid? (order - (count + enough : Nat))).isSome = true) :
    interval.Holds (interval.shortestFrom order fuel count).value := by
  induction fuel generalizing count enough with
  | zero => omega
  | succ fuel ih =>
    unfold shortestFrom
    cases here : interval.onGrid? (order - count) with
    | some digits => exact holds_of_onGrid? here
    | none =>
      cases enough with
      | zero =>
        rw [Nat.add_zero, here] at found
        cases found
      | succ enough =>
        have later : count + (enough + 1) = (count + 1) + enough := by omega
        rw [later] at found
        exact ih (by omega) found

end Interval

end Decimal

namespace Binary64

variable {m n : Magnitude}

/-- The quarter of the distance to the next greater double. -/
def Magnitude.quarter (m : Magnitude) : ℚ := 2 ^ (m.exponent - 2)

/-- How many quarters below a double the reals begin that round to it. -/
def Magnitude.reach (m : Magnitude) : Nat :=
  if m.mantissa = 2 ^ (precision - 1) ∧ -1074 < m.exponent then 1 else 2

theorem Magnitude.quarter_pos (m : Magnitude) : 0 < m.quarter := zpow_pos (by norm_num) _

theorem Magnitude.reach_cases (m : Magnitude) :
    (m.reach = 1 ∧ m.mantissa = 2 ^ 52 ∧ -1074 < m.exponent) ∨
      (m.reach = 2 ∧ (m.mantissa = 2 ^ 52 → m.exponent = -1074)) := by
  unfold reach
  by_cases power : m.mantissa = 2 ^ (precision - 1) ∧ -1074 < m.exponent
  · rw [if_pos power]
    exact Or.inl ⟨rfl, power⟩
  · rw [if_neg power]
    refine Or.inr ⟨rfl, fun same => ?_⟩
    have least := m.least_le
    by_contra differs
    exact power ⟨same, by omega⟩

/-- Which reals round to a double, as its interval has them. -/
theorem Magnitude.holds_interval_iff (positive : 0 < m.mantissa) (x : ℚ) : m.interval.Holds x ↔
    if m.mantissa % 2 = 0 then
      (4 * m.mantissa - m.reach) * m.quarter ≤ x ∧ x ≤ (4 * m.mantissa + 2) * m.quarter
    else (4 * m.mantissa - m.reach) * m.quarter < x ∧ x < (4 * m.mantissa + 2) * m.quarter := by
  have den : (0 : ℚ) < ((2 ^ (2 - m.exponent).toNat : Nat) : ℚ) := by
    exact_mod_cast Nat.pow_pos (by decide)
  have scale : ((2 ^ (m.exponent - 2).toNat : Nat) : ℚ) =
      m.quarter * ((2 ^ (2 - m.exponent).toNat : Nat) : ℚ) := by
    unfold quarter
    push_cast
    rw [← zpow_natCast, ← zpow_natCast, ← zpow_add₀ (by norm_num)]
    congr 1
    omega
  have reach : m.reach ≤ 4 * m.mantissa := by
    rcases m.reach_cases with ⟨same, -⟩ | ⟨same, -⟩ <;> omega
  have low : (((4 * m.mantissa - m.reach) * 2 ^ (m.exponent - 2).toNat : Nat) : ℚ) =
      (4 * m.mantissa - m.reach) * m.quarter * ((2 ^ (2 - m.exponent).toNat : Nat) : ℚ) := by
    rw [Nat.cast_mul, scale, Nat.cast_sub reach]
    push_cast
    ring
  have high : (((4 * m.mantissa + 2) * 2 ^ (m.exponent - 2).toNat : Nat) : ℚ) =
      (4 * m.mantissa + 2) * m.quarter * ((2 ^ (2 - m.exponent).toNat : Nat) : ℚ) := by
    rw [Nat.cast_mul, scale]
    push_cast
    ring
  have same : m.interval = ⟨(4 * m.mantissa - m.reach) * 2 ^ (m.exponent - 2).toNat,
    4 * m.mantissa * 2 ^ (m.exponent - 2).toNat, (4 * m.mantissa + 2) * 2 ^ (m.exponent - 2).toNat,
    2 ^ (2 - m.exponent).toNat, m.mantissa % 2 = 0⟩ := rfl
  unfold Decimal.Interval.Holds
  simp only [same, low, high, decide_eq_true_eq]
  split
  · rw [mul_le_mul_iff_of_pos_right den, mul_le_mul_iff_of_pos_right den]
  · rw [mul_lt_mul_iff_of_pos_right den, mul_lt_mul_iff_of_pos_right den]

/-- The shortest decimal of a double rounds to it: the grid of seventeen digits is finer than the
interval of the reals that do. -/
theorem Magnitude.holds_shortest (positive : 0 < m.mantissa) :
    m.interval.Holds m.interval.shortest.value := by
  have unit : 0 < 2 ^ (m.exponent - 2).toNat := Nat.pow_pos (by decide)
  have nonzero : 0 < m.interval.den := Nat.pow_pos (by decide)
  have value : m.interval.value = 4 * m.mantissa * 2 ^ (m.exponent - 2).toNat := rfl
  have high : m.interval.high = (4 * m.mantissa + 2) * 2 ^ (m.exponent - 2).toNat := rfl
  have low : m.interval.low = (4 * m.mantissa - m.reach) * 2 ^ (m.exponent - 2).toNat := rfl
  have bound := m.mantissa_lt
  have small : 4 * m.mantissa < (2 + m.reach) * 10 ^ 16 := by
    rcases m.reach_cases with ⟨same, full, -⟩ | ⟨same, -⟩ <;> rw [same]
    · rw [full]
      decide
    · change m.mantissa < 2 ^ 53 at bound
      omega
  have some : 0 < m.reach ∧ m.reach ≤ 2 := by
    rcases m.reach_cases with ⟨same, -⟩ | ⟨same, -⟩ <;> omega
  have inside : 0 < m.interval.value := by
    rw [value]
    exact Nat.mul_pos (by omega) unit
  have order := Decimal.pow_decimalOrder_le m.interval.den inside
  have above : m.interval.value < m.interval.high := by
    rw [value, high]
    exact Nat.mul_lt_mul_of_pos_right (by omega) unit
  have below : m.interval.low < m.interval.value := by
    rw [value, low]
    exact Nat.mul_lt_mul_of_pos_right (by omega) unit
  refine Decimal.Interval.holds_shortestFrom (show 16 < 17 by decide)
    (Decimal.Interval.onGrid?_isSome nonzero below above ?_)
  generalize decimalOrder : Decimal.decimalOrder m.interval.value m.interval.den = power at order ⊢
  have finer : (10 : ℚ) ^ (power - (1 + 16 : Nat)) * 10 ^ 16 = 10 ^ (power - 1) := by
    rw [← zpow_natCast, ← zpow_add₀ (by norm_num)]
    congr 1
    push_cast
    omega
  have gap : (m.interval.high : ℚ) - m.interval.low =
      (2 + m.reach) * ((2 ^ (m.exponent - 2).toNat : Nat) : ℚ) := by
    rw [high, low, Nat.cast_mul, Nat.cast_mul, Nat.cast_sub (by omega)]
    push_cast
    ring
  have wide : (m.interval.value : ℚ) < (m.interval.high - m.interval.low) * 10 ^ 16 := by
    rw [gap, value]
    have bound := Nat.mul_lt_mul_of_pos_right small unit
    calc ((4 * m.mantissa * 2 ^ (m.exponent - 2).toNat : Nat) : ℚ)
        < (((2 + m.reach) * 10 ^ 16 * 2 ^ (m.exponent - 2).toNat : Nat) : ℚ) := by
          exact_mod_cast bound
      _ = (2 + m.reach) * ((2 ^ (m.exponent - 2).toNat : Nat) : ℚ) * 10 ^ 16 := by
          push_cast
          ring
  have scaled : (10 : ℚ) ^ (power - (1 + 16 : Nat)) * m.interval.den * 10 ^ 16 <
      (m.interval.high - m.interval.low) * 10 ^ 16 := by
    calc (10 : ℚ) ^ (power - (1 + 16 : Nat)) * m.interval.den * 10 ^ 16
        = 10 ^ (power - 1) * m.interval.den := by rw [← finer]; ring
      _ ≤ m.interval.value := order
      _ < _ := wide
  exact lt_of_mul_lt_mul_right scaled (by norm_num)

/-- Where the reals that round to one double end before those that round to another one begin, no
real rounds to both. Of two doubles that meet one has an odd mantissa, and there ties go away from
it. -/
theorem Magnitude.not_holds_both (positive : 0 < m.mantissa) (positive' : 0 < n.mantissa)
    (meet : (4 * m.mantissa + 2) * m.quarter ≤ (4 * n.mantissa - n.reach) * n.quarter)
    (apart : m.mantissa % 2 = 0 → n.mantissa % 2 = 0 →
      (4 * m.mantissa + 2) * m.quarter < (4 * n.mantissa - n.reach) * n.quarter)
    {x : ℚ} (holds : m.interval.Holds x) (holds' : n.interval.Holds x) : False := by
  rw [holds_interval_iff positive] at holds
  rw [holds_interval_iff positive'] at holds'
  split at holds
  · rename_i even
    split at holds'
    · rename_i even'
      linarith [apart even even', holds.2, holds'.1]
    · linarith [holds.2, holds'.1]
  · split at holds' <;> linarith [holds.2, holds'.1]

/-- A double of a greater exponent begins where a mantissa of full precision ends. -/
theorem Magnitude.begins_of_exponent_lt (less : m.exponent < n.exponent) :
    (2 ^ 55 - 2) * m.quarter ≤ (4 * n.mantissa - n.reach) * n.quarter := by
  have least := m.least_le
  have full : 2 ^ 52 ≤ n.mantissa := by
    rcases n.full with full | least'
    · exact full
    · omega
  have double : 2 * m.quarter ≤ n.quarter := by
    have power : (2 : ℚ) ^ (m.exponent + 1 - 2) ≤ 2 ^ (n.exponent - 2) :=
      zpow_le_zpow_right₀ (by norm_num) (by omega)
    have once : (2 : ℚ) ^ (m.exponent + 1 - 2) = 2 * 2 ^ (m.exponent - 2) := by
      rw [← zpow_one_add₀ (by norm_num)]
      congr 1
      omega
    rw [once] at power
    exact power
  have begins : (2 ^ 54 - 1 : ℚ) ≤ 4 * n.mantissa - n.reach := by
    have whole : 2 ^ 54 - 1 + n.reach ≤ 4 * n.mantissa := by
      rcases n.reach_cases with ⟨reach, -⟩ | ⟨reach, power⟩ <;> rw [reach]
      · omega
      · have differs : n.mantissa ≠ 2 ^ 52 := by
          intro power'
          have least' := power power'
          omega
        omega
    have whole : ((2 ^ 54 - 1 + n.reach : Nat) : ℚ) ≤ ((4 * n.mantissa : Nat) : ℚ) := by
      exact_mod_cast whole
    push_cast at whole
    norm_num at whole ⊢
    linarith
  calc (2 ^ 55 - 2) * m.quarter = (2 ^ 54 - 1) * (2 * m.quarter) := by ring
    _ ≤ (2 ^ 54 - 1) * n.quarter := mul_le_mul_of_nonneg_left double (by norm_num)
    _ ≤ _ := mul_le_mul_of_nonneg_right begins n.quarter_pos.le

theorem Magnitude.not_holds_of_exponent_lt (less : m.exponent < n.exponent)
    (positive : 0 < m.mantissa) (positive' : 0 < n.mantissa) {x : ℚ} (holds : m.interval.Holds x) :
    ¬ n.interval.Holds x := by
  intro holds'
  have bound : m.mantissa < 2 ^ 53 := m.mantissa_lt
  have far := begins_of_exponent_lt less
  have quarter := m.quarter_pos
  have ends {most : Nat} (within : m.mantissa ≤ most) :
      (4 * m.mantissa + 2) * m.quarter ≤ (4 * most + 2) * m.quarter := by
    have within : (m.mantissa : ℚ) ≤ most := by exact_mod_cast within
    exact mul_le_mul_of_nonneg_right (by linarith) quarter.le
  refine Magnitude.not_holds_both positive positive' ?_ ?_ holds holds'
  · have near := @ends (2 ^ 53 - 1) (by omega)
    norm_num at near far ⊢
    linarith
  · intro even _
    have near := @ends (2 ^ 53 - 2) (by omega)
    norm_num at near far ⊢
    linarith

theorem Magnitude.not_holds_of_mantissa_lt (same : m.exponent = n.exponent)
    (less : m.mantissa < n.mantissa) (positive : 0 < m.mantissa) (positive' : 0 < n.mantissa)
    {x : ℚ} (holds : m.interval.Holds x) : ¬ n.interval.Holds x := by
  intro holds'
  have quarters : n.quarter = m.quarter := by
    unfold Magnitude.quarter
    rw [same]
  have reach : n.reach ≤ 2 := by
    rcases n.reach_cases with ⟨reach, -⟩ | ⟨reach, -⟩ <;> omega
  have step (gap : Nat) (behind : 4 * m.mantissa + 2 + gap + n.reach ≤ 4 * n.mantissa) :
      (4 * m.mantissa + 2 + gap) * m.quarter ≤ (4 * n.mantissa - n.reach) * n.quarter := by
    rw [quarters]
    refine mul_le_mul_of_nonneg_right ?_ m.quarter_pos.le
    have behind : ((4 * m.mantissa + 2 + gap + n.reach : Nat) : ℚ) ≤
        ((4 * n.mantissa : Nat) : ℚ) := by
      exact_mod_cast behind
    push_cast at behind
    linarith
  refine Magnitude.not_holds_both positive positive' ?_ ?_ holds holds'
  · have far := step 0 (by omega)
    simpa using far
  · intro even even'
    have far := step 1 (by omega)
    have quarter := m.quarter_pos
    push_cast at far
    linarith

theorem Magnitude.eq_of_holds (positive : 0 < m.mantissa) (positive' : 0 < n.mantissa) {x : ℚ}
    (holds : m.interval.Holds x) (holds' : n.interval.Holds x) : m = n := by
  have exponents : m.exponent = n.exponent := by
    rcases lt_trichotomy m.exponent n.exponent with less | same | less
    · exact absurd holds' (not_holds_of_exponent_lt less positive positive' holds)
    · exact same
    · exact absurd holds (not_holds_of_exponent_lt less positive' positive holds')
  have mantissas : m.mantissa = n.mantissa := by
    rcases lt_trichotomy m.mantissa n.mantissa with less | same | less
    · exact absurd holds' (not_holds_of_mantissa_lt exponents less positive positive' holds)
    · exact same
    · exact absurd holds (not_holds_of_mantissa_lt exponents.symm less positive' positive holds')
  cases m
  cases n
  cases exponents
  cases mantissas
  rfl

theorem Magnitude.positive_of_holds (positive : 0 < m.mantissa) {x : ℚ}
    (holds : m.interval.Holds x) : 0 < x := by
  have reach : (m.reach : ℚ) ≤ 2 := by
    rcases m.reach_cases with ⟨reach, -⟩ | ⟨reach, -⟩ <;> rw [reach] <;> norm_num
  have one : (1 : ℚ) ≤ m.mantissa := by exact_mod_cast positive
  have begins : 0 < (4 * m.mantissa - m.reach) * m.quarter :=
    mul_pos (by linarith) m.quarter_pos
  rw [holds_interval_iff positive] at holds
  split at holds <;> linarith [holds.1]

theorem Magnitude.reading_text (m : Magnitude) :
    (m.mantissa = 0 ∧ Decimal.reading m.text.toList = 0) ∨
      (0 < m.mantissa ∧ m.interval.Holds (Decimal.reading m.text.toList)) := by
  unfold text
  by_cases zero : m.mantissa = 0
  · rw [if_pos zero]
    refine Or.inl ⟨zero, ?_⟩
    have digits : ∀ c ∈ "0".toList, c.isDigit = true := by
      intro c inside
      rw [List.mem_singleton.mp inside]
      rfl
    have number : Nat.ofDigitChars 10 "0".toList 0 = 0 := rfl
    rw [Decimal.reading_whole digits, number, Nat.cast_zero]
  · rw [if_neg zero, Decimal.reading_text]
    have positive := Nat.pos_of_ne_zero zero
    exact Or.inr ⟨positive, holds_shortest positive⟩

/-- The text of a magnitude tells which one it is. -/
theorem Magnitude.eq_of_text_eq (same : m.text = n.text) : m = n := by
  have least {m : Magnitude} (zero : m.mantissa = 0) : m.exponent = -1074 := by
    rcases m.full with full | least
    · rw [zero] at full
      cases full
    · exact least
  rcases m.reading_text with ⟨zero, read⟩ | ⟨positive, holds⟩ <;>
    rcases n.reading_text with ⟨zero', read'⟩ | ⟨positive', holds'⟩
  · have exponents := (least zero).trans (least zero').symm
    have mantissas := zero.trans zero'.symm
    cases m
    cases n
    cases exponents
    cases mantissas
    rfl
  · rw [same] at read
    rw [read] at holds'
    exact absurd (positive_of_holds positive' holds') (lt_irrefl 0)
  · rw [same, read'] at holds
    exact absurd (positive_of_holds positive holds) (lt_irrefl 0)
  · rw [same] at holds
    exact eq_of_holds positive positive' holds holds'

theorem Magnitude.isDigit_or_point_of_mem_text {c : Char} (inside : c ∈ m.text.toList) :
    c.isDigit = true ∨ c = '.' := by
  unfold text at inside
  split at inside
  · rw [List.mem_singleton.mp inside]
    exact Or.inl rfl
  · exact Decimal.isDigit_or_point_of_mem_text inside

theorem Magnitude.not_mem_text {c : Char} (digit : c.isDigit = false) (point : c ≠ '.') :
    c ∉ m.text.toList := by
  intro inside
  rcases isDigit_or_point_of_mem_text inside with same | same
  · rw [digit] at same
    cases same
  · exact point same

theorem finite_eq_of_text_eq {negative negative' : Bool}
    (same : (finite negative m).text = (finite negative' n).text) :
    finite negative m = finite negative' n := by
  have signless {m n : Magnitude} (same : m.text = "-" ++ n.text) : False := by
    have signed : '-' ∈ m.text.toList := by
      rw [same, String.toList_append]
      exact List.mem_append_left _ (List.mem_singleton_self _)
    exact Magnitude.not_mem_text (by decide) (by decide) signed
  unfold text at same
  cases negative <;> cases negative' <;>
    simp only [Bool.false_eq_true, ↓reduceIte, String.empty_append] at same
  · rw [Magnitude.eq_of_text_eq same]
  · exact (signless same).elim
  · exact (signless same.symm).elim
  · rw [Magnitude.eq_of_text_eq ((String.append_right_inj _).mp same)]

theorem blank_not_mem_text (negative : Bool) (m : Magnitude) :
    ' ' ∉ (finite negative m).text.toList := by
  intro inside
  unfold text at inside
  rw [String.toList_append] at inside
  rcases List.mem_append.mp inside with sign | number
  · cases negative <;> exact absurd sign (by decide)
  · exact Magnitude.not_mem_text (by decide) (by decide) number

end Binary64

end LiveQuery
