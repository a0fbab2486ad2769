set_option autoImplicit false

namespace LiveQuery

-- A power is the one of the core library, whatever else is imported.
attribute [local instance (high)] instPowNat

/-- The number of bits that a mantissa may have. -/
abbrev Binary64.precision : Nat := 53

/-- The range of a finite double: a mantissa of full precision, unless the exponent is already the
least one. -/
structure Binary64.Magnitude where
  mantissa : Nat
  exponent : Int
  mantissa_lt : mantissa < 2 ^ Binary64.precision
  least_le : -1074 ≤ exponent
  le_greatest : exponent ≤ 971
  full : 2 ^ (Binary64.precision - 1) ≤ mantissa ∨ exponent = -1074
  deriving DecidableEq

inductive Binary64 where
  | nan
  | infinite (negative : Bool)
  | finite (negative : Bool) (magnitude : Binary64.Magnitude)

namespace Binary64

/-- The nearest integer to `num / den`, a half going to the even neighbour. -/
def roundDiv (num den : Nat) : Nat :=
  let floor := num / den
  let rest := num % den
  if 2 * rest < den then floor
  else if den < 2 * rest then floor + 1
  else if floor % 2 = 0 then floor else floor + 1

/-- `num / den` divided by `2 ^ shift`, as a fraction. -/
def scaleDown (num den : Nat) (shift : Int) : Nat × Nat :=
  if 0 ≤ shift then (num, den * 2 ^ shift.toNat) else (num * 2 ^ (-shift).toNat, den)

/-- The greatest power of two, as an exponent, that is at most `num / den`. -/
def binaryOrder (num den : Nat) : Int :=
  let estimate : Int := num.log2 - den.log2
  let (scaledNum, scaledDen) := scaleDown num den estimate
  if scaledDen ≤ scaledNum then estimate else estimate - 1

/-- A number from its sign, mantissa and exponent; outside the range of doubles it is infinite. -/
def ofParts (negative : Bool) (mantissa : Nat) (exponent : Int) : Binary64 :=
  if range : mantissa < 2 ^ precision ∧ -1074 ≤ exponent ∧ exponent ≤ 971 ∧
      (2 ^ (precision - 1) ≤ mantissa ∨ exponent = -1074) then
    .finite negative ⟨mantissa, exponent, range.1, range.2.1, range.2.2.1, range.2.2.2⟩
  else
    .infinite negative

/-- The double nearest to `± num / den`. -/
def ofFraction (negative : Bool) (num den : Nat) : Binary64 :=
  if num = 0 then ofParts negative 0 (-1074)
  else
    let exponent := max (-1074) (binaryOrder num den + 1 - precision)
    let (scaledNum, scaledDen) := scaleDown num den exponent
    let mantissa := roundDiv scaledNum scaledDen
    if mantissa = 2 ^ precision then ofParts negative (2 ^ (precision - 1)) (exponent + 1)
    else ofParts negative mantissa exponent

def ofInt (value : Int) : Binary64 :=
  ofFraction (decide (value < 0)) value.natAbs 1

/-- The double nearest to `± digits · 10 ^ exponent`. -/
def ofDecimal (negative : Bool) (digits : Nat) (exponent : Int) : Binary64 :=
  if 0 ≤ exponent then ofFraction negative (digits * 10 ^ exponent.toNat) 1
  else ofFraction negative digits (10 ^ (-exponent).toNat)

def isFinite : Binary64 → Bool
  | .finite _ _ => true
  | _ => false

/-- The exact value as a multiple of the least positive double. -/
def Magnitude.units (m : Magnitude) : Nat :=
  m.mantissa * 2 ^ (m.exponent + 1074).toNat

def signedUnits (negative : Bool) (m : Magnitude) : Int :=
  if negative then -m.units else m.units

/-- Numeric order: both zeros are equal, and nothing compares with a NaN. -/
def compare? : Binary64 → Binary64 → Option Ordering
  | .nan, _ => none
  | _, .nan => none
  | .infinite a, .infinite b => some (Ord.compare b a)
  | .infinite negative, .finite _ _ => some (if negative then .lt else .gt)
  | .finite _ _, .infinite negative => some (if negative then .gt else .lt)
  | .finite a m, .finite b n => some (Ord.compare (signedUnits a m) (signedUnits b n))

/-- Numeric equality: a NaN equals nothing, itself included. -/
instance : BEq Binary64 where
  beq a b := a.compare? b == some .eq

/-- The integer that a finite number is, if it is one. -/
def toInt? : Binary64 → Option Int
  | .finite negative m =>
    let unit := 1 <<< 1074
    if m.units % unit = 0 then
      some (if negative then -(m.units / unit : Nat) else (m.units / unit : Nat))
    else none
  | _ => none

end Binary64

end LiveQuery
