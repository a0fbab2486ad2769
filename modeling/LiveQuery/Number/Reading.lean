import LiveQuery.Number.Decimal
import LiveQuery.Text.Digits

set_option autoImplicit false

namespace LiveQuery

-- A power is the one of the core library, whatever else is imported.
attribute [local instance (high)] instPowNat

namespace Binary64

/-- The absolute value of a finite double as a fraction. -/
def Magnitude.fraction (m : Magnitude) : Nat × Nat :=
  (m.mantissa * 2 ^ m.exponent.toNat, 2 ^ (-m.exponent).toNat)

/-- The double nearest to the product of two finite ones. -/
def product (a b : Magnitude) : Binary64 :=
  ofFraction false (a.fraction.1 * b.fraction.1) (a.fraction.2 * b.fraction.2)

/-- The double nearest to the quotient of two finite ones, of which the second is not zero. -/
def quotient (a b : Magnitude) : Binary64 :=
  ofFraction false (a.fraction.1 * b.fraction.2) (a.fraction.2 * b.fraction.1)

def withSign (negative : Bool) : Binary64 → Binary64
  | .finite _ m => .finite negative m
  | .infinite _ => .infinite negative
  | .nan => .nan

def magnitude? : Binary64 → Option Magnitude
  | .finite _ m => some m
  | _ => none

end Binary64

/-- A decimal number as it is written: the digits before and behind its point, and the power of ten
that it is multiplied by. -/
structure Numeral where
  negative : Bool
  whole : List Char
  places : List Char
  exponent : Int

inductive Rounding where
  | once
  | stepwise
  deriving DecidableEq

namespace Numeral

/-- The double nearest to a number. A magnitude far outside the range of doubles is not computed. -/
def nearest? (numeral : Numeral) : Option Binary64 :=
  let digits := Text.digitsValue (numeral.whole ++ numeral.places)
  let exponent := numeral.exponent - numeral.places.length
  let order : Int := Decimal.digitCount digits + exponent
  if digits = 0 ∨ order < -400 then some (.ofDecimal numeral.negative 0 0)
  else if 400 < order then none
  else
    let value := Binary64.ofDecimal numeral.negative digits exponent
    if value.isFinite then some value else none

/-- A value with as many digits added as 64 bits hold, and the number of the digits left over. -/
def leading (value : Nat) : List Char → Nat × Nat
  | [] => (value, 0)
  | c :: rest =>
    let longer := value * 10 + (c.toNat - '0'.toNat)
    if longer < UInt64.size then leading longer rest else (value, rest.length + 1)

/-- Powers of ten that are doubles have an exponent of at most this. -/
def greatestPower : Nat := 308

def power (exponent : Nat) : Binary64 := .ofDecimal false 1 exponent

/-- Scales a number up at once and down in steps of the greatest power. Three steps down leave
nothing of any 64-bit number. -/
def scale? : Nat → Binary64.Magnitude → Int → Option Binary64
  | 0, _, _ => some (.ofInt 0)
  | steps + 1, value, exponent => do
    if value.mantissa = 0 then return .finite false value
    else if 0 ≤ exponent then
      guard (exponent ≤ greatestPower)
      let scaled := Binary64.product value (← (power exponent.toNat).magnitude?)
      guard scaled.isFinite
      return scaled
    else if -greatestPower ≤ exponent then
      return Binary64.quotient value (← (power (-exponent).toNat).magnitude?)
    else
      let smaller ← (Binary64.quotient value (← (power greatestPower).magnitude?)).magnitude?
      scale? steps smaller (exponent + greatestPower)

/-- The double that a number becomes if its leading digits are rounded before they are scaled. -/
def stepwise? (numeral : Numeral) : Option Binary64 := do
  let (whole, dropped) := leading 0 numeral.whole
  let (digits, unread) := leading whole numeral.places
  let exponent := numeral.exponent + dropped - (numeral.places.length - unread : Nat)
  let value ← scale? 4 (← (Binary64.ofInt digits).magnitude?) exponent
  return value.withSign numeral.negative

def read? (numeral : Numeral) : Rounding → Option Binary64
  | .once => numeral.nearest?
  | .stepwise => numeral.stepwise?

end Numeral

end LiveQuery
