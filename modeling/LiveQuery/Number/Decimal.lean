import LiveQuery.Number.Binary64

set_option autoImplicit false

namespace LiveQuery

-- A power is the one of the core library, whatever else is imported.
attribute [local instance (high)] instPowNat

/-- The number `digits · 10 ^ exponent`. -/
structure Decimal where
  digits : Nat
  exponent : Int
  deriving DecidableEq

namespace Decimal

def digitCount (value : Nat) : Nat := (Nat.toDigits 10 value).length

/-- The least power of ten, as an exponent, that exceeds the positive number `num / den`. -/
def decimalOrder (num den : Nat) : Int :=
  let estimate : Int := digitCount num - digitCount den
  let reached :=
    if 0 ≤ estimate then den * 10 ^ estimate.toNat ≤ num
    else den ≤ num * 10 ^ (-estimate).toNat
  if reached then estimate + 1 else estimate

/-- A positive number with the reals that round to it, all over one denominator. -/
structure Interval where
  low : Nat
  value : Nat
  high : Nat
  den : Nat
  closed : Bool

namespace Interval

/-- Whether `num / (den · scale)` lies in the interval. -/
def contains (interval : Interval) (num scale : Nat) : Bool :=
  if interval.closed then
    decide (interval.low * scale ≤ num) && decide (num ≤ interval.high * scale)
  else
    decide (interval.low * scale < num) && decide (num < interval.high * scale)

/-- The best point of the grid `10 ^ step` that reads back: one of the value's two neighbours, the
upper one where both are equally near. -/
def onGrid? (interval : Interval) (step : Int) : Option Nat :=
  let scale := 10 ^ (-step).toNat
  let unit := interval.den * 10 ^ step.toNat
  let scaled := interval.value * scale
  let floor := scaled / unit
  let below := floor * unit
  let above := below + unit
  match interval.contains below scale, interval.contains above scale with
  | true, true => some (if scaled - below < above - scaled then floor else floor + 1)
  | true, false => some floor
  | false, true => some (floor + 1)
  | false, false => none

/-- The first grid with a point in the interval, from `count` digits on. -/
def shortestFrom (interval : Interval) (order : Int) : Nat → Nat → Decimal
  | 0, count => ⟨interval.value * 10 ^ (count - order).toNat / interval.den, order - count⟩
  | fuel + 1, count =>
    match interval.onGrid? (order - count) with
    | some digits => ⟨digits, order - count⟩
    | none => interval.shortestFrom order fuel (count + 1)

/-- Seventeen digits always suffice for a double. -/
def shortest (interval : Interval) : Decimal :=
  interval.shortestFrom (decimalOrder interval.value interval.den) 17 1

end Interval

/-- Positional notation of a natural number times a power of ten, without trailing zeros after the
point. -/
def text (decimal : Decimal) : String :=
  if 0 ≤ decimal.exponent then toString (decimal.digits * 10 ^ decimal.exponent.toNat)
  else
    let places := (-decimal.exponent).toNat
    let whole := decimal.digits / 10 ^ places
    let rest := (Nat.toDigits 10 (decimal.digits % 10 ^ places)).leftpad places '0'
    let kept := (rest.reverse.dropWhile (· = '0')).reverse
    if kept.isEmpty then toString whole else toString whole ++ "." ++ String.ofList kept

end Decimal

namespace Binary64

/-- The reals that round to a positive finite double. Below a power of two the neighbour is only
half as far. -/
def Magnitude.interval (m : Magnitude) : Decimal.Interval :=
  let half := if m.mantissa = 2 ^ (precision - 1) ∧ -1074 < m.exponent then 1 else 2
  let scale := 2 ^ (m.exponent - 2).toNat
  { low := (4 * m.mantissa - half) * scale
    value := 4 * m.mantissa * scale
    high := (4 * m.mantissa + 2) * scale
    den := 2 ^ (2 - m.exponent).toNat
    closed := m.mantissa % 2 = 0 }

def Magnitude.text (m : Magnitude) : String :=
  if m.mantissa = 0 then "0" else m.interval.shortest.text

/-- The text of a double: shortest digits, no exponent, no point on whole numbers. -/
def text : Binary64 → String
  | .nan => "NaN"
  | .infinite negative => if negative then "-inf" else "inf"
  | .finite negative m => (if negative then "-" else "") ++ m.text

end Binary64

end LiveQuery
