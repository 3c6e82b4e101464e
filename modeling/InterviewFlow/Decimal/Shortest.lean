import InterviewFlow.Decimal.Binary64

/-!
# Shortest decimals

The fewest decimal digits that read back as a given magnitude. A decimal reads
back when it lies in the interval of numbers that round to the magnitude; the
ends of the interval belong to it when the significand is even. For one digit,
two digits and so on the two neighbours of the magnitude on that decimal grid
are tried. The first grid with a hit wins, of two hits the nearer one, and of
two equally near ones the even one.
-/

set_option autoImplicit false

namespace InterviewFlow

/-- The decimal `significand · 10 ^ power`. -/
structure Decimal where
  significand : Nat
  power : Int
deriving DecidableEq

namespace Decimal

def digits (decimal : Decimal) : List Char :=
  Nat.toDigits 10 decimal.significand

/-- The power of ten of the first digit. -/
def leadingPower (decimal : Decimal) : Int :=
  decimal.power + (decimal.digits.length - 1 : Nat)

def leadingPowerOfRatio (numerator denominator : Nat) : Int :=
  if denominator ≤ numerator then
    ((Nat.toDigits 10 (numerator / denominator)).length - 1 : Nat)
  else
    -((Nat.toDigits 10 ((denominator - 1) / numerator)).length : Nat)

def overPower (ratio : Nat × Nat) (power : Int) : Nat × Nat :=
  if 0 ≤ power then (ratio.1, ratio.2 * Nat.pow 10 power.toNat)
  else (ratio.1 * Nat.pow 10 (-power).toNat, ratio.2)

structure Interval where
  low : Nat × Nat
  value : Nat × Nat
  high : Nat × Nat
  closed : Bool

/-- The numbers that round to a magnitude. Below a power of two the gap is half as wide. -/
def roundingInterval (magnitude : Binary64) : Interval :=
  let quarters := 4 * magnitude.significand
  let below :=
    if magnitude.significand = Binary64.leastNormal
        ∧ Binary64.leastExponent < magnitude.exponent then 1 else 2
  let shifted := fun number : Nat => Binary64.shiftRatio number 1 (magnitude.exponent - 2)
  ⟨shifted (quarters - below), shifted quarters, shifted (quarters + 2),
    magnitude.significand % 2 = 0⟩

/-- Whether the integer is inside the interval divided by a power of ten. -/
def Interval.contains (interval : Interval) (power : Int) (integer : Nat) : Bool :=
  let low := overPower interval.low power
  let high := overPower interval.high power
  if interval.closed then low.1 ≤ integer * low.2 && integer * high.2 ≤ high.1
  else low.1 < integer * low.2 && integer * high.2 < high.1

/-- The neighbour of the value on the grid of a power of ten that lies in the interval;
of two the nearer one, of two equally near ones the even one. -/
def Interval.neighbour? (interval : Interval) (power : Int) : Option Nat :=
  let value := overPower interval.value power
  let below := value.1 / value.2
  match interval.contains power below, interval.contains power (below + 1) with
  | true, true => some (Binary64.roundHalfEven value.1 value.2)
  | true, false => some below
  | false, true => some (below + 1)
  | false, false => none

/-- The decimal with the integer scaled by a power of ten, one trailing zero dropped. -/
def ofScaled (integer : Nat) (power : Int) : Decimal :=
  if integer % 10 = 0 then ⟨integer / 10, power + 1⟩ else ⟨integer, power⟩

/-- The shortest decimal that reads back as a positive magnitude. Seventeen digits
always suffice. -/
def shortest (magnitude : Binary64) : Decimal :=
  let interval := roundingInterval magnitude
  let leading := leadingPowerOfRatio interval.value.1 interval.value.2
  let hit := (List.range 17).findSome? fun (extra : Nat) =>
    (interval.neighbour? (leading - extra)).map fun integer =>
      ofScaled integer (leading - extra)
  hit.getD ⟨magnitude.significand, 0⟩

/-- Where positional notation ends. -/
structure Layout where
  least : Int
  greatest : Int

/-- A decimal in positional notation, always with a fraction. -/
def positional (decimal : Decimal) : List Char :=
  let digits := decimal.digits
  let leading := decimal.leadingPower
  if 0 ≤ leading then
    let wholeLength := leading.toNat + 1
    let whole := digits.take wholeLength ++ List.replicate (wholeLength - digits.length) '0'
    let fraction := digits.drop wholeLength
    whole ++ '.' :: (if fraction.isEmpty then ['0'] else fraction)
  else
    '0' :: '.' :: List.replicate ((-leading).toNat - 1) '0' ++ digits

/-- A decimal in exponent notation: no point after a single digit, the sign of the exponent
always written, the exponent without padding. -/
def scientific (decimal : Decimal) : List Char :=
  let leading := decimal.leadingPower
  let mantissa :=
    match decimal.digits with
    | first :: second :: rest => first :: '.' :: second :: rest
    | short => short
  let sign := if leading < 0 then '-' else '+'
  mantissa ++ 'e' :: sign :: Nat.toDigits 10 leading.natAbs

def write (layout : Layout) (decimal : Decimal) : List Char :=
  if layout.least ≤ decimal.leadingPower ∧ decimal.leadingPower ≤ layout.greatest then
    decimal.positional
  else decimal.scientific

end Decimal

end InterviewFlow
