/-!
# Binary64 magnitudes

The finite non-negative numbers of the binary64 format, `significand · 2 ^ exponent`,
and correctly rounded arithmetic on them. All of it is exact arithmetic on
natural numbers: a result is computed as a ratio and then rounded once, to the
nearest magnitude, ties to the even significand. Results beyond the greatest
finite magnitude are `none`.
-/

set_option autoImplicit false

namespace InterviewFlow

/-- The magnitude `significand · 2 ^ exponent`. Numbers built by `Binary64.nearest?` have a
significand of exactly 53 bits unless the exponent is least. -/
structure Binary64 where
  significand : Nat
  exponent : Int
deriving DecidableEq

namespace Binary64

def significandBound : Nat := 0x20000000000000

/-- The least significand at any exponent but the least one, `2 ^ 52`. -/
def leastNormal : Nat := 0x10000000000000

def leastExponent : Int := -1074

def greatestExponent : Int := 971

def zero : Binary64 :=
  ⟨0, leastExponent⟩

def isZero (magnitude : Binary64) : Bool :=
  magnitude.significand = 0

/-- The ratio `numerator / denominator · 2 ^ shift` as numerator and denominator. -/
def shiftRatio (numerator denominator : Nat) (shift : Int) : Nat × Nat :=
  if 0 ≤ shift then (numerator * Nat.pow 2 shift.toNat, denominator)
  else (numerator, denominator * Nat.pow 2 (-shift).toNat)

/-- The integer nearest to a ratio, a half going to the even neighbour. -/
def roundHalfEven (numerator denominator : Nat) : Nat :=
  let quotient := numerator / denominator
  let twice := 2 * (numerator % denominator)
  if twice < denominator ∨ (twice = denominator ∧ quotient % 2 = 0) then quotient
  else quotient + 1

/-- The exponent at which a positive ratio has a significand of 53 bits, or the least one. -/
def gridExponent (numerator denominator : Nat) : Int :=
  let guess : Int := (numerator.log2 : Int) - denominator.log2 - 53
  let scaled := shiftRatio numerator denominator (-guess)
  max leastExponent (if scaled.1 < significandBound * scaled.2 then guess else guess + 1)

/-- The magnitude nearest to a ratio, when it is finite. -/
def nearest? (numerator denominator : Nat) : Option Binary64 :=
  if numerator = 0 then some zero
  else
    let exponent := gridExponent numerator denominator
    let scaled := shiftRatio numerator denominator (-exponent)
    let significand := roundHalfEven scaled.1 scaled.2
    let rounded : Binary64 :=
      if significand = significandBound then ⟨leastNormal, exponent + 1⟩ else ⟨significand, exponent⟩
    if rounded.exponent ≤ greatestExponent then some rounded else none

def toRatio (magnitude : Binary64) : Nat × Nat :=
  shiftRatio magnitude.significand 1 magnitude.exponent

def times? (left right : Binary64) : Option Binary64 :=
  nearest? (left.toRatio.1 * right.toRatio.1) (left.toRatio.2 * right.toRatio.2)

def over? (left right : Binary64) : Option Binary64 :=
  nearest? (left.toRatio.1 * right.toRatio.2) (left.toRatio.2 * right.toRatio.1)

def powerOfTen? (power : Nat) : Option Binary64 :=
  nearest? (Nat.pow 10 power) 1

def greatestPowerOfTen : Nat := 308

/-- Divides by a power of ten; where the power is too great, first by `greatest`, the
magnitude of the greatest finite one, as often as needed. -/
def shrink? (greatest magnitude : Binary64) (power : Nat) : Option Binary64 :=
  if power ≤ greatestPowerOfTen then (powerOfTen? power).bind magnitude.over?
  else if magnitude.isZero then some zero
  else
    match magnitude.over? greatest with
    | none => none
    | some smaller => shrink? greatest smaller (power - greatestPowerOfTen)
termination_by power
decreasing_by
  simp only [greatestPowerOfTen] at *
  omega

/-- A significand scaled by a power of ten: rounded to a magnitude first, and again after
the multiplication or after each division. `none` where the result is not finite. -/
def ofScientific? (significand : Nat) (power : Int) : Option Binary64 := do
  let magnitude ← nearest? significand 1
  if power < 0 then
    let greatest ← powerOfTen? greatestPowerOfTen
    shrink? greatest magnitude (-power).toNat
  else if power ≤ greatestPowerOfTen then
    let scale ← powerOfTen? power.toNat
    magnitude.times? scale
  else if magnitude.isZero then some zero
  else none

end Binary64

end InterviewFlow
