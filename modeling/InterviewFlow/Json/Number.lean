import InterviewFlow.Decimal.Shortest

/-!
# Number literals

A number as it is spelled in JSON, and the text it stands for. A literal without
fraction and exponent that fits 64 bits, unsigned or, behind a minus sign,
signed and not zero, stands for its own digits. Every other literal stands for a
double. Its digits are collected into a 64-bit significand: digits of the whole
part that no longer fit only raise the power of ten, and digits of the fraction
are ignored from the first one on that does not fit.
-/

set_option autoImplicit false

namespace InterviewFlow

/-- A number as it is spelled. -/
structure NumberLiteral where
  negative : Bool
  whole : List Char
  fraction : Option (List Char)
  /-- Whether the exponent is negative, and its digits, where there is one. -/
  exponent : Option (Bool × List Char)
deriving DecidableEq

namespace NumberLiteral

/-! ## Spelling -/

def splitDigits (text : List Char) : List Char × List Char :=
  (text.takeWhile Char.isDigit, text.dropWhile Char.isDigit)

/-- Whether digits may stand before the point: at least one, and no zero before another digit. -/
def isWhole (digits : List Char) : Bool :=
  match digits with
  | [] => false
  | first :: rest => first ≠ '0' || rest.isEmpty

def scanFraction? (text : List Char) : Option (Option (List Char) × List Char) :=
  match text with
  | '.' :: rest =>
      let (digits, remaining) := splitDigits rest
      if digits.isEmpty then none else some (some digits, remaining)
  | other => some (none, other)

def scanSigned? (text : List Char) : Option ((Bool × List Char) × List Char) :=
  let (negative, unsigned) :=
    match text with
    | '-' :: rest => (true, rest)
    | '+' :: rest => (false, rest)
    | other => (false, other)
  let (digits, remaining) := splitDigits unsigned
  if digits.isEmpty then none else some ((negative, digits), remaining)

def scanExponent? (text : List Char) : Option (Option (Bool × List Char) × List Char) :=
  match text with
  | mark :: rest =>
      if mark = 'e' ∨ mark = 'E' then
        (scanSigned? rest).map fun found => (some found.1, found.2)
      else some (none, text)
  | [] => some (none, [])

def scan? (text : List Char) : Option (NumberLiteral × List Char) :=
  let (negative, unsigned) :=
    match text with
    | '-' :: rest => (true, rest)
    | other => (false, other)
  let (whole, afterWhole) := splitDigits unsigned
  if isWhole whole then do
    let (fraction, afterFraction) ← scanFraction? afterWhole
    let (exponent, remaining) ← scanExponent? afterFraction
    return (⟨negative, whole, fraction, exponent⟩, remaining)
  else none

/-- The literal as a text; exponents are marked `e` and signed only where negative. -/
def write (literal : NumberLiteral) : List Char :=
  (if literal.negative then ['-'] else []) ++ literal.whole
    ++ (match literal.fraction with
      | none => []
      | some digits => '.' :: digits)
    ++ (match literal.exponent with
      | none => []
      | some (negative, digits) => 'e' :: (if negative then '-' :: digits else digits))

/-! ## Meaning -/

/-- Significands stay below `2 ^ 64`. -/
def significandBound : Nat := 0x10000000000000000

/-- Appends digits to a significand as long as it stays below its bound, and answers the
digits from the first one on that did not fit. -/
def absorb (significand : Nat) : List Char → Nat × List Char
  | [] => (significand, [])
  | digit :: rest =>
      let longer := 10 * significand + (digit.toNat - '0'.toNat)
      if longer < significandBound then absorb longer rest else (significand, digit :: rest)

/-- The greatest exponent that is taken at its value, `2 ^ 31 - 1`. -/
def greatestExponent : Nat := 0x7FFFFFFF

/-- The magnitude of a literal read as a double, `none` where it is not finite. -/
def magnitude? (literal : NumberLiteral) : Option Binary64 :=
  let (whole, dropped) := absorb 0 literal.whole
  let fraction := literal.fraction.getD []
  let (significand, ignored) := absorb whole fraction
  let power : Int := dropped.length - (fraction.length - ignored.length : Nat)
  match literal.exponent with
  | none => Binary64.ofScientific? significand power
  | some (negative, digits) =>
      let exponent := Nat.ofDigitChars 10 digits 0
      if exponent ≤ greatestExponent then
        Binary64.ofScientific? significand
          (if negative then power - exponent else power + exponent)
      else if negative ∨ significand = 0 then some .zero
      else none

/-- Doubles are positional from `0.00001` to below `10 ^ 16`. -/
def doubleLayout : Decimal.Layout :=
  ⟨-5, 15⟩

/-- The text of a double: its shortest digits, and a zero as `0.0`, behind the sign. -/
def writeDouble (negative : Bool) (magnitude : Binary64) : List Char :=
  (if negative then ['-'] else [])
    ++ (if magnitude.isZero then ['0', '.', '0']
      else (Decimal.shortest magnitude).write doubleLayout)

/-- The greatest integer that may stand behind a minus sign, `2 ^ 63`. -/
def greatestNegated : Nat := 0x8000000000000000

/-- The integer a literal stands for digit by digit, where there is one. -/
def integer? (literal : NumberLiteral) : Option Nat :=
  match literal.fraction, literal.exponent, absorb 0 literal.whole with
  | none, none, (value, []) =>
      if literal.negative then
        if 0 < value ∧ value ≤ greatestNegated then some value else none
      else some value
  | _, _, _ => none

/-- The text a literal stands for, `none` where its value is not finite. -/
def text? (literal : NumberLiteral) : Option String :=
  match literal.integer? with
  | some value =>
      some (String.ofList ((if literal.negative then ['-'] else []) ++ Nat.toDigits 10 value))
  | none =>
      literal.magnitude?.map fun magnitude =>
        String.ofList (writeDouble literal.negative magnitude)

end NumberLiteral

end InterviewFlow
