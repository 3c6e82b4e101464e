import InterviewFlow.Proofs.Lexemes
import Mathlib.Algebra.Group.Int.Defs
import Mathlib.Algebra.Group.Nat.Defs

/-! The texts of number literals. The digits of an integer that fits 64 bits all go into the
significand, and are printed again as they were spelled, since no zero comes first. Any other
literal stands for a double, and the text of a double always has a point or an exponent. -/

set_option autoImplicit false

namespace InterviewFlow

namespace NumberLiteral

/-! ## Digits and their value -/

theorem digitChar_of_isDigit {digit : Char} (isDigit : digit.isDigit = true) :
    digit.toNat - '0'.toNat < 10 ∧ Nat.digitChar (digit.toNat - '0'.toNat) = digit := by
  obtain ⟨least, greatest⟩ := Char.isDigit_iff_toNat.1 isDigit
  have zero : '0'.toNat = 48 := rfl
  have nine : '9'.toNat = 57 := rfl
  have small : digit.toNat - '0'.toNat < 10 := by omega
  refine ⟨small, Char.toNat_inj.1 ?_⟩
  rw [Nat.toNat_digitChar_of_lt_ten small]
  omega

/-- Behind a value that is not zero, digits are printed as they were read. -/
theorem toDigits_ofDigitChars_of_pos {digits : List Char}
    (all : ∀ digit ∈ digits, digit.isDigit = true) {value : Nat} (positive : 0 < value) :
    Nat.toDigits 10 (Nat.ofDigitChars 10 digits value) = Nat.toDigits 10 value ++ digits := by
  induction digits generalizing value with
  | nil => rw [Nat.ofDigitChars_nil, List.append_nil]
  | cons digit rest ih =>
      obtain ⟨first, others⟩ := List.forall_mem_cons.1 all
      obtain ⟨small, same⟩ := digitChar_of_isDigit first
      have grown : 0 < 10 * value + (digit.toNat - '0'.toNat) := by omega
      calc Nat.toDigits 10 (Nat.ofDigitChars 10 (digit :: rest) value)
          = Nat.toDigits 10 (10 * value + (digit.toNat - '0'.toNat)) ++ rest := by
            rw [Nat.ofDigitChars_cons, ih others grown]
        _ = Nat.toDigits 10 value ++ Nat.toDigits 10 (digit.toNat - '0'.toNat) ++ rest := by
            rw [Nat.toDigits_append_toDigits (by decide) positive small]
        _ = Nat.toDigits 10 value ++ digit :: rest := by
            rw [Nat.toDigits_of_lt_base small, same, List.append_assoc, List.singleton_append]

theorem toDigits_ofDigitChars {digits : List Char} (whole : IsWholePart digits) :
    Nat.toDigits 10 (Nat.ofDigitChars 10 digits 0) = digits := by
  obtain ⟨⟨nonempty, all⟩, leading⟩ := whole
  obtain ⟨first, rest, rfl⟩ := List.exists_cons_of_ne_nil nonempty
  obtain ⟨isDigit, others⟩ := List.forall_mem_cons.1 all
  obtain ⟨small, same⟩ := digitChar_of_isDigit isDigit
  rw [Nat.ofDigitChars_cons, Nat.mul_zero, Nat.zero_add]
  by_cases zero : first = '0'
  · subst zero
    rw [leading rest rfl]
    rfl
  · have positive : 0 < first.toNat - '0'.toNat := by
      refine Nat.pos_of_ne_zero fun none => zero ?_
      rw [none] at same
      exact same.symm
    rw [toDigits_ofDigitChars_of_pos others positive, Nat.toDigits_of_lt_base small, same,
      List.singleton_append]

theorem le_ofDigitChars (digits : List Char) (value : Nat) :
    value ≤ Nat.ofDigitChars 10 digits value := by
  calc value ≤ 10 ^ digits.length * value :=
        Nat.le_mul_of_pos_left value (Nat.pow_pos (by decide))
    _ ≤ 10 ^ digits.length * value + Nat.ofDigitChars 10 digits 0 := Nat.le_add_right _ _
    _ = Nat.ofDigitChars 10 digits value := Nat.ofDigitChars_eq_ofDigitChars_zero.symm

/-- All digits are absorbed exactly if their value fits. -/
theorem absorb_eq_iff {digits : List Char} {significand value : Nat}
    (fits : significand < significandBound) :
    absorb significand digits = (value, []) ↔
      value = Nat.ofDigitChars 10 digits significand ∧ value < significandBound := by
  induction digits generalizing significand with
  | nil =>
      rw [absorb, Nat.ofDigitChars_nil]
      constructor
      · intro same
        cases same
        exact ⟨rfl, fits⟩
      · rintro ⟨rfl, _⟩
        rfl
  | cons digit rest ih =>
      rw [absorb, Nat.ofDigitChars_cons]
      split
      · next longer => exact ih longer
      · next tooLong =>
          have grows := le_ofDigitChars rest (10 * significand + (digit.toNat - '0'.toNat))
          constructor
          · intro same
            cases same
          · rintro ⟨rfl, small⟩
            exact absurd (Nat.lt_of_le_of_lt grows small) tooLong

/-- Literals without fraction and exponent whose value fits 64 bits stand for their digits;
behind a minus sign the value is signed and not zero. -/
theorem integer?_eq_some_iff {literal : NumberLiteral} {value : Nat} :
    literal.integer? = some value ↔
      (literal.fraction = none ∧ literal.exponent = none) ∧
      value = Nat.ofDigitChars 10 literal.whole 0 ∧
      if literal.negative then 0 < value ∧ value ≤ 2 ^ 63 else value < 2 ^ 64 := by
  have absorbed : ∀ value, absorb 0 literal.whole = (value, []) ↔
      value = Nat.ofDigitChars 10 literal.whole 0 ∧ value < 2 ^ 64 :=
    fun value => absorb_eq_iff (by decide)
  unfold integer?
  split
  · next found noFraction noExponent all =>
      obtain ⟨rfl, fits⟩ := (absorbed found).1 all
      have plain : literal.fraction = none ∧ literal.exponent = none := ⟨noFraction, noExponent⟩
      rw [and_iff_right plain]
      cases literal.negative with
      | false =>
          rw [if_neg Bool.false_ne_true, if_neg Bool.false_ne_true, Option.some.injEq]
          constructor
          · rintro rfl
            exact ⟨rfl, fits⟩
          · exact fun same => same.1.symm
      | true =>
          rw [if_pos rfl, if_pos rfl]
          split
          · next inRange =>
              rw [Option.some.injEq]
              constructor
              · rintro rfl
                exact ⟨rfl, inRange⟩
              · exact fun same => same.1.symm
          · next outside =>
              refine iff_of_false nofun ?_
              rintro ⟨rfl, inRange⟩
              exact outside inRange
  · next other =>
      refine iff_of_false nofun ?_
      rintro ⟨⟨noFraction, noExponent⟩, same, inRange⟩
      have fits : value < 2 ^ 64 := by
        split at inRange
        · exact Nat.lt_of_le_of_lt inRange.2 (by decide)
        · exact inRange
      exact other value noFraction noExponent ((absorbed value).2 ⟨same, fits⟩)

/-! ## Integers -/

/-- The integer that digits stand for, behind a minus sign or without one. -/
inductive SpellsInteger : List Char → Int → Prop where
  | signed {negative : Bool} {digits : List Char} :
      IsWholePart digits →
      SpellsInteger ((if negative then ['-'] else []) ++ digits)
        (if negative then -(Nat.ofDigitChars 10 digits 0 : Int) else Nat.ofDigitChars 10 digits 0)

/-- The word is an integer of 64 bits, with or without a sign, and not the negative zero. -/
def FitsWord (word : List Char) : Prop :=
  word ≠ ['-', '0'] ∧
    ∃ integer, SpellsInteger word integer ∧ -2 ^ 63 ≤ integer ∧ integer ≤ 2 ^ 64 - 1

theorem SpelledBy.unique {literal other : NumberLiteral} {word : List Char}
    (spelled : literal.SpelledBy word) (otherSpelled : other.SpelledBy word) :
    literal = other := by
  have ends : EndsNumber [] := nofun
  have read := (scan?_append spelled ends).symm.trans (scan?_append otherSpelled ends)
  cases read
  rfl

variable {literal : NumberLiteral} {word : List Char}

theorem SpelledBy.plain (spelled : literal.SpelledBy word)
    (plain : literal.fraction = none ∧ literal.exponent = none) :
    IsWholePart literal.whole ∧
      word = (if literal.negative then ['-'] else []) ++ literal.whole := by
  obtain ⟨noFraction, noExponent⟩ := plain
  cases spelled with
  | parts wholePart fractionSpelled exponentSpelled =>
      dsimp only at noFraction noExponent
      subst noFraction noExponent
      cases fractionSpelled
      cases exponentSpelled
      exact ⟨wholePart, by simp⟩

/-- The words of integers are those of literals without fraction and exponent. -/
theorem spellsInteger_iff (spelled : literal.SpelledBy word) {integer : Int} :
    SpellsInteger word integer ↔
      (literal.fraction = none ∧ literal.exponent = none) ∧
      integer = if literal.negative then -(Nat.ofDigitChars 10 literal.whole 0 : Int)
        else Nat.ofDigitChars 10 literal.whole 0 := by
  constructor
  · intro spells
    cases spells with
    | @signed negative digits whole =>
        have own := @SpelledBy.parts negative _ _ _ _ _ whole .absent .absent
        rw [List.append_nil, List.append_nil] at own
        cases spelled.unique own
        exact ⟨⟨rfl, rfl⟩, rfl⟩
  · rintro ⟨plain, rfl⟩
    obtain ⟨wholePart, rfl⟩ := spelled.plain plain
    exact .signed wholePart

theorem eq_negativeZero_iff (spelled : literal.SpelledBy word)
    (plain : literal.fraction = none ∧ literal.exponent = none) :
    word = ['-', '0'] ↔
      literal.negative = true ∧ Nat.ofDigitChars 10 literal.whole 0 = 0 := by
  obtain ⟨wholePart, rfl⟩ := spelled.plain plain
  constructor
  · intro same
    cases negative : literal.negative with
    | false =>
        have digits : literal.whole = ['-', '0'] := by rwa [negative] at same
        have minus := wholePart.1.2 '-' (by rw [digits]; exact .head _)
        exact absurd minus (by decide)
    | true =>
        rw [negative] at same
        have digits : literal.whole = ['0'] := (List.cons.inj same).2
        exact ⟨rfl, by rw [digits]; rfl⟩
  · intro ⟨negative, zero⟩
    have digits := toDigits_ofDigitChars wholePart
    rw [zero, Nat.toDigits_zero] at digits
    rw [negative, ← digits]
    rfl

theorem inRange_iff (negative : Bool) (value : Nat) :
    (¬ (negative = true ∧ value = 0) ∧
        -2 ^ 63 ≤ (if negative then -(value : Int) else value) ∧
        (if negative then -(value : Int) else value) ≤ 2 ^ 64 - 1) ↔
      if negative then 0 < value ∧ value ≤ 2 ^ 63 else value < 2 ^ 64 := by
  cases negative with
  | false =>
      simp only [Bool.false_eq_true, false_and, not_false_eq_true, true_and, ↓reduceIte]
      omega
  | true =>
      simp only [true_and, ↓reduceIte]
      omega

theorem fitsWord_iff (spelled : literal.SpelledBy word) :
    FitsWord word ↔ ∃ value, literal.integer? = some value := by
  constructor
  · intro ⟨notZero, integer, spells, bounds⟩
    obtain ⟨plain, rfl⟩ := (spellsInteger_iff spelled).1 spells
    rw [ne_eq, eq_negativeZero_iff spelled plain] at notZero
    exact ⟨_, integer?_eq_some_iff.2 ⟨plain, rfl, (inRange_iff _ _).1 ⟨notZero, bounds⟩⟩⟩
  · intro ⟨value, found⟩
    obtain ⟨plain, rfl, inRange⟩ := integer?_eq_some_iff.1 found
    obtain ⟨notZero, bounds⟩ := (inRange_iff _ _).2 inRange
    rw [← eq_negativeZero_iff spelled plain] at notZero
    exact ⟨notZero, _, (spellsInteger_iff spelled).2 ⟨plain, rfl⟩, bounds⟩

theorem text?_of_fitsWord (spelled : literal.SpelledBy word) (fits : FitsWord word) :
    literal.text? = some (String.ofList word) := by
  obtain ⟨value, found⟩ := (fitsWord_iff spelled).1 fits
  obtain ⟨plain, rfl, _⟩ := integer?_eq_some_iff.1 found
  obtain ⟨wholePart, rfl⟩ := spelled.plain plain
  rw [text?, found]
  dsimp only
  rw [toDigits_ofDigitChars wholePart]

theorem SpellsInteger.point_and_mark_not_mem {integer : Int} (spells : SpellsInteger word integer) :
    '.' ∉ word ∧ 'e' ∉ word := by
  have parts : ∀ character ∈ word, character = '-' ∨ character.isDigit = true := by
    cases spells with
    | @signed negative digits whole =>
        intro character member
        rcases List.mem_append.1 member with sign | digit
        · split at sign
          · exact .inl (List.mem_singleton.1 sign)
          · cases sign
        · exact .inr (whole.1.2 character digit)
  exact ⟨fun point => absurd (parts '.' point) (by decide),
    fun mark => absurd (parts 'e' mark) (by decide)⟩

end NumberLiteral

/-! ## Doubles -/

namespace Decimal

theorem point_mem_positional (decimal : Decimal) : '.' ∈ decimal.positional := by
  unfold positional
  dsimp only
  split <;> simp

theorem mark_mem_scientific (decimal : Decimal) : 'e' ∈ decimal.scientific := by
  unfold scientific
  dsimp only
  simp

theorem point_or_mark_mem_write (layout : Layout) (decimal : Decimal) :
    '.' ∈ decimal.write layout ∨ 'e' ∈ decimal.write layout := by
  unfold write
  split
  · exact .inl decimal.point_mem_positional
  · exact .inr decimal.mark_mem_scientific

end Decimal

namespace NumberLiteral

theorem point_or_mark_mem_writeDouble (negative : Bool) (magnitude : Binary64) :
    '.' ∈ writeDouble negative magnitude ∨ 'e' ∈ writeDouble negative magnitude := by
  unfold writeDouble
  rw [List.mem_append, List.mem_append]
  by_cases zero : magnitude.isZero = true
  · rw [if_pos zero]
    exact .inl (.inr (by decide))
  · rw [if_neg zero]
    exact (Decimal.point_or_mark_mem_write _ _).imp .inr .inr

theorem point_or_mark_mem_of_text? {literal : NumberLiteral} {text : String}
    (noInteger : literal.integer? = none) (read : literal.text? = some text) :
    '.' ∈ text.toList ∨ 'e' ∈ text.toList := by
  rw [text?, noInteger] at read
  obtain ⟨magnitude, _, rfl⟩ := Option.map_eq_some_iff.1 read
  rw [String.toList_ofList]
  exact point_or_mark_mem_writeDouble _ _

/-! ## Texts of literals -/

/-- Integers that fit a word of 64 bits keep their spelling. Everything else gets a point or an
exponent, which no integer has. -/
theorem verbatim_of_text? {literal : NumberLiteral} {word : List Char} {text : String}
    (spelled : literal.SpelledBy word) (read : literal.text? = some text) :
    (FitsWord word → text = String.ofList word) ∧
    (¬ FitsWord word → '.' ∈ text.toList ∨ 'e' ∈ text.toList) ∧
    ∀ integer, SpellsInteger word integer → ¬ FitsWord word → text ≠ String.ofList word := by
  have marked : ¬ FitsWord word → '.' ∈ text.toList ∨ 'e' ∈ text.toList := by
    intro outside
    refine point_or_mark_mem_of_text? (Option.eq_none_iff_forall_ne_some.2 ?_) read
    exact fun value found => outside ((fitsWord_iff spelled).2 ⟨value, found⟩)
  refine ⟨?_, marked, ?_⟩
  · intro fits
    rw [text?_of_fitsWord spelled fits] at read
    exact (Option.some.inj read).symm
  · intro integer spells outside same
    have found := marked outside
    rw [same, String.toList_ofList] at found
    obtain ⟨noPoint, noMark⟩ := spells.point_and_mark_not_mem
    exact found.elim noPoint noMark

end NumberLiteral

end InterviewFlow
