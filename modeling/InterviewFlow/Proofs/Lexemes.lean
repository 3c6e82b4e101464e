import InterviewFlow.Proofs.JsonText
import Mathlib.Data.List.Forall2
import Mathlib.Data.List.TakeWhile

/-! The spelling of JSON tokens, as relations between a token and a word. A word may be
scanned in front of any text, except that a number needs a text that does not go on
with the number. The scanners take exactly the words of these relations. -/

set_option autoImplicit false

namespace InterviewFlow

/-! ## Numbers -/

namespace NumberLiteral

/-- Digits, at least one. -/
def IsDigits (word : List Char) : Prop :=
  word ≠ [] ∧ ∀ digit ∈ word, digit.isDigit = true

/-- Digits that may stand before the point: a zero comes first only if it is alone. -/
def IsWholePart (word : List Char) : Prop :=
  IsDigits word ∧ ∀ rest, word = '0' :: rest → rest = []

inductive SpelledFraction : Option (List Char) → List Char → Prop where
  | absent : SpelledFraction none []
  | present {digits : List Char} : IsDigits digits → SpelledFraction (some digits) ('.' :: digits)

/-- The sign of an exponent; without one it is positive. -/
inductive SpelledSign : Bool → List Char → Prop where
  | absent : SpelledSign false []
  | plus : SpelledSign false ['+']
  | minus : SpelledSign true ['-']

inductive SpelledExponent : Option (Bool × List Char) → List Char → Prop where
  | absent : SpelledExponent none []
  | present {mark : Char} {negative : Bool} {sign digits : List Char} :
      mark = 'e' ∨ mark = 'E' → SpelledSign negative sign → IsDigits digits →
      SpelledExponent (some (negative, digits)) (mark :: sign ++ digits)

inductive SpelledBy : NumberLiteral → List Char → Prop where
  | parts {negative : Bool} {whole fractionWord exponentWord : List Char}
      {fraction : Option (List Char)} {exponent : Option (Bool × List Char)} :
      IsWholePart whole → SpelledFraction fraction fractionWord →
      SpelledExponent exponent exponentWord →
      SpelledBy ⟨negative, whole, fraction, exponent⟩
        ((if negative then ['-'] else []) ++ whole ++ fractionWord ++ exponentWord)

/-- The text does not go on with digits. -/
def EndsDigits (rest : List Char) : Prop :=
  ∀ next behind, rest = next :: behind → next.isDigit = false

/-- The text does not go on with digits or a fraction. -/
def EndsFraction (rest : List Char) : Prop :=
  ∀ next behind, rest = next :: behind → next.isDigit = false ∧ next ≠ '.'

/-- The text does not go on with digits, a fraction or an exponent. -/
def EndsNumber (rest : List Char) : Prop :=
  ∀ next behind, rest = next :: behind →
    next.isDigit = false ∧ next ≠ '.' ∧ next ≠ 'e' ∧ next ≠ 'E'

theorem splitDigits_eq (text : List Char) : ∃ digits rest,
    splitDigits text = (digits, rest) ∧ text = digits ++ rest ∧
      ∀ digit ∈ digits, digit.isDigit = true :=
  ⟨_, _, rfl, List.takeWhile_append_dropWhile.symm, fun _ member => List.mem_takeWhile_imp member⟩

theorem splitDigits_append {digits rest : List Char}
    (all : ∀ digit ∈ digits, digit.isDigit = true) (ends : EndsDigits rest) :
    splitDigits (digits ++ rest) = (digits, rest) := by
  have restTaken : rest.takeWhile Char.isDigit = [] := by
    cases rest with
    | nil => rfl
    | cons next behind => simp [ends next behind rfl]
  have restDropped : rest.dropWhile Char.isDigit = rest := by
    cases rest with
    | nil => rfl
    | cons next behind => simp [ends next behind rfl]
  rw [splitDigits, List.takeWhile_append_of_pos all, List.dropWhile_append_of_pos all, restTaken,
    restDropped, List.append_nil]

theorem isWhole_iff {digits : List Char} (all : ∀ digit ∈ digits, digit.isDigit = true) :
    isWhole digits = true ↔ IsWholePart digits := by
  cases digits with
  | nil => simp [isWhole, IsWholePart, IsDigits]
  | cons first rest =>
      have some_digit : IsDigits (first :: rest) := ⟨List.cons_ne_nil first rest, all⟩
      rw [isWhole, IsWholePart, and_iff_right some_digit]
      by_cases zero : first = '0' <;> simp [zero]

theorem scanFraction?_eq_some {text rest : List Char} {fraction : Option (List Char)}
    (scanned : scanFraction? text = some (fraction, rest)) :
    ∃ word, SpelledFraction fraction word ∧ text = word ++ rest := by
  unfold scanFraction? at scanned
  split at scanned
  · next text =>
      obtain ⟨digits, remaining, split, same, all⟩ := splitDigits_eq text
      simp only [split] at scanned
      split at scanned
      · cases scanned
      · next nonempty =>
          obtain ⟨rfl, rfl⟩ := Prod.mk.inj (Option.some.inj scanned)
          refine ⟨'.' :: digits, .present ⟨?_, all⟩, by rw [same, List.cons_append]⟩
          exact fun none => nonempty (List.isEmpty_iff.2 none)
  · obtain ⟨rfl, rfl⟩ := Prod.mk.inj (Option.some.inj scanned)
    exact ⟨[], .absent, rfl⟩

theorem scanSigned?_eq_some {text rest digits : List Char} {negative : Bool}
    (scanned : scanSigned? text = some ((negative, digits), rest)) :
    ∃ sign, SpelledSign negative sign ∧ IsDigits digits ∧ text = sign ++ digits ++ rest := by
  have unsigned : ∀ found behind, (if (splitDigits behind).1.isEmpty then none
      else some ((found, (splitDigits behind).1), (splitDigits behind).2)) =
        some ((negative, digits), rest) →
      found = negative ∧ IsDigits digits ∧ behind = digits ++ rest := by
    intro found behind read
    obtain ⟨taken, remaining, split, same, all⟩ := splitDigits_eq behind
    rw [split] at read
    split at read
    · cases read
    · next nonempty =>
        cases read
        exact ⟨rfl, ⟨fun none => nonempty (List.isEmpty_iff.2 none), all⟩, same⟩
  unfold scanSigned? at scanned
  split at scanned
  next found behind signed =>
  obtain ⟨rfl, some_digit, rfl⟩ := unsigned _ _ scanned
  split at signed
  · cases signed
    exact ⟨['-'], .minus, some_digit, rfl⟩
  · cases signed
    exact ⟨['+'], .plus, some_digit, rfl⟩
  · cases signed
    exact ⟨[], .absent, some_digit, rfl⟩

theorem scanExponent?_eq_some {text rest : List Char} {exponent : Option (Bool × List Char)}
    (scanned : scanExponent? text = some (exponent, rest)) :
    ∃ word, SpelledExponent exponent word ∧ text = word ++ rest := by
  unfold scanExponent? at scanned
  split at scanned
  · next mark behind =>
      split at scanned
      · next marked =>
          obtain ⟨⟨⟨negative, digits⟩, remaining⟩, signed, same⟩ := Option.map_eq_some_iff.1 scanned
          obtain ⟨rfl, rfl⟩ := Prod.mk.inj same
          obtain ⟨sign, spelled, some_digit, rfl⟩ := scanSigned?_eq_some signed
          exact ⟨mark :: sign ++ digits, .present marked spelled some_digit, rfl⟩
      · obtain ⟨rfl, rfl⟩ := Prod.mk.inj (Option.some.inj scanned)
        exact ⟨[], .absent, rfl⟩
  · obtain ⟨rfl, rfl⟩ := Prod.mk.inj (Option.some.inj scanned)
    exact ⟨[], .absent, rfl⟩

theorem scan?_eq_some {text rest : List Char} {literal : NumberLiteral}
    (scanned : scan? text = some (literal, rest)) :
    ∃ word, literal.SpelledBy word ∧ text = word ++ rest := by
  unfold scan? at scanned
  split at scanned
  next negative unsigned signed =>
  have sign : text = (if negative then ['-'] else []) ++ unsigned := by
    split at signed <;> cases signed <;> rfl
  obtain ⟨whole, afterWhole, split, same, all⟩ := splitDigits_eq unsigned
  simp only [split] at scanned
  split at scanned
  · next accepted =>
      obtain ⟨⟨fraction, afterFraction⟩, fractionRead, scanned⟩ := Option.bind_eq_some_iff.1 scanned
      obtain ⟨⟨exponent, remaining⟩, exponentRead, scanned⟩ := Option.bind_eq_some_iff.1 scanned
      cases scanned
      obtain ⟨fractionWord, fractionSpelled, rfl⟩ := scanFraction?_eq_some fractionRead
      obtain ⟨exponentWord, exponentSpelled, rfl⟩ := scanExponent?_eq_some exponentRead
      refine ⟨_, .parts ((isWhole_iff all).1 accepted) fractionSpelled exponentSpelled, ?_⟩
      rw [sign, same]
      simp only [List.append_assoc]
  · cases scanned

theorem SpelledExponent.endsFraction {exponent : Option (Bool × List Char)}
    {word rest : List Char} (spelled : SpelledExponent exponent word) (ends : EndsNumber rest) :
    EndsFraction (word ++ rest) := by
  intro next behind same
  cases spelled with
  | absent =>
      obtain ⟨digit, point, _⟩ := ends next behind same
      exact ⟨digit, point⟩
  | present marked _ _ =>
      cases same
      rcases marked with rfl | rfl <;> decide

theorem SpelledFraction.endsDigits {fraction : Option (List Char)} {word rest : List Char}
    (spelled : SpelledFraction fraction word) (ends : EndsFraction rest) :
    EndsDigits (word ++ rest) := by
  intro next behind same
  cases spelled with
  | absent => exact (ends next behind same).1
  | present _ =>
      cases same
      rfl

theorem scanFraction?_append {fraction : Option (List Char)} {word rest : List Char}
    (spelled : SpelledFraction fraction word) (ends : EndsFraction rest) :
    scanFraction? (word ++ rest) = some (fraction, rest) := by
  cases spelled with
  | absent =>
      rw [List.nil_append, scanFraction?]
      intro behind same
      exact (ends _ _ same).2 rfl
  | present some_digit =>
      have endsDigits : EndsDigits rest := fun next behind same => (ends next behind same).1
      rw [List.cons_append, scanFraction?, splitDigits_append some_digit.2 endsDigits]
      simp [some_digit.1]

theorem scanSigned?_append {negative : Bool} {sign digits rest : List Char}
    (spelled : SpelledSign negative sign) (some_digit : IsDigits digits)
    (ends : EndsDigits rest) :
    scanSigned? (sign ++ digits ++ rest) = some ((negative, digits), rest) := by
  have digitsRead := splitDigits_append some_digit.2 ends
  cases spelled with
  | plus => simp [scanSigned?, digitsRead, some_digit.1]
  | minus => simp [scanSigned?, digitsRead, some_digit.1]
  | absent =>
      obtain ⟨first, others, rfl⟩ := List.exists_cons_of_ne_nil some_digit.1
      have digit : first.isDigit = true := some_digit.2 first (.head _)
      have notMinus : first ≠ '-' := fun same => by simp [same] at digit
      have notPlus : first ≠ '+' := fun same => by simp [same] at digit
      simp only [List.nil_append, List.cons_append] at digitsRead ⊢
      unfold scanSigned?
      split
      next found behind split =>
      split at split
      · next same => exact absurd (List.cons.inj same).1 notMinus
      · next same => exact absurd (List.cons.inj same).1 notPlus
      · cases split
        simp [digitsRead]

theorem scanExponent?_append {exponent : Option (Bool × List Char)} {word rest : List Char}
    (spelled : SpelledExponent exponent word) (ends : EndsNumber rest) :
    scanExponent? (word ++ rest) = some (exponent, rest) := by
  cases spelled with
  | absent =>
      cases rest with
      | nil => rfl
      | cons next behind =>
          obtain ⟨_, _, small, large⟩ := ends next behind rfl
          simp [scanExponent?, small, large]
  | present marked signed some_digit =>
      have endsDigits : EndsDigits rest := fun next behind same => (ends next behind same).1
      rw [List.cons_append, List.cons_append, scanExponent?, if_pos marked,
        scanSigned?_append signed some_digit endsDigits]
      rfl

theorem scan?_append {literal : NumberLiteral} {word rest : List Char}
    (spelled : literal.SpelledBy word) (ends : EndsNumber rest) :
    scan? (word ++ rest) = some (literal, rest) := by
  cases spelled with
  | @parts negative whole fractionWord exponentWord fraction exponent wholePart fractionSpelled
      exponentSpelled =>
    have endsFraction := exponentSpelled.endsFraction ends
    have wholeRead := splitDigits_append wholePart.1.2 (fractionSpelled.endsDigits endsFraction)
    have fractionRead := scanFraction?_append fractionSpelled endsFraction
    have exponentRead := scanExponent?_append exponentSpelled ends
    have accepted := (isWhole_iff wholePart.1.2).2 wholePart
    obtain ⟨first, others, rfl⟩ := List.exists_cons_of_ne_nil wholePart.1.1
    have digit : first.isDigit = true := wholePart.1.2 first (.head _)
    have notMinus : first ≠ '-' := fun same => by simp [same] at digit
    unfold scan?
    split
    next found unsigned split =>
    have signed : found = negative ∧
        unsigned = first :: others ++ (fractionWord ++ (exponentWord ++ rest)) := by
      cases negative with
      | true =>
          cases split
          simp
      | false =>
          simp only [Bool.false_eq_true, ↓reduceIte, List.nil_append, List.cons_append] at split
          split at split
          · next same => exact absurd (List.cons.inj same).1 notMinus
          · cases split
            simp
    obtain ⟨rfl, rfl⟩ := signed
    rw [wholeRead]
    simp [accepted, fractionRead, exponentRead]

theorem SpelledBy.first {literal : NumberLiteral} {word : List Char}
    (spelled : literal.SpelledBy word) :
    ∃ first others, word = first :: others ∧ (first = '-' ∨ first.isDigit = true) := by
  cases spelled with
  | @parts negative _ _ _ _ _ wholePart _ _ =>
    cases negative with
    | true => exact ⟨_, _, rfl, .inl rfl⟩
    | false =>
        obtain ⟨first, others, rfl⟩ := List.exists_cons_of_ne_nil wholePart.1.1
        exact ⟨_, _, rfl, .inr (wholePart.1.2 first (.head _))⟩

end NumberLiteral

namespace Token

/-! ## String literals -/

/-- A character as it is, a short escape, or a code of four hexadecimal digits. -/
inductive TextUnit.SpelledBy : TextUnit → List Char → Prop where
  | plain {character : Char} :
      0x20 ≤ character.toNat → character ≠ '"' → character ≠ '\\' →
      SpelledBy (.char character) [character]
  | escape {mark character : Char} :
      shortEscape? mark = some character → SpelledBy (.char character) ['\\', mark]
  | code {first second third fourth : Char} {value : Nat} :
      hexValue? 0 [first, second, third, fourth] = some value →
      SpelledBy (.code value) ['\\', 'u', first, second, third, fourth]

/-- The characters that units stand for. A code stands for a character unless it is half of
a surrogate pair; the two halves of a pair stand for one character. -/
inductive Denotes : List TextUnit → List Char → Prop where
  | nil : Denotes [] []
  | char {character : Char} {units : List TextUnit} {characters : List Char} :
      Denotes units characters → Denotes (.char character :: units) (character :: characters)
  | code {value : Nat} {units : List TextUnit} {characters : List Char} :
      isHighSurrogate value = false → isLowSurrogate value = false → Denotes units characters →
      Denotes (.code value :: units) (Char.ofNat value :: characters)
  | pair {high low : Nat} {units : List TextUnit} {characters : List Char} :
      isHighSurrogate high = true → isLowSurrogate low = true → Denotes units characters →
      Denotes (.code high :: .code low :: units) (Char.ofNat (pairedCode high low) :: characters)

theorem scanUnits?_append {unit : TextUnit} {word : List Char} (spelled : unit.SpelledBy word)
    (rest : List Char) : scanUnits? (word ++ rest) =
      (scanUnits? rest).map fun found => (unit :: found.1, found.2) := by
  cases spelled with
  | plain visible notQuote notBackslash =>
      rw [List.singleton_append, scanUnits?, if_neg (Nat.not_lt_of_le visible)]
      · exact notQuote
      · intro _ _ _ _ _ backslash
        exact absurd backslash notBackslash
      · intro _ _ backslash
        exact absurd backslash notBackslash
  | @escape mark character short =>
      have notCode : mark ≠ 'u' := by
        rintro rfl
        cases short
      simp [scanUnits?, short, notCode]
  | code read => simp [scanUnits?, read]

theorem scanUnits?_flatten {units : List TextUnit} {words : List (List Char)}
    (spelled : List.Forall₂ TextUnit.SpelledBy units words) (rest : List Char) :
    scanUnits? (words.flatten ++ '"' :: rest) = some (units, rest) := by
  induction spelled with
  | nil => simp [scanUnits?]
  | cons first _ ih =>
      rw [List.flatten_cons, List.append_assoc, scanUnits?_append first, ih, Option.map_some]

theorem scanUnits?_eq_some {text rest : List Char} {units : List TextUnit}
    (scanned : scanUnits? text = some (units, rest)) :
    ∃ words, List.Forall₂ TextUnit.SpelledBy units words ∧
      text = words.flatten ++ '"' :: rest := by
  fun_induction scanUnits? text generalizing units with
  | case1 => cases scanned
  | case2 =>
      cases scanned
      exact ⟨[], .nil, rfl⟩
  | case3 => cases scanned
  | case4 first second third fourth behind value read ih =>
      obtain ⟨found, inner, same⟩ := Option.map_eq_some_iff.1 scanned
      cases same
      obtain ⟨words, spelled, rfl⟩ := ih inner
      exact ⟨_ :: words, .cons (.code read) spelled, rfl⟩
  | case5 => cases scanned
  | case6 mark behind _ character short ih =>
      obtain ⟨found, inner, same⟩ := Option.map_eq_some_iff.1 scanned
      cases same
      obtain ⟨words, spelled, rfl⟩ := ih inner
      exact ⟨_ :: words, .cons (.escape short) spelled, rfl⟩
  | case7 => cases scanned
  | case8 character behind notQuote notCode notEscape visible ih =>
      obtain ⟨found, inner, same⟩ := Option.map_eq_some_iff.1 scanned
      cases same
      obtain ⟨words, spelled, rfl⟩ := ih inner
      have notBackslash : character ≠ '\\' := by
        intro backslash
        obtain ⟨mark, others, same⟩ := List.exists_cons_of_ne_nil
          (List.append_ne_nil_of_right_ne_nil words.flatten (List.cons_ne_nil '"' found.2))
        exact notEscape mark others backslash same
      exact ⟨_ :: words, .cons (.plain (Nat.not_lt.1 visible) notQuote notBackslash) spelled, rfl⟩

theorem decodeUnits?_eq_some_iff {units : List TextUnit} {characters : List Char} :
    decodeUnits? units = some characters ↔ Denotes units characters := by
  constructor
  · intro decoded
    fun_induction decodeUnits? units generalizing characters with
    | case1 =>
        cases decoded
        exact .nil
    | case2 character rest ih =>
        obtain ⟨below, inner, rfl⟩ := Option.map_eq_some_iff.1 decoded
        exact .char (ih inner)
    | case3 high low rest isHigh isLow ih =>
        obtain ⟨below, inner, rfl⟩ := Option.map_eq_some_iff.1 decoded
        exact .pair isHigh isLow (ih inner)
    | case4 => cases decoded
    | case5 => cases decoded
    | case6 high low rest notHigh notLow ih =>
        obtain ⟨below, inner, rfl⟩ := Option.map_eq_some_iff.1 decoded
        exact .code (Bool.eq_false_iff.2 notHigh) (Bool.eq_false_iff.2 notLow) (ih inner)
    | case7 => cases decoded
    | case8 value rest _ alone ih =>
        obtain ⟨below, inner, rfl⟩ := Option.map_eq_some_iff.1 decoded
        obtain ⟨notHigh, notLow⟩ := Bool.or_eq_false_iff.1 (Bool.eq_false_iff.2 alone)
        exact .code notHigh notLow (ih inner)
  · intro denotes
    induction denotes with
    | nil => rfl
    | char _ ih => rw [decodeUnits?, ih, Option.map_some]
    | pair isHigh isLow _ ih => rw [decodeUnits?, if_pos isHigh, if_pos isLow, ih, Option.map_some]
    | code notHigh notLow _ ih => rw [decodeUnits?_code notHigh notLow, ih, Option.map_some]

/-! ## Tokens -/

/-- The words of a token. A string literal is the words of its units between quotation
marks; it has no text where its units stand for none. -/
inductive SpelledBy : Token → List Char → Prop where
  | leftBrace : SpelledBy .leftBrace ['\x7b']
  | rightBrace : SpelledBy .rightBrace ['\x7d']
  | leftBracket : SpelledBy .leftBracket ['[']
  | rightBracket : SpelledBy .rightBracket [']']
  | colon : SpelledBy .colon [':']
  | comma : SpelledBy .comma [',']
  | null : SpelledBy .null ['n', 'u', 'l', 'l']
  | trueName : SpelledBy (.bool true) ['t', 'r', 'u', 'e']
  | falseName : SpelledBy (.bool false) ['f', 'a', 'l', 's', 'e']
  | number {literal : NumberLiteral} {word : List Char} :
      literal.SpelledBy word → SpelledBy (.number literal) word
  | string {units : List TextUnit} {words : List (List Char)} {characters : List Char} :
      List.Forall₂ TextUnit.SpelledBy units words → Denotes units characters →
      SpelledBy (.string (some (String.ofList characters))) ('"' :: words.flatten ++ ['"'])
  | unpaired {units : List TextUnit} {words : List (List Char)} :
      List.Forall₂ TextUnit.SpelledBy units words → (∀ characters, ¬ Denotes units characters) →
      SpelledBy (.string none) ('"' :: words.flatten ++ ['"'])

theorem scan?_eq_some {text rest : List Char} {token : Token}
    (scanned : scan? text = some (token, rest)) :
    ∃ word, token.SpelledBy word ∧ text = word ++ rest := by
  unfold scan? at scanned
  split at scanned
  case h_1 =>
    cases scanned
    exact ⟨_, .leftBrace, rfl⟩
  case h_2 =>
    cases scanned
    exact ⟨_, .rightBrace, rfl⟩
  case h_3 =>
    cases scanned
    exact ⟨_, .leftBracket, rfl⟩
  case h_4 =>
    cases scanned
    exact ⟨_, .rightBracket, rfl⟩
  case h_5 =>
    cases scanned
    exact ⟨_, .colon, rfl⟩
  case h_6 =>
    cases scanned
    exact ⟨_, .comma, rfl⟩
  case h_7 =>
    cases scanned
    exact ⟨_, .null, rfl⟩
  case h_8 =>
    cases scanned
    exact ⟨_, .trueName, rfl⟩
  case h_9 =>
    cases scanned
    exact ⟨_, .falseName, rfl⟩
  case h_10 =>
    obtain ⟨⟨units, behind⟩, read, same⟩ := Option.map_eq_some_iff.1 scanned
    obtain ⟨words, spelled, rfl⟩ := scanUnits?_eq_some read
    cases same
    refine ⟨'"' :: words.flatten ++ ['"'], ?_, by simp⟩
    cases decoded : decodeUnits? units with
    | some characters => exact .string spelled (decodeUnits?_eq_some_iff.1 decoded)
    | none =>
        refine .unpaired spelled fun characters denotes => ?_
        rw [decodeUnits?_eq_some_iff.2 denotes] at decoded
        cases decoded
  case h_11 =>
    obtain ⟨⟨literal, behind⟩, read, same⟩ := Option.map_eq_some_iff.1 scanned
    obtain ⟨word, spelled, rfl⟩ := NumberLiteral.scan?_eq_some read
    cases same
    exact ⟨word, .number spelled, rfl⟩

theorem scan?_string {units : List TextUnit} {words : List (List Char)}
    (spelled : List.Forall₂ TextUnit.SpelledBy units words) (rest : List Char) :
    scan? ('"' :: words.flatten ++ ['"'] ++ rest) =
      some (.string ((decodeUnits? units).map String.ofList), rest) := by
  have inside : scan? ('"' :: words.flatten ++ ['"'] ++ rest) =
      (scanUnits? (words.flatten ++ '"' :: rest)).map fun found =>
        (.string ((decodeUnits? found.1).map String.ofList), found.2) := by
    rw [List.append_assoc]
    rfl
  rw [inside, scanUnits?_flatten spelled, Option.map_some]

/-- A number starts with a digit or a minus sign, as no other token does. -/
theorem scan?_number {literal : NumberLiteral} {word rest : List Char}
    (spelled : literal.SpelledBy word) (ends : NumberLiteral.EndsNumber rest) :
    scan? (word ++ rest) = some (.number literal, rest) := by
  have read := NumberLiteral.scan?_append spelled ends
  obtain ⟨first, others, rfl, start⟩ := spelled.first
  rw [List.cons_append] at read ⊢
  unfold scan?
  split
  case h_11 => rw [read, Option.map_some]
  all_goals
    next same =>
      obtain ⟨rfl, _⟩ := List.cons.inj same
      rcases start with other | other <;> cases other

/-- A word is scanned as its token, a number only where the number ends. -/
theorem scan?_append {token : Token} {word rest : List Char} (spelled : token.SpelledBy word)
    (ends : ∀ literal, token = .number literal → NumberLiteral.EndsNumber rest) :
    scan? (word ++ rest) = some (token, rest) := by
  cases spelled with
  | number spelled => exact scan?_number spelled (ends _ rfl)
  | string spelled denotes =>
      rw [scan?_string spelled, decodeUnits?_eq_some_iff.2 denotes, Option.map_some]
  | @unpaired units words spelled alone =>
      have undecoded : decodeUnits? units = none := by
        cases decoded : decodeUnits? units with
        | none => rfl
        | some characters => exact absurd (decodeUnits?_eq_some_iff.1 decoded) (alone characters)
      rw [scan?_string spelled, undecoded, Option.map_none]
  | _ => rfl

end Token

end InterviewFlow
