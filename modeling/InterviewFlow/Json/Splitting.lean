import InterviewFlow.Json.Token

/-!
# From text to tokens

A text is split from the front: blanks are skipped and each token is read as far
as it goes. Splitting ends because every token takes at least one character.
-/

set_option autoImplicit false

namespace InterviewFlow

/-! ## Every token takes a character -/

namespace NumberLiteral

theorem length_dropWhile_le {α : Type} (test : α → Bool) (items : List α) :
    (items.dropWhile test).length ≤ items.length :=
  (List.dropWhile_sublist test).length_le

theorem length_lt_of_isWhole {text : List Char} (whole : isWhole (splitDigits text).1) :
    (splitDigits text).2.length < text.length := by
  have total : (text.takeWhile Char.isDigit).length + (text.dropWhile Char.isDigit).length
      = text.length := by
    rw [← List.length_append, List.takeWhile_append_dropWhile]
  have some_digit : 0 < (text.takeWhile Char.isDigit).length := by
    simp only [splitDigits] at whole
    cases digits : text.takeWhile Char.isDigit with
    | nil => simp [digits, isWhole] at whole
    | cons => simp
  simp only [splitDigits]
  omega

theorem length_scanFraction?_le {text remaining : List Char} {fraction : Option (List Char)}
    (scanned : scanFraction? text = some (fraction, remaining)) :
    remaining.length ≤ text.length := by
  unfold scanFraction? at scanned
  split at scanned
  · rename_i rest
    dsimp only [splitDigits] at scanned
    split at scanned
    · simp at scanned
    · obtain ⟨-, rfl⟩ := Prod.mk.inj (Option.some.inj scanned)
      exact Nat.le_trans (length_dropWhile_le ..) (Nat.le_succ _)
  · obtain ⟨-, rfl⟩ := Prod.mk.inj (Option.some.inj scanned)
    exact Nat.le_refl _

theorem length_scanSigned?_le {text remaining : List Char} {exponent : Bool × List Char}
    (scanned : scanSigned? text = some (exponent, remaining)) :
    remaining.length ≤ text.length := by
  unfold scanSigned? at scanned
  split at scanned
  rename_i negative unsigned signed
  have shorter : unsigned.length ≤ text.length := by
    split at signed <;> obtain ⟨-, rfl⟩ := Prod.mk.inj signed <;> simp
  dsimp only [splitDigits] at scanned
  split at scanned
  · simp at scanned
  · obtain ⟨-, rfl⟩ := Prod.mk.inj (Option.some.inj scanned)
    exact Nat.le_trans (length_dropWhile_le ..) shorter

theorem length_scanExponent?_le {text remaining : List Char}
    {exponent : Option (Bool × List Char)}
    (scanned : scanExponent? text = some (exponent, remaining)) :
    remaining.length ≤ text.length := by
  unfold scanExponent? at scanned
  split at scanned
  · rename_i mark rest
    split at scanned
    · obtain ⟨found, signed, same⟩ := Option.map_eq_some_iff.1 scanned
      obtain ⟨-, rfl⟩ := Prod.mk.inj same
      exact Nat.le_trans (length_scanSigned?_le signed) (Nat.le_succ _)
    · obtain ⟨-, rfl⟩ := Prod.mk.inj (Option.some.inj scanned)
      exact Nat.le_refl _
  · obtain ⟨-, rfl⟩ := Prod.mk.inj (Option.some.inj scanned)
    exact Nat.le_refl _

theorem length_scan?_lt {text remaining : List Char} {literal : NumberLiteral}
    (scanned : scan? text = some (literal, remaining)) : remaining.length < text.length := by
  unfold scan? at scanned
  split at scanned
  rename_i negative unsigned signed
  have shorter : unsigned.length ≤ text.length := by
    split at signed <;> obtain ⟨-, rfl⟩ := Prod.mk.inj signed <;> simp
  dsimp only at scanned
  split at scanned
  · rename_i whole
    have afterWhole := length_lt_of_isWhole whole
    simp only [Option.bind_eq_bind, Option.pure_def, Option.bind_eq_some_iff,
      Option.some.injEq, Prod.mk.injEq, Prod.exists] at scanned
    obtain ⟨fraction, afterFraction, fractionRead, exponent, rest, exponentRead, -, rfl⟩ := scanned
    have := length_scanFraction?_le fractionRead
    have := length_scanExponent?_le exponentRead
    omega
  · simp at scanned

end NumberLiteral

namespace Token

theorem length_scanUnits?_lt {text remaining : List Char} {units : List TextUnit}
    (scanned : scanUnits? text = some (units, remaining)) :
    remaining.length < text.length := by
  fun_induction scanUnits? text generalizing units remaining with
  | case1 => simp at scanned
  | case2 rest =>
      obtain ⟨-, rfl⟩ := Prod.mk.inj (Option.some.inj scanned)
      simp
  | case3 => simp at scanned
  | case4 first second third fourth rest value read ih =>
      obtain ⟨found, inner, same⟩ := Option.map_eq_some_iff.1 scanned
      obtain ⟨-, rfl⟩ := Prod.mk.inj same
      have := ih inner
      simp only [List.length_cons]
      omega
  | case5 => simp at scanned
  | case6 mark rest _ character read ih =>
      obtain ⟨found, inner, same⟩ := Option.map_eq_some_iff.1 scanned
      obtain ⟨-, rfl⟩ := Prod.mk.inj same
      have := ih inner
      simp only [List.length_cons]
      omega
  | case7 => simp at scanned
  | case8 character rest _ _ _ _ ih =>
      obtain ⟨found, inner, same⟩ := Option.map_eq_some_iff.1 scanned
      obtain ⟨-, rfl⟩ := Prod.mk.inj same
      have := ih inner
      simp only [List.length_cons]
      omega

theorem length_scan?_lt {text remaining : List Char} {token : Token}
    (scanned : scan? text = some (token, remaining)) : remaining.length < text.length := by
  unfold scan? at scanned
  split at scanned
  case h_10 rest =>
    obtain ⟨found, inner, same⟩ := Option.map_eq_some_iff.1 scanned
    obtain ⟨-, rfl⟩ := Prod.mk.inj same
    have := length_scanUnits?_lt inner
    simp only [List.length_cons]
    omega
  case h_11 =>
    obtain ⟨found, inner, same⟩ := Option.map_eq_some_iff.1 scanned
    obtain ⟨-, rfl⟩ := Prod.mk.inj same
    exact NumberLiteral.length_scan?_lt inner
  all_goals
    obtain ⟨-, rfl⟩ := Prod.mk.inj (Option.some.inj scanned)
    simp only [List.length_cons]
    omega

/-! ## Splitting -/

def split? (text : List Char) : Option (List Token) :=
  match text with
  | [] => some []
  | character :: rest =>
      if isBlank character then split? rest
      else
        match scanned : scan? (character :: rest) with
        | none => none
        | some (token, remaining) =>
            have : remaining.length < (character :: rest).length := length_scan?_lt scanned
            (split? remaining).map (token :: ·)
termination_by text.length
decreasing_by
  · exact Nat.lt_succ_self _
  · assumption

end Token

end InterviewFlow
