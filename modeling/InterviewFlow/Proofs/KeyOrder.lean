import InterviewFlow.Artifact.Encoding
import Mathlib.Data.List.Lex
import Mathlib.Data.String.Basic

/-! The order of sorted maps is that of the bytes of the keys: UTF-8 keeps the order of
code points, since a wider character has a greater first byte and the bytes after it hold
the digits to base 64, greatest first. -/

set_option autoImplicit false

namespace InterviewFlow

namespace Artifact

theorem utf8_eq_flatMap (text : String) :
    utf8 text = text.toList.flatMap String.utf8EncodeChar := by
  have encoded : text.toByteArray = text.toList.utf8Encode := by
    rw [← String.toByteArray_ofList, String.ofList_toList]
  rw [utf8, encoded, List.utf8Encode, List.data_toByteArray]

theorem utf8EncodeChar_lt {first second : Char} (before : first < second)
    (rest others : List UInt8) :
    String.utf8EncodeChar first ++ rest < String.utf8EncodeChar second ++ others := by
  have below : first.val.toNat < second.val.toNat := before
  have bound : second.val.toNat < 0x110000 := by
    rcases second.valid with low | ⟨_, high⟩
    · exact Nat.lt_trans low (by decide)
    · exact high
  unfold String.utf8EncodeChar
  generalize first.val.toNat = code at below
  generalize second.val.toNat = other at below bound
  -- One case for each two widths; those of a wider first character are absurd.
  dsimp only
  split_ifs <;>
    simp (disch := omega) only [List.cons_append, List.nil_append, List.cons_lt_cons_iff,
      UInt8.lt_iff_toNat_lt, ← UInt8.toNat_inj, UInt8.toNat_ofNat', Nat.mod_eq_of_lt] <;>
    omega

theorem flatMap_utf8EncodeChar_lt {left right : List Char} (before : left < right) :
    left.flatMap String.utf8EncodeChar < right.flatMap String.utf8EncodeChar := by
  induction before with
  | @nil char chars =>
      obtain ⟨byte, bytes, encoded⟩ := List.exists_cons_of_ne_nil
        (@String.utf8EncodeChar_ne_nil char)
      rw [List.flatMap_cons, encoded]
      exact List.nil_lt_cons _ _
  | cons _ ih =>
      rw [List.flatMap_cons, List.flatMap_cons]
      exact List.append_left_lt ih
  | rel before =>
      rw [List.flatMap_cons, List.flatMap_cons]
      exact utf8EncodeChar_lt before _ _

theorem utf8_lt_iff {left right : String} : utf8 left < utf8 right ↔ left < right := by
  have increases {left right : String} (before : left < right) : utf8 left < utf8 right := by
    rw [utf8_eq_flatMap, utf8_eq_flatMap]
    exact flatMap_utf8EncodeChar_lt (String.lt_iff_toList_lt.1 before)
  refine ⟨?_, increases⟩
  intro before
  rcases lt_trichotomy left right with less | rfl | greater
  · exact less
  · exact absurd before (List.lt_irrefl _)
  · exact absurd before (List.lt_asymm (increases greater))

end Artifact

end InterviewFlow
