import InterviewFlow.Artifact.Decoding
import Mathlib.Algebra.Group.Nat.Defs

/-! Readers that know where their value ends. `Recovers` says that a reader takes back
what was written and leaves the bytes behind it; `Continues` says that more bytes behind
a value change nothing about reading it. Together they leave no reading for a part of
what was written. -/

set_option autoImplicit false

namespace InterviewFlow

namespace Artifact

variable {α β : Type}

/-! ## Readers in sequence -/

theorem bind_apply (first : Reader α) (next : α → Reader β) (bytes : List UInt8) :
    (first >>= next) bytes = (first bytes).bind fun taken => next taken.1 taken.2 := rfl

theorem bind_eq_some_iff {first : Reader α} {next : α → Reader β} {bytes : List UInt8}
    {result : β × List UInt8} :
    (first >>= next) bytes = some result ↔
      ∃ value rest, first bytes = some (value, rest) ∧ next value rest = some result := by
  rw [bind_apply, Option.bind_eq_some_iff]
  simp only [Prod.exists]

/-- The reader takes exactly these bytes and answers the value. -/
def Recovers (reader : Reader α) (bytes : List UInt8) (value : α) : Prop :=
  ∀ rest, reader (bytes ++ rest) = some (value, rest)

theorem Recovers.bind {first : Reader α} {next : α → Reader β} {bytes others : List UInt8}
    {value : α} {result : β} (head : Recovers first bytes value)
    (tail : Recovers (next value) others result) :
    Recovers (first >>= next) (bytes ++ others) result := by
  intro rest
  rw [List.append_assoc, bind_apply, head, Option.bind_some]
  exact tail rest

theorem Recovers.pure (value : α) : Recovers (Pure.pure value) [] value :=
  fun _ => rfl

theorem Recovers.map {reader : Reader α} {bytes : List UInt8} {value : α} {build : α → β}
    {result : β} (read : Recovers reader bytes value) (same : build value = result) :
    Recovers (reader >>= fun value => Pure.pure (build value)) bytes result := by
  rw [← List.append_nil bytes, ← same]
  exact read.bind (.pure (build value))

/-- Whatever the first reader takes, the second takes too, also with more bytes behind. -/
def Continues (reader further : Reader α) : Prop :=
  ∀ bytes value rest, reader bytes = some (value, rest) →
    ∀ more, further (bytes ++ more) = some (value, rest ++ more)

theorem Continues.bind {first further : Reader α} {next nextFurther : α → Reader β}
    (head : Continues first further) (tail : ∀ value, Continues (next value) (nextFurther value)) :
    Continues (first >>= next) (further >>= nextFurther) := by
  intro bytes result rest read more
  obtain ⟨value, middle, headRead, tailRead⟩ := bind_eq_some_iff.1 read
  exact bind_eq_some_iff.2
    ⟨value, middle ++ more, head _ _ _ headRead more, tail value _ _ _ tailRead more⟩

theorem Continues.pure (value : α) : Continues (Pure.pure value) (Pure.pure value) := by
  intro bytes result rest read more
  cases read
  rfl

theorem Continues.failure {further : Reader α} : Continues failure further := by
  intro bytes result rest read
  cases read

/-- A reader that takes back what was written takes nothing back from a part of it. -/
theorem Recovers.eq_none_of_part {reader shorter : Reader α} {bytes taken : List UInt8}
    {value : α} (read : Recovers reader bytes value) (continues : Continues shorter reader)
    (part : taken <+: bytes) (proper : taken ≠ bytes) : shorter taken = none := by
  cases found : shorter taken with
  | none => rfl
  | some result =>
      obtain ⟨other, rest⟩ := result
      obtain ⟨more, rfl⟩ := part
      have whole := read []
      rw [List.append_nil, continues _ _ _ found more] at whole
      obtain ⟨_, nothing⟩ := Prod.mk.inj (Option.some.inj whole)
      obtain ⟨_, rfl⟩ := List.append_eq_nil_iff.1 nothing
      exact absurd (List.append_nil taken).symm proper

/-! ## Integers -/

theorem recovers_littleEndian {width value : Nat} (fits : value < 256 ^ width) :
    Recovers (readLittleEndian width) (littleEndian width value) value := by
  intro rest
  induction width generalizing value with
  | zero =>
      have zero : value = 0 := by simpa using fits
      rw [zero]
      rfl
  | succ width ih =>
      have below : value / 256 < 256 ^ width := by
        rw [Nat.div_lt_iff_lt_mul (by decide), ← Nat.pow_succ]
        exact fits
      have low : (UInt8.ofNat value).toNat = value % 256 := UInt8.toNat_ofNat'
      rw [littleEndian, List.cons_append, readLittleEndian, ih below, Option.map_some, low,
        Nat.mod_add_div]

theorem recovers_integer {maxWidth value : Nat}
    (fits : value < 2 ^ 32 ∧ 4 ≤ maxWidth ∨ value < 2 ^ 64 ∧ 8 ≤ maxWidth) :
    Recovers (readInteger maxWidth) (writeInteger value) value := by
  intro rest
  unfold writeInteger
  split
  · next small =>
      have byte : (UInt8.ofNat value).toNat = value := by
        rw [UInt8.toNat_ofNat']
        omega
      have mark : UInt8.ofNat value ≤ 250 := by
        rw [UInt8.le_iff_toNat_le, byte]
        exact small
      rw [List.cons_append, readInteger, if_pos mark, byte]
      rfl
  · split
    · next short =>
        have wide : 2 ≤ maxWidth := by omega
        simp only [List.cons_append, readInteger, wide]
        exact recovers_littleEndian short rest
    · split
      · next middle =>
          have wide : 4 ≤ maxWidth := by omega
          simp only [List.cons_append, readInteger, wide]
          exact recovers_littleEndian middle rest
      · have wide : 8 ≤ maxWidth := by omega
        have bound : value < 256 ^ 8 := by omega
        simp only [List.cons_append, readInteger, wide]
        exact recovers_littleEndian bound rest

theorem recovers_length {value : Nat} (fits : value < 2 ^ 64) :
    Recovers readLength (writeInteger value) value :=
  recovers_integer (.inr ⟨fits, Nat.le_refl 8⟩)

theorem recovers_tag {value : Nat} (fits : value < 2 ^ 32) :
    Recovers readTag (writeInteger value) value :=
  recovers_integer (.inl ⟨fits, Nat.le_refl 4⟩)

theorem continues_littleEndian (width : Nat) :
    Continues (readLittleEndian width) (readLittleEndian width) := by
  intro bytes value rest read more
  induction width generalizing bytes value rest with
  | zero =>
      cases read
      rfl
  | succ width ih =>
      cases bytes with
      | nil => cases read
      | cons byte bytes =>
          obtain ⟨found, below, same⟩ := Option.map_eq_some_iff.1 read
          cases same
          rw [List.cons_append, readLittleEndian, ih _ _ _ below, Option.map_some]

theorem continues_integer (maxWidth : Nat) :
    Continues (readInteger maxWidth) (readInteger maxWidth) := by
  intro bytes value rest read more
  cases bytes with
  | nil => cases read
  | cons mark bytes =>
      rw [List.cons_append]
      simp only [readInteger] at read ⊢
      split at read
      · next single =>
          rw [if_pos single]
          cases read
          rfl
      · next several =>
          rw [if_neg several]
          split at read
          · next two =>
              rw [if_pos two]
              exact continues_littleEndian 2 _ _ _ read more
          · next notTwo =>
              rw [if_neg notTwo]
              split at read
              · next four =>
                  rw [if_pos four]
                  exact continues_littleEndian 4 _ _ _ read more
              · next notFour =>
                  rw [if_neg notFour]
                  split at read
                  · next eight =>
                      rw [if_pos eight]
                      exact continues_littleEndian 8 _ _ _ read more
                  · cases read

theorem continues_length : Continues readLength readLength :=
  continues_integer 8

theorem continues_tag : Continues readTag readTag :=
  continues_integer 4

/-! ## Texts -/

theorem length_utf8 (text : String) : (utf8 text).length = text.utf8ByteSize := by
  simp [utf8]

theorem recovers_bytes (bytes : List UInt8) : Recovers (readBytes bytes.length) bytes bytes := by
  intro rest
  simp [readBytes]

theorem fromUTF8?_utf8 (text : String) : String.fromUTF8? ⟨(utf8 text).toArray⟩ = some text := by
  rw [utf8, Array.toArray_toList]
  exact dif_pos text.isValidUTF8

theorem recovers_text {text : String} (short : text.utf8ByteSize < 2 ^ 64) :
    Recovers readText (writeText text) text := by
  intro rest
  rw [← length_utf8] at short
  rw [readText, writeText, List.append_assoc, bind_apply, recovers_length short,
    Option.bind_some, bind_apply, recovers_bytes, Option.bind_some, fromUTF8?_utf8]
  rfl

theorem continues_bytes (count : Nat) : Continues (readBytes count) (readBytes count) := by
  intro bytes value rest read more
  unfold readBytes at read ⊢
  split at read
  · next enough =>
      cases read
      have still : count ≤ (bytes ++ more).length := by
        rw [List.length_append]
        omega
      rw [if_pos still, List.take_append_of_le_length enough,
        List.drop_append_of_le_length enough]
  · cases read

theorem continues_text : Continues readText readText := by
  refine continues_length.bind fun count => (continues_bytes count).bind fun bytes => ?_
  split
  · exact .pure _
  · exact .failure

/-! ## Lists -/

theorem recovers_times {reader : Reader α} {write : α → List UInt8} {items : List α}
    (each : ∀ item ∈ items, Recovers reader (write item) item) :
    Recovers (readTimes reader items.length) (items.flatMap write) items := by
  induction items with
  | nil => exact .pure []
  | cons item rest ih =>
      obtain ⟨first, others⟩ := List.forall_mem_cons.1 each
      exact first.bind ((ih others).map rfl)

theorem recovers_list {reader : Reader α} {write : α → List UInt8} {items : List α}
    (short : items.length < 2 ^ 64) (each : ∀ item ∈ items, Recovers reader (write item) item) :
    Recovers (readList reader) (writeInteger items.length ++ items.flatMap write) items :=
  (recovers_length short).bind (recovers_times each)

theorem continues_times {reader further : Reader α} (each : Continues reader further)
    (count : Nat) : Continues (readTimes reader count) (readTimes further count) := by
  induction count with
  | zero => exact .pure []
  | succ count ih => exact each.bind fun item => ih.bind fun items => .pure (item :: items)

theorem continues_list {reader further : Reader α} (each : Continues reader further) :
    Continues (readList reader) (readList further) :=
  continues_length.bind (continues_times each)

theorem length_le_of_mem {write : α → List UInt8} {items : List α} {item : α} {room : Nat}
    (fits : (items.flatMap write).length ≤ room) (member : item ∈ items) :
    (write item).length ≤ room :=
  Nat.le_trans (List.sublist_flatten_of_mem (List.mem_map_of_mem member)).length_le fits

end Artifact

end InterviewFlow
