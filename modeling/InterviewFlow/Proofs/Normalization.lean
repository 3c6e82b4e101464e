import InterviewFlow.Proofs.ArtifactRoundTrip
import InterviewFlow.Proofs.Census
import InterviewFlow.Proofs.KeyOrder
import Mathlib.Data.List.Flatten

/-! Whatever is read as an artifact is written in no more bytes and read back from them.
Bytes may give a value in many ways, with integers wider than needed, repeats and any order
of attributes; writing gives it in one, and repeats can only make the bytes more. -/

set_option autoImplicit false

namespace InterviewFlow

namespace Artifact

variable {α β : Type}

/-! ## Bytes that a reader takes -/

/-- What the reader answers and the number of bytes it takes satisfy the condition. -/
def Answers (reader : Reader α) (Holds : α → Nat → Prop) : Prop :=
  ∀ bytes value rest, reader bytes = some (value, rest) →
    ∃ taken, bytes.length = taken + rest.length ∧ Holds value taken

theorem Answers.bind {first : Reader α} {next : α → Reader β} {Middle : α → Nat → Prop}
    {Holds : β → Nat → Prop} (head : Answers first Middle)
    (tail : ∀ value taken, Middle value taken →
      Answers (next value) fun result more => Holds result (taken + more)) :
    Answers (first >>= next) Holds := by
  intro bytes result rest read
  obtain ⟨value, middle, headRead, tailRead⟩ := bind_eq_some_iff.1 read
  obtain ⟨taken, headLength, headHolds⟩ := head _ _ _ headRead
  obtain ⟨more, tailLength, holds⟩ := tail value taken headHolds _ _ _ tailRead
  exact ⟨taken + more, by omega, holds⟩

theorem Answers.pure {value : α} {Holds : α → Nat → Prop} (holds : Holds value 0) :
    Answers (Pure.pure value) Holds := by
  intro bytes result rest read
  cases read
  exact ⟨0, (Nat.zero_add _).symm, holds⟩

theorem Answers.failure {Holds : α → Nat → Prop} : Answers failure Holds := by
  intro bytes result rest read
  cases read

/-- The value can be written, and in no more bytes than were taken for it. -/
structure Shortens (Storable : α → Prop) (write : α → List UInt8) (value : α) (taken : Nat) :
    Prop where
  storable : Storable value
  length_le : (write value).length ≤ taken

theorem length_append_le {bytes others : List UInt8} {taken more : Nat}
    (head : bytes.length ≤ taken) (tail : others.length ≤ more) :
    (bytes ++ others).length ≤ taken + more := by
  rw [List.length_append]
  exact Nat.add_le_add head tail

/-! ## Integers -/

theorem answers_littleEndian (width : Nat) :
    Answers (readLittleEndian width) fun value taken => value < 256 ^ width ∧ taken = width := by
  intro bytes value rest read
  induction width generalizing bytes value rest with
  | zero =>
      cases read
      exact ⟨0, (Nat.zero_add _).symm, Nat.one_pos, rfl⟩
  | succ width ih =>
      cases bytes with
      | nil => cases read
      | cons byte bytes =>
          obtain ⟨found, below, same⟩ := Option.map_eq_some_iff.1 read
          cases same
          obtain ⟨_, length, small, rfl⟩ := ih _ _ _ below
          have low : byte.toNat < 256 := byte.toNat_lt
          refine ⟨_ + 1, ?_, ?_, rfl⟩
          · rw [List.length_cons, length]
            omega
          · rw [Nat.pow_succ]
            omega

/-- A number is written in the least of the widths that hold it. -/
theorem length_writeInteger_le {width value : Nat} (wide : width = 2 ∨ width = 4 ∨ width = 8)
    (small : value < 256 ^ width) : (writeInteger value).length ≤ 1 + width := by
  unfold writeInteger
  rcases wide with rfl | rfl | rfl <;> split_ifs <;> simp [littleEndian] <;> omega

theorem answers_integer {maxWidth : Nat} (wide : maxWidth = 4 ∨ maxWidth = 8) :
    Answers (readInteger maxWidth) (Shortens (· < 256 ^ maxWidth) writeInteger) := by
  intro bytes value rest read
  cases bytes with
  | nil => cases read
  | cons mark bytes =>
      have several {width : Nat} (known : width = 2 ∨ width = 4 ∨ width = 8)
          (admitted : width ≤ maxWidth)
          (found : readLittleEndian width bytes = some (value, rest)) :
          ∃ taken, (mark :: bytes).length = taken + rest.length ∧
            Shortens (· < 256 ^ maxWidth) writeInteger value taken := by
        obtain ⟨_, length, small, rfl⟩ := answers_littleEndian width _ _ _ found
        refine ⟨1 + _, ?_, ?_, length_writeInteger_le known small⟩
        · rw [List.length_cons, length]
          omega
        · exact Nat.lt_of_lt_of_le small (Nat.pow_le_pow_right (by decide) admitted)
      simp only [readInteger] at read
      split at read
      · next single =>
          cases read
          have small : mark.toNat ≤ 250 := UInt8.le_iff_toNat_le.1 single
          refine ⟨1, Nat.add_comm _ _, ?_, ?_⟩
          · exact Nat.lt_of_le_of_lt small (by rcases wide with rfl | rfl <;> decide)
          · rw [writeInteger, if_pos small]
            exact Nat.le_refl 1
      · split at read
        · next two => exact several (.inl rfl) two.2 read
        · split at read
          · next four => exact several (.inr (.inl rfl)) four.2 read
          · split at read
            · next eight => exact several (.inr (.inr rfl)) eight.2 read
            · cases read

theorem answers_length :
    Answers readLength (Shortens (· < 2 ^ 64) writeInteger) :=
  answers_integer (.inr rfl)

theorem answers_tag : Answers readTag (Shortens (· < 2 ^ 32) writeInteger) :=
  answers_integer (.inl rfl)

/-! ## Texts and lists -/

theorem answers_bytes (count : Nat) :
    Answers (readBytes count) fun value taken => value.length = count ∧ taken = count := by
  intro bytes value rest read
  unfold readBytes at read
  split at read
  · next enough =>
      cases read
      refine ⟨count, ?_, List.length_take_of_le enough, rfl⟩
      rw [List.length_drop]
      omega
  · cases read

theorem utf8_of_fromUTF8? {bytes : List UInt8} {text : String}
    (decoded : String.fromUTF8? ⟨bytes.toArray⟩ = some text) : utf8 text = bytes := by
  unfold String.fromUTF8? at decoded
  split at decoded
  · cases decoded
    rfl
  · cases decoded

theorem answers_text : Answers readText (Shortens ShortText writeText) := by
  refine answers_length.bind fun count taken counted => ?_
  refine (answers_bytes count).bind fun bytes more sized => ?_
  split
  · next text decoded =>
      apply Answers.pure
      obtain ⟨length, rfl⟩ := sized
      rw [← utf8_of_fromUTF8? decoded] at length
      subst length
      constructor
      · rw [ShortText, ← length_utf8]
        exact counted.storable
      · rw [writeText, List.length_append]
        exact Nat.add_le_add_right counted.length_le _
  · exact .failure

theorem answers_times {reader : Reader α} {Storable : α → Prop} {write : α → List UInt8}
    (each : Answers reader (Shortens Storable write)) (count : Nat) :
    Answers (readTimes reader count) (Shortens
      (fun items => items.length = count ∧ ∀ item ∈ items, Storable item)
      (fun items => items.flatMap write)) := by
  induction count with
  | zero =>
      apply Answers.pure
      exact ⟨⟨rfl, List.forall_mem_nil _⟩, Nat.le_refl 0⟩
  | succ count ih =>
      refine each.bind fun item taken itemShort => ?_
      refine ih.bind fun items more itemsShort => ?_
      apply Answers.pure
      obtain ⟨length, storable⟩ := itemsShort.storable
      refine ⟨⟨congrArg Nat.succ length, ?_⟩, ?_⟩
      · exact List.forall_mem_cons.2 ⟨itemShort.storable, storable⟩
      · rw [List.flatMap_cons]
        exact length_append_le itemShort.length_le itemsShort.length_le

/-- Fewer than `2 ^ 64` items that can be written. -/
def StorableItems (Storable : α → Prop) (items : List α) : Prop :=
  items.length < 2 ^ 64 ∧ ∀ item ∈ items, Storable item

def writeItems (write : α → List UInt8) (items : List α) : List UInt8 :=
  writeInteger items.length ++ items.flatMap write

theorem answers_list {reader : Reader α} {Storable : α → Prop} {write : α → List UInt8}
    (each : Answers reader (Shortens Storable write)) :
    Answers (readList reader) (Shortens (StorableItems Storable) (writeItems write)) := by
  refine answers_length.bind fun count taken counted => ?_
  intro bytes items rest read
  obtain ⟨more, length, itemsShort⟩ := answers_times each count _ _ _ read
  obtain ⟨rfl, storable⟩ := itemsShort.storable
  refine ⟨more, length, ⟨counted.storable, storable⟩, ?_⟩
  exact length_append_le counted.length_le itemsShort.length_le

theorem answers_texts :
    Answers (readList readText) (Shortens ShortTexts writeTexts) :=
  answers_list answers_text

theorem answers_textEntries :
    Answers (readList readTextEntry) (Shortens ShortEntries writeTextEntries) := by
  apply answers_list
  refine answers_text.bind fun key _ keyShort => ?_
  refine answers_text.bind fun text _ textShort => ?_
  apply Answers.pure
  refine ⟨⟨keyShort.storable, textShort.storable⟩, ?_⟩
  exact length_append_le keyShort.length_le textShort.length_le

/-! ## Collections -/

theorem length_writeInteger_mono {number other : Nat} (atMost : number ≤ other) :
    (writeInteger number).length ≤ (writeInteger other).length := by
  unfold writeInteger
  split_ifs <;> simp [littleEndian] <;> omega

/-- A collection of what was read holds no more than was read. -/
theorem Shortens.of_subperm {Storable : α → Prop} {write : α → List UInt8}
    {items kept : List α} {taken : Nat}
    (short : Shortens (StorableItems Storable) (writeItems write) items taken)
    (part : kept.Subperm items) :
    Shortens (StorableItems Storable) (writeItems write) kept taken := by
  obtain ⟨⟨few, storable⟩, length⟩ := short
  refine ⟨⟨Nat.lt_of_le_of_lt part.length_le few, ?_⟩, Nat.le_trans ?_ length⟩
  · intro item member
    exact storable item (part.subset member)
  · have contents : (kept.flatMap write).length ≤ (items.flatMap write).length := by
      obtain ⟨listed, order, within⟩ := part
      rw [← (order.flatMap_right write).length_eq]
      exact (within.flatMap write).length_le
    rw [writeItems, writeItems, List.length_append, List.length_append]
    exact Nat.add_le_add (length_writeInteger_mono part.length_le) contents

/-! ## The model -/

theorem answers_comparison : Answers readComparison (Shortens
    (fun comparison => ShortText comparison.varname ∧ ShortText comparison.value)
    writeComparison) := by
  have operators : Answers readOperator
      (Shortens (fun _ => True) fun operator => writeInteger (operatorTag operator)) := by
    refine answers_tag.bind fun tag taken marked => ?_
    split
    · exact .pure ⟨trivial, marked.length_le⟩
    · exact .pure ⟨trivial, marked.length_le⟩
    · exact .pure ⟨trivial, marked.length_le⟩
    · exact .pure ⟨trivial, marked.length_le⟩
    · exact .failure
  refine operators.bind fun operator _ operatorShort => ?_
  refine answers_text.bind fun varname _ nameShort => ?_
  refine answers_text.bind fun value _ valueShort => ?_
  refine .pure ⟨⟨nameShort.storable, valueShort.storable⟩, ?_⟩
  rw [writeComparison, List.append_assoc]
  exact length_append_le operatorShort.length_le
    (length_append_le nameShort.length_le valueShort.length_le)

theorem answers_predicate (levels : Nat) :
    Answers (readPredicate levels) (Shortens StorablePredicate writePredicate) := by
  induction levels with
  | zero => exact .failure
  | succ levels ih =>
      -- One case a variant: what its fields were read from is no shorter than they are.
      refine answers_tag.bind fun tag _ marked => ?_
      split
      · refine answers_text.bind fun varname _ nameShort => ?_
        refine answers_text.bind fun expected _ expectedShort => ?_
        refine .pure ⟨.equality nameShort.storable expectedShort.storable, ?_⟩
        rw [writePredicate, List.append_assoc]
        exact length_append_le marked.length_le
          (length_append_le nameShort.length_le expectedShort.length_le)
      · refine answers_text.bind fun varname _ nameShort => ?_
        refine answers_texts.bind fun texts _ textsShort => ?_
        have valuesShort := textsShort.of_subperm (OrderedSet.subperm_ofList texts)
        refine .pure ⟨.membership nameShort.storable valuesShort.storable, ?_⟩
        rw [writePredicate, List.append_assoc]
        exact length_append_le marked.length_le
          (length_append_le nameShort.length_le valuesShort.length_le)
      · refine answers_text.bind fun name _ nameShort => ?_
        refine .pure ⟨.named nameShort.storable, ?_⟩
        exact length_append_le marked.length_le nameShort.length_le
      · exact .pure ⟨.otherwise, marked.length_le⟩
      · refine (answers_list ih).bind fun members _ membersShort => ?_
        obtain ⟨few, each⟩ := membersShort.storable
        refine .pure ⟨.combined few each, ?_⟩
        rw [writePredicate, writePredicates_eq_flatMap, List.append_assoc]
        exact length_append_le marked.length_le membersShort.length_le
      · refine answers_text.bind fun name _ nameShort => ?_
        refine answers_texts.bind fun arguments _ argumentsShort => ?_
        refine .pure ⟨.function nameShort.storable argumentsShort.storable, ?_⟩
        rw [writePredicate, List.append_assoc]
        exact length_append_le marked.length_le
          (length_append_le nameShort.length_le argumentsShort.length_le)
      · refine answers_comparison.bind fun test _ testShort => ?_
        obtain ⟨shortName, shortValue⟩ := testShort.storable
        refine .pure ⟨.comparison shortName shortValue, ?_⟩
        exact length_append_le marked.length_le testShort.length_le
      · exact .failure

theorem answers_rule (levels : Nat) :
    Answers (readRoutingRule levels) (Shortens StorableRule writeRoutingRule) := by
  induction levels with
  | zero => exact .failure
  | succ levels ih =>
      refine answers_tag.bind fun tag _ marked => ?_
      split
      · refine (answers_predicate levels).bind fun guard _ guardShort => ?_
        refine answers_text.bind fun outcome _ outcomeShort => ?_
        refine .pure ⟨.direct guardShort.storable outcomeShort.storable, ?_⟩
        rw [writeRoutingRule, List.append_assoc]
        exact length_append_le marked.length_le
          (length_append_le guardShort.length_le outcomeShort.length_le)
      · refine (answers_predicate levels).bind fun guard _ guardShort => ?_
        refine (answers_list ih).bind fun children _ childrenShort => ?_
        obtain ⟨few, each⟩ := childrenShort.storable
        refine .pure ⟨.nested guardShort.storable few each, ?_⟩
        rw [writeRoutingRule, writeRoutingRules_eq_flatMap, List.append_assoc, List.append_assoc]
        exact length_append_le marked.length_le
          (length_append_le guardShort.length_le childrenShort.length_le)
      · exact .failure

theorem answers_question : Answers readQuestion (Shortens StorableQuestion writeQuestion) := by
  refine answers_tag.bind fun tag _ marked => ?_
  split
  · refine answers_text.bind fun identifier _ nameShort => ?_
    refine answers_textEntries.bind fun pairs _ pairsShort => ?_
    have optionsShort := pairsShort.of_subperm (OrderedMap.subperm_ofList pairs)
    refine .pure ⟨.multipleChoice nameShort.storable optionsShort.storable, ?_⟩
    rw [writeQuestion, List.append_assoc]
    exact length_append_le marked.length_le
      (length_append_le nameShort.length_le optionsShort.length_le)
  · refine answers_text.bind fun identifier _ nameShort => ?_
    exact .pure ⟨.date nameShort.storable, length_append_le marked.length_le nameShort.length_le⟩
  · refine answers_text.bind fun identifier _ nameShort => ?_
    exact .pure ⟨.salary nameShort.storable, length_append_le marked.length_le nameShort.length_le⟩
  · refine answers_text.bind fun identifier _ nameShort => ?_
    exact .pure ⟨.text nameShort.storable, length_append_le marked.length_le nameShort.length_le⟩
  · exact .failure

theorem answers_element (levels : Nat) :
    Answers (readElement levels) (Shortens StorableElement writeElement) := by
  induction levels with
  | zero => exact .failure
  | succ levels ih =>
      refine answers_tag.bind fun tag _ marked => ?_
      split
      · refine answers_text.bind fun text _ short => ?_
        exact .pure ⟨.heading short.storable, length_append_le marked.length_le short.length_le⟩
      · refine answers_text.bind fun text _ short => ?_
        exact .pure ⟨.paragraph short.storable, length_append_le marked.length_le short.length_le⟩
      · refine answers_text.bind fun target _ short => ?_
        exact .pure
          ⟨.startButton short.storable, length_append_le marked.length_le short.length_le⟩
      · refine answers_text.bind fun text _ short => ?_
        exact .pure ⟨.nextSteps short.storable, length_append_le marked.length_le short.length_le⟩
      · refine (answers_predicate levels).bind fun guard _ guardShort => ?_
        refine (answers_list ih).bind fun whenTrue _ trueShort => ?_
        refine (answers_list ih).bind fun whenFalse _ falseShort => ?_
        obtain ⟨fewTrue, eachTrue⟩ := trueShort.storable
        obtain ⟨fewFalse, eachFalse⟩ := falseShort.storable
        refine .pure
          ⟨.conditional guardShort.storable fewTrue eachTrue fewFalse eachFalse, ?_⟩
        have branches := length_append_le trueShort.length_le falseShort.length_le
        have whole :=
          length_append_le marked.length_le (length_append_le guardShort.length_le branches)
        rw [writeElement, writeElements_eq_flatMap, writeElements_eq_flatMap]
        simpa only [writeItems, List.append_assoc, Nat.add_zero] using whole
      · refine answers_question.bind fun prompt _ promptShort => ?_
        refine .pure ⟨.question promptShort.storable, ?_⟩
        exact length_append_le marked.length_le promptShort.length_le
      · refine (answers_list (answers_rule levels)).bind fun rules _ rulesShort => ?_
        obtain ⟨few, each⟩ := rulesShort.storable
        refine .pure ⟨.routing few each, ?_⟩
        rw [writeElement, writeRoutingRules_eq_flatMap, List.append_assoc]
        exact length_append_le marked.length_le rulesShort.length_le
      · exact .failure

theorem answers_node (levels : Nat) :
    Answers (readNode levels) (Shortens StorableNode writeNode) := by
  refine answers_text.bind fun name _ nameShort => ?_
  refine (answers_list (answers_element levels)).bind fun body _ bodyShort => ?_
  refine answers_textEntries.bind fun pairs _ pairsShort => ?_
  obtain ⟨few, each⟩ := bodyShort.storable
  have attributesShort := pairsShort.of_subperm (SortedMap.subperm_ofList pairs)
  refine .pure ⟨⟨nameShort.storable, few, each, attributesShort.storable⟩, ?_⟩
  have contents := length_append_le bodyShort.length_le attributesShort.length_le
  have whole := length_append_le nameShort.length_le contents
  rw [writeNode, writeElements_eq_flatMap, List.append_assoc, List.append_assoc,
    ← List.append_assoc (writeInteger body.length)]
  exact whole

theorem answers_artifact (levels : Nat) : Answers (readArtifact levels)
    (Shortens (fun artifact => StorableNode artifact.node) toBytes) := by
  refine answers_tag.bind fun version _ versionShort => ?_
  refine (answers_node levels).bind fun node _ nodeShort => ?_
  refine .pure ⟨nodeShort.storable, ?_⟩
  have same : (UInt32.ofNat version).toNat = version :=
    UInt32.toNat_ofNat_of_lt versionShort.storable
  rw [toBytes, same]
  exact length_append_le versionShort.length_le nodeShort.length_le

/-! ## Whole artifacts -/

theorem ofBytes_eq_ok_iff {bytes : List UInt8} {artifact : Artifact} :
    ofBytes bytes = .ok artifact ↔ artifact.version = 1 ∧
      ∃ rest, readArtifact bytes.length bytes = some (artifact, rest) := by
  unfold ofBytes
  cases read : readArtifact bytes.length bytes with
  | none => simp
  | some result =>
      obtain ⟨found, rest⟩ := result
      dsimp only
      split
      · next current =>
          constructor
          · rintro ⟨⟩
            exact ⟨current, rest, rfl⟩
          · rintro ⟨_, _, same⟩
            cases same
            rfl
      · next other =>
          constructor
          · rintro ⟨⟩
          · rintro ⟨current, _, same⟩
            cases same
            exact absurd current other

theorem ofBytes_of_storable {artifact : Artifact} (current : artifact.version = 1)
    (storable : StorableNode artifact.node) : ofBytes artifact.toBytes = .ok artifact := by
  have written : readArtifact artifact.toBytes.length (artifact.toBytes ++ []) =
      some (artifact, []) :=
    recovers_artifact storable (Nat.le_refl _) []
  rw [List.append_nil] at written
  exact ofBytes_eq_ok_iff.2 ⟨current, [], written⟩

theorem ofBytes_append {bytes : List UInt8} {artifact : Artifact}
    (accepted : ofBytes bytes = .ok artifact) (trailing : List UInt8) :
    ofBytes (bytes ++ trailing) = .ok artifact := by
  obtain ⟨current, rest, read⟩ := ofBytes_eq_ok_iff.1 accepted
  have further : bytes.length ≤ (bytes ++ trailing).length := by
    rw [List.length_append]
    exact Nat.le_add_right _ _
  exact ofBytes_eq_ok_iff.2 ⟨current, _, continues_artifact further _ _ _ read trailing⟩

/-- What is accepted as an artifact is in the current revision, repeats no option and no
value of a set and sorts its attributes by their bytes; it is accepted with any bytes behind
as well, is written in no more bytes than it was read from, and read back from those. -/
theorem ofBytes_normalizes {bytes : List UInt8} {artifact : Artifact}
    (accepted : ofBytes bytes = .ok artifact) :
    artifact.version = 1 ∧
    (∀ identifier options, .multipleChoice identifier options ∈ artifact.node.questions →
      (Entries.keys options.entries).Nodup) ∧
    (∀ varname values, .membership varname values ∈ artifact.node.predicateParts →
      values.items.Nodup) ∧
    ((Entries.keys artifact.node.frontMatter.attributes.entries).Pairwise
      fun earlier later => utf8 earlier < utf8 later) ∧
    (∀ trailing, ofBytes (bytes ++ trailing) = .ok artifact) ∧
    artifact.toBytes.length ≤ bytes.length ∧
    ofBytes artifact.toBytes = .ok artifact := by
  obtain ⟨current, rest, read⟩ := ofBytes_eq_ok_iff.1 accepted
  obtain ⟨taken, length, short⟩ := answers_artifact _ _ _ _ read
  refine ⟨current, ?_, ?_, ?_, ofBytes_append accepted, ?_, ?_⟩
  · intro _ options _
    exact options.distinct
  · intro _ values _
    exact values.distinct
  · apply List.pairwise_map.2
    exact artifact.node.frontMatter.attributes.ascending.imp utf8_lt_iff.2
  · exact Nat.le_trans short.length_le (by omega)
  · exact ofBytes_of_storable current short.storable

/-- Integers in wider forms than they need, options, values and attributes that repeat,
attributes out of order, and bytes left over. -/
theorem ofBytes_normalizes_repeats :
    let bytes : List UInt8 := [252, 1, 0, 0, 0] ++ [251, 1, 0, 110] ++ [2] ++
      [5, 0, 1, 113] ++ [3, 1, 98, 1, 49, 1, 97, 1, 50, 1, 98, 1, 51] ++
      [4, 1, 1, 118] ++ [253, 3, 0, 0, 0, 0, 0, 0, 0, 1, 121, 1, 120, 1, 121] ++ [0, 0] ++
      [3, 1, 122, 1, 49, 1, 97, 1, 50, 1, 122, 1, 51] ++ [7, 7]
    let node : Node := ⟨"n",
      [.question (.multipleChoice "q" (.ofList [("b", "3"), ("a", "2")])),
        .conditional (.membership "v" (.ofList ["y", "x"])) [] []],
      .ofList [("a", "2"), ("z", "3")]⟩
    ofBytes bytes = .ok (ofNode node) ∧ (ofNode node).toBytes.length ≤ bytes.length ∧
      ofBytes (ofNode node).toBytes = .ok (ofNode node) := by
  intro bytes node
  have accepted : ofBytes bytes = .ok (ofNode node) := by rfl
  obtain ⟨_, _, _, _, _, shorter, readBack⟩ := ofBytes_normalizes accepted
  exact ⟨accepted, shorter, readBack⟩

end Artifact

end InterviewFlow
