import InterviewFlow.Proofs.EntryOrder
import InterviewFlow.Proofs.Overlap

/-! What a match captures. A pattern has its slots at places, paths of tags in the order
of its declaration. A match binds one slot after the other to what the value holds at that
place, so in the end every slot holds what is at its last place, and nothing else is bound. -/

set_option autoImplicit false

namespace InterviewFlow

namespace Captures

theorem slots_ofList (bindings : List (String × Value)) :
    (ofList bindings).slots = SortedMap.ofList bindings := by
  induction bindings using List.reverseRecOn with
  | nil => rfl
  | append_singleton bindings binding ih =>
      rw [SortedMap.ofList_append_singleton, ← ih, ofList, bindAll_append]
      rfl

theorem get?_ofList (bindings : List (String × Value)) (slot : String) :
    (ofList bindings).get? slot = Entries.last? slot bindings := by
  rw [get?, slots_ofList, SortedMap.collects_ofList]

end Captures

namespace Tagwise

variable {α β : Type} {Related : α → β → Prop} {left : Entries α} {right : Entries β}

theorem append {others : Entries α} {others' : Entries β} (first : Tagwise Related left right)
    (second : Tagwise Related others others') : Tagwise Related (left ++ others) (right ++ others') :=
  List.rel_append first second

theorem reverse (tagwise : Tagwise Related left right) :
    Tagwise Related left.reverse right.reverse :=
  List.forall₂_reverse_iff.2 tagwise

end Tagwise

namespace Value

/-! ## Values at a path -/

/-- What the value holds at the end of a path of tags. -/
def at? : Value → List String → Option Value
  | value, [] => some value
  | .group entries, tag :: path => (Entries.get? tag entries).bind fun inner => inner.at? path
  | _, _ :: _ => none

/-- The values differ at most in the order of the entries of groups. -/
inductive Rearranges : Value → Value → Prop where
  | leaf {text : String} : Rearranges (.leaf text) (.leaf text)
  | built {object : Built} : Rearranges (.built object) (.built object)
  | sequence {items others : List Value} :
      List.Forall₂ Rearranges items others → Rearranges (.sequence items) (.sequence others)
  | group {entries others : List (String × Value)} :
      (Entries.keys entries).Perm (Entries.keys others) →
      (∀ entry ∈ entries, ∀ other ∈ others,
        entry.1 = other.1 → Rearranges entry.2 other.2) →
      Rearranges (.group entries) (.group others)

theorem Rearranges.group_inv {entries : List (String × Value)} {other : Value}
    (same : Rearranges (.group entries) other) : ∃ others, other = .group others ∧
      (Entries.keys entries).Perm (Entries.keys others) ∧
      ∀ entry ∈ entries, ∀ other ∈ others, entry.1 = other.1 → Rearranges entry.2 other.2 := by
  cases same with
  | group sameTags below => exact ⟨_, rfl, sameTags, below⟩

theorem Rearranges.at? {value other : Value} (same : Rearranges value other) {path : List String}
    {part : Value} (found : value.at? path = some part) :
    ∃ part', other.at? path = some part' ∧ Rearranges part part' := by
  induction path generalizing value other with
  | nil =>
      rw [Value.at?] at found ⊢
      cases found
      exact ⟨other, rfl, same⟩
  | cons tag path ih =>
      cases value with
      | leaf text => cases found
      | built object => cases found
      | sequence items => cases found
      | group entries =>
          obtain ⟨others, rfl, sameTags, below⟩ := same.group_inv
          obtain ⟨inner, present, continued⟩ := Option.bind_eq_some_iff.1 found
          have member := Entries.mem_of_get?_eq_some present
          obtain ⟨inner', present'⟩ := Entries.exists_get?_of_keys_perm sameTags member
          have innerSame := below _ member _ (Entries.mem_of_get?_eq_some present') rfl
          obtain ⟨part', reached, partSame⟩ := ih innerSame continued
          exact ⟨part', Option.bind_eq_some_iff.2 ⟨inner', present', reached⟩, partSame⟩

end Value

namespace Pattern

/-! ## Places -/

mutual

/-- The slots in the order of declaration, each with the path to it. -/
def places : Pattern → List (String × List String)
  | .simple slot => [(slot, [])]
  | .subtree slot => [(slot, [])]
  | .group templates => placesOfAll templates

def placesOfAll : List (String × Pattern) → List (String × List String)
  | [] => []
  | (tag, template) :: rest =>
      (template.places.map fun place => (place.1, tag :: place.2)) ++ placesOfAll rest

end

def slots (pattern : Pattern) : List String :=
  Entries.keys pattern.places

theorem placesOfAll_eq_flatMap (templates : List (String × Pattern)) :
    placesOfAll templates = templates.flatMap fun template =>
      template.2.places.map fun place => (place.1, template.1 :: place.2) := by
  induction templates with
  | nil => rfl
  | cons template rest ih => rw [placesOfAll, ih, List.flatMap_cons]

/-! ## The bindings of a match -/

/-- The bindings are the slots at their places, with what the value holds there. -/
def Binds (value : Value) (places : List (String × List String))
    (bindings : List (String × Value)) : Prop :=
  Tagwise (fun path part => value.at? path = some part) places bindings

theorem Binds.tagged {entries : List (String × Value)} {tag : String} {value : Value}
    (present : Entries.get? tag entries = some value) {places : List (String × List String)}
    {bindings : List (String × Value)} (binds : Binds value places bindings) :
    Binds (.group entries) (places.map fun place => (place.1, tag :: place.2)) bindings := by
  apply List.forall₂_map_left_iff.2
  refine binds.imp fun place binding related => ⟨related.1, ?_⟩
  simp only [Value.at?, present, Option.bind_some, related.2]

/-- A match adds the bindings of its places, in order, to what is captured before. -/
theorem binds_of_capture {pattern : Pattern} {value : Value} {captures result : Captures}
    (accepted : capture captures pattern value = some result) :
    ∃ bindings, Binds value pattern.places bindings ∧ result = captures.bindAll bindings := by
  induction pattern using entryInduction generalizing value captures result with
  | simple slot =>
      obtain ⟨text, rfl, rfl⟩ := capture_simple_eq_some accepted
      exact ⟨[(slot, .leaf text)], .cons ⟨rfl, rfl⟩ .nil, rfl⟩
  | subtree slot =>
      simp only [capture_subtree, Option.some.injEq] at accepted
      exact ⟨[(slot, value)], .cons ⟨rfl, rfl⟩ .nil, accepted.symm⟩
  | group templates ih =>
      obtain ⟨entries, rfl, sameLength, acceptedAll⟩ := capture_group_eq_some accepted
      rw [places]
      -- Templates still to be matched look their values up among all entries.
      clear accepted sameLength
      induction templates generalizing captures with
      | nil =>
          simp only [captureAll, Option.some.injEq] at acceptedAll
          exact ⟨[], .nil, acceptedAll.symm⟩
      | cons template rest restBinds =>
          obtain ⟨value, extended, present, matched, continued⟩ :=
            captureAll_cons_eq_some.1 acceptedAll
          obtain ⟨first, firstBinds, rfl⟩ := ih template (by simp) matched
          obtain ⟨others, othersBind, rfl⟩ :=
            restBinds (fun later member => ih later (by simp [member])) continued
          refine ⟨first ++ others, (firstBinds.tagged present).append othersBind, ?_⟩
          rw [Captures.bindAll_append]

/-! ## What is captured in the end -/

theorem binds_of_match? {pattern : Pattern} {value : Value} {captures : Captures}
    (matched : pattern.match? value = some captures) :
    ∃ bindings, Binds value pattern.places bindings ∧ captures = .ofList bindings :=
  binds_of_capture matched

theorem get?_eq_some_iff_of_match? {pattern : Pattern} {value : Value} {captures : Captures}
    (matched : pattern.match? value = some captures) {slot : String} {part : Value} :
    captures.get? slot = some part ↔
      ∃ path, Entries.last? slot pattern.places = some path ∧ value.at? path = some part := by
  obtain ⟨bindings, binds, rfl⟩ := binds_of_match? matched
  rw [Captures.get?_ofList]
  constructor
  · exact (Tagwise.reverse binds).get?_right
  · intro ⟨path, last, reached⟩
    obtain ⟨part', bound, reached'⟩ := (Tagwise.reverse binds).get?_left last
    cases reached.symm.trans reached'
    exact bound

theorem get?_isSome_iff_of_match? {pattern : Pattern} {value : Value} {captures : Captures}
    (matched : pattern.match? value = some captures) {slot : String} :
    (∃ part, captures.get? slot = some part) ↔ slot ∈ pattern.slots := by
  obtain ⟨bindings, binds, rfl⟩ := binds_of_match? matched
  rw [slots, Tagwise.keys_eq binds, Captures.get?_ofList, Entries.last?, Entries.get?_isSome_iff]
  simp [Entries.keys]

theorem size_of_match? {pattern : Pattern} {value : Value} {captures : Captures}
    (matched : pattern.match? value = some captures) (distinct : pattern.slots.Nodup) :
    captures.size = pattern.slots.length := by
  have sameSlots : (Entries.keys captures.slots.entries).Perm pattern.slots := by
    rw [List.perm_ext_iff_of_nodup captures.slots.distinct distinct]
    intro slot
    rw [← get?_isSome_iff_of_match? matched, ← Entries.get?_isSome_iff]
    rfl
  rw [← sameSlots.length_eq, Entries.keys, List.length_map]
  rfl

/-! ## Another order of entries -/

theorem Shapes.rearranged {pattern : Pattern} {value other : Value}
    (shapes : pattern.Shapes value) (same : value.Rearranges other) : pattern.Shapes other := by
  induction shapes generalizing other with
  | simple =>
      cases same with
      | leaf => exact .simple
  | subtree => exact .subtree
  | @group templates entries sameTags _ ih =>
      obtain ⟨others, rfl, otherTags, below⟩ := same.group_inv
      refine .group (sameTags.trans otherTags) fun template member other otherMember sameTag => ?_
      obtain ⟨value, present⟩ := Entries.exists_get?_of_keys_perm sameTags member
      have entryMember := Entries.mem_of_get?_eq_some present
      exact ih template member _ entryMember rfl (below _ entryMember other otherMember sameTag)

/-- A rearrangement of the value is matched too, with rearrangements bound to the slots. -/
theorem match?_rearranged {pattern : Pattern} (distinct : pattern.DistinctTags)
    {value other : Value} (same : value.Rearranges other) {captures : Captures}
    (matched : pattern.match? value = some captures) :
    ∃ captures', pattern.match? other = some captures' ∧
      ∀ slot part, captures.get? slot = some part →
        ∃ part', captures'.get? slot = some part' ∧ part.Rearranges part' := by
  have shapes := (match?_iff_shapes distinct).1 ⟨captures, matched⟩
  obtain ⟨captures', matched'⟩ := (match?_iff_shapes distinct).2 (shapes.rearranged same)
  refine ⟨captures', matched', fun slot part bound => ?_⟩
  obtain ⟨path, last, reached⟩ := (get?_eq_some_iff_of_match? matched).1 bound
  obtain ⟨part', reached', partSame⟩ := same.at? reached
  exact ⟨part', (get?_eq_some_iff_of_match? matched').2 ⟨path, last, reached'⟩, partSame⟩

theorem equivalentAll_iff {templates others : List (String × Pattern)} :
    equivalentAll templates others = true ↔
      ∀ template ∈ templates, ∃ other, Entries.get? template.1 others = some other ∧
        template.2.equivalent other = true := by
  induction templates with
  | nil => simp [equivalentAll]
  | cons head rest ih =>
      obtain ⟨tag, template⟩ := head
      cases present : Entries.get? tag others with
      | none => simp [equivalentAll, present]
      | some other => simp [equivalentAll, present, ih]

theorem relisted_of_equivalent {templates : List (String × Pattern)} {other : Pattern}
    (distinct : Entries.Distinct templates)
    (same : equivalent (.group templates) other = true) :
    ∃ others relisted, other = .group others ∧ others.Perm relisted ∧
      Tagwise (fun template template' => template.equivalent template' = true)
        templates relisted := by
  cases other with
  | simple slot => simp [equivalent] at same
  | subtree slot => simp [equivalent] at same
  | group others =>
      simp only [equivalent, Bool.and_eq_true, decide_eq_true_eq, equivalentAll_iff] at same
      obtain ⟨relisted, order, tagwise⟩ : ∃ relisted, others.Perm relisted ∧
          Tagwise (fun template template' => template.equivalent template' = true)
            templates relisted := exists_relisting distinct same.1 same.2
      exact ⟨others, relisted, rfl, order, tagwise⟩

theorem sameShape_of_equivalent {pattern other : Pattern} (distinct : pattern.DistinctTags)
    (same : pattern.equivalent other = true) : SameShape pattern other := by
  induction pattern using entryInduction generalizing other with
  | simple slot =>
      cases other with
      | simple slot' => exact .simple
      | subtree slot' => simp [equivalent] at same
      | group others => simp [equivalent] at same
  | subtree slot =>
      cases other with
      | simple slot' => simp [equivalent] at same
      | subtree slot' => exact .subtree
      | group others => simp [equivalent] at same
  | group templates ih =>
      obtain ⟨others, relisted, rfl, order, tagwise⟩ := relisted_of_equivalent distinct.keys same
      have sameTags : (Entries.keys templates).Perm (Entries.keys others) := by
        rw [tagwise.keys_eq]
        exact (order.map Prod.fst).symm
      have relistedDistinct : Entries.Distinct relisted := by
        rw [Entries.Distinct, ← tagwise.keys_eq]
        exact distinct.keys
      refine .group sameTags fun template member other otherMember sameTag => ?_
      obtain ⟨partner, present, equal⟩ :=
        tagwise.get?_left ((Entries.get?_eq_some_iff distinct.keys).2 member)
      have found : Entries.get? template.1 relisted = some other.2 :=
        (Entries.get?_eq_some_iff relistedDistinct).2 (sameTag ▸ order.mem_iff.1 otherMember)
      cases present.symm.trans found
      exact ih template member (distinct.template member) equal

theorem places_perm_of_equivalent {pattern other : Pattern} (distinct : pattern.DistinctTags)
    (same : pattern.equivalent other = true) : pattern.places.Perm other.places := by
  induction pattern using entryInduction generalizing other with
  | simple slot =>
      cases other with
      | simple slot' =>
          obtain rfl : slot = slot' := by simpa [equivalent] using same
          exact .refl _
      | subtree slot' => simp [equivalent] at same
      | group others => simp [equivalent] at same
  | subtree slot =>
      cases other with
      | simple slot' => simp [equivalent] at same
      | subtree slot' =>
          obtain rfl : slot = slot' := by simpa [equivalent] using same
          exact .refl _
      | group others => simp [equivalent] at same
  | group templates ih =>
      obtain ⟨others, relisted, rfl, order, tagwise⟩ := relisted_of_equivalent distinct.keys same
      have aligned : (placesOfAll templates).Perm (placesOfAll relisted) := by
        have below : ∀ template ∈ templates, template.2.DistinctTags :=
          fun _ => distinct.template
        clear distinct same order
        induction tagwise with
        | nil => exact .refl _
        | @cons template template' rest rest' head _ restAligned =>
            obtain ⟨tag, inner⟩ := template
            obtain ⟨tag', inner'⟩ := template'
            obtain ⟨rfl, equal⟩ := head
            have first := ih (tag, inner) (by simp) (below _ (by simp)) equal
            exact (first.map _).append (restAligned (fun later member => ih later (by simp [member]))
              fun later member => below later (by simp [member]))
      rw [places, places, placesOfAll_eq_flatMap others]
      refine aligned.trans ?_
      rw [placesOfAll_eq_flatMap relisted]
      exact (order.flatMap_right _).symm

/-- Patterns that differ in the order of tags only, with slots of different names, match the
same values with the same captures. -/
theorem match?_equivalent {pattern other : Pattern} (distinct : pattern.DistinctTags)
    (slotsDistinct : pattern.slots.Nodup) (same : pattern.equivalent other = true)
    (value : Value) : other.match? value = pattern.match? value := by
  have sameShape := sameShape_of_equivalent distinct same
  have otherDistinct := sameShape.distinctTags distinct
  have samePlaces := places_perm_of_equivalent distinct same
  cases matched : pattern.match? value with
  | none =>
      cases otherMatched : other.match? value with
      | none => rfl
      | some captures =>
          have shapes := (match?_iff_shapes otherDistinct).1 ⟨captures, otherMatched⟩
          obtain ⟨_, found⟩ := (match?_iff_shapes distinct).2 (sameShape.symm.shapes shapes)
          cases matched.symm.trans found
  | some captures =>
      have shapes := (match?_iff_shapes distinct).1 ⟨captures, matched⟩
      obtain ⟨captures', otherMatched⟩ :=
        (match?_iff_shapes otherDistinct).2 (sameShape.shapes shapes)
      have sameSlots : captures'.slots = captures.slots := by
        apply SortedMap.eq_of_get?_eq
        intro slot
        apply Option.ext
        intro part
        change captures'.get? slot = some part ↔ captures.get? slot = some part
        rw [get?_eq_some_iff_of_match? otherMatched, get?_eq_some_iff_of_match? matched,
          Entries.last?_perm slotsDistinct samePlaces]
      rw [otherMatched]
      exact congrArg (fun slots => some (Captures.mk slots)) sameSlots

/-! ## Matching is exact -/

/-- A pattern matches exactly the values of its shape. Then its slots and no others are bound,
each to what the value has at the last place of the slot, whatever the order of the entries in
the value. Where the slots have different names, each counts once, and a pattern that differs in
the order of tags only captures the same. -/
theorem match?_exact {pattern : Pattern} (distinct : pattern.DistinctTags) (value : Value) :
    ((∃ captures, pattern.match? value = some captures) ↔ pattern.Shapes value) ∧
    (∀ captures, pattern.match? value = some captures →
      (∀ slot, (∃ part, captures.get? slot = some part) ↔ slot ∈ pattern.slots) ∧
      (∀ slot part, captures.get? slot = some part ↔
        ∃ path, Entries.last? slot pattern.places = some path ∧ value.at? path = some part) ∧
      (∀ other : Value, value.Rearranges other →
        ∃ captures', pattern.match? other = some captures' ∧
          ∀ slot part, captures.get? slot = some part →
            ∃ part', captures'.get? slot = some part' ∧ part.Rearranges part') ∧
      (pattern.slots.Nodup → captures.size = pattern.slots.length)) ∧
    (pattern.slots.Nodup → ∀ other, pattern.equivalent other = true →
      other.match? value = pattern.match? value) := by
  refine ⟨match?_iff_shapes distinct, fun captures matched => ⟨?_, ?_, ?_, ?_⟩, ?_⟩
  · exact fun slot => get?_isSome_iff_of_match? matched
  · exact fun slot part => get?_eq_some_iff_of_match? matched
  · exact fun other same => match?_rearranged distinct same matched
  · exact size_of_match? matched
  · exact fun slotsDistinct other same => match?_equivalent distinct slotsDistinct same value

/-- A slot that is used twice, and two patterns that differ in the order of tags. -/
theorem match?_exact_nested :
    let value : Value := .group [("b", .group [("d", .leaf "2"), ("c", .sequence [.leaf "1"])]),
      ("a", .leaf "0")]
    let repeating : Pattern :=
      .group [("a", .simple "x"), ("b", .group [("c", .subtree "x"), ("d", .simple "y")])]
    let plain : Pattern := .group [("a", .simple "x"), ("b", .subtree "y")]
    let turned : Pattern := .group [("b", .subtree "y"), ("a", .simple "x")]
    (repeating.DistinctTags ∧ plain.DistinctTags) ∧
    repeating.Shapes value ∧
    (∃ captures, repeating.match? value = some captures ∧
      captures.get? "x" = some (.sequence [.leaf "1"]) ∧ captures.get? "y" = some (.leaf "2") ∧
      ¬ ∃ part, captures.get? "a" = some part) ∧
    (∃ captures, plain.match? value = some captures ∧ turned.match? value = some captures ∧
      captures.size = 2) := by
  intro value repeating plain turned
  have repeatingDistinct : repeating.DistinctTags := by decide
  have plainDistinct : plain.DistinctTags := by decide
  obtain ⟨captures, matched⟩ : ∃ captures, repeating.match? value = some captures := ⟨_, rfl⟩
  obtain ⟨others, plainMatched⟩ : ∃ captures, plain.match? value = some captures := ⟨_, rfl⟩
  have exact := match?_exact repeatingDistinct value
  have plainExact := match?_exact plainDistinct value
  have bound := exact.2.1 captures matched
  refine ⟨⟨repeatingDistinct, plainDistinct⟩, exact.1.1 ⟨captures, matched⟩,
    ⟨captures, matched, ?_, ?_, ?_⟩, ⟨others, plainMatched, ?_, ?_⟩⟩
  · exact (bound.2.1 "x" _).2 ⟨["b", "c"], by decide, rfl⟩
  · exact (bound.2.1 "y" _).2 ⟨["b", "d"], by decide, rfl⟩
  · rw [bound.1]
    decide
  · exact (plainExact.2.2 (by decide) turned (by decide)).trans plainMatched
  · exact (plainExact.2.1 others plainMatched).2.2.2 (by decide)

end Pattern

end InterviewFlow
