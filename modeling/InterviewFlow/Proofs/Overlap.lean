import InterviewFlow.Proofs.Matching

/-! Overlap and matching. A pattern matches the values of its shape, whatever is captured
already, and two patterns overlap exactly if there is a value of both shapes. So overlap is
a matter of shapes: it looks at no slot name and at no order of tags. -/

set_option autoImplicit false

namespace InterviewFlow

namespace Pattern

/-! ## A value of two shapes -/

mutual

/-- A value in which two overlapping patterns meet. -/
def meet : Pattern → Pattern → Value
  | .subtree _, other => other.sample
  | .group templates, .subtree _ => .group (sampleOfAll templates)
  | .group templates, .group others => .group (meetAll templates others)
  | _, _ => .leaf ""

def meetAll : List (String × Pattern) → List (String × Pattern) → List (String × Value)
  | [], _ => []
  | (tag, template) :: rest, others =>
      (tag, template.meet ((Entries.get? tag others).getD (.subtree ""))) :: meetAll rest others

end

theorem meetAll_eq_map (templates others : List (String × Pattern)) :
    meetAll templates others = templates.map fun template =>
      (template.1, template.2.meet ((Entries.get? template.1 others).getD (.subtree ""))) := by
  induction templates with
  | nil => rfl
  | cons template rest ih => rw [meetAll, ih, List.map_cons]

theorem keys_meetAll (templates others : List (String × Pattern)) :
    Entries.keys (meetAll templates others) = Entries.keys templates := by
  simp [meetAll_eq_map, Entries.keys]

/-- Overlapping group templates have the same tags. -/
theorem keys_perm_of_overlaps {templates others : List (String × Pattern)}
    (distinct : Entries.Distinct templates) (sameLength : templates.length = others.length)
    (overlapping : ∀ template ∈ templates, ∃ other, Entries.get? template.1 others = some other ∧
      template.2.overlaps other = true) :
    (Entries.keys templates).Perm (Entries.keys others) := by
  apply Entries.keys_perm_of_found distinct (by simpa [Entries.keys] using sameLength)
  intro tag tagged
  obtain ⟨template, member⟩ := Entries.mem_keys_iff.1 tagged
  obtain ⟨other, present, _⟩ := overlapping _ member
  exact ⟨other, present⟩

theorem meet_shapes {left right : Pattern} (leftDistinct : left.DistinctTags)
    (rightDistinct : right.DistinctTags) (overlap : left.overlaps right = true) :
    (left.meet right).DistinctTags ∧ left.Shapes (left.meet right) ∧
      right.Shapes (left.meet right) := by
  induction left using entryInduction generalizing right with
  | subtree slot =>
      rw [meet]
      exact ⟨sample_distinctTags rightDistinct, .subtree, shapes_sample rightDistinct⟩
  | simple slot =>
      cases right with
      | group others => simp [overlaps] at overlap
      | simple slot' => exact ⟨.leaf, .simple, .simple⟩
      | subtree slot' => exact ⟨.leaf, .simple, .subtree⟩
  | group templates ih =>
      cases right with
      | simple slot' => simp [overlaps] at overlap
      | subtree slot' =>
          have shapes := shapes_sample leftDistinct
          have distinct := sample_distinctTags leftDistinct
          rw [sample] at shapes distinct
          exact ⟨distinct, shapes, .subtree⟩
      | group others =>
          obtain ⟨sameLength, overlapAll⟩ := overlaps_group_iff.1 overlap
          rw [overlapsAll_iff] at overlapAll
          have sameTags := keys_perm_of_overlaps leftDistinct.keys sameLength overlapAll
          -- Every entry is where one template meets the other one under its tag.
          have meets : ∀ entry ∈ meetAll templates others, ∃ template ∈ templates, ∃ other,
              (entry.1, other) ∈ others ∧ entry.1 = template.1 ∧ entry.2.DistinctTags ∧
                template.2.Shapes entry.2 ∧ other.Shapes entry.2 := by
            intro entry member
            rw [meetAll_eq_map] at member
            obtain ⟨template, templateMember, rfl⟩ := List.mem_map.1 member
            obtain ⟨other, present, overlapping⟩ := overlapAll template templateMember
            have otherMember := Entries.mem_of_get?_eq_some present
            have met := ih template templateMember (leftDistinct.template templateMember)
              (rightDistinct.template otherMember) overlapping
            rw [present]
            exact ⟨template, templateMember, other, otherMember, rfl, met⟩
          rw [meet]
          refine ⟨.group ?_ ?_, .group ?_ ?_, .group ?_ ?_⟩
          · rw [Entries.Distinct, keys_meetAll]
            exact leftDistinct.keys
          · intro entry member
            obtain ⟨_, _, _, _, _, distinct, _⟩ := meets entry member
            exact distinct
          · rw [keys_meetAll]
          · intro template member entry entryMember sameTag
            obtain ⟨source, sourceMember, _, _, sourceTag, _, shapes, _⟩ := meets entry entryMember
            have same : template = source := List.inj_on_of_nodup_map leftDistinct.keys member
              sourceMember (sameTag.trans sourceTag)
            exact same ▸ shapes
          · rw [keys_meetAll]
            exact sameTags.symm
          · intro other member entry entryMember sameTag
            obtain ⟨_, _, source, sourceMember, _, _, _, shapes⟩ := meets entry entryMember
            have same : other = (entry.1, source) :=
              List.inj_on_of_nodup_map rightDistinct.keys member sourceMember sameTag
            exact same ▸ shapes

theorem overlaps_iff_exists_shapes {left right : Pattern} (leftDistinct : left.DistinctTags)
    (rightDistinct : right.DistinctTags) : left.overlaps right = true ↔
      ∃ value : Value, value.DistinctTags ∧ left.Shapes value ∧ right.Shapes value := by
  constructor
  · exact fun overlap => ⟨_, meet_shapes leftDistinct rightDistinct overlap⟩
  · exact fun ⟨_, _, leftShapes, rightShapes⟩ => overlaps_of_shapes leftShapes rightShapes

/-! ## Slots renamed and tags reordered -/

/-- The patterns differ at most in the names of slots and the order of tags. -/
inductive SameShape : Pattern → Pattern → Prop where
  | simple {slot slot' : String} : SameShape (.simple slot) (.simple slot')
  | subtree {slot slot' : String} : SameShape (.subtree slot) (.subtree slot')
  | group {templates others : List (String × Pattern)} :
      (Entries.keys templates).Perm (Entries.keys others) →
      (∀ template ∈ templates, ∀ other ∈ others,
        template.1 = other.1 → SameShape template.2 other.2) →
      SameShape (.group templates) (.group others)

theorem SameShape.symm {pattern other : Pattern} (same : SameShape pattern other) :
    SameShape other pattern := by
  induction same with
  | simple => exact .simple
  | subtree => exact .subtree
  | group sameTags _ ih =>
      exact .group sameTags.symm fun other otherMember template member sameTag =>
        ih template member other otherMember sameTag.symm

theorem SameShape.distinctTags {pattern other : Pattern} (same : SameShape pattern other)
    (distinct : pattern.DistinctTags) : other.DistinctTags := by
  induction same with
  | simple => exact .simple
  | subtree => exact .subtree
  | @group templates others sameTags _ ih =>
      refine .group (sameTags.nodup_iff.1 distinct.keys) fun other member => ?_
      obtain ⟨template, present⟩ := Entries.exists_get?_of_keys_perm sameTags.symm member
      have templateMember := Entries.mem_of_get?_eq_some present
      exact ih _ templateMember other member rfl (distinct.template templateMember)

theorem SameShape.shapes {pattern other : Pattern} (same : SameShape pattern other)
    {value : Value} (shapes : pattern.Shapes value) : other.Shapes value := by
  induction same generalizing value with
  | simple =>
      cases shapes with
      | simple => exact .simple
  | subtree => exact .subtree
  | @group templates others sameTags _ ih =>
      obtain ⟨entries, rfl, entryTags, below⟩ := shapes.group_inv
      refine .group (sameTags.symm.trans entryTags) fun other member entry entryMember sameTag => ?_
      obtain ⟨template, present⟩ := Entries.exists_get?_of_keys_perm sameTags.symm member
      have templateMember := Entries.mem_of_get?_eq_some present
      exact ih _ templateMember other member rfl
        (below _ templateMember entry entryMember sameTag)

theorem SameShape.overlaps_eq {left right left' right' : Pattern}
    (leftDistinct : left.DistinctTags) (rightDistinct : right.DistinctTags)
    (leftSame : SameShape left left') (rightSame : SameShape right right') :
    left'.overlaps right' = left.overlaps right := by
  rw [Bool.eq_iff_iff, overlaps_iff_exists_shapes leftDistinct rightDistinct,
    overlaps_iff_exists_shapes (leftSame.distinctTags leftDistinct)
      (rightSame.distinctTags rightDistinct)]
  refine exists_congr fun value => and_congr_right fun _ => and_congr ?_ ?_
  · exact ⟨leftSame.symm.shapes, leftSame.shapes⟩
  · exact ⟨rightSame.symm.shapes, rightSame.shapes⟩

/-! ## Overlap is exact -/

theorem overlaps_comm {left right : Pattern} (leftDistinct : left.DistinctTags)
    (rightDistinct : right.DistinctTags) : left.overlaps right = right.overlaps left := by
  rw [Bool.eq_iff_iff, overlaps_iff_exists_shapes leftDistinct rightDistinct,
    overlaps_iff_exists_shapes rightDistinct leftDistinct]
  exact exists_congr fun value => and_congr_right fun _ => and_comm

theorem overlaps_self {pattern : Pattern} (distinct : pattern.DistinctTags) :
    pattern.overlaps pattern = true :=
  (overlaps_iff_exists_shapes distinct distinct).2
    ⟨_, sample_distinctTags distinct, shapes_sample distinct, shapes_sample distinct⟩

/-- Two patterns overlap exactly if some value is matched by both; so overlap is symmetric,
every pattern overlaps itself, and neither names of slots nor the order of tags matter. -/
theorem overlaps_exact {left right : Pattern} (leftDistinct : left.DistinctTags)
    (rightDistinct : right.DistinctTags) :
    (left.overlaps right = true ↔ ∃ value : Value, value.DistinctTags ∧
      (∃ captures, left.match? value = some captures) ∧
      ∃ captures, right.match? value = some captures) ∧
    left.overlaps right = right.overlaps left ∧ left.overlaps left = true ∧
    ∀ left' right', SameShape left left' → SameShape right right' →
      left'.overlaps right' = left.overlaps right := by
  refine ⟨?_, overlaps_comm leftDistinct rightDistinct, overlaps_self leftDistinct, ?_⟩
  · rw [overlaps_iff_exists_shapes leftDistinct rightDistinct]
    simp only [match?_iff_shapes leftDistinct, match?_iff_shapes rightDistinct]
  · exact fun _ _ => SameShape.overlaps_eq leftDistinct rightDistinct

/-- Nested templates in another order, and one with another tag deep inside. -/
theorem overlaps_exact_nested :
    let left : Pattern := .group [("a", .simple "x"), ("b", .group [("c", .subtree "x")])]
    let right : Pattern :=
      .group [("b", .group [("c", .group [("d", .simple "y")])]), ("a", .subtree "y")]
    let apart : Pattern := .group [("b", .group [("e", .subtree "y")]), ("a", .subtree "y")]
    (left.DistinctTags ∧ right.DistinctTags ∧ apart.DistinctTags) ∧
      (∃ value : Value, value.DistinctTags ∧ (∃ captures, left.match? value = some captures) ∧
        ∃ captures, right.match? value = some captures) ∧
      right.overlaps left = true ∧
      ¬ ∃ value : Value, value.DistinctTags ∧ (∃ captures, left.match? value = some captures) ∧
        ∃ captures, apart.match? value = some captures := by
  intro left right apart
  have leftDistinct : left.DistinctTags := by decide
  have rightDistinct : right.DistinctTags := by decide
  have apartDistinct : apart.DistinctTags := by decide
  have common := overlaps_exact leftDistinct rightDistinct
  have separate := overlaps_exact leftDistinct apartDistinct
  have overlap : left.overlaps right = true := by decide
  have none : left.overlaps apart = false := by decide
  refine ⟨⟨leftDistinct, rightDistinct, apartDistinct⟩, common.1.1 overlap, ?_, ?_⟩
  · exact common.2.1.symm.trans overlap
  · intro shared
    rw [separate.1.2 shared] at none
    cases none

end Pattern

end InterviewFlow
