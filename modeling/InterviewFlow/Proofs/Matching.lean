import InterviewFlow.Proofs.Collections
import InterviewFlow.Rewriting.Pattern

/-! Matching against a pattern whose tags are distinct. The pattern matches the
values of its shape, in which a group has exactly the tags of its template; so
two patterns that match one value overlap tag by tag, and every pattern matches
the value that copies its shape. -/

set_option autoImplicit false

namespace InterviewFlow

namespace Entries

variable {α β : Type}

/-- As many entries as there are distinct tags, all of them found: the entries
are the tagged values, in some order. -/
theorem keys_perm_of_found {tags : List String} {entries : Entries α} (distinct : tags.Nodup)
    (sameLength : tags.length = entries.length)
    (found : ∀ tag ∈ tags, ∃ value, get? tag entries = some value) :
    tags.Perm (keys entries) := by
  have included : tags ⊆ keys entries := by
    intro tag member
    obtain ⟨value, present⟩ := found tag member
    exact mem_keys_iff.2 ⟨value, mem_of_get?_eq_some present⟩
  have sub : tags.Subperm (keys entries) := List.subperm_of_subset distinct included
  exact sub.perm_of_length_le (by simp [keys, sameLength])

/-- Of two lists with the same tags, each has an entry for those of the other. -/
theorem exists_get?_of_keys_perm {left : Entries α} {right : Entries β}
    (sameTags : (keys left).Perm (keys right)) {entry : String × α} (member : entry ∈ left) :
    ∃ item, get? entry.1 right = some item :=
  get?_isSome_iff.2 (sameTags.mem_iff.1 (List.mem_map_of_mem member))

end Entries

namespace Pattern

/-- Patterns by their entries: a group is met after the templates in it. -/
theorem entryInduction {motive : Pattern → Prop}
    (group : ∀ templates : List (String × Pattern),
      (∀ template ∈ templates, motive template.2) → motive (.group templates))
    (simple : ∀ slot, motive (.simple slot)) (subtree : ∀ slot, motive (.subtree slot))
    (pattern : Pattern) : motive pattern := by
  refine @Pattern.rec motive (fun templates => ∀ template ∈ templates, motive template.2)
    (fun template => motive template.2) group simple subtree (by simp) ?_
    (fun _ _ held => held) pattern
  intro head rest headHeld restHeld template member
  rcases List.mem_cons.1 member with rfl | later
  · exact headHeld
  · exact restHeld template later

theorem DistinctTags.keys {templates : List (String × Pattern)}
    (distinct : DistinctTags (.group templates)) : Entries.Distinct templates := by
  cases distinct with
  | group here _ => exact here

theorem DistinctTags.template {templates : List (String × Pattern)}
    (distinct : DistinctTags (.group templates)) {template : String × Pattern}
    (member : template ∈ templates) : template.2.DistinctTags := by
  cases distinct with
  | group _ below => exact below template member

mutual

/-- Decides whether no tag occurs twice in a group of the pattern. -/
def hasDistinctTags : Pattern → Bool
  | .group templates => decide (Entries.Distinct templates) && haveDistinctTags templates
  | .simple _ => true
  | .subtree _ => true

def haveDistinctTags : List (String × Pattern) → Bool
  | [] => true
  | (_, template) :: rest => template.hasDistinctTags && haveDistinctTags rest

end

theorem haveDistinctTags_iff {templates : List (String × Pattern)} :
    haveDistinctTags templates = true ↔
      ∀ template ∈ templates, template.2.hasDistinctTags = true := by
  induction templates with
  | nil => simp [haveDistinctTags]
  | cons template rest ih => simp [haveDistinctTags, ih]

theorem hasDistinctTags_iff {pattern : Pattern} :
    pattern.hasDistinctTags = true ↔ pattern.DistinctTags := by
  induction pattern using entryInduction with
  | simple slot => exact ⟨fun _ => .simple, fun _ => rfl⟩
  | subtree slot => exact ⟨fun _ => .subtree, fun _ => rfl⟩
  | group templates ih =>
      rw [hasDistinctTags, Bool.and_eq_true, decide_eq_true_iff, haveDistinctTags_iff]
      constructor
      · rintro ⟨here, below⟩
        exact .group here fun template member => (ih template member).1 (below template member)
      · intro distinct
        exact ⟨distinct.keys, fun template member =>
          (ih template member).2 (distinct.template member)⟩

instance (pattern : Pattern) : Decidable pattern.DistinctTags :=
  decidable_of_iff _ hasDistinctTags_iff

/-! ## What a match of a group says -/

@[simp] theorem capture_simple_leaf {captures : Captures} {slot text : String} :
    capture captures (.simple slot) (.leaf text) = some (captures.bind slot (.leaf text)) := by
  simp [capture]

@[simp] theorem capture_subtree {captures : Captures} {slot : String} {value : Value} :
    capture captures (.subtree slot) value = some (captures.bind slot value) := by
  simp [capture]

theorem capture_simple_eq_some {captures result : Captures} {slot : String} {value : Value}
    (accepted : capture captures (.simple slot) value = some result) :
    ∃ text, value = .leaf text ∧ result = captures.bind slot (.leaf text) := by
  cases value with
  | leaf text =>
      simp only [capture_simple_leaf, Option.some.injEq] at accepted
      exact ⟨text, rfl, accepted.symm⟩
  | sequence items => simp [capture] at accepted
  | group entries => simp [capture] at accepted
  | built object => simp [capture] at accepted

theorem capture_group_eq_some {captures result : Captures} {templates : List (String × Pattern)}
    {value : Value} (accepted : capture captures (.group templates) value = some result) :
    ∃ entries, value = .group entries ∧ templates.length = entries.length ∧
      captureAll captures templates entries = some result := by
  cases value with
  | leaf text => simp [capture] at accepted
  | sequence items => simp [capture] at accepted
  | built object => simp [capture] at accepted
  | group entries =>
      simp only [capture] at accepted
      split at accepted
      · next sameLength => exact ⟨entries, rfl, sameLength, accepted⟩
      · cases accepted

theorem captureAll_cons_eq_some {captures result : Captures} {tag : String} {template : Pattern}
    {rest : List (String × Pattern)} {entries : List (String × Value)} :
    captureAll captures ((tag, template) :: rest) entries = some result ↔
      ∃ value extended, Entries.get? tag entries = some value ∧
        capture captures template value = some extended ∧
        captureAll extended rest entries = some result := by
  constructor
  · intro accepted
    simp only [captureAll] at accepted
    split at accepted
    · cases accepted
    · next value present =>
        split at accepted
        · cases accepted
        · next extended matched => exact ⟨value, extended, present, matched, accepted⟩
  · rintro ⟨value, extended, present, matched, accepted⟩
    simp only [captureAll, present, matched]
    exact accepted

/-- Every template of a matched group has a value under its tag, which it matches. -/
theorem captureAll_member {captures result : Captures} {templates : List (String × Pattern)}
    {entries : List (String × Value)}
    (accepted : captureAll captures templates entries = some result)
    {template : String × Pattern} (member : template ∈ templates) :
    ∃ value before after, Entries.get? template.1 entries = some value ∧
      capture before template.2 value = some after := by
  induction templates generalizing captures with
  | nil => simp at member
  | cons head rest ih =>
      obtain ⟨value, extended, present, matched, continued⟩ := captureAll_cons_eq_some.1 accepted
      rcases List.mem_cons.1 member with rfl | later
      · exact ⟨value, captures, extended, present, matched⟩
      · exact ih continued later

theorem keys_perm_of_capture {captures result : Captures} {templates : List (String × Pattern)}
    {entries : List (String × Value)} (distinct : Entries.Distinct templates)
    (sameLength : templates.length = entries.length)
    (accepted : captureAll captures templates entries = some result) :
    (Entries.keys templates).Perm (Entries.keys entries) := by
  apply Entries.keys_perm_of_found distinct (by simpa [Entries.keys] using sameLength)
  intro tag named
  obtain ⟨template, member⟩ := Entries.mem_keys_iff.1 named
  obtain ⟨value, _, _, present, _⟩ := captureAll_member accepted member
  exact ⟨value, present⟩

/-! ## Shapes -/

/-- The value has the shape of the pattern: a group of exactly the tags of a group template,
in any order, a leaf in a simple slot, and anything in a subtree slot. -/
inductive Shapes : Pattern → Value → Prop where
  | simple {slot text : String} : Shapes (.simple slot) (.leaf text)
  | subtree {slot : String} {value : Value} : Shapes (.subtree slot) value
  | group {templates : List (String × Pattern)} {entries : List (String × Value)} :
      (Entries.keys templates).Perm (Entries.keys entries) →
      (∀ template ∈ templates, ∀ entry ∈ entries,
        template.1 = entry.1 → Shapes template.2 entry.2) →
      Shapes (.group templates) (.group entries)

theorem Shapes.group_inv {templates : List (String × Pattern)} {value : Value}
    (shapes : Shapes (.group templates) value) : ∃ entries, value = .group entries ∧
      (Entries.keys templates).Perm (Entries.keys entries) ∧
      ∀ template ∈ templates, ∀ entry ∈ entries,
        template.1 = entry.1 → Shapes template.2 entry.2 := by
  cases shapes with
  | group sameTags below => exact ⟨_, rfl, sameTags, below⟩

/-- A value that is captured by the pattern has its shape. -/
theorem shapes_of_capture {pattern : Pattern} (distinct : pattern.DistinctTags) {value : Value}
    {captures result : Captures} (accepted : capture captures pattern value = some result) :
    pattern.Shapes value := by
  induction pattern using entryInduction generalizing value captures result with
  | subtree slot => exact .subtree
  | simple slot =>
      obtain ⟨text, rfl, _⟩ := capture_simple_eq_some accepted
      exact .simple
  | group templates ih =>
      obtain ⟨entries, rfl, sameLength, acceptedAll⟩ := capture_group_eq_some accepted
      have sameTags := keys_perm_of_capture distinct.keys sameLength acceptedAll
      have entriesDistinct : Entries.Distinct entries := sameTags.nodup_iff.1 distinct.keys
      refine .group sameTags fun template member entry entryMember sameTag => ?_
      obtain ⟨value, _, _, present, matched⟩ := captureAll_member acceptedAll member
      have found : Entries.get? template.1 entries = some entry.2 :=
        (Entries.get?_eq_some_iff entriesDistinct).2 (sameTag ▸ entryMember)
      cases present.symm.trans found
      exact ih template member (distinct.template member) matched

/-- A value of the shape is captured, whatever is captured before it. -/
theorem Shapes.capture {pattern : Pattern} {value : Value} (shapes : pattern.Shapes value)
    (captures : Captures) : ∃ result, pattern.capture captures value = some result := by
  induction pattern using entryInduction generalizing value captures with
  | subtree slot => exact ⟨_, capture_subtree⟩
  | simple slot =>
      cases shapes with
      | simple => exact ⟨_, capture_simple_leaf⟩
  | group templates ih =>
      obtain ⟨entries, rfl, sameTags, below⟩ := shapes.group_inv
      -- Templates still to be matched look their values up among all entries.
      have matched : ∀ remaining : List (String × Pattern), remaining ⊆ templates →
          ∀ captures, ∃ result, captureAll captures remaining entries = some result := by
        intro remaining
        induction remaining with
        | nil => exact fun _ captures => ⟨captures, by rw [captureAll]⟩
        | cons template rest restMatched =>
            intro included captures
            obtain ⟨member, restIncluded⟩ := List.cons_subset.1 included
            obtain ⟨value, present⟩ := Entries.exists_get?_of_keys_perm sameTags member
            have shape := below template member _ (Entries.mem_of_get?_eq_some present) rfl
            obtain ⟨extended, first⟩ := ih template member shape captures
            obtain ⟨result, others⟩ := restMatched restIncluded extended
            exact ⟨result, captureAll_cons_eq_some.2 ⟨value, extended, present, first, others⟩⟩
      obtain ⟨result, accepted⟩ := matched templates (List.Subset.refl _) captures
      have sameLength : templates.length = entries.length := by
        simpa [Entries.keys] using sameTags.length_eq
      exact ⟨result, by rw [Pattern.capture, if_pos sameLength, accepted]⟩

theorem match?_iff_shapes {pattern : Pattern} (distinct : pattern.DistinctTags) {value : Value} :
    (∃ captures, pattern.match? value = some captures) ↔ pattern.Shapes value :=
  ⟨fun ⟨_, accepted⟩ => shapes_of_capture distinct accepted, fun shapes => shapes.capture .empty⟩

/-! ## Overlap -/

@[simp] theorem overlaps_subtree_left {slot : String} {other : Pattern} :
    overlaps (.subtree slot) other = true := by
  simp [overlaps]

@[simp] theorem overlaps_subtree_right {pattern : Pattern} {slot : String} :
    overlaps pattern (.subtree slot) = true := by
  cases pattern <;> simp [overlaps]

@[simp] theorem overlaps_simple {slot slot' : String} :
    overlaps (.simple slot) (.simple slot') = true := by
  simp [overlaps]

theorem overlapsAll_iff {templates others : List (String × Pattern)} :
    overlapsAll templates others = true ↔
      ∀ template ∈ templates, ∃ other, Entries.get? template.1 others = some other ∧
        template.2.overlaps other = true := by
  induction templates with
  | nil => simp [overlapsAll]
  | cons head rest ih =>
      obtain ⟨tag, template⟩ := head
      cases present : Entries.get? tag others with
      | none => simp [overlapsAll, present]
      | some other => simp [overlapsAll, present, ih]

theorem overlaps_group_iff {templates others : List (String × Pattern)} :
    overlaps (.group templates) (.group others) = true ↔
      templates.length = others.length ∧ overlapsAll templates others = true := by
  simp [overlaps]

/-- Two patterns with the shape of one value overlap. -/
theorem overlaps_of_shapes {left right : Pattern} {value : Value} (leftShapes : left.Shapes value)
    (rightShapes : right.Shapes value) : left.overlaps right = true := by
  induction left using entryInduction generalizing right value with
  | subtree slot => exact overlaps_subtree_left
  | simple slot =>
      cases leftShapes with
      | simple =>
          cases rightShapes with
          | simple => exact overlaps_simple
          | subtree => exact overlaps_subtree_right
  | group templates ih =>
      obtain ⟨entries, rfl, leftTags, leftBelow⟩ := leftShapes.group_inv
      cases rightShapes with
      | subtree => exact overlaps_subtree_right
      | @group others _ rightTags rightBelow =>
          have sameTags := leftTags.trans rightTags.symm
          rw [overlaps_group_iff, overlapsAll_iff]
          refine ⟨by simpa [Entries.keys] using sameTags.length_eq, fun template member => ?_⟩
          -- The other pattern has this tag because the group has.
          obtain ⟨other, found⟩ := Entries.exists_get?_of_keys_perm sameTags member
          obtain ⟨value, present⟩ := Entries.exists_get?_of_keys_perm leftTags member
          have entryMember := Entries.mem_of_get?_eq_some present
          exact ⟨other, found, ih template member (leftBelow _ member _ entryMember rfl)
            (rightBelow _ (Entries.mem_of_get?_eq_some found) _ entryMember rfl)⟩

theorem overlaps_of_match? {left right : Pattern} (leftDistinct : left.DistinctTags)
    (rightDistinct : right.DistinctTags) {value : Value} {captures others : Captures}
    (leftMatched : left.match? value = some captures)
    (rightMatched : right.match? value = some others) : left.overlaps right = true :=
  overlaps_of_shapes (shapes_of_capture leftDistinct leftMatched)
    (shapes_of_capture rightDistinct rightMatched)

end Pattern

/-! ## A value of every shape -/

/-- In every group of the value no tag occurs twice. -/
inductive Value.DistinctTags : Value → Prop where
  | leaf {text : String} : DistinctTags (.leaf text)
  | built {object : Built} : DistinctTags (.built object)
  | sequence {items : List Value} :
      (∀ item ∈ items, DistinctTags item) → DistinctTags (.sequence items)
  | group {entries : List (String × Value)} :
      Entries.Distinct entries → (∀ entry ∈ entries, DistinctTags entry.2) →
      DistinctTags (.group entries)

namespace Pattern

mutual

/-- The value that copies a pattern, with an empty leaf in every slot. -/
def sample : Pattern → Value
  | .group templates => .group (sampleOfAll templates)
  | .simple _ => .leaf ""
  | .subtree _ => .leaf ""

def sampleOfAll : List (String × Pattern) → List (String × Value)
  | [] => []
  | (tag, template) :: rest => (tag, template.sample) :: sampleOfAll rest

end

theorem sampleOfAll_eq_map (templates : List (String × Pattern)) :
    sampleOfAll templates = templates.map fun template => (template.1, template.2.sample) := by
  induction templates with
  | nil => rfl
  | cons template rest ih => simp [sampleOfAll, ih]

theorem keys_sampleOfAll (templates : List (String × Pattern)) :
    Entries.keys (sampleOfAll templates) = Entries.keys templates := by
  simp [sampleOfAll_eq_map, Entries.keys]

theorem sample_distinctTags {pattern : Pattern} (distinct : pattern.DistinctTags) :
    pattern.sample.DistinctTags := by
  induction pattern using entryInduction with
  | simple slot => exact .leaf
  | subtree slot => exact .leaf
  | group templates ih =>
      rw [sample]
      refine .group ?_ ?_
      · rw [Entries.Distinct, keys_sampleOfAll]
        exact distinct.keys
      · intro entry member
        rw [sampleOfAll_eq_map] at member
        obtain ⟨template, source, rfl⟩ := List.mem_map.1 member
        exact ih template source (distinct.template source)

theorem shapes_sample {pattern : Pattern} (distinct : pattern.DistinctTags) :
    pattern.Shapes pattern.sample := by
  induction pattern using entryInduction with
  | simple slot => exact .simple
  | subtree slot => exact .subtree
  | group templates ih =>
      rw [sample]
      refine .group (by rw [keys_sampleOfAll]) fun template member entry entryMember sameTag => ?_
      rw [sampleOfAll_eq_map] at entryMember
      obtain ⟨source, sourceMember, rfl⟩ := List.mem_map.1 entryMember
      have same : template = source :=
        List.inj_on_of_nodup_map distinct.keys member sourceMember sameTag
      exact same ▸ ih template member (distinct.template member)

theorem capture_sample {pattern : Pattern} (distinct : pattern.DistinctTags)
    (captures : Captures) : ∃ result, capture captures pattern pattern.sample = some result :=
  (shapes_sample distinct).capture captures

end Pattern

end InterviewFlow
