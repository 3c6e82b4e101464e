import InterviewFlow.Proofs.Builders
import InterviewFlow.Proofs.Census

/-! Rewriting reaches a normal form. A builder answers nothing that a rule matches, and a
group that is kept was matched by none; so no part of a rewritten value is matched. A value
without objects is a tree again, no deeper than the one it came from, and is rewritten to
itself. -/

set_option autoImplicit false

namespace InterviewFlow

/-! ## Parts of values -/

namespace Value

mutual

/-- A value followed by everything below it, depth first. -/
def parts : Value → List Value
  | .leaf text => [.leaf text]
  | .sequence items => .sequence items :: partsOfItems items
  | .group entries => .group entries :: partsOfEntries entries
  | .built object => [.built object]

def partsOfItems : List Value → List Value
  | [] => []
  | item :: rest => item.parts ++ partsOfItems rest

def partsOfEntries : List (String × Value) → List Value
  | [] => []
  | (_, value) :: rest => value.parts ++ partsOfEntries rest

end

theorem partsOfItems_eq_flatMap (items : List Value) :
    partsOfItems items = items.flatMap parts := by
  induction items with
  | nil => rfl
  | cons item rest ih => rw [partsOfItems, ih, List.flatMap_cons]

theorem partsOfEntries_eq_flatMap (entries : List (String × Value)) :
    partsOfEntries entries = entries.flatMap fun entry => entry.2.parts := by
  induction entries with
  | nil => rfl
  | cons entry rest ih => rw [partsOfEntries, ih, List.flatMap_cons]

theorem forall_mem_parts_sequence {motive : Value → Prop} {items : List Value} :
    (∀ part ∈ (sequence items).parts, motive part) ↔
      motive (.sequence items) ∧ ∀ item ∈ items, ∀ part ∈ item.parts, motive part := by
  rw [parts, partsOfItems_eq_flatMap, List.forall_mem_cons, List.forall_mem_flatMap]

theorem forall_mem_parts_group {motive : Value → Prop} {entries : List (String × Value)} :
    (∀ part ∈ (group entries).parts, motive part) ↔
      motive (.group entries) ∧ ∀ entry ∈ entries, ∀ part ∈ entry.2.parts, motive part := by
  rw [parts, partsOfEntries_eq_flatMap, List.forall_mem_cons, List.forall_mem_flatMap]

def ObjectFree (value : Value) : Prop :=
  ∀ part ∈ value.parts, ∀ object, part ≠ .built object

end Value

/-! ## Trees as values -/

namespace Tree

mutual

def toValue : Tree → Value
  | .leaf text => .leaf text
  | .sequence items => .sequence (toValues items)
  | .group entries => .group (toValueEntries entries)

def toValues : List Tree → List Value
  | [] => []
  | item :: rest => item.toValue :: toValues rest

def toValueEntries : List (String × Tree) → List (String × Value)
  | [] => []
  | (tag, tree) :: rest => (tag, tree.toValue) :: toValueEntries rest

end

theorem toValues_eq_map (items : List Tree) : toValues items = items.map toValue := by
  induction items with
  | nil => rfl
  | cons item rest ih => rw [toValues, ih, List.map_cons]

theorem toValueEntries_eq_map (entries : List (String × Tree)) :
    toValueEntries entries = entries.map fun entry => (entry.1, entry.2.toValue) := by
  induction entries with
  | nil => rfl
  | cons entry rest ih => rw [toValueEntries, ih, List.map_cons]

mutual

theorem describe_toValue : ∀ tree : Tree, tree.toValue.describe = tree.describe
  | .leaf _ => rfl
  | .sequence items => by rw [toValue, describe, Value.describe, describeItems_toValues items]
  | .group entries => by
      rw [toValue, describe, Value.describe, describeEntries_toValueEntries entries]

theorem describeItems_toValues :
    ∀ items : List Tree, Value.describeItems (toValues items) = describeItems items
  | [] => rfl
  | item :: rest => by
      rw [toValues, Value.describeItems, describeItems, describe_toValue item,
        describeItems_toValues rest]

theorem describeEntries_toValueEntries : ∀ entries : List (String × Tree),
    Value.describeEntries (toValueEntries entries) = describeEntries entries
  | [] => rfl
  | (tag, tree) :: rest => by
      rw [toValueEntries, Value.describeEntries, describeEntries, describe_toValue tree,
        describeEntries_toValueEntries rest]

end

end Tree

/-! ## Nothing is left to match -/

namespace FlowRules

variable {context : Context}

def Normal (value : Value) : Prop :=
  ∀ part ∈ value.parts, all.firstMatch? part = none

theorem normal_of_answer {value : Value} (answer : value.Answer) : Normal value := by
  intro part member
  apply groupsConsumed_all.firstMatch?_eq_none
  intro entries same
  subst same
  cases answer <;> simp [Value.parts, Value.partsOfItems] at member

theorem normal_of_evaluates {tree : Tree} {value : Value}
    (evaluated : all.Evaluates context tree value) : Normal value := by
  induction tree using Tree.memberInduction generalizing value with
  | leaf text =>
      cases evaluates_inj evaluated evaluates_leaf
      exact normal_of_answer .leaf
  | sequence items ih =>
      obtain ⟨values, related, rfl⟩ :=
        (RuleList.evaluates_sequence_iff groupsConsumed_all.firstMatch?_sequence).1 evaluated
      refine Value.forall_mem_parts_sequence.2 ⟨groupsConsumed_all.firstMatch?_sequence _, ?_⟩
      intro item member
      obtain ⟨tree, treeMember, itemEvaluated⟩ := exists_of_forall₂ related.flip member
      exact ih tree treeMember itemEvaluated
  | group entries ih =>
      obtain ⟨values, tagwise, done⟩ := RuleList.evaluate_group_eq_ok_iff.1 evaluated
      rcases RuleList.replace_eq_ok done with
        ⟨rule, member, captures, _, built⟩ | ⟨unmatched, rfl⟩
      · exact normal_of_answer (answer_of_build member built)
      · refine Value.forall_mem_parts_group.2 ⟨unmatched, ?_⟩
        intro entry member
        obtain ⟨source, sourceMember, _, entryEvaluated⟩ :=
          exists_of_forall₂ tagwise.flip member
        exact ih source sourceMember entryEvaluated

end FlowRules

/-! ## Values that are trees -/

namespace Value

def IsTree (value : Value) (levels : Nat) : Prop :=
  ∃ tree : Tree, tree.toValue = value ∧ tree.depth ≤ levels

variable {levels : Nat}

theorem IsTree.leaf {text : String} (enough : 0 < levels) : IsTree (.leaf text) levels :=
  ⟨.leaf text, rfl, enough⟩

theorem IsTree.sequence {items : List Value} (each : ∀ item ∈ items, item.IsTree levels) :
    IsTree (.sequence items) (1 + levels) := by
  obtain ⟨trees, related⟩ := exists_forall₂ each
  refine ⟨.sequence trees, ?_, ?_⟩
  · have same : List.Forall₂ (· = ·) (trees.map Tree.toValue) items :=
      List.forall₂_map_left_iff.2 (related.imp fun _ _ => And.left).flip
    rw [List.forall₂_eq_eq_eq] at same
    rw [Tree.toValue, Tree.toValues_eq_map, same]
  · rw [Tree.depth, Nat.add_le_add_iff_left, Tree.depthOfItems_le_iff]
    intro tree member
    obtain ⟨_, _, _, fits⟩ := exists_of_forall₂ related.flip member
    exact fits

theorem IsTree.group {entries : List (String × Value)}
    (each : ∀ entry ∈ entries, entry.2.IsTree levels) : IsTree (.group entries) (1 + levels) := by
  obtain ⟨trees, tagwise⟩ : ∃ trees, Tagwise
      (fun value tree => Tree.toValue tree = value ∧ tree.depth ≤ levels) entries trees :=
    Tagwise.exists_of_forall each
  refine ⟨.group trees, ?_, ?_⟩
  · have same : List.Forall₂ (· = ·)
        (trees.map fun entry => (entry.1, entry.2.toValue)) entries :=
      List.forall₂_map_left_iff.2
        (tagwise.imp fun _ _ ⟨sameTag, same, _⟩ => Prod.ext sameTag.symm same).flip
    rw [List.forall₂_eq_eq_eq] at same
    rw [Tree.toValue, Tree.toValueEntries_eq_map, same]
  · rw [Tree.depth, Nat.add_le_add_iff_left, Tree.depthOfEntries_le_iff]
    intro entry member
    obtain ⟨_, _, _, _, fits⟩ := exists_of_forall₂ tagwise.flip member
    exact fits

theorem IsTree.mono {value : Value} {more : Nat} (isTree : value.IsTree levels)
    (within : levels ≤ more) : value.IsTree more := by
  obtain ⟨tree, same, fits⟩ := isTree
  exact ⟨tree, same, Nat.le_trans fits within⟩

end Value

namespace FlowRules

variable {context : Context}

theorem isTree_of_evaluates {tree : Tree} {value : Value}
    (evaluated : all.Evaluates context tree value) (free : value.ObjectFree) :
    value.IsTree tree.depth := by
  induction tree using Tree.memberInduction generalizing value with
  | leaf text =>
      cases evaluates_inj evaluated evaluates_leaf
      exact .leaf (Tree.depth_pos _)
  | sequence items ih =>
      obtain ⟨values, related, rfl⟩ :=
        (RuleList.evaluates_sequence_iff groupsConsumed_all.firstMatch?_sequence).1 evaluated
      refine .sequence fun item member => ?_
      obtain ⟨source, sourceMember, itemEvaluated⟩ := exists_of_forall₂ related.flip member
      have itemFree := (Value.forall_mem_parts_sequence.1 free).2 item member
      exact (ih source sourceMember itemEvaluated itemFree).mono
        (Tree.depth_le_depthOfItems sourceMember)
  | group entries ih =>
      obtain ⟨values, tagwise, done⟩ := RuleList.evaluate_group_eq_ok_iff.1 evaluated
      rcases RuleList.replace_eq_ok done with ⟨rule, member, captures, _, built⟩ | ⟨_, rfl⟩
      · cases answer_of_build member built with
        | leaf => exact .leaf (Tree.depth_pos _)
        | @built object => exact absurd rfl (free (.built object) (by simp [Value.parts]) object)
        | @frontMatter attributes =>
            have inside : .built (.frontMatter attributes) ∈
                (Value.sequence [.built (.frontMatter attributes)]).parts := by
              simp [Value.parts, Value.partsOfItems]
            exact absurd rfl (free _ inside _)
      · refine .group fun entry member => ?_
        obtain ⟨source, sourceMember, _, entryEvaluated⟩ :=
          exists_of_forall₂ tagwise.flip member
        have entryFree := (Value.forall_mem_parts_group.1 free).2 entry member
        exact (ih source sourceMember entryEvaluated entryFree).mono
          (Tree.depth_le_depthOfEntries sourceMember)

/-- A tree in which no rule matches is left as it is. -/
theorem evaluates_toValue {tree : Tree} (normal : Normal tree.toValue) :
    all.Evaluates context tree tree.toValue := by
  induction tree using Tree.memberInduction with
  | leaf text => exact evaluates_leaf
  | sequence items ih =>
      rw [Tree.toValue, Tree.toValues_eq_map] at normal ⊢
      obtain ⟨_, each⟩ := Value.forall_mem_parts_sequence.1 normal
      apply (RuleList.evaluates_sequence_iff groupsConsumed_all.firstMatch?_sequence).2
      refine ⟨_, ?_, rfl⟩
      rw [List.forall₂_map_right_iff, List.forall₂_same]
      exact fun item member => ih item member (each _ (List.mem_map_of_mem member))
  | group entries ih =>
      rw [Tree.toValue, Tree.toValueEntries_eq_map] at normal ⊢
      obtain ⟨unmatched, each⟩ := Value.forall_mem_parts_group.1 normal
      have below : Tagwise (all.Evaluates context) entries
          (entries.map fun entry => (entry.1, entry.2.toValue)) := by
        rw [Tagwise, List.forall₂_map_right_iff, List.forall₂_same]
        exact fun entry member => ⟨rfl, ih entry member (each _ (List.mem_map_of_mem member))⟩
      apply RuleList.evaluate_group_eq_ok_iff.2
      exact ⟨_, below, by simp only [RuleList.replace, unmatched]⟩

end FlowRules

/-- No part of a rewritten value is matched by the pattern of a rule. Where no part is an object,
the value is a tree, no deeper than the one it came from and of the same text, which every limit
that admits it rewrites to that value. -/
theorem Registry.rewrite_normal_form {limit : Nat} {context : Context} {tree : Tree}
    {value : Value} (rewritten : flow.rewrite limit context tree = .ok value) :
    (∀ part ∈ value.parts, flow.find? part = none ∧
      ∀ rule ∈ flow.rules, rule.pattern.match? part = none) ∧
    (value.ObjectFree → ∃ again : Tree, again.toValue = value ∧ again.depth ≤ tree.depth ∧
      again.describe = value.describe ∧ ∀ limit context, again.depth ≤ limit →
        flow.rewrite limit context again = .ok value) := by
  obtain ⟨_, evaluated⟩ := RuleList.rewrite_eq_ok_iff.1 rewritten
  have normal : FlowRules.Normal value := FlowRules.normal_of_evaluates evaluated
  refine ⟨?_, fun free => ?_⟩
  · intro part member
    exact ⟨normal part member, RuleList.firstMatch?_eq_none_iff.1 (normal part member)⟩
  obtain ⟨again, rfl, fits⟩ := FlowRules.isTree_of_evaluates evaluated free
  refine ⟨again, rfl, fits, again.describe_toValue.symm, fun limit context admitted => ?_⟩
  exact RuleList.rewrite_eq_ok_iff.2 ⟨admitted, FlowRules.evaluates_toValue normal⟩

/-- A wrapped text under a tag of its own becomes bare, and then stays. -/
theorem Registry.rewrite_normal_form_note :
    let value : Value := .group [("note", .sequence [.leaf "a", .group [("h1", .sequence [])]])]
    (∀ part ∈ value.parts, flow.find? part = none ∧
      ∀ rule ∈ flow.rules, rule.pattern.match? part = none) ∧
    ∃ again : Tree, again.toValue = value ∧ again.depth ≤ 4 ∧ again.describe = value.describe ∧
      flow.rewrite 4 ⟨"end"⟩ again = .ok value := by
  intro value
  let tree : Tree := .group [("note", .sequence
    [.group [("set_value", .leaf "a")], .group [("h1", .sequence [])]])]
  have rewritten : flow.rewrite 4 ⟨"start"⟩ tree = .ok value := rfl
  obtain ⟨normal, trees⟩ := rewrite_normal_form rewritten
  have free : value.ObjectFree := by
    simp [value, Value.ObjectFree, Value.parts, Value.partsOfItems, Value.partsOfEntries]
  obtain ⟨again, same, fits, text, rewrites⟩ := trees free
  exact ⟨normal, again, same, fits, text, rewrites 4 ⟨"end"⟩ fits⟩

end InterviewFlow
