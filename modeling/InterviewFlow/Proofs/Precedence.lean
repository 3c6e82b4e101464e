import InterviewFlow.Proofs.Matching
import InterviewFlow.Rewriting.FlowRules

/-! An accepted list of rules is unambiguous: no value is matched at two
positions. The order of its rules is then without effect, on a single match and
on the rewriting of whole trees, also where validation would refuse the order. -/

set_option autoImplicit false

namespace InterviewFlow

namespace RuleList

/-- At most one position of the list matches the value. -/
def ExclusiveOn (rules : RuleList) (value : Value) : Prop :=
  rules.Pairwise fun earlier later =>
    earlier.pattern.match? value = none ∨ later.pattern.match? value = none

/-- In the patterns of all rules no tag occurs twice in a group, as in every pattern
put together by `Pattern.ofEntries`. -/
def DistinctTags (rules : RuleList) : Prop :=
  ∀ rule ∈ rules, rule.pattern.DistinctTags

instance (rules : RuleList) : Decidable rules.DistinctTags :=
  inferInstanceAs (Decidable (∀ rule ∈ rules, rule.pattern.DistinctTags))

theorem firstAmbiguity?_eq_none_iff {rules : RuleList} :
    rules.firstAmbiguity? = none ↔
      rules.Pairwise fun earlier later => earlier.pattern.overlaps later.pattern = false := by
  induction rules with
  | nil => simp [firstAmbiguity?]
  | cons earlier rest ih =>
      rw [List.pairwise_cons, ← ih, firstAmbiguity?]
      split
      · next later found =>
          have overlap := List.find?_some found
          have member := List.mem_of_find?_eq_some found
          simp only [reduceCtorEq, false_iff, not_and]
          intro separate
          rw [separate later member] at overlap
          cases overlap
      · next absent =>
          have separate : ∀ later ∈ rest,
              earlier.pattern.overlaps later.pattern = false := by
            simpa using absent
          exact ⟨fun below => ⟨separate, below⟩, And.right⟩

theorem firstAmbiguity?_of_firstFault? {rules : RuleList} (accepted : rules.firstFault? = none) :
    rules.firstAmbiguity? = none := by
  unfold firstFault? at accepted
  split at accepted
  · cases accepted
  · assumption

theorem exclusiveOn_of_accepted {rules : RuleList} (accepted : rules.firstFault? = none)
    (distinct : rules.DistinctTags) (value : Value) : rules.ExclusiveOn value := by
  have separate := firstAmbiguity?_eq_none_iff.1 (firstAmbiguity?_of_firstFault? accepted)
  refine separate.imp_of_mem ?_
  intro earlier later earlierMember laterMember apart
  cases earlierMatch : earlier.pattern.match? value with
  | none => exact .inl rfl
  | some captures =>
      cases laterMatch : later.pattern.match? value with
      | none => exact .inr rfl
      | some others =>
          have overlap := Pattern.overlaps_of_match? (distinct earlier earlierMember)
            (distinct later laterMember) earlierMatch laterMatch
          rw [apart] at overlap
          cases overlap

/-! ## The first match -/

theorem firstMatch?_cons {rule : RewriteRule} {rest : RuleList} {value : Value} :
    firstMatch? (rule :: rest) value =
      ((rule.pattern.match? value).map fun captures => (rule, captures)).or
        (firstMatch? rest value) := by
  cases matched : rule.pattern.match? value <;> simp [firstMatch?, matched]

theorem firstMatch?_eq_none_iff {rules : RuleList} {value : Value} :
    rules.firstMatch? value = none ↔ ∀ rule ∈ rules, rule.pattern.match? value = none := by
  simp [firstMatch?]

theorem mem_of_firstMatch? {rules : RuleList} {value : Value} {rule : RewriteRule}
    {captures : Captures} (found : rules.firstMatch? value = some (rule, captures)) :
    rule ∈ rules ∧ rule.pattern.match? value = some captures := by
  obtain ⟨candidate, member, selected⟩ := List.exists_of_findSome?_eq_some found
  obtain ⟨bindings, matched, same⟩ := Option.map_eq_some_iff.1 selected
  cases same
  exact ⟨member, matched⟩

/-- Where no two rules compete, whichever rule matches is the first that does. -/
theorem firstMatch?_eq_some_iff {rules : RuleList} {value : Value}
    (exclusive : rules.ExclusiveOn value) {rule : RewriteRule} {captures : Captures} :
    rules.firstMatch? value = some (rule, captures) ↔
      rule ∈ rules ∧ rule.pattern.match? value = some captures := by
  constructor
  · exact mem_of_firstMatch?
  · rintro ⟨member, matched⟩
    induction rules with
    | nil => simp at member
    | cons head rest ih =>
        obtain ⟨competes, restExclusive⟩ := List.pairwise_cons.1 exclusive
        rcases List.mem_cons.1 member with rfl | later
        · simp [firstMatch?_cons, matched]
        · have silent : head.pattern.match? value = none := by
            rcases competes rule later with silent | silent
            · exact silent
            · rw [matched] at silent
              cases silent
          simp [firstMatch?_cons, silent, ih restExclusive later]

/-- A template that takes any value leaves no room for another rule. -/
theorem ne_subtree_of_accepted {rules : RuleList} (accepted : rules.firstFault? = none)
    (several : 2 ≤ rules.length) {rule : RewriteRule} (member : rule ∈ rules) (slot : String) :
    rule.pattern ≠ .subtree slot := by
  intro shape
  have separate := firstAmbiguity?_eq_none_iff.1 (firstAmbiguity?_of_firstFault? accepted)
  match rules, several with
  | first :: second :: rest, _ =>
      obtain ⟨apart, _⟩ := List.pairwise_cons.1 separate
      rcases List.mem_cons.1 member with rfl | later
      · have overlap := apart second (by simp)
        simp [shape] at overlap
      · have overlap := apart rule later
        simp [shape] at overlap

/-- Where there are several rules, none matches a sequence. -/
theorem firstMatch?_sequence_of_accepted {rules : RuleList}
    (accepted : rules.firstFault? = none) (several : 2 ≤ rules.length) (items : List Value) :
    rules.firstMatch? (.sequence items) = none := by
  rw [firstMatch?_eq_none_iff]
  intro rule member
  cases shape : rule.pattern with
  | group templates => simp [Pattern.match?, Pattern.capture]
  | simple slot => simp [Pattern.match?, Pattern.capture]
  | subtree slot => exact absurd shape (ne_subtree_of_accepted accepted several member slot)

theorem ExclusiveOn.perm {rules permuted : RuleList} {value : Value}
    (exclusive : rules.ExclusiveOn value) (order : rules.Perm permuted) :
    permuted.ExclusiveOn value :=
  order.pairwise exclusive fun alternatives => alternatives.symm

theorem firstMatch?_perm {rules permuted : RuleList} {value : Value}
    (exclusive : rules.ExclusiveOn value) (order : rules.Perm permuted) :
    permuted.firstMatch? value = rules.firstMatch? value := by
  apply Option.ext
  rintro ⟨rule, captures⟩
  rw [firstMatch?_eq_some_iff exclusive, firstMatch?_eq_some_iff (exclusive.perm order),
    order.mem_iff]

/-! ## Rewriting -/

/-- Rewriting consults the rules through the first match of a container only. -/
theorem rewriteWithin_congr_of_containers {rules others : RuleList}
    (sameSequences : ∀ items,
      others.firstMatch? (.sequence items) = rules.firstMatch? (.sequence items))
    (sameGroups : ∀ entries,
      others.firstMatch? (.group entries) = rules.firstMatch? (.group entries))
    (limit : Nat) (context : Context) (room : Nat) (tree : Tree) :
    others.rewriteWithin limit context room tree = rules.rewriteWithin limit context room tree := by
  induction room generalizing tree with
  | zero => simp only [rewriteWithin]
  | succ room ih =>
      have sameBelow : others.rewriteWithin limit context room =
          rules.rewriteWithin limit context room := funext ih
      cases tree with
      | leaf text => simp only [rewriteWithin]
      | sequence items => simp only [rewriteWithin, sameBelow, replace, sameSequences]
      | group entries => simp only [rewriteWithin, sameBelow, replace, sameGroups]

theorem rewriteWithin_congr {rules others : RuleList}
    (same : ∀ value, others.firstMatch? value = rules.firstMatch? value)
    (limit : Nat) (context : Context) (room : Nat) (tree : Tree) :
    others.rewriteWithin limit context room tree = rules.rewriteWithin limit context room tree :=
  rewriteWithin_congr_of_containers (fun _ => same _) (fun _ => same _) limit context room tree

end RuleList

theorem FlowRules.distinctTags_all : RuleList.DistinctTags all := by
  decide

namespace Registry

/-- Of the rules of an accepted list at most one position matches a value, each
is found for some value, and any other order of them finds the same rule with
the same captures and rewrites every tree to the same result or error. -/
theorem exclusive_and_order_free {rules : RuleList} {registry : Registry}
    (built : build rules = .ok registry) (distinct : rules.DistinctTags) :
    (∀ value, rules.ExclusiveOn value) ∧
    (∀ rule ∈ rules, ∃ value captures, value.DistinctTags ∧
      registry.find? value = some (rule, captures)) ∧
    ∀ permuted : RuleList, rules.Perm permuted →
      (∀ value, permuted.firstMatch? value = registry.find? value) ∧
      ∀ limit context tree,
        permuted.rewrite limit context tree = registry.rewrite limit context tree ∧
        permuted.rewriteNode limit context tree = registry.rewriteNode limit context tree := by
  obtain ⟨accepted, same⟩ := build_eq_ok_iff.1 built
  have exclusive := RuleList.exclusiveOn_of_accepted accepted distinct
  refine ⟨exclusive, ?_, ?_⟩
  · intro rule member
    obtain ⟨captures, matched⟩ := Pattern.capture_sample (distinct rule member) .empty
    refine ⟨rule.pattern.sample, captures, Pattern.sample_distinctTags (distinct rule member), ?_⟩
    rw [find?, same, RuleList.firstMatch?_eq_some_iff (exclusive _)]
    exact ⟨member, matched⟩
  · intro permuted order
    have sameMatch : ∀ value, permuted.firstMatch? value = rules.firstMatch? value :=
      fun value => RuleList.firstMatch?_perm (exclusive value) order
    have sameRewrite : ∀ limit context tree,
        permuted.rewrite limit context tree = rules.rewrite limit context tree :=
      fun limit context tree => RuleList.rewriteWithin_congr sameMatch limit context limit tree
    refine ⟨fun value => by rw [sameMatch, find?, same], fun limit context tree => ⟨?_, ?_⟩⟩
    · rw [sameRewrite, rewrite, same]
    · simp only [RuleList.rewriteNode, sameRewrite, rewriteNode, same]

/-- The flow rules in reverse, which validation refuses, rewrite all trees alike. -/
theorem exclusive_and_order_free_flow :
    build FlowRules.all = .ok flow ∧ FlowRules.all.DistinctTags ∧
    (RuleList.firstFault? FlowRules.all.reverse).isSome = true ∧
    ∀ limit context tree,
      RuleList.rewriteNode FlowRules.all.reverse limit context tree =
        flow.rewriteNode limit context tree := by
  have built : build FlowRules.all = .ok flow :=
    build_eq_ok_iff.2 ⟨FlowRules.firstFault?_all, rfl⟩
  have free := exclusive_and_order_free built FlowRules.distinctTags_all
  refine ⟨built, FlowRules.distinctTags_all, by decide, ?_⟩
  intro limit context tree
  exact ((free.2.2 _ (List.reverse_perm _).symm).2 limit context tree).2

end Registry

end InterviewFlow
