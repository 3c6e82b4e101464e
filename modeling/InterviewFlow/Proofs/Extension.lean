import InterviewFlow.Proofs.Acceptance

/-! Rules added to the flow rules. Validation compares whole patterns only, while
rewriting offers every group to every rule, also one that stands inside the pattern of
another rule. Rules that keep clear of those groups change no accepted document. -/

set_option autoImplicit false

namespace InterviewFlow

theorem FlowRules.extendedBy_append {added : RuleList}
    (accepted : RuleList.firstFault? (all ++ added) = none) (distinct : added.DistinctTags)
    (apart : ∀ rule ∈ all, ∀ inner ∈ rule.pattern.nestedGroups, added.Inert inner) :
    ExtendedBy (all ++ added) where
  accepted := accepted
  distinct := List.forall_mem_append.2 ⟨distinctTags_all, distinct⟩
  included := List.sublist_append_left all added
  inert rule member inner inside := by
    refine List.forall_mem_append.2 ⟨?_, ?_⟩
    · exact inert_nestedGroups rule member inner inside
    · exact apart rule member inner inside

namespace Registry

theorem rewriteNode_of_extendedBy {registry : Registry}
    (extended : FlowRules.ExtendedBy registry.rules) {limit : Nat} {context : Context}
    {tree : Tree} {node : Node} (compiled : flow.rewriteNode limit context tree = .ok node) :
    registry.rewriteNode limit context tree = .ok node := by
  obtain ⟨fits, denotes⟩ := rewriteNode_flow_iff.1 compiled
  exact RuleList.rewriteNode_eq_ok_iff.2
    ⟨fits, FlowRules.evaluates_of_denotesNode extended denotes⟩

/-- Added rules that validation accepts and that overlap no group template inside a flow
rule's pattern leave every compiled document as it is. Without the latter an accepted
rule can break one: here it takes the text out of the group that `next_steps` looks for. -/
theorem extension_conservative :
    (∀ (added : RuleList) (registry : Registry),
      build (FlowRules.all ++ added) = .ok registry → added.DistinctTags →
      (∀ rule ∈ FlowRules.all, ∀ inner ∈ rule.pattern.nestedGroups, added.Inert inner) →
      ∀ limit context tree node, flow.rewriteNode limit context tree = .ok node →
        registry.rewriteNode limit context tree = .ok node) ∧
    ∃ (added : RuleList) (registry : Registry),
      build (FlowRules.all ++ added) = .ok registry ∧ added.DistinctTags ∧
      ∃ limit context tree node, flow.rewriteNode limit context tree = .ok node ∧
        registry.rewriteNode limit context tree ≠ .ok node := by
  constructor
  · intro added registry built distinct apart limit context tree node compiled
    obtain ⟨accepted, same⟩ := build_eq_ok_iff.1 built
    apply rewriteNode_of_extendedBy _ compiled
    rw [same]
    exact FlowRules.extendedBy_append accepted distinct apart
  · let added : RuleList := [FlowRules.unwrapped "content" "content" "text"]
    have accepted : RuleList.firstFault? (FlowRules.all ++ added) = none := by decide
    let tree : Tree := .group [("body", .sequence
      [.group [("next_steps", .group [("content", .leaf "Wait.")])]])]
    refine ⟨added, ⟨_, accepted⟩, build_eq_ok_iff.2 ⟨accepted, rfl⟩, by decide, 8, ⟨"start"⟩, tree,
      ⟨"start", [.nextSteps "Wait."], .empty⟩, ?_, ?_⟩
    · exact rewriteNode_flow_iff.2
        ⟨by decide, .body (.sequence (.cons (.nextSteps .leaf) .nil))⟩
    · intro compiled
      cases compiled

/-- A rule for groups under `content` is harmless, although that tag stands inside a flow
rule's pattern, because the flow rule wants a text there. -/
theorem extension_conservative_content :
    let added : RuleList := [⟨"rich_content", .group [("content",
      .group [("lines", .subtree "lines")])], fun _ _ => .ok (.leaf "")⟩]
    let tree : Tree := .group [("body", .sequence
      [.group [("next_steps", .group [("content", .leaf "Wait.")])]])]
    ∃ registry, build (FlowRules.all ++ added) = .ok registry ∧
      registry.rewriteNode 8 ⟨"start"⟩ tree = .ok ⟨"start", [.nextSteps "Wait."], .empty⟩ := by
  intro added tree
  have accepted : RuleList.firstFault? (FlowRules.all ++ added) = none := by decide
  have built : build (FlowRules.all ++ added) = .ok ⟨_, accepted⟩ :=
    build_eq_ok_iff.2 ⟨accepted, rfl⟩
  have apart : ∀ rule ∈ FlowRules.all, ∀ inner ∈ rule.pattern.nestedGroups,
      added.Inert inner := by
    unfold RuleList.Inert
    decide
  refine ⟨_, built, extension_conservative.1 added _ built (by decide) apart 8 ⟨"start"⟩ tree _ ?_⟩
  exact rewriteNode_flow_iff.2 ⟨by decide, .body (.sequence (.cons (.nextSteps .leaf) .nil))⟩

end Registry

end InterviewFlow
