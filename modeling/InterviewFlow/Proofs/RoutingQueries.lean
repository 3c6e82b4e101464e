import InterviewFlow.Proofs.Census
import InterviewFlow.Proofs.Image

/-! What the routing queries of a node say of each other. The predicates are collected from
all content, branches included, and so cover every routing rule; the outcomes are those of
one routing tree, the first at the top level. Every outcome is the target of a rule, but
rules of the other routing trees are compiled without their targets becoming outcomes. -/

set_option autoImplicit false

namespace InterviewFlow

namespace Element

/-! ## Targets in content -/

/-- The targets of the routing trees in the content, branches included, in document order. -/
def targets (elements : List Element) : List String :=
  ((preorderOfAll elements).flatMap routingEntries).filterMap RoutingRule.outcome?

theorem preorderOfAll_append (elements others : List Element) :
    preorderOfAll (elements ++ others) = preorderOfAll elements ++ preorderOfAll others := by
  simp only [preorderOfAll_eq_flatMap, List.flatMap_append]

theorem targets_append (elements others : List Element) :
    targets (elements ++ others) = targets elements ++ targets others := by
  rw [targets, preorderOfAll_append, List.flatMap_append, List.filterMap_append]
  rfl

theorem targets_routing_cons (rules : List RoutingRule) (rest : List Element) :
    targets (.routing rules :: rest) = RoutingRule.outcomes rules ++ targets rest := by
  change targets ([.routing rules] ++ rest) = _
  rw [targets_append]
  congr 1
  simp [targets, preorderOfAll, preorder, routingEntries, RoutingRule.outcomes]

theorem predicate_mem_ownPredicates {element : Element} {rule : RoutingRule}
    (member : rule ∈ element.routingEntries) : rule.predicate ∈ element.ownPredicates := by
  cases element with
  | routing rules => exact List.mem_map_of_mem member
  | _ => cases member

end Element

namespace Node

variable {node : Node}

/-- The targets of all rules that are met, those in branches included. -/
def targets (node : Node) : List String :=
  Element.targets node.body

theorem predicate_mem_predicates {rule : RoutingRule} (member : rule ∈ node.routingEntries) :
    rule.predicate ∈ node.predicates := by
  obtain ⟨element, met, own⟩ := List.mem_flatMap.1 member
  exact List.mem_flatMap.2 ⟨element, met, Element.predicate_mem_ownPredicates own⟩

/-! ## The first routing tree -/

/-- What is looked up in a list is the content of the first element of its sort. -/
theorem findSome?_eq_some_iff_of_sort {β : Type} {look : Element → Option β} {sort : β → Element}
    (sees : ∀ element found, look element = some found ↔ element = sort found)
    {elements : List Element} {found : β} :
    elements.findSome? look = some found ↔ ∃ before after,
      elements = before ++ sort found :: after ∧ ∀ element ∈ before, look element = none := by
  rw [List.findSome?_eq_some_iff]
  simp only [sees]
  constructor
  · intro ⟨before, element, after, split, same, unseen⟩
    subst same
    exact ⟨before, after, split, unseen⟩
  · intro ⟨before, after, split, unseen⟩
    exact ⟨before, _, after, split, rfl, unseen⟩

theorem routing?_eq_some_iff {rules : List RoutingRule} :
    node.routing? = some rules ↔ ∃ before after, node.body = before ++ .routing rules :: after ∧
      ∀ element ∈ before, element.routing? = none := by
  refine findSome?_eq_some_iff_of_sort fun element found => ?_
  cases element <;> simp [Element.routing?]

theorem outcomes_of_routing? {rules : List RoutingRule} (first : node.routing? = some rules) :
    node.outcomes = RoutingRule.outcomes rules := by
  rw [outcomes, first]
  rfl

theorem outcomes_of_routing?_none (none : node.routing? = none) : node.outcomes = [] := by
  rw [outcomes, none]
  rfl

theorem outcomes_sublist_targets (node : Node) : node.outcomes.Sublist node.targets := by
  cases first : node.routing? with
  | none =>
      rw [outcomes_of_routing?_none first]
      exact List.nil_sublist _
  | some rules =>
      obtain ⟨before, after, split, _⟩ := routing?_eq_some_iff.1 first
      rw [outcomes_of_routing? first, targets, split, Element.targets_append,
        Element.targets_routing_cons]
      exact (List.sublist_append_left _ _).trans (List.sublist_append_right _ _)

theorem outcomes_append {elements : List Element}
    (behind : node.routing?.isSome = true ∨ ∀ element ∈ elements, element.routing? = none) :
    (node.append elements).outcomes = node.outcomes := by
  have same : (node.append elements).routing? = node.routing? := by
    rw [routing?, append, List.findSome?_append]
    change node.routing?.or (elements.findSome? Element.routing?) = node.routing?
    rcases behind with first | without
    · obtain ⟨rules, first⟩ := Option.isSome_iff_exists.1 first
      rw [first, Option.some_or]
    · rw [List.findSome?_eq_none_iff.2 without, Option.or_none]
  rw [outcomes, outcomes, same]

theorem predicates_append (elements : List Element) : (node.append elements).predicates =
    node.predicates ++ (Element.preorderOfAll elements).flatMap Element.ownPredicates := by
  change (Element.preorderOfAll (node.body ++ elements)).flatMap Element.ownPredicates = _
  rw [Element.preorderOfAll_append, List.flatMap_append]
  rfl

theorem targets_append (node : Node) (elements : List Element) :
    (node.append elements).targets = node.targets ++ Element.targets elements :=
  Element.targets_append node.body elements

/-! ## Agreement -/

/-- Of every rule with a target that is met, the target is an outcome. -/
def ReportsTargets (node : Node) : Prop :=
  ∀ guard target, .direct guard target ∈ node.routingEntries → target ∈ node.outcomes

theorem reportsTargets_iff : node.ReportsTargets ↔ node.targets ⊆ node.outcomes := by
  constructor
  · intro reports target member
    obtain ⟨rule, met, own⟩ := List.mem_filterMap.1 member
    cases rule with
    | direct guard outcome =>
        cases own
        exact reports guard target met
    | nested guard children => cases own
  · intro included guard target met
    exact included (List.mem_filterMap.2 ⟨_, met, rfl⟩)

theorem reportsTargets_of_split {before after : List Element} {rules : List RoutingRule}
    (split : node.body = before ++ .routing rules :: after)
    (none : ∀ element ∈ before, element.routing? = none) :
    node.ReportsTargets ↔ Element.targets (before ++ after) ⊆ RoutingRule.outcomes rules := by
  rw [reportsTargets_iff, outcomes_of_routing? (routing?_eq_some_iff.2 ⟨_, _, split, none⟩),
    targets, split, Element.targets_append, Element.targets_append, Element.targets_routing_cons]
  simp only [List.append_subset, List.Subset.refl, true_and]

/-- Every rule that is met has its guard among the predicates, and every outcome is the
target of such a rule. But the outcomes are those of the first routing tree at the top
level, so all targets are reported exactly if this tree has them all. Content that hides
its targets is compiled like any other: in branches, or behind the first tree, its
predicates are reported and its targets are not. -/
theorem outcomes_of_first_tree (node : Node) :
    (∀ rule ∈ node.routingEntries, rule.predicate ∈ node.predicates) ∧
    node.outcomes.Sublist node.targets ∧
    (∀ before rules after, node.body = before ++ .routing rules :: after →
      (∀ element ∈ before, element.routing? = none) →
      node.outcomes = RoutingRule.outcomes rules ∧
      (node.ReportsTargets ↔
        Element.targets (before ++ after) ⊆ RoutingRule.outcomes rules)) ∧
    ((∀ element ∈ node.body, element.routing? = none) →
      node.outcomes = [] ∧ (node.ReportsTargets ↔ node.targets = [])) ∧
    ∀ elements, (∀ element ∈ elements, element.WellFormed) →
      node.routing?.isSome = true ∨ (∀ element ∈ elements, element.routing? = none) →
      (∃ limit tree, Registry.flow.rewriteNode limit ⟨node.name⟩ tree = .ok node) →
      (∃ limit tree,
        Registry.flow.rewriteNode limit ⟨node.name⟩ tree = .ok (node.append elements)) ∧
      (node.append elements).outcomes = node.outcomes ∧
      (node.append elements).predicates =
        node.predicates ++ (Element.preorderOfAll elements).flatMap Element.ownPredicates ∧
      (node.append elements).targets = node.targets ++ Element.targets elements := by
  refine ⟨fun _ => predicate_mem_predicates, node.outcomes_sublist_targets, ?_, ?_, ?_⟩
  · intro before rules after split none
    exact ⟨outcomes_of_routing? (routing?_eq_some_iff.2 ⟨_, _, split, none⟩),
      reportsTargets_of_split split none⟩
  · intro none
    have nothing := outcomes_of_routing?_none (List.findSome?_eq_none_iff.2 none)
    refine ⟨nothing, ?_⟩
    rw [reportsTargets_iff, nothing, List.subset_nil]
  · intro elements formed behind compiled
    refine ⟨?_, outcomes_append behind, node.predicates_append elements,
      node.targets_append elements⟩
    have all : (node.append elements).WellFormed :=
      List.forall_mem_append.2 ⟨node.wellFormed_iff_compiled.2 compiled, formed⟩
    exact (node.append elements).wellFormed_iff_compiled.1 all

/-- A branch with a routing tree behind the first one, and on its own. -/
theorem outcomes_of_first_tree_branch :
    let node : Node := ⟨"p", [.heading "Loan", .routing [.direct .otherwise "end"]], .empty⟩
    let branch : Element := .conditional (.named "adult") [.routing [.direct .otherwise "loan"]] []
    let alone : Node := ⟨"p", [branch], .empty⟩
    node.outcomes = ["end"] ∧ node.ReportsTargets ∧
      (∃ limit tree,
        Registry.flow.rewriteNode limit ⟨"p"⟩ tree = .ok (node.append [branch])) ∧
      (node.append [branch]).outcomes = ["end"] ∧
      (node.append [branch]).predicates = [.otherwise, .named "adult", .otherwise] ∧
      (node.append [branch]).targets = ["end", "loan"] ∧
      alone.outcomes = [] ∧ ¬ alone.ReportsTargets := by
  intro node branch alone
  obtain ⟨_, _, first, _, hides⟩ := outcomes_of_first_tree node
  obtain ⟨outcomes, reports⟩ := first [.heading "Loan"] [.direct .otherwise "end"] [] rfl
    (List.forall_mem_singleton.2 rfl)
  have nodeFormed : node.WellFormed := by
    refine List.forall_mem_cons.2 ⟨.heading, List.forall_mem_singleton.2 (.routing ?_)⟩
    exact List.forall_mem_singleton.2 (.direct .otherwise)
  have branchFormed : ∀ element ∈ [branch], element.WellFormed := by
    refine List.forall_mem_singleton.2 (.conditional .named ?_ (List.forall_mem_nil _))
    refine List.forall_mem_singleton.2 (.routing ?_)
    exact List.forall_mem_singleton.2 (.direct .otherwise)
  obtain ⟨compiled, sameOutcomes, predicates, targets⟩ :=
    hides [branch] branchFormed (.inl rfl) (node.wellFormed_iff_compiled.1 nodeFormed)
  obtain ⟨noOutcomes, agrees⟩ := (outcomes_of_first_tree alone).2.2.2.1
    (List.forall_mem_singleton.2 rfl)
  refine ⟨outcomes, reports.2 (List.nil_subset _), compiled, sameOutcomes.trans outcomes,
    predicates, targets, noOutcomes, ?_⟩
  intro all
  cases agrees.1 all

/-- A document whose targets are reported for one of its three routing trees: the first is
in a branch, and the third is behind another one. -/
theorem outcomes_miss_targets :
    let rule (name target : String) : Tree := .group [("rule", .group [
      ("predicate", .group [("named_predicate", .leaf name)]), ("outcome", .leaf target)])]
    let routing (rules : List Tree) : Tree := .group [("next_node_rules", .sequence rules)]
    let tree : Tree := .group [("body", .sequence [
      .group [("conditional", .group [
        ("predicate", .group [("otherwise_predicate", .leaf "")]),
        ("true_case", .sequence [routing [rule "adult" "loan"]])])],
      routing [rule "minor" "end"], routing [rule "retired" "pension"]])]
    ∃ node, Registry.flow.rewriteNode 256 ⟨"p"⟩ tree = .ok node ∧
      node.outcomes = ["end"] ∧
      .direct (.named "adult") "loan" ∈ node.routingEntries ∧
      .direct (.named "retired") "pension" ∈ node.routingEntries ∧
      node.predicates = [.otherwise, .named "adult", .named "minor", .named "retired"] ∧
      ¬ node.ReportsTargets := by
  intro rule routing tree
  refine ⟨_, rfl, rfl, ?_, ?_, rfl, ?_⟩
  · exact .head _
  · exact .tail _ (.tail _ (.head _))
  · intro reports
    have missing := reports (.named "adult") "loan" (.head _)
    exact absurd missing (by decide)

end Node

end InterviewFlow
