import InterviewFlow.Proofs.Bindings

/-! What the builders of the flow rules do. Each takes slots of its own pattern and none
of them twice: a text where the pattern has a leaf, the predicate of a guard, or the items
of a list. In the end it answers a text, an object, or front matter in a list of one. -/

set_option autoImplicit false

namespace InterviewFlow

/-! ## What is expected -/

namespace Expectation

/-- The values of each kind. Front matter in a list of one stands for a node. -/
inductive Accepts : Expectation → Value → Prop where
  | leaf {text : String} : Accepts .leaf (.leaf text)
  | predicate {predicate : Predicate} : Accepts .predicate (.built (.predicate predicate))
  | element {element : Element} : Accepts .element (.built (.element element))
  | routingRule {rule : RoutingRule} : Accepts .routingRule (.built (.routingRule rule))
  | pair {key text : String} : Accepts .pair (.built (.pair key text))
  | node {node : Node} : Accepts .node (.built (.node node))
  | frontMatter {attributes : FrontMatter} :
      Accepts .node (.sequence [.built (.frontMatter attributes)])

/-- The conversion takes the values of the kind and reports all others. -/
def Decides {α : Type} (expected : Expectation) (conversion : Value → Except TransformError α) :
    Prop :=
  ∀ value, (expected.Accepts value ∧ ∃ item, conversion value = .ok item) ∨
    ¬ expected.Accepts value ∧ conversion value = value.mismatch expected

theorem decides_text : leaf.Decides Value.toText := by
  intro value
  rcases value with _ | _ | _ | _
  all_goals first
    | exact .inl ⟨.leaf, _, rfl⟩
    | exact .inr ⟨nofun, rfl⟩

theorem decides_predicate : predicate.Decides Value.toPredicate := by
  intro value
  rcases value with _ | _ | _ | (_ | _ | _ | _ | _ | _)
  all_goals first
    | exact .inl ⟨.predicate, _, rfl⟩
    | exact .inr ⟨nofun, rfl⟩

theorem decides_element : element.Decides Value.toElement := by
  intro value
  rcases value with _ | _ | _ | (_ | _ | _ | _ | _ | _)
  all_goals first
    | exact .inl ⟨.element, _, rfl⟩
    | exact .inr ⟨nofun, rfl⟩

theorem decides_routingRule : routingRule.Decides Value.toRoutingRule := by
  intro value
  rcases value with _ | _ | _ | (_ | _ | _ | _ | _ | _)
  all_goals first
    | exact .inl ⟨.routingRule, _, rfl⟩
    | exact .inr ⟨nofun, rfl⟩

theorem decides_pair : pair.Decides Value.toPair := by
  intro value
  rcases value with _ | _ | _ | (_ | _ | _ | _ | _ | _)
  all_goals first
    | exact .inl ⟨.pair, _, rfl⟩
    | exact .inr ⟨nofun, rfl⟩

/-- The lists of a document: the kind that their items are expected to be of, the words for
it, and the place. -/
def lists : List (Expectation × String × List String) :=
  [(leaf, "a leaf", ["set_membership_predicate", "values"]),
    (leaf, "a leaf", ["function_predicate", "arguments"]),
    (predicate, "a predicate", ["combined_predicate", "and_predicates"]),
    (element, "an element", ["body"]),
    (element, "an element", ["conditional", "true_case"]),
    (element, "an element", ["conditional", "false_case"]),
    (routingRule, "a rule or nested rule", ["nested_rule", "child_rules"]),
    (routingRule, "a rule or nested rule", ["next_node_rules"]),
    (pair, "a key/value pair", ["front_matter"]),
    (pair, "a key/value pair", ["multiple_choice", "options"])]

/-- Where the items of a list are expected to be of the kind. -/
def listPaths (expected : Expectation) : List (List String) :=
  (lists.filter fun entry => entry.1 = expected).map fun entry => entry.2.2

theorem describe_of_mem_lists : ∀ entry ∈ lists, entry.1.describe = entry.2.1 := by
  decide

theorem mem_lists_of_mem_listPaths {expected : Expectation} {path : List String}
    (place : path ∈ expected.listPaths) : (expected, expected.describe, path) ∈ lists := by
  obtain ⟨entry, kept, rfl⟩ := List.mem_map.1 place
  obtain ⟨member, own⟩ := List.mem_filter.1 kept
  obtain rfl := of_decide_eq_true own
  rw [describe_of_mem_lists entry member]
  exact member

/-- Where a single predicate is expected. -/
def guardPaths : List (List String) :=
  [["conditional", "predicate"], ["rule", "predicate"], ["nested_rule", "predicate"],
    ["combined_predicate", "first_predicate"]]

end Expectation

/-! ## Leaves in patterns -/

namespace Pattern

mutual

/-- The slots for leaves, in the order of declaration. -/
def simpleSlots : Pattern → List String
  | .simple slot => [slot]
  | .subtree _ => []
  | .group templates => simpleSlotsOfAll templates

def simpleSlotsOfAll : List (String × Pattern) → List String
  | [] => []
  | (_, template) :: rest => template.simpleSlots ++ simpleSlotsOfAll rest

end

mutual

/-- The slots for anything, in the order of declaration. -/
def subtreeSlots : Pattern → List String
  | .simple _ => []
  | .subtree slot => [slot]
  | .group templates => subtreeSlotsOfAll templates

def subtreeSlotsOfAll : List (String × Pattern) → List String
  | [] => []
  | (_, template) :: rest => template.subtreeSlots ++ subtreeSlotsOfAll rest

end

/-- The slot is bound, and to leaves only. -/
def BindsLeaf (pattern : Pattern) (slot : String) : Prop :=
  slot ∈ pattern.simpleSlots ∧ slot ∉ pattern.subtreeSlots

instance (pattern : Pattern) (slot : String) : Decidable (pattern.BindsLeaf slot) :=
  inferInstanceAs (Decidable (_ ∧ _))

/-- Once a leaf is bound to a slot, another match replaces it by leaves only. -/
theorem leaf_of_capture {pattern : Pattern} {slot : String} (only : slot ∉ pattern.subtreeSlots)
    {captures result : Captures} {value : Value}
    (accepted : capture captures pattern value = some result)
    (bound : slot ∈ pattern.simpleSlots ∨ ∃ text, captures.get? slot = some (.leaf text)) :
    ∃ text, result.get? slot = some (.leaf text) := by
  induction pattern using entryInduction generalizing captures value result with
  | simple other =>
      obtain ⟨text, rfl, rfl⟩ := capture_simple_eq_some accepted
      rw [Captures.get?_bind]
      split
      · exact ⟨text, rfl⟩
      · next different =>
          exact bound.resolve_left fun member => different (List.mem_singleton.1 member).symm
  | subtree other =>
      simp only [capture_subtree, Option.some.injEq] at accepted
      subst accepted
      have different : other ≠ slot := fun same => only (List.mem_singleton.2 same.symm)
      rw [Captures.get?_bind, if_neg different]
      exact bound.resolve_left List.not_mem_nil
  | group templates ih =>
      obtain ⟨entries, rfl, sameLength, acceptedAll⟩ := capture_group_eq_some accepted
      rw [subtreeSlots] at only
      rw [simpleSlots] at bound
      clear accepted sameLength
      induction templates generalizing captures with
      | nil =>
          simp only [captureAll, Option.some.injEq] at acceptedAll
          exact acceptedAll ▸ bound.resolve_left List.not_mem_nil
      | cons template rest restBinds =>
          obtain ⟨inner, extended, _, matched, continued⟩ := captureAll_cons_eq_some.1 acceptedAll
          simp only [subtreeSlotsOfAll, simpleSlotsOfAll, List.mem_append, not_or] at only bound
          refine restBinds (fun later member => ih later (by simp [member])) only.2 ?_ continued
          rcases bound with (first | later) | before
          · exact .inr (ih template (by simp) only.1 matched (.inl first))
          · exact .inl later
          · exact .inr (ih template (by simp) only.1 matched (.inr before))

theorem BindsLeaf.captured {pattern : Pattern} {slot : String} (leaf : pattern.BindsLeaf slot)
    {value : Value} {captures : Captures} (matched : pattern.match? value = some captures) :
    ∃ text, captures.get? slot = some (.leaf text) :=
  leaf_of_capture leaf.2 matched (.inl leaf.1)

/-- The slot is bound last at one of the places. -/
def BindsAt (pattern : Pattern) (slot : String) (paths : List (List String)) : Prop :=
  ∃ path ∈ paths, Entries.last? slot pattern.places = some path

instance (pattern : Pattern) (slot : String) (paths : List (List String)) :
    Decidable (pattern.BindsAt slot paths) :=
  inferInstanceAs (Decidable (∃ path ∈ paths, _))

theorem BindsAt.captured {pattern : Pattern} {slot : String} {paths : List (List String)}
    (binds : pattern.BindsAt slot paths) {value : Value} {captures : Captures}
    (matched : pattern.match? value = some captures) :
    ∃ path ∈ paths, ∃ part, value.at? path = some part ∧ captures.get? slot = some part := by
  obtain ⟨path, member, last⟩ := binds
  obtain ⟨bindings, bound, rfl⟩ := binds_of_match? matched
  obtain ⟨part, found, reached⟩ := (Tagwise.reverse bound).get?_left last
  exact ⟨path, member, part, reached, (Captures.get?_ofList bindings slot).trans found⟩

end Pattern

/-! ## Builders -/

/-- What a builder can answer: a text, an object, or front matter in a list of one. -/
inductive Value.Answer : Value → Prop where
  | leaf {text : String} : Answer (.leaf text)
  | built {object : Built} : Answer (.built object)
  | frontMatter {attributes : FrontMatter} : Answer (.sequence [.built (.frontMatter attributes)])

namespace Consume

/-- A builder for matches of the pattern that has taken some slots already and takes
others, each of a kind that stands at its place. -/
inductive Builds (pattern : Pattern) : List String → Consume Value → Prop where
  | answer {taken : List String} {value : Value} : value.Answer → Builds pattern taken (pure value)
  | text {taken : List String} {slot : String} {next : String → Consume Value} :
      slot ∉ taken → pattern.BindsLeaf slot →
      (∀ text, Builds pattern (slot :: taken) (next text)) →
      Builds pattern taken (Consume.text slot >>= next)
  | predicate {taken : List String} {slot : String} {next : Predicate → Consume Value} :
      slot ∉ taken → pattern.BindsAt slot Expectation.guardPaths →
      (∀ guard, Builds pattern (slot :: taken) (next guard)) →
      Builds pattern taken (Consume.predicate slot >>= next)
  | items {taken : List String} {slot : String} {α : Type} {expected : Expectation}
      {conversion : Value → Except TransformError α} {next : List α → Consume Value} :
      expected.Decides conversion → slot ∉ taken → pattern.BindsAt slot expected.listPaths →
      (∀ items, Builds pattern (slot :: taken) (next items)) →
      Builds pattern taken
        (convert slot (fun value => value.toItems.mapM conversion) >>= next)
  | operator {taken : List String} {slot : String}
      {next : ComparisonOperator → Consume Value} :
      slot ∉ taken → pattern.BindsLeaf slot →
      pattern.BindsAt slot [["comparison_predicate", "operator"]] →
      (∀ operator, Builds pattern (slot :: taken) (next operator)) →
      Builds pattern taken (Consume.text slot >>= fun symbol =>
        ExceptT.mk (pure (ComparisonOperator.ofSymbol symbol)) >>= next)
  | conjunction {taken : List String} {first : Predicate} {others : List Predicate}
      {next : Predicate → Consume Value} :
      (∀ conjunction, Builds pattern taken (next conjunction)) →
      Builds pattern taken
        (ExceptT.mk (pure (Predicate.conjunction (first :: others))) >>= next)

theorem result_bind_eq_ok {α β : Type} {first : Consume α} {next : α → Consume β}
    {captures : Captures} {result : β} (done : (first >>= next).result captures = .ok result) :
    ∃ item left, (next item).result left = .ok result := by
  rw [Consume.result, run_bind] at done
  split at done
  · next item left _ => exact ⟨item, left, done⟩
  · cases done

theorem Builds.answer_of_result {pattern : Pattern} {taken : List String}
    {consume : Consume Value} (builds : Builds pattern taken consume) {captures : Captures}
    {value : Value} (done : consume.result captures = .ok value) : value.Answer := by
  induction builds generalizing captures with
  | answer answer => exact Except.ok.inj done ▸ answer
  | text _ _ _ ih | predicate _ _ _ ih | items _ _ _ _ ih | conjunction _ ih =>
      obtain ⟨_, _, later⟩ := result_bind_eq_ok done
      exact ih _ later
  | operator _ _ _ _ ih =>
      obtain ⟨_, _, decoded⟩ := result_bind_eq_ok done
      obtain ⟨_, _, later⟩ := result_bind_eq_ok decoded
      exact ih _ later

end Consume

/-- The rule builds from its own matches. -/
def RewriteRule.Builds (rule : RewriteRule) : Prop :=
  ∃ consume : Context → Consume Value, rule.build = .ofConsume consume ∧
    ∀ context, (consume context).Builds rule.pattern []

open Consume Expectation in
theorem FlowRules.builds_all : ∀ rule ∈ all, rule.Builds := by
  -- The operator is tried ahead of the text, which would take its slot without the check.
  simp only [all, List.forall_mem_cons, List.not_mem_nil, IsEmpty.forall_iff, implies_true,
    and_true]
  repeat' apply And.intro
  all_goals refine ⟨_, rfl, fun _ => ?_⟩
  any_goals simp only [pairs_eq, texts_eq, predicates_eq, elements_eq, routingRules_eq]
  all_goals with_reducible repeat' first
    | refine Builds.operator ?_ ?_ ?_ fun _ => ?_
    | refine Builds.text ?_ ?_ fun _ => ?_
    | refine Builds.predicate ?_ ?_ fun _ => ?_
    | refine Builds.items decides_pair ?_ ?_ fun _ => ?_
    | refine Builds.items decides_element ?_ ?_ fun _ => ?_
    | refine Builds.items decides_routingRule ?_ ?_ fun _ => ?_
    | refine Builds.items decides_predicate ?_ ?_ fun _ => ?_
    | refine Builds.items decides_text ?_ ?_ fun _ => ?_
    | refine Builds.conjunction fun _ => ?_
    | refine Builds.answer ?_
  all_goals first
    | decide
    | exact .leaf
    | exact .built
    | exact .frontMatter

theorem FlowRules.answer_of_build {rule : RewriteRule} (member : rule ∈ all) {context : Context}
    {captures : Captures} {value : Value} (built : rule.build context captures = .ok value) :
    value.Answer := by
  obtain ⟨consume, own, builds⟩ := builds_all rule member
  rw [own] at built
  exact (builds context).answer_of_result built

end InterviewFlow
