import InterviewFlow.Proofs.DepthLimit
import InterviewFlow.Proofs.LoneItems

/-! Rewriting is compositional: of a part of a tree the rest sees only what the part is
rewritten to, or its error. So parts with the same outcome can be exchanged at any place, also
where something before the place fails or where the rewritten part lets a rule match above it. -/

set_option autoImplicit false

namespace InterviewFlow

namespace Tree

/-- A tree with one place left open. -/
inductive Surrounding where
  | place
  | item (before : List Tree) (inside : Surrounding) (after : List Tree)
  | entry (before : List (String × Tree)) (tag : String) (inside : Surrounding)
      (after : List (String × Tree))

namespace Surrounding

def plug : Surrounding → Tree → Tree
  | place, part => part
  | item before inside after, part => .sequence (before ++ inside.plug part :: after)
  | entry before tag inside after, part => .group (before ++ (tag, inside.plug part) :: after)

end Surrounding

end Tree

namespace RuleList

open InterviewFlow.Tree (Surrounding)

variable {rules : RuleList} {context : Context}

theorem evaluate_plug {part other : Tree}
    (same : rules.evaluate context part = rules.evaluate context other)
    (surrounding : Surrounding) :
    rules.evaluate context (surrounding.plug part) =
      rules.evaluate context (surrounding.plug other) := by
  induction surrounding with
  | place => exact same
  | item before inside after ih =>
      simp only [Surrounding.plug, evaluate, evaluateItems_eq_mapM, List.mapM_append,
        List.mapM_cons, ih]
  | entry before tag inside after ih =>
      simp only [Surrounding.plug, evaluate, evaluateEntries_eq_mapM, List.mapM_append,
        List.mapM_cons, ih]

end RuleList

namespace Registry

open InterviewFlow.Tree (Surrounding)

/-- Under every limit that admits both trees they have the same value or the same error,
and describe the same node or none. -/
def SameOutcome (registry : Registry) (context : Context) (tree other : Tree) : Prop :=
  ∀ limit, tree.depth ≤ limit → other.depth ≤ limit →
    registry.rewrite limit context tree = registry.rewrite limit context other ∧
      registry.rewriteNode limit context tree = registry.rewriteNode limit context other

theorem sameOutcome_of_evaluate {registry : Registry} {context : Context} {tree other : Tree}
    (same : registry.rules.evaluate context tree = registry.rules.evaluate context other) :
    registry.SameOutcome context tree other := by
  intro limit fits otherFits
  have rewritten : registry.rewrite limit context tree = registry.rewrite limit context other := by
    rw [rewrite, rewrite, RuleList.rewrite_eq_evaluate _ _ fits,
      RuleList.rewrite_eq_evaluate _ _ otherFits, same]
  refine ⟨rewritten, ?_⟩
  rw [rewrite, rewrite] at rewritten
  rw [rewriteNode, rewriteNode, RuleList.rewriteNode, RuleList.rewriteNode, rewritten]

theorem evaluate_flow_of_text {tree : Tree} {text : String} (denotes : tree.DenotesText text)
    (context : Context) : flow.rules.evaluate context tree = .ok (.leaf text) :=
  FlowRules.evaluates_of_denotesText FlowRules.extendedBy_all denotes

/-- Parts that have the same outcome under a limit that admits both give their surroundings
the same outcome, whatever the rules are. By the flow rules a leaf and the leaf in a wrapper
are such parts. -/
theorem sameOutcome_plug (context : Context) (surrounding : Surrounding) :
    (∀ (registry : Registry) (part other : Tree) (enough : Nat),
      part.depth ≤ enough → other.depth ≤ enough →
      registry.rewrite enough context part = registry.rewrite enough context other →
      registry.SameOutcome context (surrounding.plug part) (surrounding.plug other)) ∧
    ∀ text : String,
      flow.SameOutcome context (surrounding.plug (.leaf text))
        (surrounding.plug (.setValue text)) ∧
      flow.SameOutcome context (surrounding.plug (.leaf text))
        (surrounding.plug (.argument text)) := by
  have exchanged : ∀ {registry : Registry} {part other : Tree},
      registry.rules.evaluate context part = registry.rules.evaluate context other →
      registry.SameOutcome context (surrounding.plug part) (surrounding.plug other) :=
    fun same => sameOutcome_of_evaluate (RuleList.evaluate_plug same surrounding)
  constructor
  · intro registry part other enough fits otherFits same
    apply exchanged
    rw [rewrite, rewrite, RuleList.rewrite_eq_evaluate _ _ fits,
      RuleList.rewrite_eq_evaluate _ _ otherFits] at same
    exact same
  · intro text
    have bare : (Tree.leaf text).DenotesText text := .leaf
    have leaf := evaluate_flow_of_text bare context
    have setValue := evaluate_flow_of_text (.setValue bare) context
    have argument := evaluate_flow_of_text (.functionArgument bare) context
    exact ⟨exchanged (leaf.trans setValue.symm), exchanged (leaf.trans argument.symm)⟩

/-- A comparison that fails, and a list that fails because of it, between a heading and a text
that is no content; and a wrapped operand of a comparison that does not fail. -/
theorem sameOutcome_plug_operator :
    let comparison (operator value : Tree) : Tree := .group [("comparison_predicate", .group
      [("varname", .leaf "age"), ("value", value), ("operator", operator)])]
    let failing := comparison (.leaf "~") (.leaf "18")
    let body : Surrounding :=
      .entry [] "body" (.item [.group [("h1", .leaf "Start")]] .place [.leaf "plain"]) []
    let operand : Surrounding := .entry [] "comparison_predicate"
      (.entry [("varname", .leaf "age")] "value" .place [("operator", .leaf "<")]) []
    flow.rewrite 4 ⟨"start"⟩ failing = flow.rewrite 4 ⟨"start"⟩ (.sequence [failing, .leaf "x"]) ∧
      flow.rewriteNode 6 ⟨"start"⟩ (body.plug failing) = .error (.invalidOperator "~") ∧
      flow.rewriteNode 6 ⟨"start"⟩ (body.plug (.sequence [failing, .leaf "x"])) =
        .error (.invalidOperator "~") ∧
      flow.rewrite 4 ⟨"start"⟩ (operand.plug (.argument "18")) =
        .ok (FlowRules.ofPredicate (.comparison ⟨.less, "age", "18"⟩)) := by
  intro comparison failing body operand
  have same : flow.rewrite 4 ⟨"start"⟩ failing =
      flow.rewrite 4 ⟨"start"⟩ (.sequence [failing, .leaf "x"]) := rfl
  have bodySame := (sameOutcome_plug ⟨"start"⟩ body).1 flow failing
    (.sequence [failing, .leaf "x"]) 4 (by decide) (by decide) same
  have operandSame := ((sameOutcome_plug ⟨"start"⟩ operand).2 "18").2
  have failed : flow.rewriteNode 6 ⟨"start"⟩ (body.plug failing) =
      .error (.invalidOperator "~") := rfl
  have read : flow.rewrite 4 ⟨"start"⟩ (operand.plug (.leaf "18")) =
      .ok (FlowRules.ofPredicate (.comparison ⟨.less, "age", "18"⟩)) := rfl
  exact ⟨same, failed, (bodySame 6 (by decide) (by decide)).2.symm.trans failed,
    (operandSame 4 (by decide) (by decide)).1.symm.trans read⟩

end Registry

end InterviewFlow
