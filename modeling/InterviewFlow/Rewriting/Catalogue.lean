import InterviewFlow.Rewriting.FlowRules

/-!
# Builders by name

Builders for rules that are put together from data instead of code. Each one
reads a slot given with it; `context` and `count` read none. A name that is not
in the catalogue gives a builder that always fails.
-/

set_option autoImplicit false

namespace InterviewFlow

namespace Builder

def ofName (name slot : String) : Builder :=
  .ofConsume fun context =>
    match name with
    | "leaf" => do
        let text ← Consume.text slot
        return .leaf text
    | "leaves" => do
        let texts ← Consume.texts slot
        return .sequence (texts.map .leaf)
    | "heading" => do
        let text ← Consume.text slot
        return FlowRules.ofElement (.heading text)
    | "paragraph" => do
        let text ← Consume.text slot
        return FlowRules.ofElement (.paragraph text)
    | "named" => do
        let text ← Consume.text slot
        return FlowRules.ofPredicate (.named text)
    | "combined" => do
        let members ← Consume.predicates slot
        let conjunction ← ExceptT.mk (pure (Predicate.conjunction members))
        return FlowRules.ofPredicate conjunction
    | "otherwise_rule" => do
        let outcome ← Consume.text slot
        return FlowRules.ofRoutingRule (.direct .otherwise outcome)
    | "false_case" => do
        let elements ← Consume.elements slot
        return FlowRules.ofElement (.conditional .otherwise [] elements)
    | "next_node_rules" => do
        let rules ← Consume.routingRules slot
        return FlowRules.ofElement (.routing rules)
    | "pairs" => do
        let pairs ← Consume.pairs slot
        return .sequence (pairs.map fun pair => .built (.pair pair.2 pair.1))
    | "front_matter" => do
        let pairs ← Consume.pairs slot
        return .built (.frontMatter (.ofList pairs))
    | "node" => do
        let elements ← Consume.elements slot
        return .built (.node ⟨context.nodeName, elements, .empty⟩)
    | "take" => Consume.take slot
    | "take_twice" => do
        let _ ← Consume.take slot
        Consume.take slot
    | "sequence" => do
        let value ← Consume.take slot
        return .sequence value.toItems
    | "context" => return .leaf context.nodeName
    | "count" => do
        let captures ← get
        return .leaf captures.size.repr
    | other => throw (.invalidOperator other)

end Builder

end InterviewFlow
