import InterviewFlow.Rewriting.Rewrite

/-!
# The rules of flow documents

The registry that turns a flow document into a node. Rules that share a leading
tag run from most to least specific. Two rules, `set_value` and
`function_argument`, unwrap a text; three build pairs; the others build objects
of the model.
-/

set_option autoImplicit false

namespace InterviewFlow

namespace FlowRules

def ofElement (element : Element) : Value :=
  .built (.element element)

def ofPredicate (predicate : Predicate) : Value :=
  .built (.predicate predicate)

def ofRoutingRule (rule : RoutingRule) : Value :=
  .built (.routingRule rule)

def rule (name : String) (pattern : Pattern) (consume : Consume Value) : RewriteRule :=
  ⟨name, pattern, .ofConsume fun _ => consume⟩

/-! ## Nodes and front matter -/

def nodeWithFrontMatter : RewriteRule where
  name := "node_with_front_matter"
  pattern := .group [("front_matter", .subtree "attrs"), ("body", .subtree "body")]
  build := .ofConsume fun context => do
    let attributes ← Consume.pairs "attrs"
    let body ← Consume.elements "body"
    return .built (.node ⟨context.nodeName, body, .ofList attributes⟩)

def frontMatter : RewriteRule :=
  rule "front_matter" (.group [("front_matter", .subtree "attrs")]) do
    let attributes ← Consume.pairs "attrs"
    return .sequence [.built (.frontMatter (.ofList attributes))]

def node : RewriteRule where
  name := "node"
  pattern := .group [("body", .subtree "body")]
  build := .ofConsume fun context => do
    let body ← Consume.elements "body"
    return .built (.node ⟨context.nodeName, body, .empty⟩)

/-! ## Texts -/

/-- A tag over a leaf, which becomes an element with that text. -/
def textElement (name tag slot : String) (element : String → Element) : RewriteRule :=
  rule name (.group [(tag, .simple slot)]) do
    let text ← Consume.text slot
    return ofElement (element text)

/-- A tag over a leaf, which becomes the leaf. -/
def unwrapped (name tag slot : String) : RewriteRule :=
  rule name (.group [(tag, .simple slot)]) do
    let text ← Consume.text slot
    return .leaf text

/-! ## Pairs -/

/-- Two tagged leaves, which become a pair. -/
def pair (name keyTag textTag : String) : RewriteRule :=
  rule name (.group [(keyTag, .simple keyTag), (textTag, .simple textTag)]) do
    let key ← Consume.text keyTag
    let text ← Consume.text textTag
    return .built (.pair key text)

/-! ## Questions -/

def multipleChoice : RewriteRule :=
  rule "multiple_choice"
    (.group [("multiple_choice",
      .group [("identifier", .simple "identifier"), ("options", .subtree "choices")])]) do
    let identifier ← Consume.text "identifier"
    let options ← Consume.pairs "choices"
    return ofElement (.question (.multipleChoice identifier (.ofList options)))

def plainQuestion (name tag : String) (question : String → Question) : RewriteRule :=
  rule name (.group [(tag, .group [("identifier", .simple "identifier")])]) do
    let identifier ← Consume.text "identifier"
    return ofElement (.question (question identifier))

def nextSteps : RewriteRule :=
  rule "next_steps" (.group [("next_steps", .group [("content", .simple "content")])]) do
    let text ← Consume.text "content"
    return ofElement (.nextSteps text)

/-! ## Conditional content -/

def conditionalWithBothCases : RewriteRule :=
  rule "conditional_with_both_cases"
    (.group [("conditional",
      .group [("predicate", .subtree "predicate"), ("true_case", .subtree "true_case"),
        ("false_case", .subtree "false_case")])]) do
    let guard ← Consume.predicate "predicate"
    let whenTrue ← Consume.elements "true_case"
    let whenFalse ← Consume.elements "false_case"
    return ofElement (.conditional guard whenTrue whenFalse)

def conditionalWithTrueCase : RewriteRule :=
  rule "conditional_with_true_case"
    (.group [("conditional",
      .group [("predicate", .subtree "predicate"), ("true_case", .subtree "true_case")])]) do
    let guard ← Consume.predicate "predicate"
    let whenTrue ← Consume.elements "true_case"
    return ofElement (.conditional guard whenTrue [])

def conditional : RewriteRule :=
  rule "conditional" (.group [("conditional", .group [("predicate", .subtree "predicate")])]) do
    let guard ← Consume.predicate "predicate"
    return ofElement (.conditional guard [] [])

/-! ## Predicates -/

def equalityPredicate : RewriteRule :=
  rule "equality_predicate"
    (.group [("equality_predicate",
      .group [("varname", .simple "varname"), ("expected_value", .simple "expected_value")])]) do
    let varname ← Consume.text "varname"
    let expected ← Consume.text "expected_value"
    return ofPredicate (.equality varname expected)

def setMembershipPredicate : RewriteRule :=
  rule "set_membership_predicate"
    (.group [("set_membership_predicate",
      .group [("varname", .simple "varname"), ("values", .subtree "values")])]) do
    let varname ← Consume.text "varname"
    let values ← Consume.texts "values"
    return ofPredicate (.membership varname (.ofList values))

def namedPredicate : RewriteRule :=
  rule "named_predicate" (.group [("named_predicate", .simple "name")]) do
    let name ← Consume.text "name"
    return ofPredicate (.named name)

/-- What holds when nothing before it did; the text under the tag is not used. -/
def otherwisePredicate : RewriteRule :=
  rule "otherwise_predicate" (.group [("otherwise_predicate", .simple "name")]) do
    return ofPredicate .otherwise

/-- A first predicate and further ones, all of which hold. -/
def combinedPredicate : RewriteRule :=
  rule "combined_predicate"
    (.group [("combined_predicate",
      .group [("first_predicate", .subtree "first_predicate"),
        ("and_predicates", .subtree "and_predicates")])]) do
    let first ← Consume.predicate "first_predicate"
    let others ← Consume.predicates "and_predicates"
    let conjunction ← ExceptT.mk (pure (Predicate.conjunction (first :: others)))
    return ofPredicate conjunction

def functionPredicateWithArguments : RewriteRule :=
  rule "function_predicate_with_arguments"
    (.group [("function_predicate",
      .group [("name", .simple "name"), ("arguments", .subtree "arguments")])]) do
    let name ← Consume.text "name"
    let arguments ← Consume.texts "arguments"
    return ofPredicate (.function name arguments)

def functionPredicate : RewriteRule :=
  rule "function_predicate"
    (.group [("function_predicate", .group [("name", .simple "name")])]) do
    let name ← Consume.text "name"
    return ofPredicate (.function name [])

def comparisonPredicate : RewriteRule :=
  rule "comparison_predicate"
    (.group [("comparison_predicate",
      .group [("varname", .simple "varname"), ("value", .simple "value"),
        ("operator", .simple "operator")])]) do
    let symbol ← Consume.text "operator"
    let operator ← ExceptT.mk (pure (ComparisonOperator.ofSymbol symbol))
    let varname ← Consume.text "varname"
    let value ← Consume.text "value"
    return ofPredicate (.comparison ⟨operator, varname, value⟩)

/-! ## Routing -/

def routingRule : RewriteRule :=
  rule "rule"
    (.group [("rule",
      .group [("predicate", .subtree "predicate"), ("outcome", .simple "outcome_name")])]) do
    let guard ← Consume.predicate "predicate"
    let outcome ← Consume.text "outcome_name"
    return ofRoutingRule (.direct guard outcome)

def nestedRule : RewriteRule :=
  rule "nested_rule"
    (.group [("nested_rule",
      .group [("predicate", .subtree "predicate"), ("child_rules", .subtree "child_rules")])]) do
    let guard ← Consume.predicate "predicate"
    let children ← Consume.routingRules "child_rules"
    return ofRoutingRule (.nested guard children)

def nextNodeRules : RewriteRule :=
  rule "next_node_rules" (.group [("next_node_rules", .subtree "rules")]) do
    let rules ← Consume.routingRules "rules"
    return ofElement (.routing rules)

/-! ## The registry -/

/-- Every rule of flow documents, in order of precedence. -/
def all : RuleList :=
  [nodeWithFrontMatter,
   frontMatter,
   node,
   textElement "markdown_heading" "h1" "content" .heading,
   textElement "markdown_paragraph" "p" "content" .paragraph,
   textElement "start_button" "start_button" "start_node" .startButton,
   pair "front_matter_attribute" "name" "value",
   pair "choice_option" "value" "label",
   pair "link" "url" "label",
   multipleChoice,
   plainQuestion "date_question" "date" .date,
   plainQuestion "salary_question" "salary" .salary,
   plainQuestion "text_question" "text" .text,
   nextSteps,
   conditionalWithBothCases,
   conditionalWithTrueCase,
   conditional,
   equalityPredicate,
   unwrapped "set_value" "set_value" "value",
   setMembershipPredicate,
   namedPredicate,
   otherwisePredicate,
   combinedPredicate,
   unwrapped "function_argument" "function_argument" "argument",
   functionPredicateWithArguments,
   functionPredicate,
   comparisonPredicate,
   routingRule,
   nestedRule,
   nextNodeRules]

/-- No two rules of flow documents can match the same value, and each family is in order. -/
theorem firstFault?_all : all.firstFault? = none := by
  decide

end FlowRules

def Registry.flow : Registry :=
  ⟨FlowRules.all, FlowRules.firstFault?_all⟩

end InterviewFlow
