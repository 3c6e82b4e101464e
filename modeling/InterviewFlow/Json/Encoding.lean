import InterviewFlow.Json.Writer
import InterviewFlow.Node

/-!
# The model as JSON

Records are objects with their fields in a fixed order; a variant is an object
with the name of the variant as its only key, or the bare name where it holds
nothing. Options and attributes are objects, in the order of the map.
-/

set_option autoImplicit false

namespace InterviewFlow

namespace Json

def tagged (tag : String) (content : Json) : Json :=
  ofFields [(tag, content)]

def ofTexts (texts : List String) : Json :=
  .array (texts.map ofText)

def ofTextEntries (entries : Entries String) : Json :=
  ofFields (entries.map fun entry => (entry.1, ofText entry.2))

end Json

def ComparisonOperator.tag : ComparisonOperator → String
  | less => "Less"
  | lessOrEqual => "LessOrEqual"
  | greater => "Greater"
  | greaterOrEqual => "GreaterOrEqual"

def ComparisonOperator.toJson (operator : ComparisonOperator) : Json :=
  .ofText operator.tag

def Comparison.toJson (comparison : Comparison) : Json :=
  .ofFields [("operator", comparison.operator.toJson), ("varname", .ofText comparison.varname),
    ("value", .ofText comparison.value)]

namespace Predicate

mutual

def toJson : Predicate → Json
  | .equality varname expected =>
      .tagged "Equality"
        (.ofFields [("varname", .ofText varname), ("expected_value", .ofText expected)])
  | .membership varname values =>
      .tagged "SetMembership"
        (.ofFields [("varname", .ofText varname), ("values", .ofTexts values.items)])
  | .named name => .tagged "Named" (.ofText name)
  | .otherwise => .ofText "Otherwise"
  | .combined members => .tagged "Combined" (.array (toJsonAll members))
  | .function name arguments =>
      .tagged "Function" (.ofFields [("name", .ofText name), ("arguments", .ofTexts arguments)])
  | .comparison test => .tagged "Comparison" test.toJson

def toJsonAll : List Predicate → List Json
  | [] => []
  | predicate :: rest => predicate.toJson :: toJsonAll rest

end

end Predicate

namespace RoutingRule

mutual

def toJson : RoutingRule → Json
  | .direct predicate outcome =>
      .tagged "Rule" (.ofFields [("predicate", predicate.toJson), ("outcome", .ofText outcome)])
  | .nested predicate children =>
      .tagged "Nested"
        (.ofFields [("predicate", predicate.toJson), ("child_rules", .array (toJsonAll children))])

def toJsonAll : List RoutingRule → List Json
  | [] => []
  | rule :: rest => rule.toJson :: toJsonAll rest

end

end RoutingRule

def Question.toJson : Question → Json
  | .multipleChoice identifier options =>
      .tagged "MultipleChoice"
        (.ofFields [("identifier", .ofText identifier), ("options", .ofTextEntries options.entries)])
  | .date identifier => .tagged "Date" (.ofFields [("identifier", .ofText identifier)])
  | .salary identifier => .tagged "Salary" (.ofFields [("identifier", .ofText identifier)])
  | .text identifier => .tagged "Text" (.ofFields [("identifier", .ofText identifier)])

namespace Element

mutual

def toJson : Element → Json
  | .heading text => .tagged "MarkdownHeading" (.ofText text)
  | .paragraph text => .tagged "MarkdownParagraph" (.ofText text)
  | .startButton target => .tagged "StartButton" (.ofText target)
  | .nextSteps text => .tagged "NextSteps" (.ofText text)
  | .conditional guard whenTrue whenFalse =>
      .tagged "Conditional"
        (.ofFields [("predicate", guard.toJson), ("true_case", .array (toJsonAll whenTrue)),
          ("false_case", .array (toJsonAll whenFalse))])
  | .question prompt => .tagged "Question" prompt.toJson
  | .routing rules =>
      .tagged "NextNodeRules" (.ofFields [("rules", .array (RoutingRule.toJsonAll rules))])

def toJsonAll : List Element → List Json
  | [] => []
  | element :: rest => element.toJson :: toJsonAll rest

end

end Element

def FrontMatter.toJson (frontMatter : FrontMatter) : Json :=
  .ofFields [("attributes", .ofTextEntries frontMatter.attributes.entries)]

def Node.toJson (node : Node) : Json :=
  .ofFields [("name", .ofText node.name), ("body", .array (Element.toJsonAll node.body)),
    ("front_matter", node.frontMatter.toJson)]

end InterviewFlow
