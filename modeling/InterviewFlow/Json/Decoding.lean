import InterviewFlow.Json.Encoding
import InterviewFlow.Json.Reader

/-!
# The model from JSON

Reading accepts more than writing produces. The fields of a record come in any
order, unknown fields are skipped whatever they hold, and a record may be an
array of its fields in order; a field that is missing or repeated is an error.
A variant without content may be written as an object with `null`. Options and
attributes take repeated keys and values repeated members.

Every array and object that is read takes one level of `room`; what is skipped
takes none.
-/

set_option autoImplicit false

namespace InterviewFlow

namespace Json

def text? : Json → Option String
  | .string text => text
  | _ => none

def texts? : Json → Option (List String)
  | .array items => items.mapM text?
  | _ => none

def textEntries? : Json → Option (List (String × String))
  | .object entries =>
      entries.mapM fun entry => do
        let key ← entry.1
        let text ← entry.2.text?
        return (key, text)
  | _ => none

/-- The value of the only entry with a key. -/
def onlyAt? (entries : List (Option String × Json)) (name : String) : Option Json :=
  match entries.filter fun entry => entry.1 = some name with
  | [entry] => some entry.2
  | _ => none

/-- The fields of a record, in the order of their names. -/
def record? (names : List String) : Json → Option (List Json)
  | .object entries =>
      if entries.all fun entry => entry.1.isSome then names.mapM (onlyAt? entries) else none
  | .array items => if items.length = names.length then some items else none
  | _ => none

end Json

namespace ComparisonOperator

def ofTag? (tag : String) : Option ComparisonOperator :=
  if tag = "Less" then some less
  else if tag = "LessOrEqual" then some lessOrEqual
  else if tag = "Greater" then some greater
  else if tag = "GreaterOrEqual" then some greaterOrEqual
  else none

def ofJson? : Nat → Json → Option ComparisonOperator
  | _, .string (some tag) => ofTag? tag
  | _ + 1, .object [(some tag, .null)] => ofTag? tag
  | _, _ => none

end ComparisonOperator

def Comparison.ofJson? : Nat → Json → Option Comparison
  | room + 1, json => do
      match ← json.record? ["operator", "varname", "value"] with
      | [operator, varname, value] =>
          let operator ← ComparisonOperator.ofJson? room operator
          let varname ← varname.text?
          let value ← value.text?
          return ⟨operator, varname, value⟩
      | _ => none
  | 0, _ => none

def Predicate.ofJson? : Nat → Json → Option Predicate
  | _, .string (some "Otherwise") => some .otherwise
  | _ + 1, .object [(some "Otherwise", .null)] => some .otherwise
  | _ + 1, .object [(some "Named", content)] => do
      let name ← content.text?
      return .named name
  | _ + 2, .object [(some "Equality", content)] => do
      match ← content.record? ["varname", "expected_value"] with
      | [varname, expected] =>
          let varname ← varname.text?
          let expected ← expected.text?
          return .equality varname expected
      | _ => none
  | _ + 3, .object [(some "SetMembership", content)] => do
      match ← content.record? ["varname", "values"] with
      | [varname, values] =>
          let varname ← varname.text?
          let values ← values.texts?
          return .membership varname (.ofList values)
      | _ => none
  | room + 2, .object [(some "Combined", .array items)] => do
      let members ← items.mapM (ofJson? room)
      return .combined members
  | _ + 3, .object [(some "Function", content)] => do
      match ← content.record? ["name", "arguments"] with
      | [name, arguments] =>
          let name ← name.text?
          let arguments ← arguments.texts?
          return .function name arguments
      | _ => none
  | room + 1, .object [(some "Comparison", content)] => do
      let test ← Comparison.ofJson? room content
      return .comparison test
  | _, _ => none

def RoutingRule.ofJson? : Nat → Json → Option RoutingRule
  | room + 2, .object [(some "Rule", content)] => do
      match ← content.record? ["predicate", "outcome"] with
      | [predicate, outcome] =>
          let predicate ← Predicate.ofJson? room predicate
          let outcome ← outcome.text?
          return .direct predicate outcome
      | _ => none
  | room + 3, .object [(some "Nested", content)] => do
      match ← content.record? ["predicate", "child_rules"] with
      | [predicate, .array children] =>
          let predicate ← Predicate.ofJson? (room + 1) predicate
          let children ← children.mapM (ofJson? room)
          return .nested predicate children
      | _ => none
  | _, _ => none

def Question.identifierOfJson? (json : Json) : Option String := do
  match ← json.record? ["identifier"] with
  | [identifier] => identifier.text?
  | _ => none

def Question.ofJson? : Nat → Json → Option Question
  | _ + 3, .object [(some "MultipleChoice", content)] => do
      match ← content.record? ["identifier", "options"] with
      | [identifier, options] =>
          let identifier ← identifier.text?
          let options ← options.textEntries?
          return .multipleChoice identifier (.ofList options)
      | _ => none
  | _ + 2, .object [(some "Date", content)] => (identifierOfJson? content).map .date
  | _ + 2, .object [(some "Salary", content)] => (identifierOfJson? content).map .salary
  | _ + 2, .object [(some "Text", content)] => (identifierOfJson? content).map .text
  | _, _ => none

def Element.ofJson? : Nat → Json → Option Element
  | _ + 1, .object [(some "MarkdownHeading", content)] => content.text?.map .heading
  | _ + 1, .object [(some "MarkdownParagraph", content)] => content.text?.map .paragraph
  | _ + 1, .object [(some "StartButton", content)] => content.text?.map .startButton
  | _ + 1, .object [(some "NextSteps", content)] => content.text?.map .nextSteps
  | room + 3, .object [(some "Conditional", content)] => do
      match ← content.record? ["predicate", "true_case", "false_case"] with
      | [guard, .array whenTrue, .array whenFalse] =>
          let guard ← Predicate.ofJson? (room + 1) guard
          let whenTrue ← whenTrue.mapM (ofJson? room)
          let whenFalse ← whenFalse.mapM (ofJson? room)
          return .conditional guard whenTrue whenFalse
      | _ => none
  | room + 1, .object [(some "Question", content)] =>
      (Question.ofJson? room content).map .question
  | room + 3, .object [(some "NextNodeRules", content)] => do
      match ← content.record? ["rules"] with
      | [.array rules] =>
          let rules ← rules.mapM (RoutingRule.ofJson? room)
          return .routing rules
      | _ => none
  | _, _ => none

def FrontMatter.ofJson? : Nat → Json → Option FrontMatter
  | _ + 2, json => do
      match ← json.record? ["attributes"] with
      | [attributes] =>
          let attributes ← attributes.textEntries?
          return .ofList attributes
      | _ => none
  | _, _ => none

def Node.ofJson? : Nat → Json → Option Node
  | room + 2, json => do
      match ← json.record? ["name", "body", "front_matter"] with
      | [name, .array body, frontMatter] =>
          let name ← name.text?
          let body ← body.mapM (Element.ofJson? room)
          let frontMatter ← FrontMatter.ofJson? (room + 1) frontMatter
          return ⟨name, body, frontMatter⟩
      | _ => none
  | _, _ => none

def Node.ofJsonText? (text : String) : Option Node :=
  (Json.ofText? text).bind (Node.ofJson? Json.nestingLimit)

def Predicate.ofJsonText? (text : String) : Option Predicate :=
  (Json.ofText? text).bind (Predicate.ofJson? Json.nestingLimit)

end InterviewFlow
