import InterviewFlow.Node
import InterviewFlow.Tree

/-!
# Partly rewritten trees

A `Value` is a document tree in which some subtrees have been replaced by the
objects they describe. Builders receive values and convert them: to a text, to
a list, or to one particular kind of object. A conversion that does not apply
fails with a `TransformError` naming what was expected and what was found.
-/

set_option autoImplicit false

namespace InterviewFlow

/-! ## Errors -/

inductive Expectation where
  | leaf
  | predicate
  | element
  | routingRule
  | pair
  | node
deriving DecidableEq

def Expectation.describe : Expectation → String
  | leaf => "a leaf"
  | predicate => "a predicate"
  | element => "an element"
  | routingRule => "a rule or nested rule"
  | pair => "a key/value pair"
  | node => "a node"

inductive TransformError where
  /-- A value, shown in diagnostic form, is not what was expected. -/
  | shapeMismatch (expected found : String)
  /-- A builder asked for a slot that is not, or no longer, captured. -/
  | missingCapture (slot : String)
  | invalidOperator (text : String)
  | emptyCombination
  | depthExceeded (limit : Nat)
deriving DecidableEq

def TransformError.message : TransformError → String
  | shapeMismatch expected found =>
      "Shape mismatch: expected " ++ expected ++ ", but found " ++ found
  | missingCapture slot =>
      "Shape mismatch: expected a capture named '" ++ slot ++ "', but found no such capture"
  | invalidOperator text => "Comparison operator '" ++ text ++ "' not recognised"
  | emptyCombination => "A combined predicate must hold at least one predicate"
  | depthExceeded limit =>
      "Document nesting exceeds the maximum depth of " ++ limit.repr

/-! ## Predicates from parts -/

/-- The conjunction of at least one predicate. -/
def Predicate.conjunction (members : List Predicate) : Except TransformError Predicate :=
  if members.isEmpty then .error .emptyCombination else .ok (.combined members)

def ComparisonOperator.ofSymbol (text : String) : Except TransformError ComparisonOperator :=
  match ofSymbol? text with
  | some operator => .ok operator
  | none => .error (.invalidOperator text)

/-! ## Values -/

inductive Built where
  | node (node : Node)
  | frontMatter (frontMatter : FrontMatter)
  | element (element : Element)
  | predicate (predicate : Predicate)
  | routingRule (rule : RoutingRule)
  /-- A key with a text, for attributes, options and links. -/
  | pair (key text : String)

def Built.kindName : Built → String
  | .node _ => "Node"
  | .frontMatter _ => "FrontMatter"
  | .element _ => "Element"
  | .predicate _ => "Predicate"
  | .routingRule _ => "Rule"
  | .pair _ _ => "Pair"

/-- A document tree with some subtrees replaced by objects. -/
inductive Value where
  | leaf (text : String)
  | sequence (items : List Value)
  | group (entries : List (String × Value))
  | built (object : Built)

namespace Value

/-- A group in which a repeated tag keeps its first position and takes its last value. -/
def ofEntries (entries : List (String × Value)) : Value :=
  .group (Entries.ofList entries)

mutual

/-- The value in one line; objects show as their kind between angle brackets. -/
def describe : Value → String
  | .leaf text => Text.quote text
  | .sequence items => "[" ++ ", ".intercalate (describeItems items) ++ "]"
  | .group entries => "\x7b" ++ ", ".intercalate (describeEntries entries) ++ "\x7d"
  | .built object => "<" ++ object.kindName ++ ">"

def describeItems : List Value → List String
  | [] => []
  | item :: rest => item.describe :: describeItems rest

def describeEntries : List (String × Value) → List String
  | [] => []
  | (tag, value) :: rest => (tag ++ ": " ++ value.describe) :: describeEntries rest

end

/-! ## Conversions -/

def mismatch {α : Type} (expected : Expectation) (value : Value) : Except TransformError α :=
  .error (.shapeMismatch expected.describe value.describe)

def toText : Value → Except TransformError String
  | .leaf text => .ok text
  | other => mismatch .leaf other

/-- The value read as a list: an empty leaf is the empty list, and anything else
that is no sequence is a list of one. -/
def toItems : Value → List Value
  | .sequence items => items
  | .leaf text => if text = "" then [] else [.leaf text]
  | other => [other]

def toPredicate : Value → Except TransformError Predicate
  | .built (.predicate predicate) => .ok predicate
  | other => mismatch .predicate other

def toElement : Value → Except TransformError Element
  | .built (.element element) => .ok element
  | other => mismatch .element other

def toRoutingRule : Value → Except TransformError RoutingRule
  | .built (.routingRule rule) => .ok rule
  | other => mismatch .routingRule other

def toPair : Value → Except TransformError (String × String)
  | .built (.pair key text) => .ok (key, text)
  | other => mismatch .pair other

/-- The node a whole document was rewritten to. Front matter alone, in a list of
one, is a node of the given name with an empty body. -/
def toNode (name : String) : Value → Except TransformError Node
  | .built (.node node) => .ok node
  | .sequence [.built (.frontMatter frontMatter)] => .ok ⟨name, [], frontMatter⟩
  | other => mismatch .node other

end Value

end InterviewFlow
