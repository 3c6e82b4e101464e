import InterviewFlow.Collections.SortedMap
import InterviewFlow.Content

/-!
# Flow nodes

A node is one step of an interview flow: a name, its content in document order
and the attributes of its front matter. The queries here look at the top level
(`title`, `routing?`, `outcomes`) or at all content down to the innermost
branch (`questions`, `predicates`, `unresolved`).
-/

set_option autoImplicit false

namespace InterviewFlow

/-- Attributes declared ahead of a node's body, sorted by key. -/
structure FrontMatter where
  attributes : SortedMap String
deriving DecidableEq

namespace FrontMatter

def empty : FrontMatter :=
  ⟨.empty⟩

def ofList (pairs : List (String × String)) : FrontMatter :=
  ⟨.ofList pairs⟩

def get? (frontMatter : FrontMatter) (key : String) : Option String :=
  frontMatter.attributes.get? key

def isEmpty (frontMatter : FrontMatter) : Bool :=
  frontMatter.attributes.isEmpty

end FrontMatter

/-- One step of a flow. -/
structure Node where
  name : String
  body : List Element
  frontMatter : FrontMatter

/-- The definitions behind named predicates, looked up by name. -/
abbrev Resolver := String → Option Predicate

namespace Node

/-- All content of the body, branches included, depth first. -/
def elements (node : Node) : List Element :=
  Element.preorderOfAll node.body

/-- The text of the first heading at the top level. -/
def title (node : Node) : Option String :=
  node.body.findSome? Element.heading?

def questions (node : Node) : List Question :=
  node.elements.filterMap Element.question?

/-- The first routing tree at the top level. -/
def routing? (node : Node) : Option (List RoutingRule) :=
  node.body.findSome? Element.routing?

/-- The targets of the first routing tree at the top level. -/
def outcomes (node : Node) : List String :=
  (node.routing?.map RoutingRule.outcomes).getD []

/-- Every predicate that guards content or routing, in document order. -/
def predicates (node : Node) : List Predicate :=
  node.elements.flatMap Element.ownPredicates

/-- The names that predicates refer to and the resolver does not bind, each once,
in the order in which they are first referred to. -/
def unresolved (node : Node) (resolver : Resolver) : List String :=
  (OrderedSet.ofList (node.predicates.flatMap Predicate.references)).items.filter fun name =>
    (resolver name).isNone

def append (node : Node) (elements : List Element) : Node :=
  { node with body := node.body ++ elements }

/-- Whether two nodes differ at most in the order of options and set values. -/
def equivalent (left right : Node) : Bool :=
  left.name = right.name && Element.equivalentAll left.body right.body
    && left.frontMatter = right.frontMatter

end Node

structure Report where
  name : String
  title : Option String
  kinds : List ElementKind
  questions : List String
  /-- The number of top-level rules of the first routing tree. -/
  routingRules : Option Nat
  outcomes : List String
  predicates : List String
  unresolved : List String
  frontMatter : Entries String

def Node.report (node : Node) (resolver : Resolver) : Report where
  name := node.name
  title := node.title
  kinds := node.elements.map Element.kind
  questions := node.questions.map Question.identifier
  routingRules := node.routing?.map List.length
  outcomes := node.outcomes
  predicates := node.predicates.map Predicate.describe
  unresolved := node.unresolved resolver
  frontMatter := node.frontMatter.attributes.entries

end InterviewFlow
