import InterviewFlow.Rewriting.Captures

/-!
# Accessor calls

A sequence of accessor calls as data. Every call is made on what the one before
it left, whether that one succeeded or not, so a run shows what each accessor
uses up.
-/

set_option autoImplicit false

namespace InterviewFlow

inductive Accessor where
  /-- Looks a slot up and leaves it bound. -/
  | get
  | take
  | text
  | predicate
  | texts
  | predicates
  | elements
  | routingRules
  | pairs
deriving DecidableEq

inductive Accessed where
  | lookup (value : Option Value)
  | value (value : Value)
  | text (text : String)
  | predicate (predicate : Predicate)
  | texts (texts : List String)
  | predicates (predicates : List Predicate)
  | elements (elements : List Element)
  | routingRules (rules : List RoutingRule)
  | pairs (pairs : List (String × String))

structure AccessorCall where
  accessor : Accessor
  slot : String
deriving DecidableEq

namespace AccessorCall

def consume (call : AccessorCall) : Consume Accessed :=
  match call.accessor with
  | .get => return .lookup ((← get).get? call.slot)
  | .take => return .value (← Consume.take call.slot)
  | .text => return .text (← Consume.text call.slot)
  | .predicate => return .predicate (← Consume.predicate call.slot)
  | .texts => return .texts (← Consume.texts call.slot)
  | .predicates => return .predicates (← Consume.predicates call.slot)
  | .elements => return .elements (← Consume.elements call.slot)
  | .routingRules => return .routingRules (← Consume.routingRules call.slot)
  | .pairs => return .pairs (← Consume.pairs call.slot)

/-- Makes calls one after the other; each result stands with the captures left after it. -/
def run (captures : Captures) :
    List AccessorCall → List (Except TransformError Accessed × Captures)
  | [] => []
  | call :: rest =>
      let (result, left) := call.consume.run captures
      (result, left) :: run left rest

end AccessorCall

end InterviewFlow
