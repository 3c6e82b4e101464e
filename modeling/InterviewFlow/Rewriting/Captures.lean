import InterviewFlow.Rewriting.Value

/-!
# Captures

The values a pattern binds, by slot name. Builders use captures up: every
consuming accessor removes its slot, also when the conversion of the value then
fails. A slot that was never bound, or is used up, is a `missingCapture`.
-/

set_option autoImplicit false

namespace InterviewFlow

structure Captures where
  slots : SortedMap Value

namespace Captures

def empty : Captures :=
  ⟨.empty⟩

def bind (captures : Captures) (slot : String) (value : Value) : Captures :=
  ⟨captures.slots.insert slot value⟩

def get? (captures : Captures) (slot : String) : Option Value :=
  captures.slots.get? slot

def erase (captures : Captures) (slot : String) : Captures :=
  ⟨captures.slots.erase slot⟩

def size (captures : Captures) : Nat :=
  captures.slots.size

def isEmpty (captures : Captures) : Bool :=
  captures.slots.isEmpty

end Captures

/-- A computation that uses captures up. What was used up before a failure stays used up. -/
abbrev Consume := ExceptT TransformError (StateM Captures)

namespace Consume

def result {α : Type} (consume : Consume α) (captures : Captures) : Except TransformError α :=
  (consume.run captures).1

/-- Removes a slot and answers its value. -/
def take (slot : String) : Consume Value := do
  match (← get).get? slot with
  | some value =>
      modify fun captures => captures.erase slot
      return value
  | none => throw (.missingCapture slot)

def convert {α : Type} (slot : String) (conversion : Value → Except TransformError α) :
    Consume α := do
  let value ← take slot
  ExceptT.mk (pure (conversion value))

/-- Removes a slot and converts every item of the list its value stands for. -/
def convertItems {α : Type} (slot : String) (conversion : Value → Except TransformError α) :
    Consume (List α) :=
  convert slot fun value => value.toItems.mapM conversion

def text (slot : String) : Consume String :=
  convert slot Value.toText

def predicate (slot : String) : Consume Predicate :=
  convert slot Value.toPredicate

def texts (slot : String) : Consume (List String) :=
  convertItems slot Value.toText

def predicates (slot : String) : Consume (List Predicate) :=
  convertItems slot Value.toPredicate

def elements (slot : String) : Consume (List Element) :=
  convertItems slot Value.toElement

def routingRules (slot : String) : Consume (List RoutingRule) :=
  convertItems slot Value.toRoutingRule

def pairs (slot : String) : Consume (List (String × String)) :=
  convertItems slot Value.toPair

end Consume

end InterviewFlow
