import InterviewFlow.Predicate

/-!
# Routing rules

The decision tree that picks the next node. Rules are tried in order; a nested
rule guards further rules, which count only while its own predicate holds.
-/

set_option autoImplicit false

namespace InterviewFlow

inductive RoutingRule where
  /-- When the predicate holds, go to the outcome. -/
  | direct (predicate : Predicate) (outcome : String)
  /-- When the predicate holds, try the children. -/
  | nested (predicate : Predicate) (children : List RoutingRule)

namespace RoutingRule

def predicate : RoutingRule → Predicate
  | .direct predicate _ => predicate
  | .nested predicate _ => predicate

def outcome? : RoutingRule → Option String
  | .direct _ outcome => some outcome
  | .nested _ _ => none

mutual

/-- An entry followed by everything below it, depth first. -/
def preorder : RoutingRule → List RoutingRule
  | .direct predicate outcome => [.direct predicate outcome]
  | .nested predicate children => .nested predicate children :: preorderOfAll children

def preorderOfAll : List RoutingRule → List RoutingRule
  | [] => []
  | rule :: rest => rule.preorder ++ preorderOfAll rest

end

theorem preorderOfAll_eq_flatMap (rules : List RoutingRule) :
    preorderOfAll rules = rules.flatMap preorder := by
  induction rules with
  | nil => rfl
  | cons rule rest ih => simp [preorderOfAll, ih]

/-- The targets of a routing tree, one for each direct rule, in declaration order. -/
def outcomes (rules : List RoutingRule) : List String :=
  (preorderOfAll rules).filterMap outcome?

def predicates (rules : List RoutingRule) : List Predicate :=
  (preorderOfAll rules).map predicate

mutual

/-- Whether two entries differ at most in the order of the values of sets. -/
def equivalent : RoutingRule → RoutingRule → Bool
  | .direct predicate outcome, .direct predicate' outcome' =>
      predicate.equivalent predicate' && outcome = outcome'
  | .nested predicate children, .nested predicate' children' =>
      predicate.equivalent predicate' && equivalentAll children children'
  | _, _ => false

def equivalentAll : List RoutingRule → List RoutingRule → Bool
  | [], [] => true
  | rule :: rest, rule' :: rest' => rule.equivalent rule' && equivalentAll rest rest'
  | _, _ => false

end

end RoutingRule

end InterviewFlow
