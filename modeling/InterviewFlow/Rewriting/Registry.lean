import InterviewFlow.Rewriting.Pattern

/-!
# Rule registries

Of the rules in a list the first one that matches a value wins. A registry is a
list that has passed validation: no two rules can match the same value, and
among rules whose patterns start with the same tag none is more specific than
the one before it.
-/

set_option autoImplicit false

namespace InterviewFlow

structure Context where
  nodeName : String

/-- Turns the captures of a match into the value that replaces it. -/
abbrev Builder := Context → Captures → Except TransformError Value

def Builder.ofConsume (consume : Context → Consume Value) : Builder :=
  fun context captures => (consume context).result captures

structure RewriteRule where
  name : String
  pattern : Pattern
  build : Builder

inductive RegistryError where
  /-- Two rules can match the same value. -/
  | ambiguous (first second : String)
  /-- A rule is more specific than the one before it in its family. -/
  | misplaced (family earlier later : String)
deriving DecidableEq

def RegistryError.message : RegistryError → String
  | ambiguous first second =>
      "Rules '" ++ first ++ "' and '" ++ second ++ "' can match the same shape"
  | misplaced family earlier later =>
      "Rule '" ++ later ++ "' is more specific than '" ++ earlier ++ "' in family '" ++ family
        ++ "' but was registered after it"

namespace RewriteRule

def describe (rule : RewriteRule) : String :=
  "TransformRule \x7b name: " ++ Text.quote rule.name ++ ", pattern: " ++ rule.pattern.describe
    ++ " \x7d"

end RewriteRule

/-- Rules in order of precedence, validated or not. -/
abbrev RuleList := List RewriteRule

namespace RuleList

def firstMatch? (rules : RuleList) (value : Value) : Option (RewriteRule × Captures) :=
  rules.findSome? fun rule =>
    (rule.pattern.match? value).map fun captures => (rule, captures)

/-! ## Validation -/

/-- The first pair of rules, by position, whose patterns overlap. -/
def firstAmbiguity? : RuleList → Option RegistryError
  | [] => none
  | earlier :: rest =>
      match rest.find? fun later => earlier.pattern.overlaps later.pattern with
      | some later => some (.ambiguous earlier.name later.name)
      | none => firstAmbiguity? rest

/-- The first rule more specific than the latest rule of its family before it;
`latest` holds that rule for the families met so far. -/
def firstMisplaced? (latest : Entries RewriteRule) : RuleList → Option RegistryError
  | [] => none
  | rule :: rest =>
      match rule.pattern.family? with
      | none => firstMisplaced? latest rest
      | some family =>
          match Entries.get? family latest with
          | none => firstMisplaced? (Entries.put family rule latest) rest
          | some previous =>
              if previous.pattern.specificity < rule.pattern.specificity then
                some (.misplaced family previous.name rule.name)
              else firstMisplaced? (Entries.put family rule latest) rest

/-- What is wrong with a list of rules; an ambiguity is reported before any misplaced rule. -/
def firstFault? (rules : RuleList) : Option RegistryError :=
  match firstAmbiguity? rules with
  | some fault => some fault
  | none => firstMisplaced? [] rules

end RuleList

/-- A validated list of rules. -/
structure Registry where
  rules : RuleList
  accepted : rules.firstFault? = none

namespace Registry

def build (rules : RuleList) : Except RegistryError Registry :=
  match fault : rules.firstFault? with
  | none => .ok ⟨rules, fault⟩
  | some error => .error error

def size (registry : Registry) : Nat :=
  registry.rules.length

def isEmpty (registry : Registry) : Bool :=
  registry.rules.isEmpty

def find? (registry : Registry) (value : Value) : Option (RewriteRule × Captures) :=
  registry.rules.firstMatch? value

theorem build_eq_ok_iff {rules : RuleList} {registry : Registry} :
    build rules = .ok registry ↔ rules.firstFault? = none ∧ registry.rules = rules := by
  obtain ⟨own, accepted⟩ := registry
  unfold build
  split <;> rename_i fault
  · simp [fault, eq_comm]
  · simp [fault]

end Registry

end InterviewFlow
