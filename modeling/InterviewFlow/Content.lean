import InterviewFlow.Collections.OrderedMap
import InterviewFlow.Routing

/-!
# Node content

What a node shows, in document order: headings, paragraphs, buttons, questions,
conditional content and the routing tree. Conditional content holds further
content, so a traversal goes into both branches, the true one first.
-/

set_option autoImplicit false

namespace InterviewFlow

/-- A prompt that fills the answer named by its identifier. -/
inductive Question where
  /-- One of several answers; each answer value has the label shown for it. -/
  | multipleChoice (identifier : String) (options : OrderedMap String)
  | date (identifier : String)
  | salary (identifier : String)
  | text (identifier : String)
deriving DecidableEq

namespace Question

def identifier : Question → String
  | .multipleChoice identifier _ => identifier
  | .date identifier => identifier
  | .salary identifier => identifier
  | .text identifier => identifier

/-- Whether two questions differ at most in the order of their options. -/
def equivalent : Question → Question → Bool
  | .multipleChoice identifier options, .multipleChoice identifier' options' =>
      identifier = identifier' && options.equivalent options'
  | .date identifier, .date identifier' => identifier = identifier'
  | .salary identifier, .salary identifier' => identifier = identifier'
  | .text identifier, .text identifier' => identifier = identifier'
  | _, _ => false

end Question

inductive Element where
  | heading (text : String)
  | paragraph (text : String)
  /-- A button that leads to the named first node. -/
  | startButton (target : String)
  | nextSteps (text : String)
  | conditional (guard : Predicate) (whenTrue whenFalse : List Element)
  | question (prompt : Question)
  | routing (rules : List RoutingRule)

inductive ElementKind where
  | heading
  | paragraph
  | startButton
  | nextSteps
  | conditional
  | question
  | routing
deriving DecidableEq

namespace Element

def kind : Element → ElementKind
  | .heading _ => .heading
  | .paragraph _ => .paragraph
  | .startButton _ => .startButton
  | .nextSteps _ => .nextSteps
  | .conditional _ _ _ => .conditional
  | .question _ => .question
  | .routing _ => .routing

def heading? : Element → Option String
  | .heading text => some text
  | _ => none

def question? : Element → Option Question
  | .question prompt => some prompt
  | _ => none

def routing? : Element → Option (List RoutingRule)
  | .routing rules => some rules
  | _ => none

/-- The predicates an element itself carries: the guard of a conditional, or all
guards of a routing tree. Branches of a conditional are left out. -/
def ownPredicates : Element → List Predicate
  | .conditional guard _ _ => [guard]
  | .routing rules => RoutingRule.predicates rules
  | _ => []

mutual

/-- An element followed by the content of its branches, depth first. -/
def preorder : Element → List Element
  | .conditional guard whenTrue whenFalse =>
      .conditional guard whenTrue whenFalse :: (preorderOfAll whenTrue ++ preorderOfAll whenFalse)
  | .heading text => [.heading text]
  | .paragraph text => [.paragraph text]
  | .startButton target => [.startButton target]
  | .nextSteps text => [.nextSteps text]
  | .question prompt => [.question prompt]
  | .routing rules => [.routing rules]

def preorderOfAll : List Element → List Element
  | [] => []
  | element :: rest => element.preorder ++ preorderOfAll rest

end

theorem preorderOfAll_eq_flatMap (elements : List Element) :
    preorderOfAll elements = elements.flatMap preorder := by
  induction elements with
  | nil => rfl
  | cons element rest ih => simp [preorderOfAll, ih]

mutual

/-- Whether two elements differ at most in the order of options and set values. -/
def equivalent : Element → Element → Bool
  | .heading text, .heading text' => text = text'
  | .paragraph text, .paragraph text' => text = text'
  | .startButton target, .startButton target' => target = target'
  | .nextSteps text, .nextSteps text' => text = text'
  | .conditional guard whenTrue whenFalse, .conditional guard' whenTrue' whenFalse' =>
      guard.equivalent guard' && equivalentAll whenTrue whenTrue'
        && equivalentAll whenFalse whenFalse'
  | .question prompt, .question prompt' => prompt.equivalent prompt'
  | .routing rules, .routing rules' => RoutingRule.equivalentAll rules rules'
  | _, _ => false

def equivalentAll : List Element → List Element → Bool
  | [], [] => true
  | element :: rest, element' :: rest' => element.equivalent element' && equivalentAll rest rest'
  | _, _ => false

end

end Element

/-- Conditional content on its own, while it is put together. -/
structure Conditional where
  guard : Predicate
  whenTrue : List Element
  whenFalse : List Element

namespace Conditional

def guarded (guard : Predicate) : Conditional :=
  ⟨guard, [], []⟩

def withTrueCase (conditional : Conditional) (elements : List Element) : Conditional :=
  { conditional with whenTrue := elements }

def withFalseCase (conditional : Conditional) (elements : List Element) : Conditional :=
  { conditional with whenFalse := elements }

def toElement (conditional : Conditional) : Element :=
  .conditional conditional.guard conditional.whenTrue conditional.whenFalse

end Conditional

end InterviewFlow
