import InterviewFlow.Rewriting.Registry

/-!
# Bottom-up rewriting

A tree is rewritten from its leaves upwards. Every child is rewritten before
its parent is matched, left to right, so a pattern sees finished objects under
its tags. The first matching rule replaces a container; one that no rule
matches is handed up as it is. Leaves are never matched. A subtree below the
depth limit ends the run before anything in it is looked at.
-/

set_option autoImplicit false

namespace InterviewFlow

namespace RuleList

/-- Replaces a container whose children are rewritten by what the first matching rule builds. -/
def replace (rules : RuleList) (context : Context) (value : Value) :
    Except TransformError Value :=
  match rules.firstMatch? value with
  | some (rule, captures) => rule.build context captures
  | none => .ok value

/-- Rewrites a subtree that may still be `room` levels deep. -/
def rewriteWithin (rules : RuleList) (limit : Nat) (context : Context) :
    Nat → Tree → Except TransformError Value
  | 0, _ => .error (.depthExceeded limit)
  | _ + 1, .leaf text => .ok (.leaf text)
  | room + 1, .sequence items => do
      let values ← items.mapM (rewriteWithin rules limit context room)
      rules.replace context (.sequence values)
  | room + 1, .group entries => do
      let values ← entries.mapM fun entry => do
        let value ← rewriteWithin rules limit context room entry.2
        return (entry.1, value)
      rules.replace context (.group values)

/-- Rewrites a tree of at most `limit` levels to whatever its root becomes. -/
def rewrite (rules : RuleList) (limit : Nat) (context : Context) (tree : Tree) :
    Except TransformError Value :=
  rules.rewriteWithin limit context limit tree

def rewriteNode (rules : RuleList) (limit : Nat) (context : Context) (tree : Tree) :
    Except TransformError Node := do
  let value ← rules.rewrite limit context tree
  value.toNode context.nodeName

end RuleList

namespace Registry

def defaultDepthLimit : Nat := 256

def rewrite (registry : Registry) (limit : Nat) (context : Context) (tree : Tree) :
    Except TransformError Value :=
  registry.rules.rewrite limit context tree

def rewriteNode (registry : Registry) (limit : Nat) (context : Context) (tree : Tree) :
    Except TransformError Node :=
  registry.rules.rewriteNode limit context tree

end Registry

end InterviewFlow
