import InterviewFlow.Rewriting.Captures

/-!
# Patterns

A pattern is a template for values: a group of exactly the given tags, a slot
for a leaf, or a slot for anything. Matching binds every slot on the way, in the
order in which the pattern declares them, so a name used twice keeps what was
bound last. Sequences have no template of their own.
-/

set_option autoImplicit false

namespace InterviewFlow

inductive Pattern where
  /-- A group of exactly these tags, in any order, each value matching its template. -/
  | group (entries : List (String × Pattern))
  /-- A leaf, bound to the slot. -/
  | simple (slot : String)
  /-- Any value, bound to the slot. -/
  | subtree (slot : String)

namespace Pattern

/-- A group template in which a repeated tag keeps its first position and takes
its last template. -/
def ofEntries (entries : List (String × Pattern)) : Pattern :=
  .group (Entries.ofList entries)

inductive DistinctTags : Pattern → Prop where
  | simple {slot : String} : DistinctTags (.simple slot)
  | subtree {slot : String} : DistinctTags (.subtree slot)
  | group {entries : List (String × Pattern)} :
      Entries.Distinct entries → (∀ entry ∈ entries, DistinctTags entry.2) →
      DistinctTags (.group entries)

/-! ## Matching -/

mutual

/-- Adds the bindings of a match to captures, or answers `none` where there is no match. -/
def capture (captures : Captures) : Pattern → Value → Option Captures
  | .simple slot, .leaf text => some (captures.bind slot (.leaf text))
  | .subtree slot, value => some (captures.bind slot value)
  | .group templates, .group entries =>
      if templates.length = entries.length then captureAll captures templates entries else none
  | _, _ => none

def captureAll (captures : Captures) :
    List (String × Pattern) → List (String × Value) → Option Captures
  | [], _ => some captures
  | (tag, template) :: rest, entries =>
      match Entries.get? tag entries with
      | none => none
      | some value =>
          match capture captures template value with
          | none => none
          | some extended => captureAll extended rest entries

end

def match? (pattern : Pattern) (value : Value) : Option Captures :=
  pattern.capture .empty value

/-! ## Overlap -/

mutual

/-- Whether some value could match both templates. -/
def overlaps : Pattern → Pattern → Bool
  | .subtree _, _ => true
  | _, .subtree _ => true
  | .simple _, .simple _ => true
  | .group templates, .group others =>
      templates.length = others.length && overlapsAll templates others
  | _, _ => false

def overlapsAll : List (String × Pattern) → List (String × Pattern) → Bool
  | [], _ => true
  | (tag, template) :: rest, others =>
      (match Entries.get? tag others with
        | none => false
        | some other => overlaps template other) && overlapsAll rest others

end

/-! ## Equivalence -/

mutual

/-- Whether two templates differ at most in the order of tags. -/
def equivalent : Pattern → Pattern → Bool
  | .simple slot, .simple slot' => slot = slot'
  | .subtree slot, .subtree slot' => slot = slot'
  | .group templates, .group others =>
      templates.length = others.length && equivalentAll templates others
  | _, _ => false

def equivalentAll : List (String × Pattern) → List (String × Pattern) → Bool
  | [], _ => true
  | (tag, template) :: rest, others =>
      (match Entries.get? tag others with
        | none => false
        | some other => equivalent template other) && equivalentAll rest others

end

/-! ## Specificity and family -/

mutual

/-- The number of tags in all groups of a template. -/
def specificity : Pattern → Nat
  | .group templates => templates.length + specificityOfAll templates
  | .simple _ => 0
  | .subtree _ => 0

def specificityOfAll : List (String × Pattern) → Nat
  | [] => 0
  | (_, template) :: rest => template.specificity + specificityOfAll rest

end

/-- The first tag at the top level, which names the family a template belongs to. -/
def family? : Pattern → Option String
  | .group templates => (Entries.keys templates).head?
  | .simple _ => none
  | .subtree _ => none

/-! ## Diagnostic text -/

mutual

def describe : Pattern → String
  | .group templates => "\x7b" ++ ", ".intercalate (describeEntries templates) ++ "\x7d"
  | .simple slot => "simple(" ++ slot ++ ")"
  | .subtree slot => "subtree(" ++ slot ++ ")"

def describeEntries : List (String × Pattern) → List String
  | [] => []
  | (tag, template) :: rest => (tag ++ ": " ++ template.describe) :: describeEntries rest

end

end Pattern

end InterviewFlow
