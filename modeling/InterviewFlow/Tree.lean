import InterviewFlow.Collections.Entries
import InterviewFlow.Text.Quoted

/-!
# Document trees

The generic tree a document is read into: leaves hold text, sequences keep
document order and groups map tags to subtrees. A group is a plain list of
entries; that its tags are distinct, at every depth, is the predicate
`Tree.DistinctTags`, which every reader of trees establishes.
-/

set_option autoImplicit false

namespace InterviewFlow

inductive Tree where
  | leaf (text : String)
  | sequence (items : List Tree)
  | group (entries : List (String × Tree))

namespace Tree

/-- A group in which a repeated tag keeps its first position and takes its last subtree. -/
def ofEntries (entries : List (String × Tree)) : Tree :=
  .group (Entries.ofList entries)

/-! ## Depth -/

mutual

/-- The nesting depth; a leaf and an empty container have depth one. -/
def depth : Tree → Nat
  | .leaf _ => 1
  | .sequence items => 1 + depthOfItems items
  | .group entries => 1 + depthOfEntries entries

def depthOfItems : List Tree → Nat
  | [] => 0
  | item :: rest => max item.depth (depthOfItems rest)

def depthOfEntries : List (String × Tree) → Nat
  | [] => 0
  | (_, tree) :: rest => max tree.depth (depthOfEntries rest)

end

theorem depth_pos (tree : Tree) : 0 < tree.depth := by
  cases tree <;> simp only [depth] <;> omega

theorem depth_le_depthOfItems {item : Tree} {items : List Tree} (member : item ∈ items) :
    item.depth ≤ depthOfItems items := by
  induction items with
  | nil => simp at member
  | cons head rest ih =>
      rcases List.mem_cons.1 member with same | later
      · exact same ▸ Nat.le_max_left ..
      · exact Nat.le_trans (ih later) (Nat.le_max_right ..)

theorem depth_le_depthOfEntries {entry : String × Tree} {entries : List (String × Tree)}
    (member : entry ∈ entries) : entry.2.depth ≤ depthOfEntries entries := by
  induction entries with
  | nil => simp at member
  | cons head rest ih =>
      rcases List.mem_cons.1 member with same | later
      · exact same ▸ Nat.le_max_left ..
      · exact Nat.le_trans (ih later) (Nat.le_max_right ..)

/-! ## Distinct tags -/

inductive DistinctTags : Tree → Prop where
  | leaf {text : String} : DistinctTags (.leaf text)
  | sequence {items : List Tree} :
      (∀ item ∈ items, DistinctTags item) → DistinctTags (.sequence items)
  | group {entries : List (String × Tree)} :
      Entries.Distinct entries → (∀ entry ∈ entries, DistinctTags entry.2) →
      DistinctTags (.group entries)

/-! ## Equivalence -/

mutual

/-- Whether two trees differ at most in the order of the entries of groups. -/
def equivalent : Tree → Tree → Bool
  | .leaf text, .leaf text' => text = text'
  | .sequence items, .sequence items' => equivalentItems items items'
  | .group entries, .group entries' =>
      entries.length = entries'.length && equivalentEntries entries entries'
  | _, _ => false

def equivalentItems : List Tree → List Tree → Bool
  | [], [] => true
  | item :: rest, item' :: rest' => item.equivalent item' && equivalentItems rest rest'
  | _, _ => false

def equivalentEntries : List (String × Tree) → List (String × Tree) → Bool
  | [], _ => true
  | (tag, tree) :: rest, entries' =>
      (match Entries.get? tag entries' with
        | none => false
        | some tree' => tree.equivalent tree') && equivalentEntries rest entries'

end

/-! ## Diagnostic text -/

mutual

/-- The tree in one line: quoted leaves, bracketed sequences, braced groups with raw tags. -/
def describe : Tree → String
  | .leaf text => Text.quote text
  | .sequence items => "[" ++ ", ".intercalate (describeItems items) ++ "]"
  | .group entries => "\x7b" ++ ", ".intercalate (describeEntries entries) ++ "\x7d"

def describeItems : List Tree → List String
  | [] => []
  | item :: rest => item.describe :: describeItems rest

def describeEntries : List (String × Tree) → List String
  | [] => []
  | (tag, tree) :: rest => (tag ++ ": " ++ tree.describe) :: describeEntries rest

end

end Tree

end InterviewFlow
