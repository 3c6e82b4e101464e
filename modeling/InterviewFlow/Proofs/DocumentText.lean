import InterviewFlow.Document
import InterviewFlow.Proofs.Collections
import InterviewFlow.Proofs.Evaluation
import InterviewFlow.Proofs.JsonText

/-! Trees as the text of documents. Leaves are written as strings, sequences as arrays and
groups as objects; the reader takes the tree back as long as no tag repeats in a group
and the text is not nested too deep. -/

set_option autoImplicit false

namespace InterviewFlow

namespace Tree

mutual

/-- A tree as JSON, every leaf a string. -/
def toJson : Tree → Json
  | .leaf text => .ofText text
  | .sequence items => .array (toJsonOfItems items)
  | .group entries => .object (toJsonOfEntries entries)

def toJsonOfItems : List Tree → List Json
  | [] => []
  | item :: rest => item.toJson :: toJsonOfItems rest

def toJsonOfEntries : List (String × Tree) → List (Option String × Json)
  | [] => []
  | (tag, tree) :: rest => (some tag, tree.toJson) :: toJsonOfEntries rest

end

theorem toJsonOfItems_eq_map (items : List Tree) : toJsonOfItems items = items.map toJson := by
  induction items with
  | nil => rfl
  | cons item rest ih => rw [toJsonOfItems, ih, List.map_cons]

theorem toJsonOfEntries_eq_map (entries : List (String × Tree)) :
    toJsonOfEntries entries = entries.map fun entry => (some entry.1, entry.2.toJson) := by
  induction entries with
  | nil => rfl
  | cons entry rest ih => rw [toJsonOfEntries, ih, List.map_cons]

theorem numberFree_toJson (tree : Tree) : tree.toJson.NumberFree := by
  induction tree using memberInduction with
  | leaf text => exact .string
  | sequence items ih =>
      rw [toJson, toJsonOfItems_eq_map]
      exact .array (List.forall_mem_map.2 ih)
  | group entries ih =>
      rw [toJson, toJsonOfEntries_eq_map]
      exact .object (List.forall_mem_map.2 ih)

theorem isSound_toJson (tree : Tree) : tree.toJson.isSound = true := by
  induction tree using memberInduction with
  | leaf text => rfl
  | sequence items ih =>
      rw [toJson, Json.isSound]
      induction items with
      | nil => rfl
      | cons item rest restIh =>
          obtain ⟨first, others⟩ := List.forall_mem_cons.1 ih
          rw [toJsonOfItems, Json.areSound, first, restIh others, Bool.and_self]
  | group entries ih =>
      rw [toJson, Json.isSound]
      induction entries with
      | nil => rfl
      | cons entry rest restIh =>
          obtain ⟨first, others⟩ := List.forall_mem_cons.1 ih
          rw [toJsonOfEntries, Json.haveSoundEntries, first, restIh others, Option.isSome_some,
            Bool.and_self, Bool.and_self]

/-- Only an empty container is nested as deep as it counts levels. -/
theorem nesting_toJson_le (tree : Tree) : tree.toJson.nesting ≤ tree.depth := by
  induction tree using memberInduction with
  | leaf text => exact Nat.zero_le 1
  | sequence items ih =>
      rw [toJson, Json.nesting, depth, Nat.add_le_add_iff_left]
      induction items with
      | nil => exact Nat.le_refl 0
      | cons item rest restIh =>
          obtain ⟨first, others⟩ := List.forall_mem_cons.1 ih
          have restBound := restIh others
          rw [toJsonOfItems, Json.nestingOfItems, depthOfItems]
          omega
  | group entries ih =>
      rw [toJson, Json.nesting, depth, Nat.add_le_add_iff_left]
      induction entries with
      | nil => exact Nat.le_refl 0
      | cons entry rest restIh =>
          obtain ⟨first, others⟩ := List.forall_mem_cons.1 ih
          have restBound := restIh others
          rw [toJsonOfEntries, Json.nestingOfEntries, depthOfEntries]
          omega

end Tree

/-! ## Reading -/

theorem Entries.ofList_of_distinct {α : Type} {entries : Entries α} (distinct : Distinct entries) :
    ofList entries = entries :=
  congrArg OrderedMap.entries (OrderedMap.ofList_entries ⟨entries, distinct⟩)

namespace Document

theorem settle_ok (entries : List (String × Tree)) :
    settle (entries.map fun entry => (entry.1, .ok entry.2)) = .ok entries := by
  induction entries with
  | nil => rfl
  | cons entry rest ih =>
      rw [settle] at ih ⊢
      rw [List.map_cons, List.mapM_cons, ih]
      rfl

theorem ofItems_toJson {items : List Tree}
    (each : ∀ item ∈ items, ofJson item.toJson = .ok item) :
    ofItems (Tree.toJsonOfItems items) = .ok items := by
  induction items with
  | nil => rfl
  | cons item rest ih =>
      obtain ⟨first, others⟩ := List.forall_mem_cons.1 each
      rw [Tree.toJsonOfItems, ofItems, first, ih others]
      rfl

theorem ofEntries_toJson {entries : List (String × Tree)}
    (each : ∀ entry ∈ entries, ofJson entry.2.toJson = .ok entry.2) :
    ofEntries (Tree.toJsonOfEntries entries) =
      entries.map fun entry => (entry.1, .ok entry.2) := by
  induction entries with
  | nil => rfl
  | cons entry rest ih =>
      obtain ⟨first, others⟩ := List.forall_mem_cons.1 each
      rw [Tree.toJsonOfEntries, ofEntries, first, ih others, List.map_cons]

theorem ofJson_toJson {tree : Tree} (distinct : tree.DistinctTags) :
    ofJson tree.toJson = .ok tree := by
  induction distinct with
  | leaf => rfl
  | sequence each ih =>
      rw [Tree.toJson, ofJson, ofItems_toJson ih]
      rfl
  | @group entries distinct each ih =>
      have kept : Entries.Distinct (entries.map fun entry =>
          (entry.1, (.ok entry.2 : Except DocumentError Tree))) := by
        rw [Entries.Distinct, Entries.keys, List.map_map]
        exact distinct
      rw [Tree.toJson, ofJson, ofEntries_toJson ih, Entries.ofList_of_distinct kept, settle_ok]
      rfl

theorem read_pretty {tree : Tree} (distinct : tree.DistinctTags)
    (shallow : tree.toJson.nesting ≤ Json.nestingLimit) :
    read tree.toJson.pretty = .ok tree := by
  have value : Json.read? tree.toJson.pretty = some tree.toJson := by
    rw [Json.read?, tree.numberFree_toJson.ofText?_pretty]
    simp only [shallow, tree.isSound_toJson, decide_true, Bool.and_self, ↓reduceIte]
  rw [read, value]
  exact ofJson_toJson distinct

end Document

end InterviewFlow
