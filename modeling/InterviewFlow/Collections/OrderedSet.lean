/-!
# Sets that remember insertion order

An `OrderedSet` is a list of distinct texts. `OrderedSet.ofList` keeps the first
occurrence of every member and drops the repeats.
-/

set_option autoImplicit false

namespace InterviewFlow

/-- Distinct texts, in the order in which they first appeared. -/
structure OrderedSet where
  items : List String
  distinct : items.Nodup
deriving DecidableEq

namespace OrderedSet

def empty : OrderedSet :=
  ⟨[], List.nodup_nil⟩

/-- Adds a member at the end unless it is present. -/
def insert (set : OrderedSet) (item : String) : OrderedSet :=
  if absent : item ∈ set.items then set
  else
    ⟨set.items ++ [item], by
      refine List.nodup_append.2 ⟨set.distinct, by simp, ?_⟩
      intro member found other only same
      simp only [List.mem_singleton] at only
      exact absent (only ▸ same ▸ found)⟩

def insertAll (set : OrderedSet) (items : List String) : OrderedSet :=
  items.foldl insert set

def ofList (items : List String) : OrderedSet :=
  empty.insertAll items

/-- Whether two sets have the same members, in any order. -/
def equivalent (left right : OrderedSet) : Bool :=
  left.items.length = right.items.length && left.items.all fun item => item ∈ right.items

@[ext] theorem ext {left right : OrderedSet} (same : left.items = right.items) :
    left = right := by
  cases left
  cases right
  simpa using same

theorem mem_insert {set : OrderedSet} {item other : String} :
    other ∈ (set.insert item).items ↔ other ∈ set.items ∨ other = item := by
  by_cases present : item ∈ set.items
  · rw [insert, dif_pos present]
    constructor
    · exact Or.inl
    · rintro (found | same)
      · exact found
      · exact same ▸ present
  · rw [insert, dif_neg present]
    simp

theorem mem_insertAll {items : List String} {set : OrderedSet} {item : String} :
    item ∈ (set.insertAll items).items ↔ item ∈ set.items ∨ item ∈ items := by
  induction items generalizing set with
  | nil => simp [insertAll]
  | cons head rest ih =>
      rw [insertAll, List.foldl_cons, ← insertAll, ih, mem_insert]
      simp [or_assoc]

theorem mem_ofList {items : List String} {item : String} :
    item ∈ (ofList items).items ↔ item ∈ items := by
  simp [ofList, mem_insertAll, empty]

end OrderedSet

end InterviewFlow
