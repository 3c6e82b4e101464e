import InterviewFlow.Collections.Entries

/-!
# Maps sorted by key

A `SortedMap` lists its entries by strictly ascending keys, so each map has one
form only and equality ignores how it was built. Keys compare code point by
code point, which is also the order of their UTF-8 bytes.
-/

set_option autoImplicit false

namespace InterviewFlow

namespace Entries

variable {α : Type}

def Ascending (entries : Entries α) : Prop :=
  entries.Pairwise fun earlier later => earlier.1 < later.1

/-- Writes a value at the place its key has in the ascending order. -/
def putSorted (key : String) (value : α) : Entries α → Entries α
  | [] => [(key, value)]
  | (name, old) :: rest =>
      if key < name then (key, value) :: (name, old) :: rest
      else if name < key then (name, old) :: putSorted key value rest
      else (name, value) :: rest

theorem mem_keys_putSorted {key name : String} {value : α} {entries : Entries α} :
    name ∈ keys (putSorted key value entries) ↔ name = key ∨ name ∈ keys entries := by
  induction entries with
  | nil => simp [putSorted]
  | cons entry rest ih =>
      obtain ⟨head, old⟩ := entry
      by_cases before : key < head
      · simp [putSorted, before]
      · by_cases after : head < key
        · simp only [putSorted, before, after, ↓reduceIte, keys_cons, List.mem_cons, ih]
          constructor <;> rintro (found | found | found) <;> simp [found]
        · have same : head = key :=
            String.le_antisymm (String.not_lt.1 before) (String.not_lt.1 after)
          simp [putSorted, same]

theorem ascending_putSorted {key : String} {value : α} {entries : Entries α}
    (ascending : Ascending entries) : Ascending (putSorted key value entries) := by
  induction entries with
  | nil => simp [putSorted, Ascending]
  | cons entry rest ih =>
      obtain ⟨head, old⟩ := entry
      obtain ⟨first, tail⟩ := List.pairwise_cons.1 ascending
      by_cases before : key < head
      · simp only [putSorted, before, ↓reduceIte]
        refine List.pairwise_cons.2 ⟨?_, ascending⟩
        intro other found
        rcases List.mem_cons.1 found with same | later
        · exact same ▸ before
        · exact String.lt_trans before (first other later)
      · by_cases after : head < key
        · simp only [putSorted, before, after, ↓reduceIte]
          refine List.pairwise_cons.2 ⟨?_, ih tail⟩
          intro other found
          have named : other.1 ∈ keys (putSorted key value rest) :=
            List.mem_map_of_mem found
          rcases mem_keys_putSorted.1 named with same | later
          · exact same ▸ after
          · obtain ⟨source, member, sameKey⟩ := List.mem_map.1 later
            exact sameKey ▸ first source member
        · simp only [putSorted, before, after, ↓reduceIte]
          exact List.pairwise_cons.2 ⟨first, tail⟩

theorem Ascending.erase {key : String} {entries : Entries α} (ascending : Ascending entries) :
    Ascending (Entries.erase key entries) :=
  ascending.sublist List.filter_sublist

end Entries

structure SortedMap (α : Type) where
  entries : Entries α
  ascending : Entries.Ascending entries
deriving DecidableEq

namespace SortedMap

variable {α : Type}

def empty : SortedMap α :=
  ⟨[], List.Pairwise.nil⟩

def get? (map : SortedMap α) (key : String) : Option α :=
  Entries.get? key map.entries

def insert (map : SortedMap α) (key : String) (value : α) : SortedMap α :=
  ⟨Entries.putSorted key value map.entries, Entries.ascending_putSorted map.ascending⟩

def erase (map : SortedMap α) (key : String) : SortedMap α :=
  ⟨Entries.erase key map.entries, map.ascending.erase⟩

/-- Writes the pairs one after the other, so the last value of a key stays. -/
def ofList (pairs : List (String × α)) : SortedMap α :=
  pairs.foldl (fun map pair => map.insert pair.1 pair.2) empty

def size (map : SortedMap α) : Nat :=
  map.entries.length

def isEmpty (map : SortedMap α) : Bool :=
  map.entries.isEmpty

@[ext] theorem ext {left right : SortedMap α} (same : left.entries = right.entries) :
    left = right := by
  cases left
  cases right
  simpa using same

end SortedMap

end InterviewFlow
