import InterviewFlow.Collections.Entries

/-!
# Maps that remember insertion order

An `OrderedMap` is a list of entries with distinct keys. Two maps are
`Equivalent` when they hold the same entries in any order, and equal only when
the order agrees as well.
-/

set_option autoImplicit false

namespace InterviewFlow

/-- Keyed values with distinct keys, in the order in which the keys first appeared. -/
structure OrderedMap (α : Type) where
  entries : Entries α
  distinct : Entries.Distinct entries
deriving DecidableEq

namespace OrderedMap

variable {α : Type}

def empty : OrderedMap α :=
  ⟨[], List.nodup_nil⟩

/-- The map whose keys stand where they first occur and hold what was written last. -/
def ofList (pairs : List (String × α)) : OrderedMap α :=
  ⟨Entries.ofList pairs, Entries.distinct_ofList pairs⟩

def get? (map : OrderedMap α) (key : String) : Option α :=
  Entries.get? key map.entries

def insert (map : OrderedMap α) (key : String) (value : α) : OrderedMap α :=
  ⟨Entries.put key value map.entries, Entries.distinct_put map.distinct⟩

def erase (map : OrderedMap α) (key : String) : OrderedMap α :=
  ⟨Entries.erase key map.entries, Entries.distinct_erase map.distinct⟩

/-- Whether two maps hold the same entries, in any order. -/
def equivalent [DecidableEq α] (left right : OrderedMap α) : Bool :=
  left.entries.length = right.entries.length
    && left.entries.all fun entry => right.get? entry.1 = some entry.2

@[ext] theorem ext {left right : OrderedMap α} (same : left.entries = right.entries) :
    left = right := by
  cases left
  cases right
  simpa using same

end OrderedMap

end InterviewFlow
