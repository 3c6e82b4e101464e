/-!
# Keyed entries

A list of keyed values in the order in which the keys first appeared. Writing
to a key that is present replaces its value where it stands; a new key goes to
the end. `Entries.ofList` therefore gives every key the position of its first
occurrence and the value of its last one.

Recursive types store their entries as plain lists, so distinctness of keys is
a separate predicate here; `OrderedMap` carries it as a field.
-/

set_option autoImplicit false

namespace InterviewFlow

abbrev Entries (α : Type) := List (String × α)

namespace Entries

variable {α : Type}

def keys (entries : Entries α) : List String :=
  entries.map Prod.fst

def Distinct (entries : Entries α) : Prop :=
  (keys entries).Nodup

instance (entries : Entries α) : Decidable (Distinct entries) :=
  inferInstanceAs (Decidable (keys entries).Nodup)

/-- The value at the first occurrence of a key. -/
def get? (key : String) : Entries α → Option α
  | [] => none
  | (name, value) :: rest => if name = key then some value else get? key rest

/-- Writes a value: in place at a present key, at the end otherwise. -/
def put (key : String) (value : α) : Entries α → Entries α
  | [] => [(key, value)]
  | (name, old) :: rest =>
      if name = key then (name, value) :: rest else (name, old) :: put key value rest

def erase (key : String) (entries : Entries α) : Entries α :=
  entries.filter fun entry => entry.1 ≠ key

def ofList (pairs : List (String × α)) : Entries α :=
  pairs.foldl (fun entries pair => put pair.1 pair.2 entries) []

/-! ## Keys -/

@[simp] theorem keys_nil : keys ([] : Entries α) = [] := rfl

@[simp] theorem keys_cons (entry : String × α) (rest : Entries α) :
    keys (entry :: rest) = entry.1 :: keys rest := rfl

theorem keys_put_of_mem {key : String} {value : α} {entries : Entries α}
    (present : key ∈ keys entries) : keys (put key value entries) = keys entries := by
  induction entries with
  | nil => simp at present
  | cons entry rest ih =>
      obtain ⟨head, old⟩ := entry
      by_cases same : head = key
      · simp [put, same]
      · have later : key ∈ keys rest := by
          simpa [Ne.symm same] using present
        simp [put, same, ih later]

theorem put_of_not_mem {key : String} {value : α} {entries : Entries α}
    (absent : key ∉ keys entries) : put key value entries = entries ++ [(key, value)] := by
  induction entries with
  | nil => rfl
  | cons entry rest ih =>
      obtain ⟨head, old⟩ := entry
      simp only [keys_cons, List.mem_cons, not_or] at absent
      simp [put, Ne.symm absent.1, ih absent.2]

theorem distinct_put {key : String} {value : α} {entries : Entries α}
    (distinct : Distinct entries) : Distinct (put key value entries) := by
  by_cases present : key ∈ keys entries
  · rw [Distinct, keys_put_of_mem present]
    exact distinct
  · rw [Distinct, put_of_not_mem present]
    simp only [keys, List.map_append, List.map_cons, List.map_nil]
    refine List.nodup_append.2 ⟨distinct, by simp, ?_⟩
    intro name found other only same
    simp only [List.mem_singleton] at only
    exact present (only ▸ same ▸ found)

theorem distinct_erase {key : String} {entries : Entries α} (distinct : Distinct entries) :
    Distinct (erase key entries) :=
  distinct.sublist (List.filter_sublist.map Prod.fst)

theorem distinct_ofList (pairs : List (String × α)) : Distinct (ofList pairs) := by
  suffices kept : ∀ entries : Entries α, Distinct entries →
      Distinct (pairs.foldl (fun entries pair => put pair.1 pair.2 entries) entries) from
    kept [] List.nodup_nil
  induction pairs with
  | nil => exact fun _ distinct => distinct
  | cons pair rest ih => exact fun _ distinct => ih _ (distinct_put distinct)

/-! ## Look-up -/

@[simp] theorem get?_nil {key : String} : get? key ([] : Entries α) = none := rfl

theorem get?_put_self {key : String} {value : α} {entries : Entries α} :
    get? key (put key value entries) = some value := by
  induction entries with
  | nil => simp [put, get?]
  | cons entry rest ih =>
      obtain ⟨head, old⟩ := entry
      by_cases same : head = key <;> simp [put, get?, same, ih]

theorem get?_put_of_ne {key name : String} {value : α} {entries : Entries α}
    (other : name ≠ key) : get? name (put key value entries) = get? name entries := by
  induction entries with
  | nil => simp [put, get?, Ne.symm other]
  | cons entry rest ih =>
      obtain ⟨head, old⟩ := entry
      by_cases same : head = key
      · subst same
        simp [put, get?, Ne.symm other]
      · simp [put, get?, same, ih]

theorem get?_eq_none_iff {key : String} {entries : Entries α} :
    get? key entries = none ↔ key ∉ keys entries := by
  induction entries with
  | nil => simp
  | cons entry rest ih =>
      obtain ⟨head, old⟩ := entry
      by_cases same : head = key
      · simp [get?, same]
      · simp [get?, same, ih, Ne.symm same]

theorem mem_of_get?_eq_some {key : String} {value : α} {entries : Entries α}
    (found : get? key entries = some value) : (key, value) ∈ entries := by
  induction entries with
  | nil => simp at found
  | cons entry rest ih =>
      obtain ⟨head, old⟩ := entry
      by_cases same : head = key
      · simp_all [get?]
      · simp only [get?, same, ↓reduceIte] at found
        exact List.mem_cons_of_mem _ (ih found)

end Entries

end InterviewFlow
