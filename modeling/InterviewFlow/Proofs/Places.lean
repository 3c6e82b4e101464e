import Mathlib.Data.List.Basic

/-! Lists by place. A place is a path of positions in nested lists, and the lexicographic order
of paths is document order: what holds a list stands before what is in it. A traversal that
enumerates the places meets what is at each of them exactly once. -/

set_option autoImplicit false

namespace InterviewFlow

/-- The items are those at the paths, listed by ascending path. -/
def Enumerates {α : Type} (At : List Nat → α → Prop) (items : List α) : Prop :=
  ∃ places : List (List Nat × α),
    places.Pairwise (fun earlier later => earlier.1 < later.1) ∧
    (∀ path item, (path, item) ∈ places ↔ At path item) ∧ places.map Prod.snd = items

/-- What is at a path in a list starts with the position of the item that it is in. -/
def AtItems {α β : Type} (At : α → List Nat → β → Prop) (items : List α) (path : List Nat)
    (found : β) : Prop :=
  ∃ index item inner, path = index :: inner ∧ items[index]? = some item ∧ At item inner found

namespace Enumerates

variable {α β : Type} {At Other : List Nat → α → Prop} {items others : List α}

theorem congr (enumerates : Enumerates At items)
    (same : ∀ path item, Other path item ↔ At path item) : Enumerates Other items := by
  obtain ⟨places, ascending, exact, rfl⟩ := enumerates
  exact ⟨places, ascending, fun path item => (exact path item).trans (same path item).symm, rfl⟩

theorem mem_iff (enumerates : Enumerates At items) {item : α} :
    item ∈ items ↔ ∃ path, At path item := by
  obtain ⟨places, _, exact, rfl⟩ := enumerates
  simp only [← exact, List.mem_map, Prod.exists, exists_eq_right]

theorem nil (never : ∀ path item, ¬ At path item) : Enumerates At [] :=
  ⟨[], .nil, fun path item => by simpa using never path item, rfl⟩

theorem here (item : α) : Enumerates (fun path found => path = [] ∧ found = item) [item] :=
  ⟨[([], item)], List.pairwise_singleton _ _, fun path found => by simp, rfl⟩

theorem append (first : Enumerates At items) (second : Enumerates Other others)
    (before : ∀ path item later other, At path item → Other later other → path < later) :
    Enumerates (fun path item => At path item ∨ Other path item) (items ++ others) := by
  obtain ⟨places, ascending, exact, rfl⟩ := first
  obtain ⟨laterPlaces, laterAscending, laterExact, rfl⟩ := second
  refine ⟨places ++ laterPlaces, ?_, ?_, List.map_append⟩
  · refine List.pairwise_append.2 ⟨ascending, laterAscending, ?_⟩
    intro place member later laterMember
    exact before _ _ _ _ ((exact _ _).1 member) ((laterExact _ _).1 laterMember)
  · intro path item
    rw [List.mem_append, exact, laterExact]

theorem below (position : Nat) (enumerates : Enumerates At items) :
    Enumerates (fun path item => ∃ inner, path = position :: inner ∧ At inner item) items := by
  obtain ⟨places, ascending, exact, rfl⟩ := enumerates
  refine ⟨places.map fun place => (position :: place.1, place.2), ?_, ?_, ?_⟩
  · refine List.pairwise_map.2 (ascending.imp ?_)
    intro earlier later less
    exact List.cons_lt_cons_iff.2 (.inr ⟨rfl, less⟩)
  · intro path item
    rw [List.mem_map]
    constructor
    · rintro ⟨⟨inner, own⟩, member, same⟩
      cases same
      exact ⟨inner, rfl, (exact _ _).1 member⟩
    · rintro ⟨inner, rfl, held⟩
      exact ⟨(inner, item), (exact _ _).2 held, rfl⟩
  · rw [List.map_map]
    rfl

theorem map (enumerates : Enumerates At items) (give : α → β) :
    Enumerates (fun path given => ∃ item, At path item ∧ give item = given)
      (items.map give) := by
  obtain ⟨places, ascending, exact, rfl⟩ := enumerates
  refine ⟨places.map fun place => (place.1, give place.2), List.pairwise_map.2 ascending, ?_, ?_⟩
  · intro path given
    simp only [← exact, List.mem_map, Prod.exists, Prod.mk.injEq]
    constructor
    · rintro ⟨own, item, member, rfl, rfl⟩
      exact ⟨item, member, rfl⟩
    · rintro ⟨item, member, rfl⟩
      exact ⟨path, item, member, rfl, rfl⟩
  · rw [List.map_map, List.map_map]
    rfl

variable {AtItem : α → List Nat → β → Prop} {itemsOf : α → List β}

-- Positions count from `start`, so that the rest of a list can be enumerated behind its head.
theorem itemsFrom (each : ∀ item ∈ items, Enumerates (AtItem item) (itemsOf item))
    (start : Nat) :
    Enumerates (fun path found => ∃ index item inner, path = (start + index) :: inner ∧
      items[index]? = some item ∧ AtItem item inner found) (items.flatMap itemsOf) := by
  induction items generalizing start with
  | nil => exact nil (by simp)
  | cons item rest ih =>
      obtain ⟨first, others⟩ := List.forall_mem_cons.1 each
      refine ((first.below start).append (ih others (start + 1)) ?_).congr ?_
      · rintro path found later other ⟨inner, rfl, _⟩ ⟨index, _, deeper, rfl, _⟩
        exact List.cons_lt_cons_iff.2 (.inl (by omega))
      · intro path found
        constructor
        · rintro ⟨index, own, inner, rfl, present, held⟩
          cases index with
          | zero =>
              cases present
              exact .inl ⟨inner, rfl, held⟩
          | succ index =>
              exact .inr ⟨index, own, inner, by rw [Nat.add_right_comm, Nat.add_assoc],
                present, held⟩
        · rintro (⟨inner, rfl, held⟩ | ⟨index, own, inner, rfl, present, held⟩)
          · exact ⟨0, item, inner, rfl, rfl, held⟩
          · exact ⟨index + 1, own, inner, by rw [Nat.add_right_comm, Nat.add_assoc],
              present, held⟩

theorem atItems (each : ∀ item ∈ items, Enumerates (AtItem item) (itemsOf item)) :
    Enumerates (AtItems AtItem items) (items.flatMap itemsOf) := by
  refine (itemsFrom each 0).congr fun path found => ?_
  simp only [AtItems, Nat.zero_add]

end Enumerates

end InterviewFlow
