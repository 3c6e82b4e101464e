import InterviewFlow.Collections.OrderedMap
import InterviewFlow.Collections.OrderedSet
import InterviewFlow.Collections.SortedMap
import Mathlib.Data.List.Induction
import Mathlib.Data.List.Nodup
import Mathlib.Data.List.Perm.Subperm

/-! What a collection built from a list of pairs or texts holds. An ordered map
lists its keys where they first occur, an ordered set its members, a sorted map
by key; the value of a key is the last one written. Each description determines
the collection. -/

set_option autoImplicit false

namespace InterviewFlow

private theorem eraseDups_of_nodup {texts : List String} (distinct : texts.Nodup) :
    texts.eraseDups = texts := by
  induction texts with
  | nil => rfl
  | cons text rest ih =>
      obtain ⟨fresh, restDistinct⟩ := List.nodup_cons.1 distinct
      have kept : (rest.filter fun other => !other == text) = rest := by
        rw [List.filter_eq_self]
        intro other member
        simpa using fun same : other = text => fresh (same ▸ member)
      rw [List.eraseDups_cons, kept, ih restDistinct]

private theorem eraseDups_append_singleton (texts : List String) (text : String) :
    (texts ++ [text]).eraseDups =
      if text ∈ texts then texts.eraseDups else texts.eraseDups ++ [text] := by
  have alone : [text].eraseDups = [text] := eraseDups_of_nodup (List.nodup_singleton text)
  by_cases present : text ∈ texts <;>
    simp [List.eraseDups_append, List.removeAll, present, alone]

namespace Entries

variable {α : Type}

/-- The value at the last occurrence of a key. -/
def last? (key : String) (pairs : List (String × α)) : Option α :=
  get? key pairs.reverse

theorem mem_keys_iff {key : String} {entries : Entries α} :
    key ∈ keys entries ↔ ∃ value, (key, value) ∈ entries := by
  simp [keys]

theorem get?_isSome_iff {key : String} {entries : Entries α} :
    (∃ value, get? key entries = some value) ↔ key ∈ keys entries := by
  rw [← Option.ne_none_iff_exists', ne_eq, get?_eq_none_iff, not_not]

theorem get?_eq_some_iff {key : String} {value : α} {entries : Entries α}
    (distinct : Distinct entries) : get? key entries = some value ↔ (key, value) ∈ entries := by
  constructor
  · exact mem_of_get?_eq_some
  · intro member
    induction entries with
    | nil => simp at member
    | cons entry rest ih =>
        obtain ⟨head, old⟩ := entry
        obtain ⟨fresh, restDistinct⟩ := List.nodup_cons.1 distinct
        rcases List.mem_cons.1 member with same | later
        · cases same
          simp [get?]
        · have other : head ≠ key := by
            rintro rfl
            exact fresh (mem_keys_iff.2 ⟨value, later⟩)
          simpa [get?, other] using ih restDistinct later

theorem last?_append_singleton {key : String} {pairs : List (String × α)} {pair : String × α} :
    last? key (pairs ++ [pair]) = if pair.1 = key then some pair.2 else last? key pairs := by
  simp [last?, get?]

theorem last?_split {key : String} {value : α} {before after : List (String × α)}
    (final : ∀ other ∈ after, other.1 ≠ key) :
    last? key (before ++ (key, value) :: after) = some value := by
  induction after using List.reverseRecOn with
  | nil => rw [last?_append_singleton, if_pos rfl]
  | append_singleton after other ih =>
      obtain ⟨earlier, latest⟩ := List.forall_mem_append.1 final
      rw [← List.cons_append, ← List.append_assoc, last?_append_singleton,
        if_neg (latest other List.mem_cons_self)]
      exact ih earlier

theorem last?_eq_get? {key : String} {entries : Entries α} (distinct : Distinct entries) :
    last? key entries = get? key entries := by
  have reversed : Distinct entries.reverse := by
    rw [Distinct, keys, List.map_reverse]
    exact List.nodup_reverse.2 distinct
  apply Option.ext
  intro value
  rw [last?, get?_eq_some_iff reversed, get?_eq_some_iff distinct, List.mem_reverse]

/-- Where no key repeats, the order of the entries is not seen by looking up. -/
theorem last?_perm {key : String} {entries listed : Entries α} (distinct : Distinct entries)
    (order : entries.Perm listed) : last? key entries = last? key listed := by
  have listedDistinct : Distinct listed := (order.map Prod.fst).nodup_iff.1 distinct
  apply Option.ext
  intro value
  rw [last?_eq_get? distinct, last?_eq_get? listedDistinct, get?_eq_some_iff distinct,
    get?_eq_some_iff listedDistinct, order.mem_iff]

theorem eq_of_keys_eq {left right : Entries α} (leftDistinct : Distinct left)
    (rightDistinct : Distinct right) (sameKeys : keys left = keys right)
    (sameValues : ∀ key, get? key left = get? key right) : left = right := by
  induction left generalizing right with
  | nil =>
      cases right with
      | nil => rfl
      | cons entry rest => simp at sameKeys
  | cons entry rest ih =>
      cases right with
      | nil => simp at sameKeys
      | cons other others =>
          obtain ⟨key, value⟩ := entry
          obtain ⟨key', value'⟩ := other
          simp only [keys_cons, List.cons.injEq] at sameKeys
          obtain ⟨rfl, sameKeys⟩ := sameKeys
          obtain ⟨fresh, restDistinct⟩ := List.nodup_cons.1 leftDistinct
          obtain ⟨fresh', othersDistinct⟩ := List.nodup_cons.1 rightDistinct
          have sameHead : value = value' := by
            simpa [get?] using sameValues key
          have sameTail : rest = others := by
            apply ih restDistinct othersDistinct sameKeys
            intro name
            by_cases same : key = name
            · subst same
              rw [get?_eq_none_iff.2 fresh, get?_eq_none_iff.2 fresh']
            · simpa [get?, same] using sameValues name
          rw [sameHead, sameTail]

theorem get?_erase_self {key : String} {entries : Entries α} :
    get? key (erase key entries) = none := by
  rw [get?_eq_none_iff]
  simp [keys, erase]

theorem get?_erase_of_ne {key name : String} {entries : Entries α} (other : name ≠ key) :
    get? name (erase key entries) = get? name entries := by
  induction entries with
  | nil => rfl
  | cons entry rest ih =>
      obtain ⟨head, value⟩ := entry
      by_cases same : head = key
      · subst same
        simpa [erase, get?, Ne.symm other] using ih
      · have kept : erase key ((head, value) :: rest) = (head, value) :: erase key rest := by
          simp [erase, same]
        simp only [kept, get?, ih]

theorem get?_putSorted_self {key : String} {value : α} {entries : Entries α} :
    get? key (putSorted key value entries) = some value := by
  induction entries with
  | nil => simp [putSorted, get?]
  | cons entry rest ih =>
      obtain ⟨head, old⟩ := entry
      by_cases before : key < head
      · simp [putSorted, before, get?]
      · by_cases after : head < key
        · have other : head ≠ key := by
            rintro rfl
            exact String.lt_irrefl _ after
          simp [putSorted, before, after, get?, other, ih]
        · have same : head = key :=
            String.le_antisymm (String.not_lt.1 before) (String.not_lt.1 after)
          simp [putSorted, same, get?]

theorem get?_putSorted_of_ne {key name : String} {value : α} {entries : Entries α}
    (other : name ≠ key) : get? name (putSorted key value entries) = get? name entries := by
  induction entries with
  | nil => simp [putSorted, get?, Ne.symm other]
  | cons entry rest ih =>
      obtain ⟨head, old⟩ := entry
      by_cases before : key < head
      · simp [putSorted, before, get?, Ne.symm other]
      · by_cases after : head < key
        · simp only [putSorted, before, after, ↓reduceIte, get?, ih]
        · have same : head = key :=
            String.le_antisymm (String.not_lt.1 before) (String.not_lt.1 after)
          subst same
          simp [putSorted, get?, Ne.symm other]

/-- Entries with distinct keys are a rearrangement of the entries that hold them all
and no more. -/
theorem perm_iff_of_distinct {entries listed : Entries α} (distinct : Distinct listed) :
    entries.Perm listed ↔ listed.length = entries.length ∧
      ∀ entry ∈ listed, get? entry.1 entries = some entry.2 := by
  constructor
  · intro order
    have own : Distinct entries := (order.map Prod.fst).nodup_iff.2 distinct
    refine ⟨order.length_eq.symm, ?_⟩
    intro entry member
    exact (get?_eq_some_iff own).2 (order.mem_iff.2 member)
  · rintro ⟨sameLength, found⟩
    have included : listed ⊆ entries := fun entry member =>
      mem_of_get?_eq_some (found entry member)
    have sub : listed.Subperm entries :=
      List.subperm_of_subset distinct.of_map included
    exact (sub.perm_of_length_le (Nat.le_of_eq sameLength.symm)).symm

end Entries

/-! ## Ordered maps -/

namespace OrderedMap

variable {α : Type}

/-- The map lists the keys of the pairs where they first occur, each with its last value. -/
structure Collects (map : OrderedMap α) (pairs : List (String × α)) : Prop where
  keys : Entries.keys map.entries = (Entries.keys pairs).eraseDups
  values : ∀ key, map.get? key = Entries.last? key pairs

theorem ofList_append_singleton (pairs : List (String × α)) (pair : String × α) :
    ofList (pairs ++ [pair]) = (ofList pairs).insert pair.1 pair.2 := by
  ext1
  simp [ofList, insert, Entries.ofList]

theorem collects_ofList (pairs : List (String × α)) : (ofList pairs).Collects pairs := by
  induction pairs using List.reverseRecOn with
  | nil => exact ⟨rfl, fun _ => rfl⟩
  | append_singleton pairs pair ih =>
      obtain ⟨key, value⟩ := pair
      rw [ofList_append_singleton]
      constructor
      · have extended : Entries.keys (pairs ++ [(key, value)]) = Entries.keys pairs ++ [key] := by
          simp [Entries.keys]
        rw [extended, eraseDups_append_singleton]
        change Entries.keys (Entries.put key value (ofList pairs).entries) = _
        have stored : key ∈ Entries.keys (ofList pairs).entries ↔ key ∈ Entries.keys pairs := by
          rw [ih.keys, List.mem_eraseDups]
        by_cases present : key ∈ Entries.keys pairs
        · rw [Entries.keys_put_of_mem (stored.2 present), ih.keys, if_pos present]
        · rw [Entries.put_of_not_mem (stored.not.2 present), if_neg present, ← ih.keys]
          simp [Entries.keys]
      · intro name
        rw [Entries.last?_append_singleton]
        by_cases same : key = name
        · subst same
          simpa [get?, insert] using Entries.get?_put_self
        · simpa [get?, insert, same, Entries.get?_put_of_ne (Ne.symm same)] using ih.values name

theorem collects_iff {map : OrderedMap α} {pairs : List (String × α)} :
    map.Collects pairs ↔ map = ofList pairs := by
  constructor
  · intro collected
    ext1
    have built := collects_ofList pairs
    apply Entries.eq_of_keys_eq map.distinct (ofList pairs).distinct
    · rw [collected.keys, built.keys]
    · intro key
      exact (collected.values key).trans (built.values key).symm
  · rintro rfl
    exact collects_ofList pairs

theorem collects_entries (map : OrderedMap α) : map.Collects map.entries where
  keys := (eraseDups_of_nodup map.distinct).symm
  values _ := (Entries.last?_eq_get? map.distinct).symm

theorem ofList_entries (map : OrderedMap α) : ofList map.entries = map :=
  (collects_iff.1 map.collects_entries).symm

end OrderedMap

theorem Entries.mem_of_mem_ofList {α : Type} {pairs : List (String × α)} {entry : String × α}
    (member : entry ∈ Entries.ofList pairs) : entry ∈ pairs := by
  have stored : (OrderedMap.ofList pairs).get? entry.1 = some entry.2 :=
    (get?_eq_some_iff (distinct_ofList pairs)).2 member
  rw [(OrderedMap.collects_ofList pairs).values] at stored
  exact List.mem_reverse.1 (mem_of_get?_eq_some stored)

theorem OrderedMap.subperm_ofList {α : Type} (pairs : List (String × α)) :
    (OrderedMap.ofList pairs).entries.Subperm pairs :=
  List.subperm_of_subset (Entries.distinct_ofList pairs).of_map fun _ =>
    Entries.mem_of_mem_ofList

/-! ## Ordered sets -/

namespace OrderedSet

/-- The set lists the texts where they first occur. -/
def Collects (set : OrderedSet) (texts : List String) : Prop :=
  set.items = texts.eraseDups

theorem ofList_append_singleton (texts : List String) (text : String) :
    ofList (texts ++ [text]) = (ofList texts).insert text := by
  simp [ofList, insertAll]

theorem collects_ofList (texts : List String) : (ofList texts).Collects texts := by
  induction texts using List.reverseRecOn with
  | nil => rfl
  | append_singleton texts text ih =>
      rw [Collects] at ih
      rw [Collects, ofList_append_singleton, eraseDups_append_singleton]
      by_cases present : text ∈ texts
      · have stored : text ∈ (ofList texts).items := mem_ofList.2 present
        rw [insert, dif_pos stored, if_pos present, ih]
      · have missing : text ∉ (ofList texts).items := mem_ofList.not.2 present
        rw [insert, dif_neg missing, if_neg present, ← ih]

theorem collects_iff {set : OrderedSet} {texts : List String} :
    set.Collects texts ↔ set = ofList texts := by
  constructor
  · intro collected
    ext1
    exact collected.trans (collects_ofList texts).symm
  · rintro rfl
    exact collects_ofList texts

theorem subperm_ofList (texts : List String) : (ofList texts).items.Subperm texts :=
  List.subperm_of_subset (ofList texts).distinct fun _ => mem_ofList.1

theorem collects_items (set : OrderedSet) : set.Collects set.items :=
  (eraseDups_of_nodup set.distinct).symm

theorem ofList_items (set : OrderedSet) : ofList set.items = set :=
  (collects_iff.1 set.collects_items).symm

end OrderedSet

/-! ## Sorted maps -/

namespace SortedMap

variable {α : Type}

/-- The map holds the last value of every key. -/
def Collects (map : SortedMap α) (pairs : List (String × α)) : Prop :=
  ∀ key, map.get? key = Entries.last? key pairs

theorem distinct (map : SortedMap α) : Entries.Distinct map.entries := by
  apply List.pairwise_map.2
  apply map.ascending.imp
  intro earlier later ascends same
  exact String.lt_irrefl _ (same ▸ ascends)

theorem get?_insert_self {map : SortedMap α} {key : String} {value : α} :
    (map.insert key value).get? key = some value :=
  Entries.get?_putSorted_self

theorem get?_insert_of_ne {map : SortedMap α} {key name : String} {value : α}
    (other : name ≠ key) : (map.insert key value).get? name = map.get? name :=
  Entries.get?_putSorted_of_ne other

theorem ofList_append_singleton (pairs : List (String × α)) (pair : String × α) :
    ofList (pairs ++ [pair]) = (ofList pairs).insert pair.1 pair.2 := by
  simp [ofList]

theorem collects_ofList (pairs : List (String × α)) : (ofList pairs).Collects pairs := by
  induction pairs using List.reverseRecOn with
  | nil => exact fun _ => rfl
  | append_singleton pairs pair ih =>
      intro key
      rw [ofList_append_singleton, Entries.last?_append_singleton]
      by_cases same : pair.1 = key
      · subst same
        simpa using get?_insert_self
      · simpa [same, get?_insert_of_ne (Ne.symm same)] using ih key

/-- Ascending keys leave one order, so a sorted map is determined by its values. -/
theorem eq_of_get?_eq {left right : SortedMap α} (same : ∀ key, left.get? key = right.get? key) :
    left = right := by
  ext1
  have sameMembers : ∀ key,
      key ∈ Entries.keys left.entries ↔ key ∈ Entries.keys right.entries := by
    intro key
    rw [← Entries.get?_isSome_iff, ← Entries.get?_isSome_iff]
    exact exists_congr fun value => by rw [← get?, ← get?, same key]
  have permuted : (Entries.keys left.entries).Perm (Entries.keys right.entries) :=
    (List.perm_ext_iff_of_nodup left.distinct right.distinct).2 fun key => sameMembers key
  have sameKeys : Entries.keys left.entries = Entries.keys right.entries := by
    have leftAscending : (Entries.keys left.entries).Pairwise (· < ·) :=
      List.pairwise_map.2 left.ascending
    have rightAscending : (Entries.keys right.entries).Pairwise (· < ·) :=
      List.pairwise_map.2 right.ascending
    refine List.Perm.eq_of_pairwise ?_ leftAscending rightAscending permuted
    intro first second _ _ before after
    exact absurd (String.lt_trans before after) (String.lt_irrefl _)
  exact Entries.eq_of_keys_eq left.distinct right.distinct sameKeys same

theorem collects_iff {map : SortedMap α} {pairs : List (String × α)} :
    map.Collects pairs ↔ map = ofList pairs := by
  constructor
  · intro collected
    apply eq_of_get?_eq
    intro key
    exact (collected key).trans (collects_ofList pairs key).symm
  · rintro rfl
    exact collects_ofList pairs

theorem subperm_ofList (pairs : List (String × α)) : (ofList pairs).entries.Subperm pairs := by
  refine List.subperm_of_subset (ofList pairs).distinct.of_map ?_
  intro entry member
  have stored : (ofList pairs).get? entry.1 = some entry.2 :=
    (Entries.get?_eq_some_iff (ofList pairs).distinct).2 member
  rw [collects_ofList] at stored
  exact List.mem_reverse.1 (Entries.mem_of_get?_eq_some stored)

theorem Collects.perm {map : SortedMap α} {pairs others : List (String × α)}
    (collected : map.Collects pairs) (distinct : Entries.Distinct pairs)
    (order : pairs.Perm others) : map.Collects others :=
  fun key => (collected key).trans (Entries.last?_perm distinct order)

theorem collects_entries (map : SortedMap α) : map.Collects map.entries :=
  fun _ => (Entries.last?_eq_get? map.distinct).symm

theorem ofList_entries (map : SortedMap α) : ofList map.entries = map :=
  (collects_iff.1 map.collects_entries).symm

end SortedMap

end InterviewFlow
