import InterviewFlow.Proofs.DocumentText
import InterviewFlow.Proofs.JsonGrammar
import InterviewFlow.Proofs.JsonRoundTrip

/-! What is read from which text. A text that is no JSON is malformed, whatever else is
wrong with it. Of a JSON text the keys are settled first, each at its first position with
its last value; a `null` that is left anywhere is unsupported, and otherwise the tree has
the shape of the value. The text of a tree is read as that tree. -/

set_option autoImplicit false

namespace InterviewFlow

namespace Json

/-! ## Values and their trees -/

/-- A null stands in the value, below the last value of each key around it. -/
inductive KeepsNull : Json → Prop where
  | null : KeepsNull .null
  | item {items : List Json} {item : Json} :
      item ∈ items → KeepsNull item → KeepsNull (.array items)
  | field {fields : List (String × Json)} {key : String} {value : Json} :
      Entries.last? key fields = some value → KeepsNull value → KeepsNull (ofFields fields)

/-- The tree has the shape of the value: the keys of an object where they first occur, each
with its last value, and the texts of all that is not a container. -/
inductive HasTree : Json → Tree → Prop where
  | bool {value : Bool} : HasTree (.bool value) (.leaf (if value then "true" else "false"))
  | number {literal : NumberLiteral} {text : String} :
      literal.text? = some text → HasTree (.number literal) (.leaf text)
  | string {text : String} : HasTree (ofText text) (.leaf text)
  | array {items : List Json} {trees : List Tree} :
      List.Forall₂ HasTree items trees → HasTree (.array items) (.sequence trees)
  | object {fields : List (String × Json)} {kept : OrderedMap Json}
      {entries : List (String × Tree)} :
      kept.Collects fields → Entries.keys kept.entries = Entries.keys entries →
      List.Forall₂ HasTree (kept.entries.map Prod.snd) (entries.map Prod.snd) →
      HasTree (ofFields fields) (.group entries)

theorem keepsNull_array_iff {items : List Json} :
    (array items).KeepsNull ↔ ∃ item ∈ items, item.KeepsNull := by
  constructor
  · intro keeps
    cases keeps with
    | item member keeps => exact ⟨_, member, keeps⟩
  · rintro ⟨item, member, keeps⟩
    exact .item member keeps

theorem some_fields_injective :
    Function.Injective (List.map fun field : String × Json => (some field.1, field.2)) := by
  apply List.map_injective_iff.2
  rintro ⟨key, value⟩ ⟨other, otherValue⟩ same
  cases same
  rfl

theorem keepsNull_ofFields_iff {fields : List (String × Json)} :
    (ofFields fields).KeepsNull ↔ ∃ entry ∈ Entries.ofList fields, entry.2.KeepsNull := by
  have collected := OrderedMap.collects_ofList fields
  have last : ∀ key value, Entries.last? key fields = some value ↔
      (key, value) ∈ Entries.ofList fields := by
    intro key value
    rw [← collected.values key]
    exact Entries.get?_eq_some_iff (Entries.distinct_ofList fields)
  constructor
  · intro keeps
    generalize whole : ofFields fields = value at keeps
    cases keeps with
    | null => cases whole
    | item => cases whole
    | field final keeps =>
        cases some_fields_injective (object.inj whole)
        exact ⟨_, (last _ _).1 final, keeps⟩
  · rintro ⟨entry, member, keeps⟩
    exact .field ((last _ _).2 member) keeps

theorem hasTree_array_iff {items : List Json} {tree : Tree} :
    (array items).HasTree tree ↔
      ∃ trees, List.Forall₂ HasTree items trees ∧ Tree.sequence trees = tree := by
  constructor
  · intro shape
    cases shape with
    | array related => exact ⟨_, related, rfl⟩
  · rintro ⟨trees, related, rfl⟩
    exact .array related

theorem hasTree_ofFields_iff {fields : List (String × Json)} {tree : Tree} :
    (ofFields fields).HasTree tree ↔
      ∃ entries, Tagwise HasTree (Entries.ofList fields) entries ∧ Tree.group entries = tree := by
  constructor
  · intro shape
    generalize whole : ofFields fields = value at shape
    cases shape with
    | object collects sameKeys related =>
        cases some_fields_injective (object.inj whole)
        rw [OrderedMap.collects_iff.1 collects] at sameKeys related
        exact ⟨_, tagwise_iff.2 ⟨sameKeys, related⟩, rfl⟩
    | _ => cases whole
  · rintro ⟨entries, tagwise, rfl⟩
    obtain ⟨sameKeys, related⟩ := tagwise_iff.1 tagwise
    exact .object (OrderedMap.collects_ofList fields) sameKeys related

/-! ## Sound values -/

theorem areSound_iff {items : List Json} :
    areSound items = true ↔ ∀ item ∈ items, item.isSound = true := by
  induction items with
  | nil => simp [areSound]
  | cons item rest ih => rw [areSound, Bool.and_eq_true_iff, ih, List.forall_mem_cons]

theorem exists_fields_of_haveSoundEntries {entries : List (Option String × Json)}
    (sound : haveSoundEntries entries = true) : ∃ fields : List (String × Json),
      object entries = ofFields fields ∧ ∀ field ∈ fields, field.2.isSound = true := by
  induction entries with
  | nil => exact ⟨[], rfl, List.forall_mem_nil _⟩
  | cons entry rest ih =>
      obtain ⟨key, value⟩ := entry
      simp only [haveSoundEntries, Bool.and_eq_true] at sound
      obtain ⟨⟨keySound, valueSound⟩, restSound⟩ := sound
      obtain ⟨key, rfl⟩ := Option.isSome_iff_exists.1 keySound
      obtain ⟨fields, same, each⟩ := ih restSound
      rw [object.inj same]
      exact ⟨(key, value) :: fields, rfl, List.forall_mem_cons.2 ⟨valueSound, each⟩⟩

end Json

/-! ## Settling keys -/

namespace Entries

variable {α β : Type}

theorem put_map (f : α → β) (key : String) (value : α) (entries : Entries α) :
    put key (f value) (entries.map fun entry => (entry.1, f entry.2)) =
      (put key value entries).map fun entry => (entry.1, f entry.2) := by
  induction entries with
  | nil => rfl
  | cons entry rest ih =>
      rw [List.map_cons, put, put]
      split
      · rfl
      · rw [ih, List.map_cons]

theorem ofList_map (f : α → β) (pairs : List (String × α)) :
    ofList (pairs.map fun pair => (pair.1, f pair.2)) =
      (ofList pairs).map fun entry => (entry.1, f entry.2) := by
  induction pairs using List.reverseRecOn with
  | nil => rfl
  | append_singleton pairs pair ih =>
      rw [ofList] at ih
      simp only [ofList, List.map_append, List.map_cons, List.map_nil, List.foldl_append,
        List.foldl_cons, List.foldl_nil, ih]
      exact put_map f pair.1 pair.2 _

end Entries

/-! ## Computations that fail -/

theorem map_eq_ok_iff {ε α β : Type} {f : α → β} {computation : Except ε α} {result : β} :
    computation.map f = .ok result ↔ ∃ value, computation = .ok value ∧ f value = result := by
  cases computation with
  | error error => simp [Except.map]
  | ok value => simp [Except.map]

theorem map_eq_error_iff {ε α β : Type} {f : α → β} {computation : Except ε α} {error : ε} :
    computation.map f = .error error ↔ computation = .error error := by
  cases computation with
  | error raised => simp [Except.map]
  | ok value => simp [Except.map]

theorem mapM_eq_ok_iff_of_mem {ε α β : Type} {step : α → Except ε β} {items : List α}
    {Related : α → β → Prop}
    (each : ∀ item ∈ items, ∀ result, step item = .ok result ↔ Related item result)
    {results : List β} : items.mapM step = .ok results ↔ List.Forall₂ Related items results := by
  rw [mapM_eq_ok_iff]
  constructor
  · intro done
    exact ((List.forall₂_and_left _ _).2 ⟨each, done⟩).imp fun _ result both =>
      (both.1 result).1 both.2
  · intro related
    exact ((List.forall₂_and_left _ _).2 ⟨each, related⟩).imp fun _ result both =>
      (both.1 result).2 both.2

/-- Steps that fail in one way only fail so in a list as soon as they do on an item of it. -/
theorem mapM_eq_error_iff {ε α β : Type} {step : α → Except ε β} {items : List α} {failure : ε}
    {Fails : α → Prop}
    (each : ∀ item ∈ items, ∀ error, step item = .error error ↔ error = failure ∧ Fails item)
    (error : ε) :
    items.mapM step = .error error ↔ error = failure ∧ ∃ item ∈ items, Fails item := by
  induction items with
  | nil => simp [pure, Except.pure]
  | cons item rest ih =>
      obtain ⟨first, others⟩ := List.forall_mem_cons.1 each
      rw [List.mapM_cons, List.exists_mem_cons_iff]
      cases outcome : step item with
      | error raised =>
          obtain ⟨rfl, fails⟩ := (first raised).1 outcome
          constructor
          · intro failed
            cases failed
            exact ⟨rfl, .inl fails⟩
          · rintro ⟨rfl, _⟩
            rfl
      | ok value =>
          have passes : ¬ Fails item := by
            intro fails
            have failed := (first failure).2 ⟨rfl, fails⟩
            rw [outcome] at failed
            cases failed
          rw [or_iff_right passes, ← ih others]
          cases rest.mapM step with
          | error raised => exact Iff.rfl
          | ok values => exact iff_of_false nofun nofun

namespace Document

open Json (HasTree KeepsNull)

theorem ofItems_eq_mapM (items : List Json) : ofItems items = items.mapM ofJson := by
  induction items with
  | nil => rfl
  | cons item rest ih =>
      rw [ofItems, List.mapM_cons, ih]
      cases ofJson item with
      | error error => rfl
      | ok tree => cases rest.mapM ofJson <;> rfl

theorem ofEntries_fields (fields : List (String × Json)) :
    ofEntries (fields.map fun field => (some field.1, field.2)) =
      fields.map fun field => (field.1, ofJson field.2) := by
  induction fields with
  | nil => rfl
  | cons field rest ih => rw [List.map_cons, ofEntries, ih, List.map_cons]

theorem ofJson_ofFields (fields : List (String × Json)) :
    ofJson (.ofFields fields) =
      ((Entries.ofList fields).mapM fun entry =>
        (ofJson entry.2).map fun tree => (entry.1, tree)).map .group := by
  rw [Json.ofFields, ofJson, ofEntries_fields, Entries.ofList_map, settle, List.mapM_map]
  rfl

theorem tagged_eq_ok_iff {tag : String} {outcome : Except DocumentError Tree}
    {entry : String × Tree} : (outcome.map fun tree => (tag, tree)) = .ok entry ↔
      tag = entry.1 ∧ outcome = .ok entry.2 := by
  rw [map_eq_ok_iff]
  constructor
  · rintro ⟨tree, done, rfl⟩
    exact ⟨rfl, done⟩
  · rintro ⟨rfl, done⟩
    exact ⟨entry.2, done, rfl⟩

theorem ofJson_eq_ok_iff {value : Json} (sound : value.isSound = true) {tree : Tree} :
    ofJson value = .ok tree ↔ value.HasTree tree := by
  induction value using Json.memberInduction generalizing tree with
  | null => exact iff_of_false nofun nofun
  | bool value =>
      constructor
      · intro read
        cases read
        exact .bool
      · intro shape
        cases shape with
        | bool => rfl
  | number literal =>
      obtain ⟨text, spelled⟩ := Option.isSome_iff_exists.1 sound
      rw [ofJson, spelled]
      constructor
      · intro read
        cases read
        exact .number spelled
      · intro shape
        cases shape with
        | number found =>
            rw [Option.some.inj (spelled.symm.trans found)]
  | string text =>
      obtain ⟨text, rfl⟩ := Option.isSome_iff_exists.1 sound
      constructor
      · intro read
        cases read
        exact .string
      · intro shape
        cases shape with
        | string => rfl
  | array items ih =>
      have each : ∀ item ∈ items, ∀ tree, ofJson item = .ok tree ↔ item.HasTree tree :=
        fun item member tree => ih item member (Json.areSound_iff.1 sound item member)
      rw [ofJson, map_eq_ok_iff, Json.hasTree_array_iff]
      simp only [ofItems_eq_mapM, mapM_eq_ok_iff_of_mem each]
  | object entries ih =>
      obtain ⟨fields, same, fieldsSound⟩ := Json.exists_fields_of_haveSoundEntries sound
      rw [Json.object.inj same] at ih
      rw [same, ofJson_ofFields, map_eq_ok_iff, Json.hasTree_ofFields_iff]
      have each : ∀ field ∈ Entries.ofList fields, ∀ entry : String × Tree,
          ((ofJson field.2).map fun tree => (field.1, tree)) = .ok entry ↔
            field.1 = entry.1 ∧ field.2.HasTree entry.2 := by
        intro field kept entry
        have member := Entries.mem_of_mem_ofList kept
        rw [tagged_eq_ok_iff, ih _ (List.mem_map_of_mem member) (fieldsSound field member)]
      simp only [mapM_eq_ok_iff_of_mem each]
      rfl

theorem ofJson_eq_error_iff_of_ok {value : Json} {tree : Tree} (done : ofJson value = .ok tree)
    (clean : ¬ value.KeepsNull) (error : DocumentError) :
    ofJson value = .error error ↔ error = .unsupported "null" ∧ value.KeepsNull := by
  rw [done]
  constructor
  · intro failed
    cases failed
  · rintro ⟨_, keeps⟩
    exact absurd keeps clean

theorem ofJson_eq_error_iff {value : Json} (sound : value.isSound = true) (error : DocumentError) :
    ofJson value = .error error ↔ error = .unsupported "null" ∧ value.KeepsNull := by
  induction value using Json.memberInduction generalizing error with
  | null =>
      constructor
      · intro failed
        cases failed
        exact ⟨rfl, .null⟩
      · rintro ⟨rfl, _⟩
        rfl
  | bool value =>
      refine ofJson_eq_error_iff_of_ok rfl ?_ error
      intro keeps
      cases keeps
  | number literal =>
      obtain ⟨text, spelled⟩ := Option.isSome_iff_exists.1 sound
      have done : ofJson (.number literal) = .ok (.leaf text) := by rw [ofJson, spelled]
      refine ofJson_eq_error_iff_of_ok done ?_ error
      intro keeps
      cases keeps
  | string text =>
      obtain ⟨text, rfl⟩ := Option.isSome_iff_exists.1 sound
      refine ofJson_eq_error_iff_of_ok rfl ?_ error
      intro keeps
      cases keeps
  | array items ih =>
      have each : ∀ item ∈ items, ∀ error,
          ofJson item = .error error ↔ error = .unsupported "null" ∧ item.KeepsNull :=
        fun item member => ih item member (Json.areSound_iff.1 sound item member)
      rw [ofJson, map_eq_error_iff, ofItems_eq_mapM, mapM_eq_error_iff each,
        Json.keepsNull_array_iff]
  | object entries ih =>
      obtain ⟨fields, same, fieldsSound⟩ := Json.exists_fields_of_haveSoundEntries sound
      rw [Json.object.inj same] at ih
      have each : ∀ field ∈ Entries.ofList fields, ∀ error,
          ((ofJson field.2).map fun tree => (field.1, tree)) = .error error ↔
            error = .unsupported "null" ∧ field.2.KeepsNull := by
        intro field kept error
        have member := Entries.mem_of_mem_ofList kept
        rw [map_eq_error_iff]
        exact ih _ (List.mem_map_of_mem member) (fieldsSound field member) error
      rw [same, ofJson_ofFields, map_eq_error_iff, mapM_eq_error_iff each,
        Json.keepsNull_ofFields_iff]

/-! ## Texts of trees -/

end Document

namespace Tree

mutual

/-- The greatest number of sequences and groups around a place in a tree, empty ones counted. -/
def nesting : Tree → Nat
  | .leaf _ => 0
  | .sequence items => 1 + nestingOfItems items
  | .group entries => 1 + nestingOfEntries entries

def nestingOfItems : List Tree → Nat
  | [] => 0
  | item :: rest => max item.nesting (nestingOfItems rest)

def nestingOfEntries : List (String × Tree) → Nat
  | [] => 0
  | (_, tree) :: rest => max tree.nesting (nestingOfEntries rest)

end

theorem nesting_toJson (tree : Tree) : tree.toJson.nesting = tree.nesting := by
  induction tree using memberInduction with
  | leaf text => rfl
  | sequence items ih =>
      rw [toJson, Json.nesting, nesting, Nat.add_left_cancel_iff]
      induction items with
      | nil => rfl
      | cons item rest restIh =>
          obtain ⟨first, others⟩ := List.forall_mem_cons.1 ih
          rw [toJsonOfItems, Json.nestingOfItems, nestingOfItems, first, restIh others]
  | group entries ih =>
      rw [toJson, Json.nesting, nesting, Nat.add_left_cancel_iff]
      induction entries with
      | nil => rfl
      | cons entry rest restIh =>
          obtain ⟨first, others⟩ := List.forall_mem_cons.1 ih
          rw [toJsonOfEntries, Json.nestingOfEntries, nestingOfEntries, first, restIh others]

end Tree

namespace Document

open Json (AcceptedAs)

theorem read_eq_ofJson {source : String} {value : Json} (accepted : AcceptedAs source value) :
    read source = ofJson value := by
  rw [read, Json.read?_eq_some_iff.2 accepted]

theorem read_eq_malformed_iff {source : String} :
    read source = .error .malformed ↔ ¬ ∃ value, AcceptedAs source value := by
  constructor
  · rintro malformed ⟨value, accepted⟩
    rw [read_eq_ofJson accepted, ofJson_eq_error_iff accepted.sound] at malformed
    cases malformed.1
  · intro refused
    cases found : Json.read? source with
    | none => rw [read, found]
    | some value => exact absurd ⟨value, Json.read?_eq_some_iff.1 found⟩ refused

theorem read_eq_ok_iff {source : String} {tree : Tree} :
    read source = .ok tree ↔ ∃ value, AcceptedAs source value ∧ value.HasTree tree := by
  constructor
  · intro done
    cases found : Json.read? source with
    | none =>
        rw [read, found] at done
        cases done
    | some value =>
        have accepted := Json.read?_eq_some_iff.1 found
        rw [read_eq_ofJson accepted, ofJson_eq_ok_iff accepted.sound] at done
        exact ⟨value, accepted, done⟩
  · rintro ⟨value, accepted, shape⟩
    rw [read_eq_ofJson accepted]
    exact (ofJson_eq_ok_iff accepted.sound).2 shape

/-- A text of a tree, whatever blanks and escapes it has, is read as that tree within the
nesting limit and is malformed beyond it. -/
theorem read_of_spelledBy {tree : Tree} {source : String} (distinct : tree.DistinctTags)
    (spelled : tree.toJson.SpelledBy source) :
    read source = if tree.nesting ≤ 127 then .ok tree else .error .malformed := by
  rw [← tree.nesting_toJson]
  split
  · next shallow =>
      rw [read_eq_ofJson ⟨spelled, tree.isSound_toJson, shallow⟩]
      exact ofJson_toJson distinct
  · next deep =>
      rw [read_eq_malformed_iff]
      rintro ⟨value, accepted⟩
      have same : value = tree.toJson := accepted.spelled.unique spelled
      exact deep (same ▸ accepted.shallow)

/-- Reading inverts writing: the compact and the pretty text of a tree are read as that tree
if no more than 127 sequences and groups are nested. And it decides: a text is malformed if
it is not accepted as JSON, whatever nulls are in it; an accepted one is unsupported if its
value keeps a null once the keys are settled, and otherwise gives the tree of that shape. -/
theorem read_inverts_and_decides :
    (∀ tree : Tree, tree.DistinctTags → ∀ text ∈ [tree.toJson.compact, tree.toJson.pretty],
      read text = if tree.nesting ≤ 127 then .ok tree else .error .malformed) ∧
    ∀ source,
      (read source = .error .malformed ↔ ¬ ∃ value, AcceptedAs source value) ∧
      ∀ value, AcceptedAs source value →
        (read source = .error (.unsupported "null") ↔ value.KeepsNull) ∧
        ((∃ tree, read source = .ok tree) ↔ ¬ value.KeepsNull) ∧
        ∀ tree, read source = .ok tree ↔ value.HasTree tree := by
  refine ⟨?_, fun source => ⟨read_eq_malformed_iff, ?_⟩⟩
  · intro tree distinct text written
    refine read_of_spelledBy distinct (Json.ofText?_eq_some_iff.1 ?_)
    rcases List.mem_pair.1 written with rfl | rfl
    · exact tree.numberFree_toJson.ofText?_compact
    · exact tree.numberFree_toJson.ofText?_pretty
  · intro value accepted
    have failed := ofJson_eq_error_iff accepted.sound
    rw [read_eq_ofJson accepted]
    refine ⟨(failed _).trans (and_iff_right rfl), ?_, fun tree => ofJson_eq_ok_iff accepted.sound⟩
    cases outcome : ofJson value with
    | error error => exact iff_of_false nofun (not_not.2 ((failed error).1 outcome).2)
    | ok tree =>
        refine iff_of_true ⟨tree, rfl⟩ ?_
        intro keeps
        have raised := (failed _).2 ⟨rfl, keeps⟩
        rw [outcome] at raised
        cases raised

/-- A tree of one group, a null that a later value replaces, a null that stays, and a null
in a text that breaks off. -/
theorem read_inverts_and_decides_null :
    let tree : Tree := .group [("b", .sequence []), ("a", .leaf "\n")]
    let replaced := "\x7b\"a\":null,\"b\":\"x\",\"a\":[true]\x7d"
    let kept := "[null]"
    read tree.toJson.pretty = .ok tree ∧
      read replaced = .ok (.group [("a", .sequence [.leaf "true"]), ("b", .leaf "x")]) ∧
      read kept = .error (.unsupported "null") ∧
      read "[null" = .error .malformed ∧ ¬ ∃ value, AcceptedAs "[null" value := by
  intro tree replaced kept
  obtain ⟨inverts, decides⟩ := read_inverts_and_decides
  have distinct : tree.DistinctTags := by
    refine .group (by decide) (List.forall_mem_cons.2 ⟨?_, List.forall_mem_singleton.2 .leaf⟩)
    exact .sequence (List.forall_mem_nil _)
  have accepted : ∀ {value : Json} {text : String}, value.NumberFree → value.compact = text →
      value.isSound = true → value.nesting ≤ 127 → AcceptedAs text value := by
    rintro value _ free rfl sound shallow
    exact ⟨Json.ofText?_eq_some_iff.1 free.ofText?_compact, sound, shallow⟩
  refine ⟨inverts tree distinct _ (by simp), ?_, ?_, ?_⟩
  · let fields := [("a", Json.null), ("b", .ofText "x"), ("a", .array [.bool true])]
    have settled : Entries.ofList fields = [("a", .array [.bool true]), ("b", .ofText "x")] := rfl
    have whole : AcceptedAs replaced (.ofFields fields) :=
      accepted (by simp [fields, Json.NumberFree.null, Json.NumberFree.bool]) (by decide +kernel)
        rfl (by decide)
    refine (((decides replaced).2 _ whole).2.2 _).2 (Json.hasTree_ofFields_iff.2 ⟨_, ?_, rfl⟩)
    rw [settled]
    exact .cons ⟨rfl, .array (.cons .bool .nil)⟩ (.cons ⟨rfl, .string⟩ .nil)
  · have whole : AcceptedAs kept (.array [.null]) :=
      accepted (.array (List.forall_mem_singleton.2 .null)) (by decide +kernel) rfl (by decide)
    exact ((decides kept).2 _ whole).1.2 (.item (.head _) .null)
  · have closed : ∀ token ∈ [Token.leftBracket, Token.null], token.IsClosed :=
      List.forall_mem_cons.2 ⟨nofun, List.forall_mem_singleton.2 nofun⟩
    have split : Token.split? "[null".toList = some [.leftBracket, .null] :=
      (Json.spells_tokens closed).split?
    have refused : ¬ ∃ value, AcceptedAs "[null" value := by
      rintro ⟨value, whole⟩
      have spelled := Json.ofText?_eq_some_iff.2 whole.spelled
      rw [Json.ofText?, split] at spelled
      cases spelled
    exact ⟨(decides _).1.2 refused, refused⟩

end Document

end InterviewFlow
