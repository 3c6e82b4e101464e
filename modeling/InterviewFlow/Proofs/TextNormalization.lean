import InterviewFlow.Proofs.KeyOrder
import InterviewFlow.Proofs.Loading

/-! Whatever is read as model JSON is written within the limit of the reader and read back.
A text may give a node in many ways, with unknown fields, repeated keys and any order;
writing gives it in one, in which no object repeats a key. -/

set_option autoImplicit false

namespace InterviewFlow

/-! ## Keys of what is written -/

namespace Json

/-- In every object of the value no key occurs twice. -/
inductive DistinctKeys : Json → Prop where
  | null : DistinctKeys .null
  | bool {value : Bool} : DistinctKeys (.bool value)
  | number {literal : NumberLiteral} : DistinctKeys (.number literal)
  | string {text : Option String} : DistinctKeys (.string text)
  | array {items : List Json} :
      (∀ item ∈ items, DistinctKeys item) → DistinctKeys (.array items)
  | object {entries : List (Option String × Json)} :
      (entries.map Prod.fst).Nodup → (∀ entry ∈ entries, DistinctKeys entry.2) →
      DistinctKeys (.object entries)

@[simp] theorem distinctKeys_ofText (text : String) : (ofText text).DistinctKeys :=
  .string

@[simp] theorem distinctKeys_array {items : List Json} :
    (array items).DistinctKeys ↔ ∀ item ∈ items, item.DistinctKeys := by
  constructor
  · intro distinct
    cases distinct with
    | array each => exact each
  · exact .array

@[simp] theorem distinctKeys_ofFields {fields : List (String × Json)} :
    (ofFields fields).DistinctKeys ↔
      (fields.map Prod.fst).Nodup ∧ ∀ field ∈ fields, field.2.DistinctKeys := by
  have keys : ((fields.map fun field => (some field.1, field.2)).map Prod.fst).Nodup ↔
      (fields.map Prod.fst).Nodup := by
    rw [List.map_map, ← List.nodup_map_iff (Option.some_injective String), List.map_map]
    rfl
  rw [ofFields]
  constructor
  · intro distinct
    cases distinct with
    | object here below =>
        exact ⟨keys.1 here, fun field member => below _ (List.mem_map_of_mem member)⟩
  · rintro ⟨here, below⟩
    exact .object (keys.2 here) (List.forall_mem_map.2 below)

@[simp] theorem distinctKeys_tagged {tag : String} {content : Json} :
    (tagged tag content).DistinctKeys ↔ content.DistinctKeys := by
  simp [tagged]

@[simp] theorem distinctKeys_ofTexts (texts : List String) : (ofTexts texts).DistinctKeys := by
  simp [ofTexts]

@[simp] theorem distinctKeys_ofTextEntries {entries : Entries String} :
    (ofTextEntries entries).DistinctKeys ↔ Entries.Distinct entries := by
  rw [ofTextEntries, distinctKeys_ofFields, List.map_map, List.forall_mem_map]
  exact and_iff_left fun entry _ => distinctKeys_ofText entry.2

end Json

theorem Predicate.distinctKeys_toJson (predicate : Predicate) :
    predicate.toJson.DistinctKeys := by
  induction predicate using memberInduction with
  | combined members ih =>
      rw [toJson, toJsonAll_eq_map]
      simpa using ih
  | other predicate single =>
      cases predicate with
      | combined members => exact absurd rfl (single members)
      | _ => simp [toJson, Comparison.toJson, ComparisonOperator.toJson]

theorem RoutingRule.distinctKeys_toJson (rule : RoutingRule) : rule.toJson.DistinctKeys := by
  induction rule using memberInduction with
  | direct guard outcome => simp [toJson, guard.distinctKeys_toJson]
  | nested guard children ih =>
      simpa [toJson, toJsonAll_eq_map, guard.distinctKeys_toJson] using ih

theorem Question.distinctKeys_toJson (question : Question) : question.toJson.DistinctKeys := by
  cases question with
  | multipleChoice identifier options => simp [toJson, options.distinct]
  | _ => simp [toJson]

theorem Element.distinctKeys_toJson (element : Element) : element.toJson.DistinctKeys := by
  induction element using memberInduction with
  | conditional guard whenTrue whenFalse ihTrue ihFalse =>
      simpa [toJson, toJsonAll_eq_map, guard.distinctKeys_toJson] using ⟨ihTrue, ihFalse⟩
  | other element single =>
      cases element with
      | conditional guard whenTrue whenFalse => exact absurd rfl (single guard whenTrue whenFalse)
      | question prompt => simp [toJson, prompt.distinctKeys_toJson]
      | routing rules =>
          simp [toJson, RoutingRule.toJsonAll_eq_map, RoutingRule.distinctKeys_toJson]
      | _ => simp [toJson]

theorem Node.distinctKeys_toJson (node : Node) : node.toJson.DistinctKeys := by
  simp [toJson, Element.toJsonAll_eq_map, Element.distinctKeys_toJson, FrontMatter.toJson,
    node.frontMatter.attributes.distinct]

/-! ## Predicates and their texts -/

namespace Predicate

theorem ofJsonText?_pretty (predicate : Predicate) : ofJsonText? predicate.toJson.pretty =
    if predicate.toJson.nesting ≤ Json.nestingLimit then some predicate else none := by
  rw [ofJsonText?, predicate.numberFree_toJson.ofText?_pretty, Option.bind_some,
    predicate.readsBack]

theorem ofJsonText?_compact (predicate : Predicate) : ofJsonText? predicate.toJson.compact =
    if predicate.toJson.nesting ≤ Json.nestingLimit then some predicate else none := by
  rw [ofJsonText?, predicate.numberFree_toJson.ofText?_compact, Option.bind_some,
    predicate.readsBack]

end Predicate

/-! ## Reading, writing and reading -/

/-- What is read as a node or as a predicate is written with at most 127 nested arrays and
objects, none of which repeats a key, and either form is read back as it; its options and
the values of its sets are distinct and its attributes sorted by the bytes of their keys. -/
theorem Json.reading_normalizes (text : String) :
    (∀ node, Node.ofJsonText? text = some node →
      node.toJson.nesting ≤ 127 ∧
      Node.ofJsonText? node.toJson.pretty = some node ∧
      Node.ofJsonText? node.toJson.compact = some node ∧
      node.toJson.DistinctKeys ∧
      (∀ identifier options, .multipleChoice identifier options ∈ node.questions →
        (Entries.keys options.entries).Nodup) ∧
      (∀ varname values, .membership varname values ∈ node.predicateParts →
        values.items.Nodup) ∧
      (Entries.keys node.frontMatter.attributes.entries).Pairwise fun earlier later =>
        Artifact.utf8 earlier < Artifact.utf8 later) ∧
    ∀ predicate, Predicate.ofJsonText? text = some predicate →
      predicate.toJson.nesting ≤ 127 ∧
      Predicate.ofJsonText? predicate.toJson.pretty = some predicate ∧
      Predicate.ofJsonText? predicate.toJson.compact = some predicate ∧
      predicate.toJson.DistinctKeys ∧
      ∀ varname values, .membership varname values ∈ predicate.parts → values.items.Nodup := by
  constructor
  · intro node read
    obtain ⟨json, _, read⟩ := Option.bind_eq_some_iff.1 read
    have fits : node.toJson.nesting ≤ nestingLimit := Node.nesting_le_of_ofJson? read
    refine ⟨fits, node.ofJsonText?_pretty.trans (if_pos fits),
      node.ofJsonText?_compact.trans (if_pos fits), node.distinctKeys_toJson, ?_, ?_, ?_⟩
    · intro _ options _
      exact options.distinct
    · intro _ values _
      exact values.distinct
    · apply List.pairwise_map.2
      exact node.frontMatter.attributes.ascending.imp Artifact.utf8_lt_iff.2
  · intro predicate read
    obtain ⟨json, _, read⟩ := Option.bind_eq_some_iff.1 read
    have fits : predicate.toJson.nesting ≤ nestingLimit := Predicate.nesting_le_of_ofJson? read
    refine ⟨fits, predicate.ofJsonText?_pretty.trans (if_pos fits),
      predicate.ofJsonText?_compact.trans (if_pos fits), predicate.distinctKeys_toJson, ?_⟩
    intro _ values _
    exact values.distinct

/-- A text with its fields out of order, one of them unknown, an option, a value and an
attribute that repeat, attributes out of order, and a variant without content as an object. -/
theorem Json.reading_normalizes_repeats :
    let guard := ofFields [("SetMembership", ofFields
      [("values", ofTexts ["y", "x", "y"]), ("varname", ofText "v")])]
    let source := ofFields [
      ("front_matter", ofFields [("attributes", ofFields
        [("z", ofText "1"), ("a", ofText "2"), ("z", ofText "3")])]),
      ("unknown", .array [.null, .string none]),
      ("body", .array [
        ofFields [("Question", ofFields [("MultipleChoice", ofFields
          [("options", ofFields [("b", ofText "1"), ("a", ofText "2"), ("b", ofText "3")]),
            ("identifier", ofText "q")])])],
        ofFields [("Conditional", .array [guard, .array [], .array []])],
        ofFields [("Conditional", .array
          [ofFields [("Otherwise", .null)], .array [], .array []])]]),
      ("name", ofText "n")]
    let membership : Predicate := .membership "v" (.ofList ["y", "x"])
    let node : Node := ⟨"n",
      [.question (.multipleChoice "q" (.ofList [("b", "3"), ("a", "2")])),
        .conditional membership [] [], .conditional .otherwise [] []],
      .ofList [("a", "2"), ("z", "3")]⟩
    (Node.ofJsonText? source.pretty = some node ∧ source.pretty ≠ node.toJson.pretty ∧
      Node.ofJsonText? node.toJson.pretty = some node) ∧
    Predicate.ofJsonText? guard.compact = some membership ∧
      Predicate.ofJsonText? membership.toJson.compact = some membership := by
  intro guard source membership node
  have nodeRead : Node.ofJsonText? source.pretty = some node := by
    have free : source.NumberFree := by
      simp [source, guard, NumberFree.null, NumberFree.string]
    rw [Node.ofJsonText?, free.ofText?_pretty]
    rfl
  have guardRead : Predicate.ofJsonText? guard.compact = some membership := by
    have free : guard.NumberFree := by simp [guard]
    rw [Predicate.ofJsonText?, free.ofText?_compact]
    rfl
  refine ⟨⟨nodeRead, by decide +kernel, ((reading_normalizes _).1 node nodeRead).2.1⟩,
    guardRead, ((reading_normalizes _).2 membership guardRead).2.2.1⟩

end InterviewFlow
