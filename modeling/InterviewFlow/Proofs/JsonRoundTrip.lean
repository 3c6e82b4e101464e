import InterviewFlow.Json.Decoding
import InterviewFlow.Proofs.Census
import InterviewFlow.Proofs.Collections
import InterviewFlow.Proofs.JsonText
import Mathlib.Tactic.IntervalCases

/-! Model JSON is read back as what was written, exactly where its arrays and objects are
nested no deeper than the reader has room for. Every reader takes its room apart in the
steps in which the written form nests. -/

set_option autoImplicit false

namespace InterviewFlow

namespace Json

variable {α β : Type}

/-- The reader takes the value back as soon as it has room for the nesting, and not before. -/
def ReadsBack (read : Nat → Json → Option α) (json : Json) (value : α) : Prop :=
  ∀ room, read room json = if json.nesting ≤ room then some value else none

/-- Outer layers that the reader takes off first, and what it needs for the rest. -/
theorem readsBack_of_layers {read : Nat → Json → Option α} {json : Json} {value : α}
    (layers inner : Nat) (nesting : json.nesting = layers + inner)
    (shallow : ∀ room, room < layers → read room json = none)
    (deep : ∀ room, read (room + layers) json = if inner ≤ room then some value else none) :
    ReadsBack read json value := by
  intro room
  by_cases short : room < layers
  · rw [shallow room short, if_neg (by omega)]
  · obtain ⟨inside, rfl⟩ := Nat.exists_eq_add_of_le' (Nat.le_of_not_lt short)
    rw [deep, nesting]
    exact if_congr (by omega) rfl rfl

theorem bind_ite_none {fits : Prop} [Decidable fits] (value : α) (next : α → Option β) :
    (if fits then some value else none).bind next = if fits then next value else none := by
  split
  · rfl
  · rfl

/-! ## The nesting of what is written -/

@[simp] theorem nesting_ofText (text : String) : (ofText text).nesting = 0 :=
  rfl

@[simp] theorem nesting_array (items : List Json) :
    (array items).nesting = 1 + nestingOfItems items := by
  rw [nesting]

@[simp] theorem nesting_ofFields (fields : List (String × Json)) :
    (ofFields fields).nesting = 1 + nestingOfItems (fields.map Prod.snd) := by
  rw [ofFields, nesting]
  congr 1
  induction fields with
  | nil => rfl
  | cons field rest ih => rw [List.map_cons, nestingOfEntries, ih, List.map_cons, nestingOfItems]

@[simp] theorem nesting_tagged (tag : String) (content : Json) :
    (tagged tag content).nesting = 1 + content.nesting := by
  rw [tagged, nesting_ofFields, List.map_singleton, nestingOfItems, nestingOfItems, Nat.max_zero]

theorem nestingOfItems_le_iff {items : List Json} {room : Nat} :
    nestingOfItems items ≤ room ↔ ∀ item ∈ items, item.nesting ≤ room := by
  induction items with
  | nil => simp [nestingOfItems]
  | cons item rest ih => rw [nestingOfItems, Nat.max_le, ih, List.forall_mem_cons]

@[simp] theorem nesting_ofTexts (texts : List String) : (ofTexts texts).nesting = 1 := by
  have flat : nestingOfItems (texts.map ofText) ≤ 0 := nestingOfItems_le_iff.2 (by simp)
  rw [ofTexts, nesting]
  omega

@[simp] theorem nesting_ofTextEntries (entries : Entries String) :
    (ofTextEntries entries).nesting = 1 := by
  have flat : nestingOfItems ((entries.map fun entry => (entry.1, ofText entry.2)).map Prod.snd)
      ≤ 0 := by
    rw [nestingOfItems_le_iff, List.map_map]
    intro item member
    obtain ⟨entry, _, rfl⟩ := List.mem_map.1 member
    exact Nat.le_refl 0
  rw [ofTextEntries, nesting_ofFields]
  omega

/-! ## No numbers are written -/

@[simp] theorem numberFree_ofText (text : String) : (ofText text).NumberFree :=
  .string

@[simp] theorem numberFree_array {items : List Json} :
    (array items).NumberFree ↔ ∀ item ∈ items, item.NumberFree := by
  constructor
  · intro free
    cases free with
    | array each => exact each
  · exact .array

@[simp] theorem numberFree_ofFields {fields : List (String × Json)} :
    (ofFields fields).NumberFree ↔ ∀ field ∈ fields, field.2.NumberFree := by
  constructor
  · intro free
    rw [ofFields] at free
    cases free with
    | object each => exact fun field member => each _ (List.mem_map_of_mem member)
  · exact fun each => .object (List.forall_mem_map.2 each)

@[simp] theorem numberFree_tagged {tag : String} {content : Json} :
    (tagged tag content).NumberFree ↔ content.NumberFree := by
  rw [tagged, numberFree_ofFields, List.forall_mem_singleton]

@[simp] theorem numberFree_ofTexts (texts : List String) : (ofTexts texts).NumberFree := by
  simp [ofTexts]

@[simp] theorem numberFree_ofTextEntries (entries : Entries String) :
    (ofTextEntries entries).NumberFree := by
  rw [ofTextEntries, numberFree_ofFields, List.forall_mem_map]
  exact fun _ _ => .string

/-! ## Lists -/

theorem texts?_ofTexts (texts : List String) : (ofTexts texts).texts? = some texts := by
  rw [ofTexts, texts?]
  induction texts with
  | nil => rfl
  | cons text rest ih =>
      rw [List.map_cons, List.mapM_cons, ih]
      rfl

theorem textEntries?_ofTextEntries (entries : Entries String) :
    (ofTextEntries entries).textEntries? = some entries := by
  rw [ofTextEntries, ofFields, textEntries?]
  induction entries with
  | nil => rfl
  | cons entry rest ih =>
      rw [List.map_cons, List.map_cons, List.mapM_cons, ih]
      rfl

theorem mapM_readsBack {read : Nat → Json → Option α} {write : α → Json} {items : List α}
    (each : ∀ item ∈ items, ReadsBack read (write item) item) (room : Nat) :
    (items.map write).mapM (read room) =
      if nestingOfItems (items.map write) ≤ room then some items else none := by
  induction items with
  | nil => simp [nestingOfItems]
  | cons item rest ih =>
      obtain ⟨first, others⟩ := List.forall_mem_cons.1 each
      rw [List.map_cons, List.mapM_cons, first room, ih others]
      change Option.bind _ (fun item => Option.bind _ fun rest => some (item :: rest)) = _
      rw [bind_ite_none, bind_ite_none, ← ite_and, nestingOfItems]
      exact if_congr (by omega) rfl rfl

end Json

open Json (ReadsBack readsBack_of_layers mapM_readsBack bind_ite_none)

/-! ## Predicates -/

theorem ComparisonOperator.readsBack (operator : ComparisonOperator) :
    ReadsBack ofJson? operator.toJson operator := by
  intro room
  cases operator <;> exact (if_pos (Nat.zero_le room)).symm

theorem Comparison.readsBack (comparison : Comparison) :
    ReadsBack ofJson? comparison.toJson comparison := by
  refine readsBack_of_layers 1 0 rfl ?_ ?_
  · intro room short
    interval_cases room
    rfl
  · intro room
    change (ComparisonOperator.ofJson? room comparison.operator.toJson).bind _ = _
    rw [comparison.operator.readsBack, bind_ite_none]
    rfl

namespace Predicate

theorem toJsonAll_eq_map (predicates : List Predicate) :
    toJsonAll predicates = predicates.map toJson := by
  induction predicates with
  | nil => rfl
  | cons predicate rest ih => rw [toJsonAll, ih, List.map_cons]

@[simp] theorem nesting_equality (varname expected : String) :
    (equality varname expected).toJson.nesting = 2 :=
  rfl

@[simp] theorem nesting_membership (varname : String) (values : OrderedSet) :
    (membership varname values).toJson.nesting = 3 := by
  simp [toJson, Json.nestingOfItems]

@[simp] theorem nesting_named (name : String) : (named name).toJson.nesting = 1 :=
  rfl

@[simp] theorem nesting_otherwise : otherwise.toJson.nesting = 0 :=
  rfl

@[simp] theorem nesting_combined (members : List Predicate) :
    (combined members).toJson.nesting = 2 + Json.nestingOfItems (members.map toJson) := by
  rw [toJson, toJsonAll_eq_map, Json.nesting_tagged, Json.nesting_array, ← Nat.add_assoc]

@[simp] theorem nesting_function (name : String) (arguments : List String) :
    (function name arguments).toJson.nesting = 3 := by
  simp [toJson, Json.nestingOfItems]

@[simp] theorem nesting_comparison (test : Comparison) :
    (comparison test).toJson.nesting = 2 :=
  rfl

theorem readsBack (predicate : Predicate) : ReadsBack ofJson? predicate.toJson predicate := by
  induction predicate using memberInduction with
  | combined members ih =>
      refine readsBack_of_layers 2 _ (nesting_combined members) ?_ ?_
      · intro room short
        interval_cases room <;> rfl
      · intro room
        change ((toJsonAll members).mapM (ofJson? room)).bind (fun members => some _) = _
        rw [toJsonAll_eq_map, mapM_readsBack ih, bind_ite_none]
  | other predicate single =>
      cases predicate with
      | combined members => exact absurd rfl (single members)
      | equality varname expected =>
          refine readsBack_of_layers 2 0 rfl ?_ fun _ => rfl
          intro room short
          interval_cases room <;> rfl
      | membership varname values =>
          refine readsBack_of_layers 3 0 (nesting_membership varname values) ?_ ?_
          · intro room short
            interval_cases room <;> rfl
          · intro room
            change (Json.ofTexts values.items).texts?.bind (fun values => some _) = _
            rw [Json.texts?_ofTexts, Option.bind_some, values.ofList_items]
            rfl
      | named name =>
          refine readsBack_of_layers 1 0 rfl ?_ fun _ => rfl
          intro room short
          interval_cases room
          rfl
      | otherwise =>
          intro room
          cases room <;> rfl
      | function name arguments =>
          refine readsBack_of_layers 3 0 (nesting_function name arguments) ?_ ?_
          · intro room short
            interval_cases room <;> rfl
          · intro room
            change (Json.ofTexts arguments).texts?.bind (fun arguments => some _) = _
            rw [Json.texts?_ofTexts]
            rfl
      | comparison test =>
          refine readsBack_of_layers 1 test.toJson.nesting rfl ?_ ?_
          · intro room short
            interval_cases room
            rfl
          · intro room
            change (Comparison.ofJson? room test.toJson).bind (fun test => some _) = _
            rw [test.readsBack, bind_ite_none]

theorem numberFree_toJson (predicate : Predicate) : predicate.toJson.NumberFree := by
  induction predicate using memberInduction with
  | combined members ih =>
      rw [toJson, toJsonAll_eq_map]
      simpa using ih
  | other predicate single =>
      cases predicate with
      | combined members => exact absurd rfl (single members)
      | _ => simp [toJson, Comparison.toJson, ComparisonOperator.toJson]

end Predicate

/-! ## Routing rules -/

namespace RoutingRule

/-- Routing rules by their children: a nested rule is met after the rules below it. -/
theorem memberInduction {motive : RoutingRule → Prop}
    (direct : ∀ predicate outcome, motive (.direct predicate outcome))
    (nested : ∀ (predicate : Predicate) (children : List RoutingRule),
      (∀ child ∈ children, motive child) → motive (.nested predicate children))
    (rule : RoutingRule) : motive rule := by
  refine @RoutingRule.rec motive (fun rules => ∀ rule ∈ rules, motive rule)
    direct nested (by simp) ?_ rule
  intro head rest headHeld restHeld rule member
  rcases List.mem_cons.1 member with rfl | later
  · exact headHeld
  · exact restHeld rule later

theorem toJsonAll_eq_map (rules : List RoutingRule) : toJsonAll rules = rules.map toJson := by
  induction rules with
  | nil => rfl
  | cons rule rest ih => rw [toJsonAll, ih, List.map_cons]

@[simp] theorem nesting_direct (predicate : Predicate) (outcome : String) :
    (direct predicate outcome).toJson.nesting = 2 + predicate.toJson.nesting := by
  simp [toJson, Json.nestingOfItems, ← Nat.add_assoc]

@[simp] theorem nesting_nested (predicate : Predicate) (children : List RoutingRule) :
    (nested predicate children).toJson.nesting =
      2 + max predicate.toJson.nesting (1 + Json.nestingOfItems (children.map toJson)) := by
  simp [toJson, toJsonAll_eq_map, Json.nestingOfItems, ← Nat.add_assoc]

theorem readsBack (rule : RoutingRule) : ReadsBack ofJson? rule.toJson rule := by
  induction rule using memberInduction with
  | direct predicate outcome =>
      refine readsBack_of_layers 2 _ (nesting_direct predicate outcome) ?_ ?_
      · intro room short
        interval_cases room <;> rfl
      · intro room
        change (Predicate.ofJson? room predicate.toJson).bind (fun predicate => some _) = _
        rw [predicate.readsBack, bind_ite_none]
  | nested predicate children ih =>
      refine readsBack_of_layers 3 (max (predicate.toJson.nesting - 1)
        (Json.nestingOfItems (children.map toJson))) ?_ ?_ ?_
      · rw [nesting_nested]
        omega
      · intro room short
        interval_cases room <;> rfl
      · intro room
        change (Predicate.ofJson? (room + 1) predicate.toJson).bind (fun predicate =>
          ((toJsonAll children).mapM (ofJson? room)).bind fun children => some _) = _
        rw [predicate.readsBack, toJsonAll_eq_map, mapM_readsBack ih, bind_ite_none,
          bind_ite_none, ← ite_and]
        exact if_congr (by omega) rfl rfl

theorem numberFree_toJson (rule : RoutingRule) : rule.toJson.NumberFree := by
  induction rule using memberInduction with
  | direct predicate outcome => simp [toJson, predicate.numberFree_toJson]
  | nested predicate children ih =>
      simpa [toJson, toJsonAll_eq_map, predicate.numberFree_toJson] using ih

end RoutingRule

/-! ## Content -/

namespace Question

@[simp] theorem nesting_multipleChoice (identifier : String) (options : OrderedMap String) :
    (multipleChoice identifier options).toJson.nesting = 3 := by
  simp [toJson, Json.nestingOfItems]

@[simp] theorem nesting_date (identifier : String) : (date identifier).toJson.nesting = 2 :=
  rfl

@[simp] theorem nesting_salary (identifier : String) : (salary identifier).toJson.nesting = 2 :=
  rfl

@[simp] theorem nesting_text (identifier : String) : (text identifier).toJson.nesting = 2 :=
  rfl

theorem readsBack (question : Question) : ReadsBack ofJson? question.toJson question := by
  cases question with
  | multipleChoice identifier options =>
      refine readsBack_of_layers 3 0 (nesting_multipleChoice identifier options) ?_ ?_
      · intro room short
        interval_cases room <;> rfl
      · intro room
        change (Json.ofTextEntries options.entries).textEntries?.bind (fun options => some _) = _
        rw [Json.textEntries?_ofTextEntries, Option.bind_some, options.ofList_entries]
        rfl
  | date identifier =>
      refine readsBack_of_layers 2 0 rfl ?_ ?_
      · intro room short
        interval_cases room <;> rfl
      · intro room
        cases room <;> rfl
  | salary identifier =>
      refine readsBack_of_layers 2 0 rfl ?_ ?_
      · intro room short
        interval_cases room <;> rfl
      · intro room
        cases room <;> rfl
  | text identifier =>
      refine readsBack_of_layers 2 0 rfl ?_ ?_
      · intro room short
        interval_cases room <;> rfl
      · intro room
        cases room <;> rfl

theorem numberFree_toJson (question : Question) : question.toJson.NumberFree := by
  cases question with
  | _ => simp [toJson]

end Question

namespace Element

/-- Content by its branches: a conditional is met after the content of both. -/
theorem memberInduction {motive : Element → Prop}
    (conditional : ∀ (guard : Predicate) (whenTrue whenFalse : List Element),
      (∀ element ∈ whenTrue, motive element) → (∀ element ∈ whenFalse, motive element) →
      motive (.conditional guard whenTrue whenFalse))
    (other : ∀ element : Element,
      (∀ guard whenTrue whenFalse, element ≠ .conditional guard whenTrue whenFalse) →
      motive element)
    (element : Element) : motive element := by
  refine @Element.rec motive (fun elements => ∀ element ∈ elements, motive element)
    ?_ ?_ ?_ ?_ conditional ?_ ?_ (by simp) ?_ element
  case refine_7 =>
    intro head rest headHeld restHeld element member
    rcases List.mem_cons.1 member with rfl | later
    · exact headHeld
    · exact restHeld element later
  all_goals
    intros
    exact other _ nofun

theorem toJsonAll_eq_map (elements : List Element) : toJsonAll elements = elements.map toJson := by
  induction elements with
  | nil => rfl
  | cons element rest ih => rw [toJsonAll, ih, List.map_cons]

@[simp] theorem nesting_heading (text : String) : (heading text).toJson.nesting = 1 :=
  rfl

@[simp] theorem nesting_paragraph (text : String) : (paragraph text).toJson.nesting = 1 :=
  rfl

@[simp] theorem nesting_startButton (target : String) : (startButton target).toJson.nesting = 1 :=
  rfl

@[simp] theorem nesting_nextSteps (text : String) : (nextSteps text).toJson.nesting = 1 :=
  rfl

@[simp] theorem nesting_conditional (guard : Predicate) (whenTrue whenFalse : List Element) :
    (conditional guard whenTrue whenFalse).toJson.nesting =
      2 + max guard.toJson.nesting (1 + max (Json.nestingOfItems (whenTrue.map toJson))
        (Json.nestingOfItems (whenFalse.map toJson))) := by
  simp only [toJson, toJsonAll_eq_map, Json.nesting_tagged, Json.nesting_ofFields,
    Json.nesting_array, List.map_cons, List.map_nil, Json.nestingOfItems]
  omega

@[simp] theorem nesting_question (prompt : Question) :
    (question prompt).toJson.nesting = 1 + prompt.toJson.nesting := by
  rw [toJson, Json.nesting_tagged]

@[simp] theorem nesting_routing (rules : List RoutingRule) :
    (routing rules).toJson.nesting =
      3 + Json.nestingOfItems (rules.map RoutingRule.toJson) := by
  simp [toJson, RoutingRule.toJsonAll_eq_map, Json.nestingOfItems, ← Nat.add_assoc]

theorem readsBack (element : Element) : ReadsBack ofJson? element.toJson element := by
  induction element using memberInduction with
  | conditional guard whenTrue whenFalse ihTrue ihFalse =>
      refine readsBack_of_layers 3 (max (guard.toJson.nesting - 1)
        (max (Json.nestingOfItems (whenTrue.map toJson))
          (Json.nestingOfItems (whenFalse.map toJson)))) ?_ ?_ ?_
      · rw [nesting_conditional]
        omega
      · intro room short
        interval_cases room <;> rfl
      · intro room
        change (Predicate.ofJson? (room + 1) guard.toJson).bind (fun guard =>
          ((toJsonAll whenTrue).mapM (ofJson? room)).bind fun whenTrue =>
            ((toJsonAll whenFalse).mapM (ofJson? room)).bind fun whenFalse => some _) = _
        rw [guard.readsBack, toJsonAll_eq_map, toJsonAll_eq_map, mapM_readsBack ihTrue,
          mapM_readsBack ihFalse, bind_ite_none, bind_ite_none, bind_ite_none, ← ite_and,
          ← ite_and]
        exact if_congr (by omega) rfl rfl
  | other element single =>
      cases element with
      | conditional guard whenTrue whenFalse => exact absurd rfl (single guard whenTrue whenFalse)
      | heading text =>
          refine readsBack_of_layers 1 0 rfl ?_ fun _ => rfl
          intro room short
          interval_cases room
          rfl
      | paragraph text =>
          refine readsBack_of_layers 1 0 rfl ?_ fun _ => rfl
          intro room short
          interval_cases room
          rfl
      | startButton target =>
          refine readsBack_of_layers 1 0 rfl ?_ fun _ => rfl
          intro room short
          interval_cases room
          rfl
      | nextSteps text =>
          refine readsBack_of_layers 1 0 rfl ?_ fun _ => rfl
          intro room short
          interval_cases room
          rfl
      | question prompt =>
          refine readsBack_of_layers 1 _ (nesting_question prompt) ?_ ?_
          · intro room short
            interval_cases room
            rfl
          · intro room
            change (Question.ofJson? room prompt.toJson).map question = _
            rw [prompt.readsBack]
            split <;> rfl
      | routing rules =>
          refine readsBack_of_layers 3 _ (nesting_routing rules) ?_ ?_
          · intro room short
            interval_cases room <;> rfl
          · intro room
            change ((RoutingRule.toJsonAll rules).mapM (RoutingRule.ofJson? room)).bind
              (fun rules => some _) = _
            rw [RoutingRule.toJsonAll_eq_map, mapM_readsBack fun rule _ => rule.readsBack,
              bind_ite_none]

theorem numberFree_toJson (element : Element) : element.toJson.NumberFree := by
  induction element using memberInduction with
  | conditional guard whenTrue whenFalse ihTrue ihFalse =>
      simpa [toJson, toJsonAll_eq_map, guard.numberFree_toJson] using ⟨ihTrue, ihFalse⟩
  | other element single =>
      cases element with
      | conditional guard whenTrue whenFalse => exact absurd rfl (single guard whenTrue whenFalse)
      | question prompt => simp [toJson, prompt.numberFree_toJson]
      | routing rules =>
          simp [toJson, RoutingRule.toJsonAll_eq_map, RoutingRule.numberFree_toJson]
      | _ => simp [toJson]

end Element

/-! ## Nodes -/

@[simp] theorem FrontMatter.nesting_toJson (frontMatter : FrontMatter) :
    frontMatter.toJson.nesting = 2 := by
  simp [toJson, Json.nestingOfItems]

theorem FrontMatter.readsBack (frontMatter : FrontMatter) :
    ReadsBack ofJson? frontMatter.toJson frontMatter := by
  refine readsBack_of_layers 2 0 frontMatter.nesting_toJson ?_ ?_
  · intro room short
    interval_cases room <;> rfl
  · intro room
    change (Json.ofTextEntries frontMatter.attributes.entries).textEntries?.bind
      (fun attributes => some _) = _
    rw [Json.textEntries?_ofTextEntries, Option.bind_some, ofList,
      frontMatter.attributes.ofList_entries]
    rfl

namespace Node

theorem nesting_toJson (node : Node) : node.toJson.nesting =
    2 + max (Json.nestingOfItems (node.body.map Element.toJson)) 1 := by
  simp only [toJson, Element.toJsonAll_eq_map, Json.nesting_ofFields, Json.nesting_array,
    Json.nesting_ofText, FrontMatter.nesting_toJson, List.map_cons, List.map_nil,
    Json.nestingOfItems]
  omega

theorem readsBack (node : Node) : ReadsBack ofJson? node.toJson node := by
  refine readsBack_of_layers 2 _ node.nesting_toJson ?_ ?_
  · intro room short
    interval_cases room <;> rfl
  · intro room
    change ((Element.toJsonAll node.body).mapM (Element.ofJson? room)).bind (fun body =>
      (FrontMatter.ofJson? (room + 1) node.frontMatter.toJson).bind fun frontMatter => some _) = _
    rw [Element.toJsonAll_eq_map, mapM_readsBack fun element _ => element.readsBack,
      node.frontMatter.readsBack, bind_ite_none, bind_ite_none, ← ite_and,
      FrontMatter.nesting_toJson]
    exact if_congr (by omega) rfl rfl

theorem numberFree_toJson (node : Node) : node.toJson.NumberFree := by
  simp [toJson, Element.toJsonAll_eq_map, Element.numberFree_toJson, FrontMatter.toJson]

/-- The pretty text of a node is read back as that node, unless it is nested too deep. -/
theorem ofJsonText?_pretty (node : Node) : ofJsonText? node.toJson.pretty =
    if node.toJson.nesting ≤ Json.nestingLimit then some node else none := by
  rw [ofJsonText?, node.numberFree_toJson.ofText?_pretty, Option.bind_some, node.readsBack]

end Node

end InterviewFlow
