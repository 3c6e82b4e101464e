import InterviewFlow.Proofs.Collections
import InterviewFlow.Node
import InterviewFlow.Tree
import Mathlib.Data.List.Forall2

/-! The grammar of flow documents, as relations between trees and the objects
they denote. A group has exactly the tags of its production, in any order. A
text may stand where a list is expected: an empty one is the empty list. -/

set_option autoImplicit false

namespace InterviewFlow

namespace Tree

/-- A leaf, bare or wrapped any number of times. -/
inductive DenotesText : Tree → String → Prop where
  | leaf {text : String} : DenotesText (.leaf text) text
  | setValue {inner : Tree} {text : String} :
      DenotesText inner text → DenotesText (.group [("set_value", inner)]) text
  | functionArgument {inner : Tree} {text : String} :
      DenotesText inner text → DenotesText (.group [("function_argument", inner)]) text

/-- An empty text is the empty list, a sequence lists its items, and anything
else is a list of one. -/
inductive DenotesList {α : Type} (Item : Tree → α → Prop) : Tree → List α → Prop where
  | empty {tree : Tree} : DenotesText tree "" → DenotesList Item tree []
  | sequence {trees : List Tree} {items : List α} :
      List.Forall₂ Item trees items → DenotesList Item (.sequence trees) items
  | single {tree : Tree} {item : α} :
      ¬ DenotesText tree "" → Item tree item → DenotesList Item tree [item]

/-- Two texts: an attribute, an option or a link. -/
inductive DenotesPair : Tree → String × String → Prop where
  | frontMatterAttribute {entries : List (String × Tree)} {nameTree valueTree : Tree}
      {name value : String} :
      entries.Perm [("name", nameTree), ("value", valueTree)] →
      DenotesText nameTree name → DenotesText valueTree value →
      DenotesPair (.group entries) (name, value)
  | choiceOption {entries : List (String × Tree)} {valueTree labelTree : Tree}
      {value label : String} :
      entries.Perm [("value", valueTree), ("label", labelTree)] →
      DenotesText valueTree value → DenotesText labelTree label →
      DenotesPair (.group entries) (value, label)
  | link {entries : List (String × Tree)} {urlTree labelTree : Tree} {url label : String} :
      entries.Perm [("url", urlTree), ("label", labelTree)] →
      DenotesText urlTree url → DenotesText labelTree label →
      DenotesPair (.group entries) (url, label)

/-- A condition under the tag of its kind. -/
inductive DenotesPredicate : Tree → Predicate → Prop where
  | equality {entries : List (String × Tree)} {varnameTree expectedTree : Tree}
      {varname expected : String} :
      entries.Perm [("varname", varnameTree), ("expected_value", expectedTree)] →
      DenotesText varnameTree varname → DenotesText expectedTree expected →
      DenotesPredicate (.group [("equality_predicate", .group entries)])
        (.equality varname expected)
  | membership {entries : List (String × Tree)} {varnameTree valuesTree : Tree}
      {varname : String} {texts : List String} {values : OrderedSet} :
      entries.Perm [("varname", varnameTree), ("values", valuesTree)] →
      DenotesText varnameTree varname → DenotesList DenotesText valuesTree texts →
      values.Collects texts →
      DenotesPredicate (.group [("set_membership_predicate", .group entries)])
        (.membership varname values)
  | named {inner : Tree} {name : String} :
      DenotesText inner name → DenotesPredicate (.group [("named_predicate", inner)]) (.named name)
  | otherwise {inner : Tree} {text : String} :
      DenotesText inner text → DenotesPredicate (.group [("otherwise_predicate", inner)]) .otherwise
  | combined {entries : List (String × Tree)} {firstTree othersTree : Tree} {first : Predicate}
      {others : List Predicate} :
      entries.Perm [("first_predicate", firstTree), ("and_predicates", othersTree)] →
      DenotesPredicate firstTree first → DenotesList DenotesPredicate othersTree others →
      DenotesPredicate (.group [("combined_predicate", .group entries)])
        (.combined (first :: others))
  | application {entries : List (String × Tree)} {nameTree argumentsTree : Tree} {name : String}
      {arguments : List String} :
      entries.Perm [("name", nameTree), ("arguments", argumentsTree)] →
      DenotesText nameTree name → DenotesList DenotesText argumentsTree arguments →
      DenotesPredicate (.group [("function_predicate", .group entries)])
        (.function name arguments)
  | bareFunction {nameTree : Tree} {name : String} :
      DenotesText nameTree name →
      DenotesPredicate (.group [("function_predicate", .group [("name", nameTree)])])
        (.function name [])
  | comparison {entries : List (String × Tree)} {varnameTree valueTree operatorTree : Tree}
      {varname value : String} {operator : ComparisonOperator} :
      entries.Perm [("varname", varnameTree), ("value", valueTree), ("operator", operatorTree)] →
      DenotesText varnameTree varname → DenotesText valueTree value →
      DenotesText operatorTree operator.symbol →
      DenotesPredicate (.group [("comparison_predicate", .group entries)])
        (.comparison ⟨operator, varname, value⟩)

/-- An entry of a routing tree, with its target or its children. -/
inductive DenotesRule : Tree → RoutingRule → Prop where
  | direct {entries : List (String × Tree)} {guardTree outcomeTree : Tree} {guard : Predicate}
      {outcome : String} :
      entries.Perm [("predicate", guardTree), ("outcome", outcomeTree)] →
      DenotesPredicate guardTree guard → DenotesText outcomeTree outcome →
      DenotesRule (.group [("rule", .group entries)]) (.direct guard outcome)
  | nested {entries : List (String × Tree)} {guardTree childrenTree : Tree} {guard : Predicate}
      {children : List RoutingRule} :
      entries.Perm [("predicate", guardTree), ("child_rules", childrenTree)] →
      DenotesPredicate guardTree guard → DenotesList DenotesRule childrenTree children →
      DenotesRule (.group [("nested_rule", .group entries)]) (.nested guard children)

/-- A piece of content under the tag of its kind. -/
inductive DenotesElement : Tree → Element → Prop where
  | heading {inner : Tree} {text : String} :
      DenotesText inner text → DenotesElement (.group [("h1", inner)]) (.heading text)
  | paragraph {inner : Tree} {text : String} :
      DenotesText inner text → DenotesElement (.group [("p", inner)]) (.paragraph text)
  | startButton {inner : Tree} {target : String} :
      DenotesText inner target →
      DenotesElement (.group [("start_button", inner)]) (.startButton target)
  | nextSteps {inner : Tree} {text : String} :
      DenotesText inner text →
      DenotesElement (.group [("next_steps", .group [("content", inner)])]) (.nextSteps text)
  | multipleChoice {entries : List (String × Tree)} {identifierTree optionsTree : Tree}
      {identifier : String} {pairs : List (String × String)} {options : OrderedMap String} :
      entries.Perm [("identifier", identifierTree), ("options", optionsTree)] →
      DenotesText identifierTree identifier → DenotesList DenotesPair optionsTree pairs →
      options.Collects pairs →
      DenotesElement (.group [("multiple_choice", .group entries)])
        (.question (.multipleChoice identifier options))
  | date {inner : Tree} {identifier : String} :
      DenotesText inner identifier →
      DenotesElement (.group [("date", .group [("identifier", inner)])])
        (.question (.date identifier))
  | salary {inner : Tree} {identifier : String} :
      DenotesText inner identifier →
      DenotesElement (.group [("salary", .group [("identifier", inner)])])
        (.question (.salary identifier))
  | text {inner : Tree} {identifier : String} :
      DenotesText inner identifier →
      DenotesElement (.group [("text", .group [("identifier", inner)])])
        (.question (.text identifier))
  | bothCases {entries : List (String × Tree)} {guardTree trueTree falseTree : Tree}
      {guard : Predicate} {whenTrue whenFalse : List Element} :
      entries.Perm [("predicate", guardTree), ("true_case", trueTree),
        ("false_case", falseTree)] →
      DenotesPredicate guardTree guard → DenotesList DenotesElement trueTree whenTrue →
      DenotesList DenotesElement falseTree whenFalse →
      DenotesElement (.group [("conditional", .group entries)])
        (.conditional guard whenTrue whenFalse)
  | trueCase {entries : List (String × Tree)} {guardTree trueTree : Tree} {guard : Predicate}
      {whenTrue : List Element} :
      entries.Perm [("predicate", guardTree), ("true_case", trueTree)] →
      DenotesPredicate guardTree guard → DenotesList DenotesElement trueTree whenTrue →
      DenotesElement (.group [("conditional", .group entries)]) (.conditional guard whenTrue [])
  | noCase {guardTree : Tree} {guard : Predicate} :
      DenotesPredicate guardTree guard →
      DenotesElement (.group [("conditional", .group [("predicate", guardTree)])])
        (.conditional guard [] [])
  | routing {inner : Tree} {rules : List RoutingRule} :
      DenotesList DenotesRule inner rules →
      DenotesElement (.group [("next_node_rules", inner)]) (.routing rules)

/-- A document: front matter, a body, or both. -/
inductive DenotesNode (name : String) : Tree → Node → Prop where
  | whole {entries : List (String × Tree)} {attributesTree bodyTree : Tree}
      {pairs : List (String × String)} {attributes : SortedMap String} {body : List Element} :
      entries.Perm [("front_matter", attributesTree), ("body", bodyTree)] →
      DenotesList DenotesPair attributesTree pairs → attributes.Collects pairs →
      DenotesList DenotesElement bodyTree body →
      DenotesNode name (.group entries) ⟨name, body, ⟨attributes⟩⟩
  | frontMatter {attributesTree : Tree} {pairs : List (String × String)}
      {attributes : SortedMap String} :
      DenotesList DenotesPair attributesTree pairs → attributes.Collects pairs →
      DenotesNode name (.group [("front_matter", attributesTree)]) ⟨name, [], ⟨attributes⟩⟩
  | body {bodyTree : Tree} {body : List Element} :
      DenotesList DenotesElement bodyTree body →
      DenotesNode name (.group [("body", bodyTree)]) ⟨name, body, .empty⟩

/-! ## Induction over the depth of a tree -/

theorem smallerInduction {motive : Tree → Prop}
    (step : ∀ tree, (∀ inner : Tree, inner.depth < tree.depth → motive inner) → motive tree)
    (tree : Tree) : motive tree :=
  (measure depth).wf.induction tree step

theorem depth_lt_of_item {inner : Tree} {items : List Tree} (member : inner ∈ items) :
    inner.depth < (sequence items).depth := by
  have below : inner.depth ≤ depthOfItems items := depth_le_depthOfItems member
  rw [depth]
  omega

theorem depth_lt_of_entry {tag : String} {inner : Tree} {entries : List (String × Tree)}
    (member : (tag, inner) ∈ entries) : inner.depth < (group entries).depth := by
  have below : inner.depth ≤ depthOfEntries entries := depth_le_depthOfEntries member
  rw [depth]
  omega

theorem depth_lt_tagged {tag : String} {inner : Tree} :
    inner.depth < (group [(tag, inner)]).depth :=
  depth_lt_of_entry (List.mem_singleton_self _)

/-- A tree that a production lists below its own tag is smaller than the whole. -/
theorem depth_lt_of_listed {outer tag : String} {inner : Tree}
    {entries listed : List (String × Tree)} (order : entries.Perm listed)
    (member : (tag, inner) ∈ listed) :
    inner.depth < (group [(outer, group entries)]).depth :=
  Nat.lt_trans (depth_lt_of_entry (order.mem_iff.2 member)) depth_lt_tagged

theorem forall₂_imp_of_mem {α : Type} {Item Other : Tree → α → Prop} {trees : List Tree}
    {items : List α} (related : List.Forall₂ Item trees items)
    (each : ∀ tree ∈ trees, ∀ item, Item tree item → Other tree item) :
    List.Forall₂ Other trees items := by
  induction related with
  | nil => exact .nil
  | cons head _ ih =>
      refine .cons (each _ (by simp) _ head) (ih ?_)
      intro tree member
      exact each tree (by simp [member])

/-- The items of a list are at most as deep as the list. -/
theorem DenotesList.imp {α : Type} {Item Other : Tree → α → Prop} {tree : Tree} {items : List α}
    (denotes : DenotesList Item tree items)
    (each : ∀ inner : Tree, inner.depth ≤ tree.depth → ∀ item, Item inner item → Other inner item) :
    DenotesList Other tree items := by
  cases denotes with
  | empty text => exact .empty text
  | single full item => exact .single full (each _ (Nat.le_refl _) _ item)
  | sequence related =>
      apply DenotesList.sequence
      apply forall₂_imp_of_mem related
      intro inner member
      exact each inner (Nat.le_of_lt (depth_lt_of_item member))

theorem DenotesList.imp_smaller {α : Type} {Item Other : Tree → α → Prop} {tree whole : Tree}
    {items : List α} (denotes : DenotesList Item tree items) (smaller : tree.depth < whole.depth)
    (each : ∀ inner : Tree, inner.depth < whole.depth → ∀ item, Item inner item →
      Other inner item) : DenotesList Other tree items :=
  denotes.imp fun inner within => each inner (Nat.lt_of_le_of_lt within smaller)

end Tree

end InterviewFlow
