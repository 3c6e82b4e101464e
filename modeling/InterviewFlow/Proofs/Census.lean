import InterviewFlow.Node
import InterviewFlow.Tree
import Mathlib.Data.List.Perm.Basic

/-! Marks. A mark is the tag of an object with the text it holds. The marks of a tree
are those of its groups with a single tag, the marks of a node those of its content,
its routing entries and its predicates; both sides are counted by them. -/

set_option autoImplicit false

namespace InterviewFlow

/-! ## Objects by their tags -/

namespace Element

def tag : Element → String
  | .heading _ => "h1"
  | .paragraph _ => "p"
  | .startButton _ => "start_button"
  | .nextSteps _ => "next_steps"
  | .conditional _ _ _ => "conditional"
  | .question (.multipleChoice _ _) => "multiple_choice"
  | .question (.date _) => "date"
  | .question (.salary _) => "salary"
  | .question (.text _) => "text"
  | .routing _ => "next_node_rules"

def tags : List String :=
  ["h1", "p", "start_button", "next_steps", "conditional", "multiple_choice", "date", "salary",
    "text", "next_node_rules"]

def paragraph? : Element → Option String
  | .paragraph text => some text
  | _ => none

def startButton? : Element → Option String
  | .startButton target => some target
  | _ => none

/-- The entries of the routing tree an element carries, nested ones included. -/
def routingEntries : Element → List RoutingRule
  | .routing rules => RoutingRule.preorderOfAll rules
  | _ => []

end Element

namespace RoutingRule

def tag : RoutingRule → String
  | .direct _ _ => "rule"
  | .nested _ _ => "nested_rule"

def tags : List String :=
  ["rule", "nested_rule"]

end RoutingRule

namespace Predicate

def tag : Predicate → String
  | .equality _ _ => "equality_predicate"
  | .membership _ _ => "set_membership_predicate"
  | .named _ => "named_predicate"
  | .otherwise => "otherwise_predicate"
  | .combined _ => "combined_predicate"
  | .function _ _ => "function_predicate"
  | .comparison _ => "comparison_predicate"

def tags : List String :=
  ["equality_predicate", "set_membership_predicate", "named_predicate", "otherwise_predicate",
    "combined_predicate", "function_predicate", "comparison_predicate"]

/-- The name a predicate itself refers to. -/
def name? : Predicate → Option String
  | .named name => some name
  | _ => none

mutual

/-- A predicate followed by everything it combines, depth first. -/
def parts : Predicate → List Predicate
  | .combined members => .combined members :: partsOfAll members
  | .equality varname expected => [.equality varname expected]
  | .membership varname values => [.membership varname values]
  | .named name => [.named name]
  | .otherwise => [.otherwise]
  | .function name arguments => [.function name arguments]
  | .comparison test => [.comparison test]

def partsOfAll : List Predicate → List Predicate
  | [] => []
  | predicate :: rest => predicate.parts ++ partsOfAll rest

end

theorem partsOfAll_eq_flatMap (predicates : List Predicate) :
    partsOfAll predicates = predicates.flatMap parts := by
  induction predicates with
  | nil => rfl
  | cons predicate rest ih => simp [partsOfAll, ih]

/-- Predicates by their members: a conjunction is met after what it combines. -/
theorem memberInduction {motive : Predicate → Prop}
    (combined : ∀ members : List Predicate,
      (∀ member ∈ members, motive member) → motive (.combined members))
    (other : ∀ predicate : Predicate, (∀ members, predicate ≠ .combined members) →
      motive predicate)
    (predicate : Predicate) : motive predicate := by
  refine @Predicate.rec motive (fun members => ∀ member ∈ members, motive member)
    ?_ ?_ ?_ ?_ combined ?_ ?_ (by simp) ?_ predicate
  case refine_7 =>
    intro head rest headHeld restHeld member inside
    rcases List.mem_cons.1 inside with rfl | later
    · exact headHeld
    · exact restHeld member later
  all_goals
    intros
    exact other _ nofun

theorem references_eq (predicate : Predicate) :
    predicate.references = predicate.parts.filterMap name? := by
  induction predicate using memberInduction with
  | combined members ih =>
      rw [references, referencesOfAll_eq_flatMap, parts, partsOfAll_eq_flatMap,
        List.filterMap_cons_none rfl, List.filterMap_flatMap]
      exact List.flatMap_congr ih
  | other predicate single =>
      cases predicate with
      | combined members => exact absurd rfl (single members)
      | named name => rfl
      | equality varname expected => rfl
      | membership varname values => rfl
      | otherwise => rfl
      | function name arguments => rfl
      | comparison test => rfl

end Predicate

namespace Node

def routingEntries (node : Node) : List RoutingRule :=
  node.elements.flatMap Element.routingEntries

/-- The predicates of a node, each with everything it combines. -/
def predicateParts (node : Node) : List Predicate :=
  node.predicates.flatMap Predicate.parts

end Node

namespace Tree

mutual

/-- A tree followed by everything below it, depth first. -/
def subtrees : Tree → List Tree
  | .leaf text => [.leaf text]
  | .sequence items => .sequence items :: subtreesOfItems items
  | .group entries => .group entries :: subtreesOfEntries entries

def subtreesOfItems : List Tree → List Tree
  | [] => []
  | item :: rest => item.subtrees ++ subtreesOfItems rest

def subtreesOfEntries : List (String × Tree) → List Tree
  | [] => []
  | (_, tree) :: rest => tree.subtrees ++ subtreesOfEntries rest

end

theorem subtreesOfItems_eq_flatMap (items : List Tree) :
    subtreesOfItems items = items.flatMap subtrees := by
  induction items with
  | nil => rfl
  | cons item rest ih => simp [subtreesOfItems, ih]

theorem subtreesOfEntries_eq_flatMap (entries : List (String × Tree)) :
    subtreesOfEntries entries = entries.flatMap fun entry => entry.2.subtrees := by
  induction entries with
  | nil => rfl
  | cons entry rest ih => simp [subtreesOfEntries, ih]

/-- The text of a leaf, bare or wrapped. -/
def text? : Tree → Option String
  | .leaf text => some text
  | .group [(tag, inner)] =>
      if tag = "set_value" ∨ tag = "function_argument" then inner.text? else none
  | _ => none

/-- The text of the outcome among the entries of a rule. -/
def outcome? : Tree → Option String
  | .group entries => (Entries.get? "outcome" entries).bind text?
  | _ => none

/-- Whether the tree is a group whose only tag is the given one. -/
def hasOnlyTag (tag : String) : Tree → Bool
  | .group [(name, _)] => name = tag
  | _ => false

/-- The text an object holds under its tag: for a rule its outcome, else the text itself. -/
def heldText? (tag : String) (inner : Tree) : Option String :=
  if tag = "rule" then inner.outcome? else inner.text?

def textUnder? (tag : String) : Tree → Option String
  | .group [(name, inner)] => if name = tag then heldText? tag inner else none
  | _ => none

/-- The number of groups anywhere in the tree whose only tag is the given one. -/
def countTagged (tag : String) (tree : Tree) : Nat :=
  tree.subtrees.countP (hasOnlyTag tag)

def textsTagged (tag : String) (tree : Tree) : List String :=
  tree.subtrees.filterMap (textUnder? tag)

end Tree

/-! ## Marks -/

/-- The tag of an object, with its text where it holds one. -/
structure Mark where
  tag : String
  text : Option String
deriving DecidableEq

namespace Mark

def tags : List String :=
  Element.tags ++ RoutingRule.tags ++ Predicate.tags

/-- The tags of objects that hold a text under their tag. -/
def textTags : List String :=
  ["h1", "p", "start_button", "rule", "named_predicate"]

def textAt (tag : String) (mark : Mark) : Option String :=
  if mark.tag = tag then mark.text else none

theorem filterMap_textAt_eq_nil {α : Type} (mark : α → Mark) {tags : List String}
    (within : ∀ item, (mark item).tag ∈ tags) {tag : String} (outside : tag ∉ tags)
    (items : List α) : items.filterMap (fun item => (mark item).textAt tag) = [] := by
  rw [List.filterMap_eq_nil_iff]
  intro item _
  rw [textAt, if_neg]
  rintro rfl
  exact outside (within item)

end Mark

namespace Predicate

def mark (predicate : Predicate) : Mark :=
  ⟨predicate.tag, predicate.name?⟩

def census (predicate : Predicate) : List Mark :=
  predicate.parts.map mark

theorem census_combined (members : List Predicate) :
    (combined members).census = (combined members).mark :: members.flatMap census := by
  rw [census, parts, partsOfAll_eq_flatMap, List.map_cons, List.map_flatMap]
  rfl

end Predicate

namespace RoutingRule

def mark (rule : RoutingRule) : Mark :=
  ⟨rule.tag, rule.outcome?⟩

def census (rule : RoutingRule) : List Mark :=
  rule.preorder.flatMap fun entry => entry.mark :: entry.predicate.census

theorem census_direct (guard : Predicate) (outcome : String) :
    (direct guard outcome).census = (direct guard outcome).mark :: guard.census := by
  rw [census, preorder, List.flatMap_singleton]
  rfl

theorem census_nested (guard : Predicate) (children : List RoutingRule) :
    (nested guard children).census =
      (nested guard children).mark :: (guard.census ++ children.flatMap census) := by
  rw [census, preorder, preorderOfAll_eq_flatMap, List.flatMap_cons, List.flatMap_assoc]
  rfl

end RoutingRule

namespace Element

def mark (element : Element) : Mark :=
  ⟨element.tag, (element.heading?.or element.paragraph?).or element.startButton?⟩

/-- The marks of what an element itself carries: its guard, or its routing tree. -/
def ownCensus : Element → List Mark
  | .conditional guard _ _ => guard.census
  | .routing rules => rules.flatMap RoutingRule.census
  | _ => []

def census (element : Element) : List Mark :=
  element.preorder.flatMap fun part => part.mark :: part.ownCensus

theorem census_routing (rules : List RoutingRule) :
    (routing rules).census = (routing rules).mark :: rules.flatMap RoutingRule.census := by
  rw [census, preorder, List.flatMap_singleton]
  rfl

theorem census_conditional (guard : Predicate) (whenTrue whenFalse : List Element) :
    (conditional guard whenTrue whenFalse).census =
      (conditional guard whenTrue whenFalse).mark ::
        (guard.census ++ (whenTrue.flatMap census ++ whenFalse.flatMap census)) := by
  rw [census, preorder, preorderOfAll_eq_flatMap, preorderOfAll_eq_flatMap, List.flatMap_cons,
    List.flatMap_append, List.flatMap_assoc, List.flatMap_assoc]
  rfl

end Element

namespace Tree

/-- The mark of a group whose only tag is that of an object. -/
def mark? : Tree → Option Mark
  | .group [(tag, inner)] =>
      -- A wrapped text, a part of an object and front matter also have a single tag.
      if tag ∈ Mark.tags then
        some ⟨tag, if tag ∈ Mark.textTags then heldText? tag inner else none⟩
      else none
  | _ => none

def census (tree : Tree) : List Mark :=
  tree.subtrees.filterMap mark?

theorem census_sequence (items : List Tree) :
    (sequence items).census = items.flatMap census := by
  rw [census, subtrees, subtreesOfItems_eq_flatMap, List.filterMap_cons_none rfl,
    List.filterMap_flatMap]
  rfl

theorem census_group (entries : List (String × Tree)) :
    (group entries).census =
      (group entries).mark?.toList ++ entries.flatMap fun entry => entry.2.census := by
  have below : (subtreesOfEntries entries).filterMap mark? =
      entries.flatMap fun entry => entry.2.census := by
    rw [subtreesOfEntries_eq_flatMap, List.filterMap_flatMap]
    rfl
  rw [census, subtrees, List.filterMap_cons, below]
  cases (group entries).mark? <;> rfl

theorem census_tagged {tag : String} {inner : Tree} (object : tag ∈ Mark.tags) :
    (group [(tag, inner)]).census =
      ⟨tag, if tag ∈ Mark.textTags then heldText? tag inner else none⟩ :: inner.census := by
  rw [census_group]
  simp [mark?, object]

theorem census_untagged {tag : String} {inner : Tree} (other : tag ∉ Mark.tags) :
    (group [(tag, inner)]).census = inner.census := by
  rw [census_group]
  simp [mark?, other]

theorem mark?_eq_none {entries : List (String × Tree)} (several : entries.length ≠ 1) :
    (group entries).mark? = none := by
  rcases entries with _ | ⟨_, _ | ⟨_, _⟩⟩
  · rfl
  · exact absurd rfl several
  · rfl

/-- A group of several tags has no mark of its own. -/
theorem census_perm {entries listed : List (String × Tree)} (order : entries.Perm listed)
    (several : listed.length ≠ 1) :
    (group entries).census.Perm (listed.flatMap fun entry => entry.2.census) := by
  rw [census_group, mark?_eq_none (order.length_eq ▸ several)]
  exact order.flatMap_right _

end Tree

def Node.census (node : Node) : List Mark :=
  node.body.flatMap Element.census

/-! ## Counting marks -/

/-- What an element carries, by sort: its routing entries, then its predicates. -/
theorem Element.ownCensus_perm (element : Element) :
    element.ownCensus.Perm (element.routingEntries.map RoutingRule.mark ++
      element.ownPredicates.flatMap Predicate.census) := by
  cases element with
  | routing rules =>
      have marks : rules.flatMap RoutingRule.census =
          (RoutingRule.preorderOfAll rules).flatMap fun rule =>
            rule.mark :: rule.predicate.census := by
        rw [RoutingRule.preorderOfAll_eq_flatMap, List.flatMap_assoc]
        rfl
      rw [ownCensus, marks, routingEntries, ownPredicates, RoutingRule.predicates,
        List.flatMap_map]
      exact (List.map_append_flatMap_perm _ _ _).symm
  | conditional guard whenTrue whenFalse =>
      simp [ownCensus, routingEntries, ownPredicates]
  | heading text => exact .refl _
  | paragraph text => exact .refl _
  | startButton target => exact .refl _
  | nextSteps text => exact .refl _
  | question prompt => exact .refl _

theorem Node.census_perm_sorts (node : Node) :
    node.census.Perm (node.elements.map Element.mark ++
      (node.routingEntries.map RoutingRule.mark ++ node.predicateParts.map Predicate.mark)) := by
  have byElement : node.census =
      node.elements.flatMap fun element => element.mark :: element.ownCensus := by
    rw [census, elements, Element.preorderOfAll_eq_flatMap, List.flatMap_assoc]
    rfl
  have entryMarks : node.routingEntries.map RoutingRule.mark =
      node.elements.flatMap fun element => element.routingEntries.map RoutingRule.mark := by
    rw [routingEntries, List.map_flatMap]
  have partMarks : node.predicateParts.map Predicate.mark =
      node.elements.flatMap fun element => element.ownPredicates.flatMap Predicate.census := by
    rw [predicateParts, predicates, List.map_flatMap, List.flatMap_assoc]
    rfl
  rw [byElement, entryMarks, partMarks]
  refine (List.map_append_flatMap_perm _ _ _).symm.trans (List.Perm.append_left _ ?_)
  refine (List.Perm.flatMap_left _ fun element _ => element.ownCensus_perm).trans ?_
  exact (List.flatMap_append_perm _ _ _).symm

namespace Tree

/-- The groups with the tag of an object are counted by their marks. -/
theorem countTagged_eq {tag : String} (object : tag ∈ Mark.tags) (tree : Tree) :
    tree.countTagged tag = tree.census.countP fun mark => mark.tag = tag := by
  have counted : ∀ subtree : Tree, subtree.hasOnlyTag tag =
      (subtree.mark?.map fun mark => decide (mark.tag = tag)).getD false := by
    intro subtree
    rcases subtree with _ | _ | (_ | ⟨⟨name, inner⟩, _ | _⟩)
    case group.cons.nil =>
      by_cases same : name = tag
      · simp [hasOnlyTag, mark?, same, object]
      · by_cases other : name ∈ Mark.tags <;> simp [hasOnlyTag, mark?, same, other]
    all_goals rfl
  rw [countTagged, census, List.countP_filterMap]
  congr 1
  funext subtree
  exact counted subtree

theorem textsTagged_eq {tag : String} (holder : tag ∈ Mark.textTags) (tree : Tree) :
    tree.textsTagged tag =
      tree.census.filterMap (Mark.textAt tag) := by
  have object : tag ∈ Mark.tags :=
    (by decide : ∀ tag ∈ Mark.textTags, tag ∈ Mark.tags) tag holder
  have held : ∀ subtree : Tree, subtree.textUnder? tag =
      subtree.mark?.bind (Mark.textAt tag) := by
    intro subtree
    rcases subtree with _ | _ | (_ | ⟨⟨name, inner⟩, _ | _⟩)
    case group.cons.nil =>
      by_cases same : name = tag
      · simp [textUnder?, mark?, Mark.textAt, same, object, holder]
      · by_cases other : name ∈ Mark.tags <;>
          simp [textUnder?, mark?, Mark.textAt, same, other]
    all_goals rfl
  rw [textsTagged, census, List.filterMap_filterMap]
  congr 1
  funext subtree
  exact held subtree

end Tree

theorem countP_tag_eq_zero {α : Type} {tagOf : α → String} {tags : List String}
    (within : ∀ item, tagOf item ∈ tags) {tag : String} (outside : tag ∉ tags) (items : List α) :
    items.countP (fun item => tagOf item = tag) = 0 := by
  rw [List.countP_eq_zero]
  intro item _ same
  exact outside (of_decide_eq_true same ▸ within item)

theorem Element.tag_mem (element : Element) : element.tag ∈ Element.tags := by
  rcases element with _ | _ | _ | _ | _ | (_ | _ | _ | _) | _ <;> simp [tag, tags]

theorem RoutingRule.tag_mem (rule : RoutingRule) : rule.tag ∈ RoutingRule.tags := by
  cases rule <;> simp [tag, tags]

theorem Predicate.tag_mem (predicate : Predicate) : predicate.tag ∈ Predicate.tags := by
  cases predicate <;> simp [tag, tags]

namespace Node

theorem countP_census (node : Node) (tag : String) :
    node.census.countP (fun mark => mark.tag = tag) =
      node.elements.countP (fun element => element.tag = tag) +
        (node.routingEntries.countP (fun rule => rule.tag = tag) +
          node.predicateParts.countP (fun predicate => predicate.tag = tag)) := by
  rw [node.census_perm_sorts.countP_eq, List.countP_append, List.countP_append, List.countP_map,
    List.countP_map, List.countP_map]
  rfl

theorem filterMap_census (node : Node) (select : Mark → Option String) :
    (node.census.filterMap select).Perm
      (node.elements.filterMap (fun element => select element.mark) ++
        (node.routingEntries.filterMap (fun rule => select rule.mark) ++
          node.predicateParts.filterMap (fun predicate => select predicate.mark))) := by
  have sorts := node.census_perm_sorts.filterMap select
  rwa [List.filterMap_append, List.filterMap_append, List.filterMap_map, List.filterMap_map,
    List.filterMap_map] at sorts

end Node

theorem Node.countP_elements {node : Node} {tag : String} (element : tag ∈ Element.tags) :
    node.census.countP (fun mark => mark.tag = tag) =
      node.elements.countP fun element => element.tag = tag := by
  have apart : ∀ tag ∈ Element.tags, tag ∉ RoutingRule.tags ∧ tag ∉ Predicate.tags := by decide
  rw [countP_census, countP_tag_eq_zero RoutingRule.tag_mem (apart tag element).1,
    countP_tag_eq_zero Predicate.tag_mem (apart tag element).2]
  simp

theorem Node.countP_routingEntries {node : Node} {tag : String} (rule : tag ∈ RoutingRule.tags) :
    node.census.countP (fun mark => mark.tag = tag) =
      node.routingEntries.countP fun rule => rule.tag = tag := by
  have apart : ∀ tag ∈ RoutingRule.tags, tag ∉ Element.tags ∧ tag ∉ Predicate.tags := by decide
  rw [countP_census, countP_tag_eq_zero Element.tag_mem (apart tag rule).1,
    countP_tag_eq_zero Predicate.tag_mem (apart tag rule).2]
  simp

theorem Node.countP_predicateParts {node : Node} {tag : String} (part : tag ∈ Predicate.tags) :
    node.census.countP (fun mark => mark.tag = tag) =
      node.predicateParts.countP fun predicate => predicate.tag = tag := by
  have apart : ∀ tag ∈ Predicate.tags, tag ∉ Element.tags ∧ tag ∉ RoutingRule.tags := by decide
  rw [countP_census, countP_tag_eq_zero Element.tag_mem (apart tag part).1,
    countP_tag_eq_zero RoutingRule.tag_mem (apart tag part).2]
  simp

theorem Element.textAt_mark (element : Element) :
    element.mark.textAt "h1" = element.heading? ∧
      element.mark.textAt "p" = element.paragraph? ∧
      element.mark.textAt "start_button" = element.startButton? := by
  cases element with
  | question prompt => cases prompt <;> exact ⟨rfl, rfl, rfl⟩
  | _ => exact ⟨rfl, rfl, rfl⟩

theorem Node.texts_elements {node : Node} {tag : String} {text? : Element → Option String}
    (own : ∀ element : Element, element.mark.textAt tag = text? element)
    (apart : tag ∉ RoutingRule.tags ∧ tag ∉ Predicate.tags) :
    (node.census.filterMap (Mark.textAt tag)).Perm (node.elements.filterMap text?) := by
  have texts := node.filterMap_census (Mark.textAt tag)
  rw [Mark.filterMap_textAt_eq_nil RoutingRule.mark RoutingRule.tag_mem apart.1,
    Mark.filterMap_textAt_eq_nil Predicate.mark Predicate.tag_mem apart.2,
    List.append_nil, List.append_nil, funext own] at texts
  exact texts

theorem Node.texts_routingEntries {node : Node} :
    (node.census.filterMap (Mark.textAt "rule")).Perm
      (node.routingEntries.filterMap RoutingRule.outcome?) := by
  have texts := node.filterMap_census (Mark.textAt "rule")
  have own : ∀ rule : RoutingRule, rule.mark.textAt "rule" = rule.outcome? := by
    intro rule
    cases rule <;> rfl
  have outside : "rule" ∉ Element.tags ∧ "rule" ∉ Predicate.tags := by decide
  rw [Mark.filterMap_textAt_eq_nil Element.mark Element.tag_mem outside.1,
    Mark.filterMap_textAt_eq_nil Predicate.mark Predicate.tag_mem outside.2,
    List.nil_append, List.append_nil, funext own] at texts
  exact texts

theorem Node.texts_predicates {node : Node} :
    (node.census.filterMap (Mark.textAt "named_predicate")).Perm
      (node.predicates.flatMap Predicate.references) := by
  have texts := node.filterMap_census (Mark.textAt "named_predicate")
  have own : ∀ predicate : Predicate,
      predicate.mark.textAt "named_predicate" = predicate.name? := by
    intro predicate
    cases predicate <;> rfl
  have outside : "named_predicate" ∉ Element.tags ∧ "named_predicate" ∉ RoutingRule.tags := by
    decide
  have named : node.predicateParts.filterMap Predicate.name? =
      node.predicates.flatMap Predicate.references := by
    rw [predicateParts, List.filterMap_flatMap, ← funext Predicate.references_eq]
  rw [Mark.filterMap_textAt_eq_nil Element.mark Element.tag_mem outside.1,
    Mark.filterMap_textAt_eq_nil RoutingRule.mark RoutingRule.tag_mem outside.2,
    List.nil_append, List.nil_append, funext own, named] at texts
  exact texts

end InterviewFlow
