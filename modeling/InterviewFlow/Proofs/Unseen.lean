import InterviewFlow.Proofs.Evaluation
import InterviewFlow.Proofs.Grammar

/-! Changes to a document that no production sees. Two trees in a relation that keeps leaves,
sequences item by item and groups tag by tag, in whatever order, denote the same objects;
and where a list is read, one tree may be put for another that lists the same items. -/

set_option autoImplicit false

namespace InterviewFlow

namespace Tree

/-- The tags over lists. -/
def listTags : List String :=
  ["front_matter", "body", "options", "true_case", "false_case", "values", "and_predicates",
    "arguments", "child_rules", "next_node_rules"]

/-- Every list of items that the first tree denotes, the second one denotes as well. Items of
documents are leaves or groups. -/
def ListsInto (tree other : Tree) : Prop :=
  ∀ {α : Type} {Item : Tree → α → Prop}, (∀ trees item, ¬ Item (.sequence trees) item) →
    ∀ {items : List α}, DenotesList Item tree items → DenotesList Item other items

variable {Same : Tree → Tree → Prop}

/-- The trees are alike, or they stand under a tag over lists and list the same items. -/
def AlikeUnder (Same : Tree → Tree → Prop) (tag : String) (tree other : Tree) : Prop :=
  Same tree other ∨ tag ∈ listTags ∧ tree.ListsInto other

theorem AlikeUnder.same {tag : String} {tree other : Tree} (alike : AlikeUnder Same tag tree other)
    (plain : tag ∉ listTags) : Same tree other :=
  alike.resolve_right fun listed => plain listed.1

/-- The entries have the same tags in the same order over trees that are alike there. -/
def AlikeEntries (Same : Tree → Tree → Prop) (entries others : List (String × Tree)) : Prop :=
  List.Forall₂ (fun entry other => entry.1 = other.1 ∧ AlikeUnder Same entry.1 entry.2 other.2)
    entries others

theorem AlikeEntries.cons_inv {tag : String} {tree : Tree} {rest others : List (String × Tree)}
    (alike : AlikeEntries Same ((tag, tree) :: rest) others) :
    ∃ tree' rest', others = (tag, tree') :: rest' ∧ AlikeUnder Same tag tree tree' ∧
      AlikeEntries Same rest rest' := by
  obtain ⟨⟨_, tree'⟩, rest', ⟨rfl, here⟩, below, rfl⟩ := List.forall₂_cons_left_iff.1 alike
  exact ⟨tree', rest', rfl, here, below⟩

/-- A relation between documents that differ in nothing a production sees. -/
structure Unseen (Same : Tree → Tree → Prop) : Prop where
  symm : ∀ {tree other}, Same tree other → Same other tree
  leaf_inv : ∀ {text other}, Same (.leaf text) other → other = .leaf text
  sequence_inv : ∀ {items other}, Same (.sequence items) other →
    ∃ others, other = .sequence others ∧ List.Forall₂ Same items others
  group_inv : ∀ {entries other}, Same (.group entries) other → ∃ others, other = .group others ∧
    ∀ listed, entries.Perm listed → ∃ relisted, others.Perm relisted ∧
      AlikeEntries Same listed relisted

variable (unseen : Unseen Same)

include unseen

/-! ## Groups of one, two and three tags -/

theorem Unseen.tagged_inv {tag : String} {inner other : Tree}
    (same : Same (.group [(tag, inner)]) other) :
    ∃ inner', other = .group [(tag, inner')] ∧ AlikeUnder Same tag inner inner' := by
  obtain ⟨others, rfl, lists⟩ := unseen.group_inv same
  obtain ⟨relisted, reorder, alike⟩ := lists _ (.refl _)
  obtain ⟨inner', _, rfl, innerAlike, alike⟩ := alike.cons_inv
  cases alike
  cases List.perm_singleton.1 reorder
  exact ⟨inner', rfl, innerAlike⟩

theorem Unseen.pair_inv {entries : List (String × Tree)} {other : Tree}
    {tag tag' : String} {first second : Tree} (same : Same (.group entries) other)
    (order : entries.Perm [(tag, first), (tag', second)]) :
    ∃ others first' second', other = .group others ∧
      others.Perm [(tag, first'), (tag', second')] ∧
      AlikeUnder Same tag first first' ∧ AlikeUnder Same tag' second second' := by
  obtain ⟨others, rfl, lists⟩ := unseen.group_inv same
  obtain ⟨relisted, reorder, alike⟩ := lists _ order
  obtain ⟨first', _, rfl, firstAlike, alike⟩ := alike.cons_inv
  obtain ⟨second', _, rfl, secondAlike, alike⟩ := alike.cons_inv
  cases alike
  exact ⟨others, first', second', rfl, reorder, firstAlike, secondAlike⟩

theorem Unseen.triple_inv {entries : List (String × Tree)} {other : Tree}
    {tag tag' tag'' : String} {first second third : Tree}
    (same : Same (.group entries) other)
    (order : entries.Perm [(tag, first), (tag', second), (tag'', third)]) :
    ∃ others first' second' third', other = .group others ∧
      others.Perm [(tag, first'), (tag', second'), (tag'', third')] ∧
      AlikeUnder Same tag first first' ∧ AlikeUnder Same tag' second second' ∧
      AlikeUnder Same tag'' third third' := by
  obtain ⟨others, rfl, lists⟩ := unseen.group_inv same
  obtain ⟨relisted, reorder, alike⟩ := lists _ order
  obtain ⟨first', _, rfl, firstAlike, alike⟩ := alike.cons_inv
  obtain ⟨second', _, rfl, secondAlike, alike⟩ := alike.cons_inv
  obtain ⟨third', _, rfl, thirdAlike, alike⟩ := alike.cons_inv
  cases alike
  exact ⟨others, first', second', third', rfl, reorder, firstAlike, secondAlike, thirdAlike⟩

/-! ## What alike trees denote -/

theorem DenotesText.carried {tree other : Tree} {text : String}
    (denotes : tree.DenotesText text) (same : Same tree other) : other.DenotesText text := by
  induction denotes generalizing other with
  | leaf =>
      cases unseen.leaf_inv same
      exact .leaf
  | setValue _ ih =>
      obtain ⟨inner', rfl, alike⟩ := unseen.tagged_inv same
      exact .setValue (ih (alike.same (by decide)))
  | functionArgument _ ih =>
      obtain ⟨inner', rfl, alike⟩ := unseen.tagged_inv same
      exact .functionArgument (ih (alike.same (by decide)))

theorem DenotesList.carried {α : Type} {Item : Tree → α → Prop} {tree other : Tree}
    {items : List α} (denotes : DenotesList Item tree items) {tag : String}
    (alike : AlikeUnder Same tag tree other) (refuses : ∀ trees item, ¬ Item (.sequence trees) item)
    (each : ∀ inner : Tree, inner.depth ≤ tree.depth → ∀ {item : α} {inner' : Tree},
      Item inner item → Same inner inner' → Item inner' item) :
    DenotesList Item other items := by
  rcases alike with same | ⟨_, lists⟩
  · cases denotes with
    | empty text => exact .empty (text.carried unseen same)
    | single full item =>
        apply DenotesList.single _ (each tree (Nat.le_refl _) item same)
        intro text
        exact full (text.carried unseen (unseen.symm same))
    | @sequence trees _ related =>
        obtain ⟨others, rfl, sameItems⟩ := unseen.sequence_inv same
        have carried : List.Forall₂ (fun inner item => ∀ inner', Same inner inner' →
            Item inner' item) trees items := by
          apply forall₂_imp_of_mem related
          intro inner member item denoted inner'
          exact each inner (Nat.le_of_lt (depth_lt_of_item member)) denoted
        clear related each same
        apply DenotesList.sequence
        induction sameItems generalizing items with
        | nil =>
            cases carried
            exact .nil
        | cons head _ ih =>
            cases carried with
            | cons first others => exact .cons (first _ head) (ih others)
  · exact lists refuses denotes

theorem DenotesText.carried_list {tree other : Tree} {texts : List String}
    (denotes : DenotesList DenotesText tree texts) {tag : String}
    (alike : AlikeUnder Same tag tree other) : DenotesList DenotesText other texts :=
  denotes.carried unseen alike (fun _ _ => nofun) fun _ _ _ _ => DenotesText.carried unseen

theorem DenotesPair.carried {tree other : Tree} {pair : String × String}
    (denotes : tree.DenotesPair pair) (same : Same tree other) : other.DenotesPair pair := by
  cases denotes with
  | frontMatterAttribute order name value =>
      obtain ⟨_, _, _, rfl, reorder, nameAlike, valueAlike⟩ := unseen.pair_inv same order
      exact .frontMatterAttribute reorder (name.carried unseen (nameAlike.same (by decide)))
        (value.carried unseen (valueAlike.same (by decide)))
  | choiceOption order value label =>
      obtain ⟨_, _, _, rfl, reorder, valueAlike, labelAlike⟩ := unseen.pair_inv same order
      exact .choiceOption reorder (value.carried unseen (valueAlike.same (by decide)))
        (label.carried unseen (labelAlike.same (by decide)))
  | link order url label =>
      obtain ⟨_, _, _, rfl, reorder, urlAlike, labelAlike⟩ := unseen.pair_inv same order
      exact .link reorder (url.carried unseen (urlAlike.same (by decide)))
        (label.carried unseen (labelAlike.same (by decide)))

theorem DenotesPair.carried_list {tree other : Tree} {pairs : List (String × String)}
    (denotes : DenotesList DenotesPair tree pairs) {tag : String}
    (alike : AlikeUnder Same tag tree other) : DenotesList DenotesPair other pairs :=
  denotes.carried unseen alike (fun _ _ => nofun) fun _ _ _ _ => DenotesPair.carried unseen

theorem DenotesPredicate.carried {tree other : Tree} {predicate : Predicate}
    (denotes : tree.DenotesPredicate predicate) (same : Same tree other) :
    other.DenotesPredicate predicate := by
  -- On the depth, since members of a conjunction stand below its tag.
  induction tree using smallerInduction generalizing predicate other with
  | step tree ih =>
      cases denotes with
      | equality order varname expected =>
          obtain ⟨_, rfl, inside⟩ := unseen.tagged_inv same
          obtain ⟨_, _, _, rfl, reorder, varnameAlike, expectedAlike⟩ :=
            unseen.pair_inv (inside.same (by decide)) order
          exact .equality reorder (varname.carried unseen (varnameAlike.same (by decide)))
            (expected.carried unseen (expectedAlike.same (by decide)))
      | membership order varname values collected =>
          obtain ⟨_, rfl, inside⟩ := unseen.tagged_inv same
          obtain ⟨_, _, _, rfl, reorder, varnameAlike, valuesAlike⟩ :=
            unseen.pair_inv (inside.same (by decide)) order
          exact .membership reorder (varname.carried unseen (varnameAlike.same (by decide)))
            (DenotesText.carried_list unseen values valuesAlike) collected
      | named name =>
          obtain ⟨_, rfl, inside⟩ := unseen.tagged_inv same
          exact .named (name.carried unseen (inside.same (by decide)))
      | otherwise text =>
          obtain ⟨_, rfl, inside⟩ := unseen.tagged_inv same
          exact .otherwise (text.carried unseen (inside.same (by decide)))
      | combined order first others =>
          obtain ⟨_, rfl, inside⟩ := unseen.tagged_inv same
          obtain ⟨_, _, _, rfl, reorder, firstAlike, othersAlike⟩ :=
            unseen.pair_inv (inside.same (by decide)) order
          have firstDenotes := ih _ (depth_lt_of_listed order (.head _)) first
            (firstAlike.same (by decide))
          have othersDenote := others.carried unseen othersAlike (fun _ _ => nofun)
            fun inner within =>
              ih inner (Nat.lt_of_le_of_lt within (depth_lt_of_listed order (.tail _ (.head _))))
          exact .combined reorder firstDenotes othersDenote
      | application order name arguments =>
          obtain ⟨_, rfl, inside⟩ := unseen.tagged_inv same
          obtain ⟨_, _, _, rfl, reorder, nameAlike, argumentsAlike⟩ :=
            unseen.pair_inv (inside.same (by decide)) order
          exact .application reorder (name.carried unseen (nameAlike.same (by decide)))
            (DenotesText.carried_list unseen arguments argumentsAlike)
      | bareFunction name =>
          obtain ⟨_, rfl, inside⟩ := unseen.tagged_inv same
          obtain ⟨_, rfl, below⟩ := unseen.tagged_inv (inside.same (by decide))
          exact .bareFunction (name.carried unseen (below.same (by decide)))
      | comparison order varname value symbol =>
          obtain ⟨_, rfl, inside⟩ := unseen.tagged_inv same
          obtain ⟨_, _, _, _, rfl, reorder, varnameAlike, valueAlike, symbolAlike⟩ :=
            unseen.triple_inv (inside.same (by decide)) order
          exact .comparison reorder (varname.carried unseen (varnameAlike.same (by decide)))
            (value.carried unseen (valueAlike.same (by decide)))
            (symbol.carried unseen (symbolAlike.same (by decide)))

theorem DenotesRule.carried {tree other : Tree} {rule : RoutingRule}
    (denotes : tree.DenotesRule rule) (same : Same tree other) : other.DenotesRule rule := by
  induction tree using smallerInduction generalizing rule other with
  | step tree ih =>
      cases denotes with
      | direct order guard outcome =>
          obtain ⟨_, rfl, inside⟩ := unseen.tagged_inv same
          obtain ⟨_, _, _, rfl, reorder, guardAlike, outcomeAlike⟩ :=
            unseen.pair_inv (inside.same (by decide)) order
          exact .direct reorder (guard.carried unseen (guardAlike.same (by decide)))
            (outcome.carried unseen (outcomeAlike.same (by decide)))
      | nested order guard children =>
          obtain ⟨_, rfl, inside⟩ := unseen.tagged_inv same
          obtain ⟨_, _, _, rfl, reorder, guardAlike, childrenAlike⟩ :=
            unseen.pair_inv (inside.same (by decide)) order
          have childrenDenote := children.carried unseen childrenAlike (fun _ _ => nofun)
            fun inner within =>
              ih inner (Nat.lt_of_le_of_lt within (depth_lt_of_listed order (.tail _ (.head _))))
          exact .nested reorder (guard.carried unseen (guardAlike.same (by decide))) childrenDenote

theorem DenotesRule.carried_list {tree other : Tree} {rules : List RoutingRule}
    (denotes : DenotesList DenotesRule tree rules) {tag : String}
    (alike : AlikeUnder Same tag tree other) : DenotesList DenotesRule other rules :=
  denotes.carried unseen alike (fun _ _ => nofun) fun _ _ _ _ => DenotesRule.carried unseen

theorem DenotesElement.carried {tree other : Tree} {element : Element}
    (denotes : tree.DenotesElement element) (same : Same tree other) :
    other.DenotesElement element := by
  induction tree using smallerInduction generalizing element other with
  | step tree ih =>
      cases denotes with
      | heading text =>
          obtain ⟨_, rfl, inside⟩ := unseen.tagged_inv same
          exact .heading (text.carried unseen (inside.same (by decide)))
      | paragraph text =>
          obtain ⟨_, rfl, inside⟩ := unseen.tagged_inv same
          exact .paragraph (text.carried unseen (inside.same (by decide)))
      | startButton target =>
          obtain ⟨_, rfl, inside⟩ := unseen.tagged_inv same
          exact .startButton (target.carried unseen (inside.same (by decide)))
      | nextSteps text =>
          obtain ⟨_, rfl, inside⟩ := unseen.tagged_inv same
          obtain ⟨_, rfl, below⟩ := unseen.tagged_inv (inside.same (by decide))
          exact .nextSteps (text.carried unseen (below.same (by decide)))
      | multipleChoice order identifier options collected =>
          obtain ⟨_, rfl, inside⟩ := unseen.tagged_inv same
          obtain ⟨_, _, _, rfl, reorder, identifierAlike, optionsAlike⟩ :=
            unseen.pair_inv (inside.same (by decide)) order
          exact .multipleChoice reorder
            (identifier.carried unseen (identifierAlike.same (by decide)))
            (DenotesPair.carried_list unseen options optionsAlike) collected
      | date identifier =>
          obtain ⟨_, rfl, inside⟩ := unseen.tagged_inv same
          obtain ⟨_, rfl, below⟩ := unseen.tagged_inv (inside.same (by decide))
          exact .date (identifier.carried unseen (below.same (by decide)))
      | salary identifier =>
          obtain ⟨_, rfl, inside⟩ := unseen.tagged_inv same
          obtain ⟨_, rfl, below⟩ := unseen.tagged_inv (inside.same (by decide))
          exact .salary (identifier.carried unseen (below.same (by decide)))
      | text identifier =>
          obtain ⟨_, rfl, inside⟩ := unseen.tagged_inv same
          obtain ⟨_, rfl, below⟩ := unseen.tagged_inv (inside.same (by decide))
          exact .text (identifier.carried unseen (below.same (by decide)))
      | bothCases order guard whenTrue whenFalse =>
          obtain ⟨_, rfl, inside⟩ := unseen.tagged_inv same
          obtain ⟨_, _, _, _, rfl, reorder, guardAlike, trueAlike, falseAlike⟩ :=
            unseen.triple_inv (inside.same (by decide)) order
          have trueDenotes := whenTrue.carried unseen trueAlike (fun _ _ => nofun)
            fun inner within =>
              ih inner (Nat.lt_of_le_of_lt within (depth_lt_of_listed order (.tail _ (.head _))))
          have falseDenotes := whenFalse.carried unseen falseAlike (fun _ _ => nofun)
            fun inner within => ih inner
              (Nat.lt_of_le_of_lt within (depth_lt_of_listed order (.tail _ (.tail _ (.head _)))))
          exact .bothCases reorder (guard.carried unseen (guardAlike.same (by decide)))
            trueDenotes falseDenotes
      | trueCase order guard whenTrue =>
          obtain ⟨_, rfl, inside⟩ := unseen.tagged_inv same
          obtain ⟨_, _, _, rfl, reorder, guardAlike, trueAlike⟩ :=
            unseen.pair_inv (inside.same (by decide)) order
          have trueDenotes := whenTrue.carried unseen trueAlike (fun _ _ => nofun)
            fun inner within =>
              ih inner (Nat.lt_of_le_of_lt within (depth_lt_of_listed order (.tail _ (.head _))))
          exact .trueCase reorder (guard.carried unseen (guardAlike.same (by decide))) trueDenotes
      | noCase guard =>
          obtain ⟨_, rfl, inside⟩ := unseen.tagged_inv same
          obtain ⟨_, rfl, below⟩ := unseen.tagged_inv (inside.same (by decide))
          exact .noCase (guard.carried unseen (below.same (by decide)))
      | routing rules =>
          obtain ⟨_, rfl, alike⟩ := unseen.tagged_inv same
          exact .routing (DenotesRule.carried_list unseen rules alike)

theorem DenotesElement.carried_list {tree other : Tree} {elements : List Element}
    (denotes : DenotesList DenotesElement tree elements) {tag : String}
    (alike : AlikeUnder Same tag tree other) : DenotesList DenotesElement other elements :=
  denotes.carried unseen alike (fun _ _ => nofun) fun _ _ _ _ => DenotesElement.carried unseen

theorem DenotesNode.carried {name : String} {tree other : Tree} {node : Node}
    (denotes : tree.DenotesNode name node) (same : Same tree other) :
    other.DenotesNode name node := by
  cases denotes with
  | whole order attributes collected body =>
      obtain ⟨_, _, _, rfl, reorder, attributesAlike, bodyAlike⟩ := unseen.pair_inv same order
      exact .whole reorder (DenotesPair.carried_list unseen attributes attributesAlike) collected
        (DenotesElement.carried_list unseen body bodyAlike)
  | frontMatter attributes collected =>
      obtain ⟨_, rfl, alike⟩ := unseen.tagged_inv same
      exact .frontMatter (DenotesPair.carried_list unseen attributes alike) collected
  | body body =>
      obtain ⟨_, rfl, alike⟩ := unseen.tagged_inv same
      exact .body (DenotesElement.carried_list unseen body alike)

end Tree

end InterviewFlow
