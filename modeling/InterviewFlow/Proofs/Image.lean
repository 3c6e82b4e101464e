import InterviewFlow.Proofs.Acceptance

/-! The nodes that documents are compiled to. A node is well formed when no
conjunction in it is empty, and each well-formed node is written as a document that
denotes it: lists as sequences, so that an empty text among them stays an item. -/

set_option autoImplicit false

namespace InterviewFlow

/-! ## Well-formed nodes -/

/-- No conjunction in the predicate is empty. -/
inductive Predicate.WellFormed : Predicate → Prop where
  | equality {varname expected : String} : WellFormed (.equality varname expected)
  | membership {varname : String} {values : OrderedSet} : WellFormed (.membership varname values)
  | named {name : String} : WellFormed (.named name)
  | otherwise : WellFormed .otherwise
  | combined {members : List Predicate} :
      members ≠ [] → (∀ member ∈ members, WellFormed member) → WellFormed (.combined members)
  | function {name : String} {arguments : List String} : WellFormed (.function name arguments)
  | comparison {test : Comparison} : WellFormed (.comparison test)

/-- No conjunction in a guard of the entry, or below it, is empty. -/
inductive RoutingRule.WellFormed : RoutingRule → Prop where
  | direct {guard : Predicate} {outcome : String} :
      guard.WellFormed → WellFormed (.direct guard outcome)
  | nested {guard : Predicate} {children : List RoutingRule} :
      guard.WellFormed → (∀ child ∈ children, WellFormed child) →
      WellFormed (.nested guard children)

inductive Element.WellFormed : Element → Prop where
  | heading {text : String} : WellFormed (.heading text)
  | paragraph {text : String} : WellFormed (.paragraph text)
  | startButton {target : String} : WellFormed (.startButton target)
  | nextSteps {text : String} : WellFormed (.nextSteps text)
  | conditional {guard : Predicate} {whenTrue whenFalse : List Element} :
      guard.WellFormed → (∀ element ∈ whenTrue, WellFormed element) →
      (∀ element ∈ whenFalse, WellFormed element) →
      WellFormed (.conditional guard whenTrue whenFalse)
  | question {prompt : Question} : WellFormed (.question prompt)
  | routing {rules : List RoutingRule} :
      (∀ rule ∈ rules, rule.WellFormed) → WellFormed (.routing rules)

def Node.WellFormed (node : Node) : Prop :=
  ∀ element ∈ node.body, element.WellFormed

namespace Tree

/-! ## What documents denote is well formed -/

theorem DenotesList.forall_mem {α : Type} {Holds : α → Prop} {tree : Tree} {items : List α}
    (denotes : DenotesList (fun _ item => Holds item) tree items) :
    ∀ item ∈ items, Holds item := by
  cases denotes with
  | empty _ => simp
  | single _ held => simpa using held
  | sequence related =>
      induction related with
      | nil => simp
      | cons head _ ih => exact List.forall_mem_cons.2 ⟨head, ih⟩

theorem DenotesPredicate.wellFormed {tree : Tree} {predicate : Predicate}
    (denotes : tree.DenotesPredicate predicate) : predicate.WellFormed := by
  induction tree using smallerInduction generalizing predicate with
  | step tree ih =>
      cases denotes with
      | equality _ _ _ => exact .equality
      | membership _ _ _ _ => exact .membership
      | named _ => exact .named
      | otherwise _ => exact .otherwise
      | combined order first others =>
          have firstFormed := ih _ (depth_lt_of_listed order (.head _)) first
          have othersFormed :=
            (others.imp_smaller (depth_lt_of_listed order (.tail _ (.head _)))
              fun inner smaller _ => ih inner smaller).forall_mem
          exact .combined (List.cons_ne_nil _ _)
            (List.forall_mem_cons.2 ⟨firstFormed, othersFormed⟩)
      | application _ _ _ => exact .function
      | bareFunction _ => exact .function
      | comparison _ _ _ _ => exact .comparison

theorem DenotesRule.wellFormed {tree : Tree} {rule : RoutingRule}
    (denotes : tree.DenotesRule rule) : rule.WellFormed := by
  induction tree using smallerInduction generalizing rule with
  | step tree ih =>
      cases denotes with
      | direct _ guard _ => exact .direct guard.wellFormed
      | nested order guard children =>
          have childrenFormed :=
            (children.imp_smaller (depth_lt_of_listed order (.tail _ (.head _)))
              fun inner smaller _ => ih inner smaller).forall_mem
          exact .nested guard.wellFormed childrenFormed

theorem DenotesElement.wellFormed {tree : Tree} {element : Element}
    (denotes : tree.DenotesElement element) : element.WellFormed := by
  induction tree using smallerInduction generalizing element with
  | step tree ih =>
      cases denotes with
      | heading _ => exact .heading
      | paragraph _ => exact .paragraph
      | startButton _ => exact .startButton
      | nextSteps _ => exact .nextSteps
      | multipleChoice _ _ _ _ => exact .question
      | date _ => exact .question
      | salary _ => exact .question
      | text _ => exact .question
      | bothCases order guard whenTrue whenFalse =>
          have trueFormed :=
            (whenTrue.imp_smaller (depth_lt_of_listed order (.tail _ (.head _)))
              fun inner smaller _ => ih inner smaller).forall_mem
          have falseFormed :=
            (whenFalse.imp_smaller (depth_lt_of_listed order (.tail _ (.tail _ (.head _))))
              fun inner smaller _ => ih inner smaller).forall_mem
          exact .conditional guard.wellFormed trueFormed falseFormed
      | trueCase order guard whenTrue =>
          have trueFormed :=
            (whenTrue.imp_smaller (depth_lt_of_listed order (.tail _ (.head _)))
              fun inner smaller _ => ih inner smaller).forall_mem
          exact .conditional guard.wellFormed trueFormed (by simp)
      | noCase guard => exact .conditional guard.wellFormed (by simp) (by simp)
      | routing rules =>
          exact .routing (rules.imp fun _ _ _ => DenotesRule.wellFormed).forall_mem

theorem DenotesNode.wellFormed {name : String} {tree : Tree} {node : Node}
    (denotes : tree.DenotesNode name node) : node.name = name ∧ node.WellFormed := by
  cases denotes with
  | whole _ _ _ body => exact ⟨rfl, (body.imp fun _ _ _ => DenotesElement.wellFormed).forall_mem⟩
  | frontMatter _ _ => exact ⟨rfl, by simp [Node.WellFormed]⟩
  | body body => exact ⟨rfl, (body.imp fun _ _ _ => DenotesElement.wellFormed).forall_mem⟩

/-! ## Tags in documents -/

theorem DistinctTags.of_perm {entries listed : List (String × Tree)}
    (order : entries.Perm listed) (apart : (listed.map Prod.fst).Nodup)
    (below : ∀ entry ∈ listed, entry.2.DistinctTags) : (Tree.group entries).DistinctTags :=
  .group ((order.map Prod.fst).nodup_iff.2 apart) fun entry member =>
    below entry (order.mem_iff.1 member)

theorem DistinctTags.tagged {tag : String} {inner : Tree} (below : inner.DistinctTags) :
    (Tree.group [(tag, inner)]).DistinctTags :=
  .of_perm (.refl _) (List.nodup_singleton _) (by simpa using below)

theorem DenotesText.distinctTags {tree : Tree} {text : String} (denotes : tree.DenotesText text) :
    tree.DistinctTags := by
  induction denotes with
  | leaf => exact .leaf
  | setValue _ ih => exact ih.tagged
  | functionArgument _ ih => exact ih.tagged

theorem DenotesList.distinctTags {α : Type} {tree : Tree} {items : List α}
    (denotes : DenotesList (fun inner _ => inner.DistinctTags) tree items) :
    tree.DistinctTags := by
  cases denotes with
  | empty text => exact text.distinctTags
  | single _ distinct => exact distinct
  | sequence related =>
      apply DistinctTags.sequence
      intro item member
      obtain ⟨_, _, distinct⟩ := exists_of_forall₂ related member
      exact distinct

theorem distinctTags_texts {tree : Tree} {texts : List String}
    (denotes : DenotesList DenotesText tree texts) : tree.DistinctTags :=
  (denotes.imp fun _ _ _ => DenotesText.distinctTags).distinctTags

theorem DenotesPair.distinctTags {tree : Tree} {pair : String × String}
    (denotes : tree.DenotesPair pair) : tree.DistinctTags := by
  cases denotes with
  | frontMatterAttribute order name value =>
      exact .of_perm order (by simp) (by simp [name.distinctTags, value.distinctTags])
  | choiceOption order value label =>
      exact .of_perm order (by simp) (by simp [value.distinctTags, label.distinctTags])
  | link order url label =>
      exact .of_perm order (by simp) (by simp [url.distinctTags, label.distinctTags])

theorem distinctTags_pairs {tree : Tree} {pairs : List (String × String)}
    (denotes : DenotesList DenotesPair tree pairs) : tree.DistinctTags :=
  (denotes.imp fun _ _ _ => DenotesPair.distinctTags).distinctTags

theorem DenotesPredicate.distinctTags {tree : Tree} {predicate : Predicate}
    (denotes : tree.DenotesPredicate predicate) : tree.DistinctTags := by
  induction tree using smallerInduction generalizing predicate with
  | step tree ih =>
      cases denotes with
      | equality order varname expected =>
          exact .tagged (.of_perm order (by simp)
            (by simp [varname.distinctTags, expected.distinctTags]))
      | membership order varname values _ =>
          exact .tagged (.of_perm order (by simp)
            (by simp [varname.distinctTags, distinctTags_texts values]))
      | named name => exact name.distinctTags.tagged
      | otherwise text => exact text.distinctTags.tagged
      | combined order first others =>
          have firstDistinct := ih _ (depth_lt_of_listed order (.head _)) first
          have othersDistinct :=
            (others.imp_smaller (depth_lt_of_listed order (.tail _ (.head _)))
              fun inner smaller _ => ih inner smaller).distinctTags
          exact .tagged (.of_perm order (by simp) (by simp [firstDistinct, othersDistinct]))
      | application order name arguments =>
          exact .tagged (.of_perm order (by simp)
            (by simp [name.distinctTags, distinctTags_texts arguments]))
      | bareFunction name => exact name.distinctTags.tagged.tagged
      | comparison order varname value symbol =>
          exact .tagged (.of_perm order (by simp)
            (by simp [varname.distinctTags, value.distinctTags, symbol.distinctTags]))

theorem DenotesRule.distinctTags {tree : Tree} {rule : RoutingRule}
    (denotes : tree.DenotesRule rule) : tree.DistinctTags := by
  induction tree using smallerInduction generalizing rule with
  | step tree ih =>
      cases denotes with
      | direct order guard outcome =>
          exact .tagged (.of_perm order (by simp)
            (by simp [guard.distinctTags, outcome.distinctTags]))
      | nested order guard children =>
          have childrenDistinct :=
            (children.imp_smaller (depth_lt_of_listed order (.tail _ (.head _)))
              fun inner smaller _ => ih inner smaller).distinctTags
          exact .tagged (.of_perm order (by simp) (by simp [guard.distinctTags, childrenDistinct]))

theorem DenotesElement.distinctTags {tree : Tree} {element : Element}
    (denotes : tree.DenotesElement element) : tree.DistinctTags := by
  induction tree using smallerInduction generalizing element with
  | step tree ih =>
      cases denotes with
      | heading text => exact text.distinctTags.tagged
      | paragraph text => exact text.distinctTags.tagged
      | startButton target => exact target.distinctTags.tagged
      | nextSteps text => exact text.distinctTags.tagged.tagged
      | multipleChoice order identifier options _ =>
          exact .tagged (.of_perm order (by simp)
            (by simp [identifier.distinctTags, distinctTags_pairs options]))
      | date identifier => exact identifier.distinctTags.tagged.tagged
      | salary identifier => exact identifier.distinctTags.tagged.tagged
      | text identifier => exact identifier.distinctTags.tagged.tagged
      | bothCases order guard whenTrue whenFalse =>
          have trueDistinct :=
            (whenTrue.imp_smaller (depth_lt_of_listed order (.tail _ (.head _)))
              fun inner smaller _ => ih inner smaller).distinctTags
          have falseDistinct :=
            (whenFalse.imp_smaller (depth_lt_of_listed order (.tail _ (.tail _ (.head _))))
              fun inner smaller _ => ih inner smaller).distinctTags
          exact .tagged (.of_perm order (by simp)
            (by simp [guard.distinctTags, trueDistinct, falseDistinct]))
      | trueCase order guard whenTrue =>
          have trueDistinct :=
            (whenTrue.imp_smaller (depth_lt_of_listed order (.tail _ (.head _)))
              fun inner smaller _ => ih inner smaller).distinctTags
          exact .tagged (.of_perm order (by simp) (by simp [guard.distinctTags, trueDistinct]))
      | noCase guard => exact guard.distinctTags.tagged.tagged
      | routing rules =>
          exact (rules.imp fun _ _ _ => DenotesRule.distinctTags).distinctTags.tagged

/-- In an accepted document no tag occurs twice in a group, at any depth. -/
theorem DenotesNode.distinctTags {name : String} {tree : Tree} {node : Node}
    (denotes : tree.DenotesNode name node) : tree.DistinctTags := by
  cases denotes with
  | whole order attributes _ body =>
      have bodyDistinct := (body.imp fun _ _ _ => DenotesElement.distinctTags).distinctTags
      exact .of_perm order (by simp) (by simp [distinctTags_pairs attributes, bodyDistinct])
  | frontMatter attributes _ => exact (distinctTags_pairs attributes).tagged
  | body body => exact (body.imp fun _ _ _ => DenotesElement.distinctTags).distinctTags.tagged

end Tree

/-! ## Writing nodes as documents -/

namespace Tree

/-- A sequence of leaves, so that an empty text stays an item. -/
def ofTexts (texts : List String) : Tree :=
  .sequence (texts.map leaf)

/-- A sequence of pairs of tagged leaves. -/
def ofPairs (keyTag textTag : String) (pairs : List (String × String)) : Tree :=
  .sequence (pairs.map fun pair => .group [(keyTag, .leaf pair.1), (textTag, .leaf pair.2)])

/-- The conjunction of predicates; nothing stands for that of none. -/
def ofConjuncts : List Tree → Tree
  | [] => .leaf ""
  | first :: others =>
      .group [("combined_predicate",
        .group [("first_predicate", first), ("and_predicates", .sequence others)])]

end Tree

namespace Predicate

mutual

def toTree : Predicate → Tree
  | .equality varname expected =>
      .group [("equality_predicate",
        .group [("varname", .leaf varname), ("expected_value", .leaf expected)])]
  | .membership varname values =>
      .group [("set_membership_predicate",
        .group [("varname", .leaf varname), ("values", .ofTexts values.items)])]
  | .named name => .group [("named_predicate", .leaf name)]
  | .otherwise => .group [("otherwise_predicate", .leaf "")]
  | .combined members => .ofConjuncts (toTrees members)
  | .function name arguments =>
      .group [("function_predicate",
        .group [("name", .leaf name), ("arguments", .ofTexts arguments)])]
  | .comparison test =>
      .group [("comparison_predicate",
        .group [("varname", .leaf test.varname), ("value", .leaf test.value),
          ("operator", .leaf test.operator.symbol)])]

def toTrees : List Predicate → List Tree
  | [] => []
  | predicate :: rest => predicate.toTree :: toTrees rest

end

theorem toTrees_eq_map (predicates : List Predicate) :
    toTrees predicates = predicates.map toTree := by
  induction predicates with
  | nil => rfl
  | cons predicate rest ih => rw [toTrees, ih, List.map_cons]

end Predicate

namespace RoutingRule

mutual

def toTree : RoutingRule → Tree
  | .direct guard outcome =>
      .group [("rule", .group [("predicate", guard.toTree), ("outcome", .leaf outcome)])]
  | .nested guard children =>
      .group [("nested_rule",
        .group [("predicate", guard.toTree), ("child_rules", .sequence (toTrees children))])]

def toTrees : List RoutingRule → List Tree
  | [] => []
  | rule :: rest => rule.toTree :: toTrees rest

end

theorem toTrees_eq_map (rules : List RoutingRule) : toTrees rules = rules.map toTree := by
  induction rules with
  | nil => rfl
  | cons rule rest ih => rw [toTrees, ih, List.map_cons]

end RoutingRule

def Question.toTree : Question → Tree
  | .multipleChoice identifier options =>
      .group [("multiple_choice",
        .group [("identifier", .leaf identifier),
          ("options", .ofPairs "value" "label" options.entries)])]
  | .date identifier => .group [("date", .group [("identifier", .leaf identifier)])]
  | .salary identifier => .group [("salary", .group [("identifier", .leaf identifier)])]
  | .text identifier => .group [("text", .group [("identifier", .leaf identifier)])]

namespace Element

mutual

def toTree : Element → Tree
  | .heading text => .group [("h1", .leaf text)]
  | .paragraph text => .group [("p", .leaf text)]
  | .startButton target => .group [("start_button", .leaf target)]
  | .nextSteps text => .group [("next_steps", .group [("content", .leaf text)])]
  | .conditional guard whenTrue whenFalse =>
      .group [("conditional",
        .group [("predicate", guard.toTree), ("true_case", .sequence (toTrees whenTrue)),
          ("false_case", .sequence (toTrees whenFalse))])]
  | .question prompt => prompt.toTree
  | .routing rules => .group [("next_node_rules", .sequence (RoutingRule.toTrees rules))]

def toTrees : List Element → List Tree
  | [] => []
  | element :: rest => element.toTree :: toTrees rest

end

theorem toTrees_eq_map (elements : List Element) : toTrees elements = elements.map toTree := by
  induction elements with
  | nil => rfl
  | cons element rest ih => rw [toTrees, ih, List.map_cons]

end Element

/-- A node as a document, front matter first. -/
def Node.toTree (node : Node) : Tree :=
  .group [("front_matter", .ofPairs "name" "value" node.frontMatter.attributes.entries),
    ("body", .sequence (Element.toTrees node.body))]

/-! ## A well-formed node is what its document denotes -/

namespace Tree

theorem denotesList_sequence {α : Type} {Item : Tree → α → Prop} {toTree : α → Tree}
    {items : List α} (denotes : ∀ item ∈ items, Item (toTree item) item) :
    DenotesList Item (.sequence (items.map toTree)) items :=
  .sequence (List.forall₂_map_left_iff.2 (List.forall₂_same.2 denotes))

theorem denotesList_ofTexts (texts : List String) : DenotesList DenotesText (ofTexts texts) texts :=
  denotesList_sequence fun _ _ => .leaf

end Tree

theorem Predicate.WellFormed.denotes {predicate : Predicate} (formed : predicate.WellFormed) :
    predicate.toTree.DenotesPredicate predicate := by
  induction formed with
  | equality => exact .equality (.refl _) .leaf .leaf
  | membership =>
      exact .membership (.refl _) .leaf (Tree.denotesList_ofTexts _) (OrderedSet.collects_items _)
  | named => exact .named .leaf
  | otherwise => exact .otherwise .leaf
  | @combined members filled _ ih =>
      cases members with
      | nil => exact absurd rfl filled
      | cons first others =>
          obtain ⟨firstDenotes, othersDenote⟩ := List.forall_mem_cons.1 ih
          rw [toTree, toTrees, toTrees_eq_map]
          exact .combined (.refl _) firstDenotes (Tree.denotesList_sequence othersDenote)
  | function => exact .application (.refl _) .leaf (Tree.denotesList_ofTexts _)
  | comparison => exact .comparison (.refl _) .leaf .leaf .leaf

theorem RoutingRule.WellFormed.denotes {rule : RoutingRule} (formed : rule.WellFormed) :
    rule.toTree.DenotesRule rule := by
  induction formed with
  | direct guard => exact .direct (.refl _) guard.denotes .leaf
  | nested guard _ ih =>
      rw [toTree, toTrees_eq_map]
      exact .nested (.refl _) guard.denotes (Tree.denotesList_sequence ih)

theorem Question.denotes (prompt : Question) : prompt.toTree.DenotesElement (.question prompt) := by
  cases prompt with
  | multipleChoice identifier options =>
      refine .multipleChoice (.refl _) .leaf ?_ options.collects_entries
      exact Tree.denotesList_sequence fun _ _ => .choiceOption (.refl _) .leaf .leaf
  | date identifier => exact .date .leaf
  | salary identifier => exact .salary .leaf
  | text identifier => exact .text .leaf

theorem Element.WellFormed.denotes {element : Element} (formed : element.WellFormed) :
    element.toTree.DenotesElement element := by
  induction formed with
  | heading => exact .heading .leaf
  | paragraph => exact .paragraph .leaf
  | startButton => exact .startButton .leaf
  | nextSteps => exact .nextSteps .leaf
  | conditional guard _ _ trueDenote falseDenote =>
      rw [toTree, toTrees_eq_map, toTrees_eq_map]
      exact .bothCases (.refl _) guard.denotes (Tree.denotesList_sequence trueDenote)
        (Tree.denotesList_sequence falseDenote)
  | question => exact Question.denotes _
  | routing rules =>
      rw [toTree, RoutingRule.toTrees_eq_map]
      exact .routing (Tree.denotesList_sequence fun rule member => (rules rule member).denotes)

theorem Node.WellFormed.denotes {node : Node} (formed : node.WellFormed) :
    node.toTree.DenotesNode node.name node := by
  rw [toTree, Element.toTrees_eq_map]
  refine .whole (.refl _) ?_ node.frontMatter.attributes.collects_entries ?_
  · exact Tree.denotesList_sequence fun _ _ => .frontMatterAttribute (.refl _) .leaf .leaf
  · exact Tree.denotesList_sequence fun element member => (formed element member).denotes

theorem Node.wellFormed_iff_compiled (node : Node) :
    node.WellFormed ↔
      ∃ limit tree, Registry.flow.rewriteNode limit ⟨node.name⟩ tree = .ok node := by
  constructor
  · intro formed
    exact ⟨_, _, Registry.rewriteNode_flow_iff.2 ⟨Nat.le_refl _, formed.denotes⟩⟩
  · rintro ⟨limit, tree, compiled⟩
    exact (Registry.rewriteNode_flow_iff.1 compiled).2.wellFormed.2

/-- Compiling under a name yields exactly the well-formed nodes of that name. -/
theorem Registry.compiled_iff_wellFormed {name : String} {node : Node} :
    ((∃ limit tree, Registry.flow.rewriteNode limit ⟨name⟩ tree = .ok node) ↔
      node.name = name ∧ node.WellFormed) ∧
    (node.name = name → node.WellFormed →
      node.toTree.DistinctTags ∧ ∀ limit, node.toTree.depth ≤ limit →
        Registry.flow.rewriteNode limit ⟨name⟩ node.toTree = .ok node) := by
  have written : node.name = name → node.WellFormed →
      node.toTree.DistinctTags ∧ ∀ limit, node.toTree.depth ≤ limit →
        Registry.flow.rewriteNode limit ⟨name⟩ node.toTree = .ok node := by
    rintro rfl formed
    refine ⟨formed.denotes.distinctTags, fun limit fits => ?_⟩
    exact Registry.rewriteNode_flow_iff.2 ⟨fits, formed.denotes⟩
  refine ⟨⟨?_, ?_⟩, written⟩
  · rintro ⟨limit, tree, compiled⟩
    obtain ⟨_, denotes⟩ := Registry.rewriteNode_flow_iff.1 compiled
    exact denotes.wellFormed
  · rintro ⟨named, formed⟩
    exact ⟨_, _, (written named formed).2 _ (Nat.le_refl _)⟩

/-- A conjunction in a branch of a conditional, and its document under every name. -/
theorem Registry.compiled_iff_wellFormed_conjunction :
    let node : Node := ⟨"start", [.conditional .otherwise
      [.conditional (.combined [.named "", .otherwise]) [] []] []], .empty⟩
    node.name = "start" ∧ node.WellFormed ∧
      Registry.flow.rewriteNode 256 ⟨"start"⟩ node.toTree = .ok node := by
  intro node
  have formed : node.WellFormed := by
    simp only [Node.WellFormed, node, List.forall_mem_singleton]
    refine .conditional .otherwise ?_ (by simp)
    rw [List.forall_mem_singleton]
    refine .conditional (.combined (by simp) ?_) (by simp) (by simp)
    exact List.forall_mem_cons.2 ⟨.named, List.forall_mem_singleton.2 .otherwise⟩
  exact ⟨rfl, formed, (Registry.compiled_iff_wellFormed.2 rfl formed).2 256 (by decide)⟩

end InterviewFlow
