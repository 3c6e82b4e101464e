import InterviewFlow.Proofs.Acceptance
import InterviewFlow.Proofs.Census

/-! Nothing is lost and nothing duplicated on the way from a document to its node:
along the grammar a tree has the marks of what it denotes, in another order at most. -/

set_option autoImplicit false

namespace InterviewFlow

namespace Tree

theorem DenotesText.census_eq {tree : Tree} {text : String} (denotes : tree.DenotesText text) :
    tree.census = [] := by
  induction denotes with
  | leaf => rfl
  | setValue _ ih => rw [census_untagged (by decide), ih]
  | functionArgument _ ih => rw [census_untagged (by decide), ih]

theorem DenotesText.text?_eq {tree : Tree} {text : String} (denotes : tree.DenotesText text) :
    tree.text? = some text := by
  induction denotes with
  | leaf => simp [text?]
  | setValue _ ih => simpa [text?] using ih
  | functionArgument _ ih => simpa [text?] using ih

theorem DenotesList.census_perm {α : Type} {census : α → List Mark} {tree : Tree}
    {items : List α}
    (denotes : DenotesList (fun inner item => inner.census.Perm (census item)) tree items) :
    tree.census.Perm (items.flatMap census) := by
  cases denotes with
  | empty text => rw [text.census_eq, List.flatMap_nil]
  | single _ same => rwa [List.flatMap_singleton]
  | sequence related =>
      rw [census_sequence]
      induction related with
      | nil => exact .refl _
      | cons head _ ih =>
          rw [List.flatMap_cons, List.flatMap_cons]
          exact head.append ih

theorem DenotesList.census_eq_nil {α : Type} {tree : Tree} {items : List α}
    (denotes : DenotesList (fun inner _ => inner.census = []) tree items) : tree.census = [] := by
  have same := (denotes.imp fun inner _ _ unmarked =>
    (List.Perm.of_eq unmarked : inner.census.Perm [])).census_perm
  rwa [List.flatMap_eq_nil_iff.2 fun _ _ => rfl, List.perm_nil] at same

theorem DenotesPair.census_eq {tree : Tree} {pair : String × String}
    (denotes : tree.DenotesPair pair) : tree.census = [] := by
  have unmarked : ∀ {entries : List (String × Tree)} {keyTag textTag key text : String}
      {keyTree textTree : Tree}, entries.Perm [(keyTag, keyTree), (textTag, textTree)] →
      keyTree.DenotesText key → textTree.DenotesText text → (group entries).census = [] := by
    intro entries keyTag textTag key text keyTree textTree order keyText textText
    simpa [keyText.census_eq, textText.census_eq] using census_perm order (by simp)
  cases denotes with
  | frontMatterAttribute order name value => exact unmarked order name value
  | choiceOption order value label => exact unmarked order value label
  | link order url label => exact unmarked order url label

theorem census_texts {tree : Tree} {texts : List String}
    (denotes : DenotesList DenotesText tree texts) : tree.census = [] :=
  (denotes.imp fun _ _ _ => DenotesText.census_eq).census_eq_nil

theorem census_pairs {tree : Tree} {pairs : List (String × String)}
    (denotes : DenotesList DenotesPair tree pairs) : tree.census = [] :=
  (denotes.imp fun _ _ _ => DenotesPair.census_eq).census_eq_nil

/-- The group under the tag of an object without a text leaves one mark. -/
theorem census_object (tag : String) {entries listed : List (String × Tree)}
    (object : tag ∈ Mark.tags ∧ tag ∉ Mark.textTags) (order : entries.Perm listed)
    (several : listed.length ≠ 1) :
    (group [(tag, group entries)]).census.Perm
      (⟨tag, none⟩ :: listed.flatMap fun entry => entry.2.census) := by
  rw [census_tagged object.1, if_neg object.2]
  exact (census_perm order several).cons _

theorem census_plain (tag : String) {entries listed : List (String × Tree)}
    (object : tag ∈ Mark.tags ∧ tag ∉ Mark.textTags) (order : entries.Perm listed)
    (several : listed.length ≠ 1) (unmarked : ∀ entry ∈ listed, entry.2.census = []) :
    (group [(tag, group entries)]).census = [⟨tag, none⟩] := by
  have marks := census_object tag object order several
  rwa [List.flatMap_eq_nil_iff.2 unmarked, List.perm_singleton] at marks

theorem census_object_part (tag part : String) {inner : Tree}
    (object : tag ∈ Mark.tags ∧ tag ∉ Mark.textTags) (inside : part ∉ Mark.tags) :
    (group [(tag, group [(part, inner)])]).census = ⟨tag, none⟩ :: inner.census := by
  rw [census_tagged object.1, if_neg object.2, census_untagged inside]

theorem census_text (tag : String) {inner : Tree} {text : String}
    (object : tag ∈ Mark.tags ∧ tag ∈ Mark.textTags ∧ tag ≠ "rule")
    (denotes : inner.DenotesText text) :
    (group [(tag, inner)]).census = [⟨tag, some text⟩] := by
  rw [census_tagged object.1, if_pos object.2.1, heldText?, if_neg object.2.2, denotes.text?_eq,
    denotes.census_eq]

theorem DenotesPredicate.census_perm {tree : Tree} {predicate : Predicate}
    (denotes : tree.DenotesPredicate predicate) : tree.census.Perm predicate.census := by
  induction tree using smallerInduction generalizing predicate with
  | step tree ih =>
      cases denotes with
      | equality order varname expected =>
          exact .of_eq (census_plain "equality_predicate" (by decide) order (by simp)
            (by simp [varname.census_eq, expected.census_eq]))
      | membership order varname values collected =>
          exact .of_eq (census_plain "set_membership_predicate" (by decide) order (by simp)
            (by simp [varname.census_eq, census_texts values]))
      | named name => exact .of_eq (census_text "named_predicate" (by decide) name)
      | otherwise text =>
          -- The text under this tag is dropped, so its mark holds none.
          rw [census_tagged (by decide), text.census_eq]
          exact .refl _
      | combined order first others =>
          have marks := census_object "combined_predicate" (by decide) order (by simp)
          have firstMarks := ih _ (depth_lt_of_listed order (.head _)) first
          have othersMarks :=
            (others.imp_smaller (depth_lt_of_listed order (.tail _ (.head _)))
              fun inner smaller _ => ih inner smaller).census_perm
          rw [Predicate.census_combined, List.flatMap_cons]
          refine marks.trans (List.Perm.cons _ ?_)
          simpa using firstMarks.append othersMarks
      | application order name arguments =>
          exact .of_eq (census_plain "function_predicate" (by decide) order (by simp)
            (by simp [name.census_eq, census_texts arguments]))
      | bareFunction name =>
          rw [census_object_part "function_predicate" "name" (by decide) (by decide),
            name.census_eq]
          exact .refl _
      | comparison order varname value symbol =>
          exact .of_eq (census_plain "comparison_predicate" (by decide) order (by simp)
            (by simp [varname.census_eq, value.census_eq, symbol.census_eq]))

theorem outcome?_eq {entries : List (String × Tree)} {guardTree outcomeTree : Tree}
    {outcome : String} (order : entries.Perm [("predicate", guardTree), ("outcome", outcomeTree)])
    (denotes : outcomeTree.DenotesText outcome) : (group entries).outcome? = some outcome := by
  have distinct : Entries.Distinct [("predicate", guardTree), ("outcome", outcomeTree)] := by
    simp [Entries.Distinct, Entries.keys]
  have found := ((Entries.perm_iff_of_distinct distinct).1 order).2 _ (.tail _ (.head _))
  rw [outcome?, found, Option.bind_some, denotes.text?_eq]

theorem DenotesRule.census_perm {tree : Tree} {rule : RoutingRule}
    (denotes : tree.DenotesRule rule) : tree.census.Perm rule.census := by
  induction tree using smallerInduction generalizing rule with
  | step tree ih =>
      cases denotes with
      | direct order guard outcome =>
          rw [census_tagged (by decide), if_pos (by decide), heldText?, if_pos rfl,
            outcome?_eq order outcome, RoutingRule.census_direct]
          refine List.Perm.cons _ ((Tree.census_perm order (by simp)).trans ?_)
          simpa [outcome.census_eq] using guard.census_perm
      | nested order guard children =>
          have marks := census_object "nested_rule" (by decide) order (by simp)
          have childMarks :=
            (children.imp_smaller (depth_lt_of_listed order (.tail _ (.head _)))
              fun inner smaller _ => ih inner smaller).census_perm
          rw [RoutingRule.census_nested]
          refine marks.trans (List.Perm.cons _ ?_)
          simpa using guard.census_perm.append childMarks

theorem DenotesElement.census_perm {tree : Tree} {element : Element}
    (denotes : tree.DenotesElement element) : tree.census.Perm element.census := by
  induction tree using smallerInduction generalizing element with
  | step tree ih =>
      cases denotes with
      | heading text => exact .of_eq (census_text "h1" (by decide) text)
      | paragraph text => exact .of_eq (census_text "p" (by decide) text)
      | startButton target => exact .of_eq (census_text "start_button" (by decide) target)
      | nextSteps text =>
          rw [census_object_part "next_steps" "content" (by decide) (by decide), text.census_eq]
          exact .refl _
      | multipleChoice order identifier options collected =>
          exact .of_eq (census_plain "multiple_choice" (by decide) order (by simp)
            (by simp [identifier.census_eq, census_pairs options]))
      | date identifier =>
          rw [census_object_part "date" "identifier" (by decide) (by decide),
            identifier.census_eq]
          exact .refl _
      | salary identifier =>
          rw [census_object_part "salary" "identifier" (by decide) (by decide),
            identifier.census_eq]
          exact .refl _
      | text identifier =>
          rw [census_object_part "text" "identifier" (by decide) (by decide),
            identifier.census_eq]
          exact .refl _
      | bothCases order guard whenTrue whenFalse =>
          have marks := census_object "conditional" (by decide) order (by simp)
          have trueMarks :=
            (whenTrue.imp_smaller (depth_lt_of_listed order (.tail _ (.head _)))
              fun inner smaller _ => ih inner smaller).census_perm
          have falseMarks :=
            (whenFalse.imp_smaller (depth_lt_of_listed order (.tail _ (.tail _ (.head _))))
              fun inner smaller _ => ih inner smaller).census_perm
          rw [Element.census_conditional]
          refine marks.trans (List.Perm.cons _ ?_)
          simpa using guard.census_perm.append (trueMarks.append falseMarks)
      | trueCase order guard whenTrue =>
          have marks := census_object "conditional" (by decide) order (by simp)
          have trueMarks :=
            (whenTrue.imp_smaller (depth_lt_of_listed order (.tail _ (.head _)))
              fun inner smaller _ => ih inner smaller).census_perm
          rw [Element.census_conditional]
          refine marks.trans (List.Perm.cons _ ?_)
          simpa using guard.census_perm.append trueMarks
      | noCase guard =>
          rw [census_object_part "conditional" "predicate" (by decide) (by decide),
            Element.census_conditional]
          refine List.Perm.cons _ ?_
          simpa using guard.census_perm
      | routing rules =>
          have ruleMarks := (rules.imp fun _ _ _ => DenotesRule.census_perm).census_perm
          rw [census_tagged (by decide), if_neg (by decide), Element.census_routing]
          exact ruleMarks.cons _

end Tree

theorem Tree.DenotesNode.census_perm {name : String} {tree : Tree} {node : Node}
    (denotes : tree.DenotesNode name node) : tree.census.Perm node.census := by
  cases denotes with
  | whole order attributes collected body =>
      have marks := Tree.census_perm order (by simp)
      have bodyMarks := (body.imp fun _ _ _ => DenotesElement.census_perm).census_perm
      refine marks.trans ?_
      simpa [census_pairs attributes, Node.census] using bodyMarks
  | frontMatter attributes collected =>
      rw [census_untagged (by decide), census_pairs attributes]
      exact .refl _
  | body body =>
      rw [census_untagged (by decide)]
      exact (body.imp fun _ _ _ => DenotesElement.census_perm).census_perm

theorem Registry.rewriteNode_flow_conserves {limit : Nat} {context : Context} {tree : Tree}
    {node : Node} (compiled : Registry.flow.rewriteNode limit context tree = .ok node) :
    (∀ tag ∈ Element.tags,
      tree.countTagged tag = node.elements.countP fun element => element.tag = tag) ∧
    (∀ tag ∈ RoutingRule.tags,
      tree.countTagged tag = node.routingEntries.countP fun rule => rule.tag = tag) ∧
    (∀ tag ∈ Predicate.tags,
      tree.countTagged tag = node.predicateParts.countP fun predicate => predicate.tag = tag) ∧
    (tree.textsTagged "h1").Perm (node.elements.filterMap Element.heading?) ∧
    (tree.textsTagged "p").Perm (node.elements.filterMap Element.paragraph?) ∧
    (tree.textsTagged "start_button").Perm (node.elements.filterMap Element.startButton?) ∧
    (tree.textsTagged "named_predicate").Perm (node.predicates.flatMap Predicate.references) ∧
    (tree.textsTagged "rule").Perm (node.routingEntries.filterMap RoutingRule.outcome?) := by
  obtain ⟨_, denotes⟩ := Registry.rewriteNode_flow_iff.1 compiled
  have marks := denotes.census_perm
  have counts : ∀ tag ∈ Mark.tags,
      tree.countTagged tag = node.census.countP fun mark => mark.tag = tag := by
    intro tag object
    rw [Tree.countTagged_eq object, marks.countP_eq]
  have texts : ∀ tag ∈ Mark.textTags,
      (tree.textsTagged tag).Perm (node.census.filterMap (Mark.textAt tag)) := by
    intro tag holder
    rw [Tree.textsTagged_eq holder]
    exact marks.filterMap _
  refine ⟨?_, ?_, ?_, ?_, ?_, ?_, ?_, ?_⟩
  · intro tag element
    rw [counts tag (by simp [Mark.tags, element]), Node.countP_elements element]
  · intro tag rule
    rw [counts tag (by simp [Mark.tags, rule]), Node.countP_routingEntries rule]
  · intro tag part
    rw [counts tag (by simp [Mark.tags, part]), Node.countP_predicateParts part]
  · exact (texts "h1" (by decide)).trans
      (Node.texts_elements (fun element => element.textAt_mark.1) (by decide))
  · exact (texts "p" (by decide)).trans
      (Node.texts_elements (fun element => element.textAt_mark.2.1) (by decide))
  · exact (texts "start_button" (by decide)).trans
      (Node.texts_elements (fun element => element.textAt_mark.2.2) (by decide))
  · exact (texts "named_predicate" (by decide)).trans Node.texts_predicates
  · exact (texts "rule" (by decide)).trans Node.texts_routingEntries

/-- A heading and a rule guarded by a conjunction, of which each part is kept once. -/
theorem Registry.rewriteNode_flow_conserves_conjunction :
    let guard : Tree := .group [("combined_predicate", .group [
      ("first_predicate", .group [("named_predicate", .leaf "adult")]),
      ("and_predicates", .sequence [.group [("named_predicate", .leaf "adult")]])])]
    let tree : Tree := .group [("body", .sequence [
      .group [("h1", .leaf "Hello")],
      .group [("next_node_rules", .sequence [
        .group [("rule", .group [("outcome", .leaf "end"), ("predicate", guard)])]])]])]
    let node : Node := ⟨"start", [.heading "Hello",
      .routing [.direct (.combined [.named "adult", .named "adult"]) "end"]], .empty⟩
    Registry.flow.rewriteNode 256 ⟨"start"⟩ tree = .ok node ∧
      tree.countTagged "named_predicate" = 2 ∧ (tree.textsTagged "rule").Perm ["end"] := by
  intro guard tree node
  have compiled : Registry.flow.rewriteNode 256 ⟨"start"⟩ tree = .ok node := by
    refine Registry.rewriteNode_flow_iff.2 ⟨by decide, .body (.sequence (.cons (.heading .leaf)
      (.cons (.routing (.sequence (.cons (.direct (.swap _ _ _) ?_ .leaf) .nil))) .nil)))⟩
    exact .combined (.refl _) (.named .leaf) (.sequence (.cons (.named .leaf) .nil))
  obtain ⟨_, _, predicates, _, _, _, _, outcomes⟩ := Registry.rewriteNode_flow_conserves compiled
  refine ⟨compiled, predicates "named_predicate" (by decide), ?_⟩
  exact outcomes

end InterviewFlow
