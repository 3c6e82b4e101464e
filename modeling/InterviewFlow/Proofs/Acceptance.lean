import InterviewFlow.Proofs.Soundness

/-! The flow rules accept the grammar of flow documents and nothing else: a tree of
the grammar is rewritten to the object it denotes, by one production after the other.
Rules added to the flow rules do not change this as long as they leave alone what the
productions leave alone. -/

set_option autoImplicit false

namespace InterviewFlow

namespace FlowRules

variable {rules : RuleList} {context : Context}

/-- The tree is rewritten to the value, and to an empty text only where it denotes one. -/
def Yields (rules : RuleList) (context : Context) (tree : Tree) (value : Value) : Prop :=
  rules.Evaluates context tree value ∧ (value = .leaf "" → tree.DenotesText "")

theorem yields_built {tree : Tree} {object : Built}
    (evaluated : rules.Evaluates context tree (.built object)) :
    Yields rules context tree (.built object) :=
  ⟨evaluated, nofun⟩

variable (extended : ExtendedBy rules)

include extended

/-- A list of items is rewritten to a value that converts to them. -/
theorem evaluates_of_denotesList {α : Type} {conversion : Value → Except TransformError α}
    {embed : α → Value} (converts : Value.Converts conversion embed) {tree : Tree}
    {items : List α}
    (denotes : tree.DenotesList (fun inner item => Yields rules context inner (embed item))
      items) :
    ∃ value, rules.Evaluates context tree value ∧ value.toItems.mapM conversion = .ok items := by
  simp only [converts.mapM_toItems_eq_ok_iff]
  cases denotes with
  | empty text => exact ⟨_, evaluates_of_denotesText extended text, .inl ⟨rfl, rfl⟩⟩
  | sequence related =>
      refine ⟨.sequence (items.map embed), ?_, .inr (.inl rfl)⟩
      apply (RuleList.evaluates_sequence_iff extended.firstMatch?_sequence).2
      exact ⟨_, (List.forall₂_map_right_iff.2 related).imp fun _ _ => And.left, rfl⟩
  | @single _ item full yields =>
      -- An item that is an empty text would be read as the empty list.
      exact ⟨embed item, yields.1, .inr (.inr ⟨item, rfl, fun empty => full (yields.2 empty), rfl⟩)⟩

theorem evaluates_texts {tree : Tree} {texts : List String}
    (denotes : tree.DenotesList Tree.DenotesText texts) :
    ∃ value, rules.Evaluates context tree value ∧ value.toItems.mapM Value.toText = .ok texts :=
  evaluates_of_denotesList extended Value.converts_text
    (denotes.imp fun _ _ _ denoted =>
      ⟨evaluates_of_denotesText extended denoted, fun empty => Value.leaf.inj empty ▸ denoted⟩)

theorem evaluates_pair {name keyTag textTag : String}
    (member : FlowRules.pair name keyTag textTag ∈ all) (apart : keyTag ≠ textTag)
    {entries : List (String × Tree)} {keyTree textTree : Tree} {key text : String}
    (order : entries.Perm [(keyTag, keyTree), (textTag, textTree)])
    (keyDenotes : keyTree.DenotesText key) (textDenotes : textTree.DenotesText text) :
    rules.Evaluates context (.group entries) (.built (.pair key text)) :=
  evaluates_of_rewrites extended member ((rewrites_pair apart).2
    ⟨_, _, _, _, _, rfl, order, evaluates_of_denotesText extended keyDenotes,
      evaluates_of_denotesText extended textDenotes, rfl⟩)

theorem evaluates_of_denotesPair {tree : Tree} {pair : String × String}
    (denotes : tree.DenotesPair pair) :
    rules.Evaluates context tree (.built (.pair pair.1 pair.2)) := by
  cases denotes with
  | frontMatterAttribute order name value =>
      have member : FlowRules.pair "front_matter_attribute" "name" "value" ∈ all := by simp [all]
      exact evaluates_pair extended member (by decide) order name value
  | choiceOption order value label =>
      have member : FlowRules.pair "choice_option" "value" "label" ∈ all := by simp [all]
      exact evaluates_pair extended member (by decide) order value label
  | link order url label =>
      have member : FlowRules.pair "link" "url" "label" ∈ all := by simp [all]
      exact evaluates_pair extended member (by decide) order url label

theorem evaluates_pairs {tree : Tree} {pairs : List (String × String)}
    (denotes : tree.DenotesList Tree.DenotesPair pairs) :
    ∃ value, rules.Evaluates context tree value ∧ value.toItems.mapM Value.toPair = .ok pairs :=
  evaluates_of_denotesList extended Value.converts_pair
    (denotes.imp fun _ _ _ denoted => yields_built (evaluates_of_denotesPair extended denoted))

theorem evaluates_of_denotesPredicate {tree : Tree} {predicate : Predicate}
    (denotes : tree.DenotesPredicate predicate) :
    rules.Evaluates context tree (ofPredicate predicate) := by
  induction tree using Tree.smallerInduction generalizing predicate with
  | step tree ih =>
      cases denotes with
      | equality order varname expected =>
          have member : equalityPredicate ∈ all := by simp [all]
          exact evaluates_of_rewrites extended member (rewrites_equalityPredicate.2
            ⟨_, _, _, _, _, rfl, order, evaluates_of_denotesText extended varname,
              evaluates_of_denotesText extended expected, rfl⟩)
      | membership order varname values collected =>
          have member : setMembershipPredicate ∈ all := by simp [all]
          obtain ⟨value, evaluated, texts⟩ := evaluates_texts extended values
          rw [OrderedSet.collects_iff.1 collected]
          exact evaluates_of_rewrites extended member (rewrites_setMembershipPredicate.2
            ⟨_, _, _, _, value, _, rfl, order, evaluates_of_denotesText extended varname, evaluated,
              texts, rfl⟩)
      | named name =>
          have member : namedPredicate ∈ all := by simp [all]
          exact evaluates_of_rewrites extended member (rewrites_namedPredicate.2
            ⟨_, _, rfl, evaluates_of_denotesText extended name, rfl⟩)
      | otherwise text =>
          have member : otherwisePredicate ∈ all := by simp [all]
          exact evaluates_of_rewrites extended member (rewrites_otherwisePredicate.2
            ⟨⟨_, rfl, _, evaluates_of_denotesText extended text⟩, rfl⟩)
      | combined order first others =>
          have member : combinedPredicate ∈ all := by simp [all]
          have firstEvaluated := ih _ (Tree.depth_lt_of_listed order (.head _)) first
          obtain ⟨value, evaluated, predicates⟩ :=
            evaluates_of_denotesList extended Value.converts_predicate
              (others.imp_smaller (Tree.depth_lt_of_listed order (.tail _ (.head _)))
                fun inner smaller _ denoted => yields_built (ih inner smaller denoted))
          exact evaluates_of_rewrites extended member (rewrites_combinedPredicate.2
            ⟨_, _, _, value, _, _, rfl, order, firstEvaluated, evaluated, predicates, rfl⟩)
      | application order name arguments =>
          have member : functionPredicateWithArguments ∈ all := by simp [all]
          obtain ⟨value, evaluated, texts⟩ := evaluates_texts extended arguments
          exact evaluates_of_rewrites extended member (rewrites_functionPredicateWithArguments.2
            ⟨_, _, _, _, value, _, rfl, order, evaluates_of_denotesText extended name, evaluated,
              texts, rfl⟩)
      | bareFunction name =>
          have member : functionPredicate ∈ all := by simp [all]
          exact evaluates_of_rewrites extended member (rewrites_functionPredicate.2
            ⟨_, _, rfl, evaluates_of_denotesText extended name, rfl⟩)
      | comparison order varname value symbol =>
          have member : comparisonPredicate ∈ all := by simp [all]
          exact evaluates_of_rewrites extended member (rewrites_comparisonPredicate.2
            ⟨_, _, _, _, _, _, _, rfl, order, evaluates_of_denotesText extended varname,
              evaluates_of_denotesText extended value,
              evaluates_of_denotesText extended symbol, rfl⟩)

theorem evaluates_of_denotesRule {tree : Tree} {rule : RoutingRule}
    (denotes : tree.DenotesRule rule) : rules.Evaluates context tree (ofRoutingRule rule) := by
  induction tree using Tree.smallerInduction generalizing rule with
  | step tree ih =>
      cases denotes with
      | direct order guard outcome =>
          have member : routingRule ∈ all := by simp [all]
          exact evaluates_of_rewrites extended member (rewrites_routingRule.2
            ⟨_, _, _, _, _, rfl, order, evaluates_of_denotesPredicate extended guard,
              evaluates_of_denotesText extended outcome, rfl⟩)
      | nested order guard children =>
          have member : nestedRule ∈ all := by simp [all]
          obtain ⟨value, evaluated, converted⟩ :=
            evaluates_of_denotesList extended Value.converts_routingRule
              (children.imp_smaller (Tree.depth_lt_of_listed order (.tail _ (.head _)))
                fun inner smaller _ denoted => yields_built (ih inner smaller denoted))
          exact evaluates_of_rewrites extended member (rewrites_nestedRule.2
            ⟨_, _, _, value, _, _, rfl, order, evaluates_of_denotesPredicate extended guard,
              evaluated, converted, rfl⟩)

theorem evaluates_textElement {name tag slot : String} {element : String → Element}
    (member : textElement name tag slot element ∈ all) {inner : Tree} {text : String}
    (denotes : inner.DenotesText text) :
    rules.Evaluates context (.group [(tag, inner)]) (ofElement (element text)) :=
  evaluates_of_rewrites extended member (rewrites_textElement.2
    ⟨_, _, rfl, evaluates_of_denotesText extended denotes, rfl⟩)

theorem evaluates_plainQuestion {name tag : String} {question : String → Question}
    (member : plainQuestion name tag question ∈ all) {inner : Tree} {identifier : String}
    (denotes : inner.DenotesText identifier) :
    rules.Evaluates context (.group [(tag, .group [("identifier", inner)])])
      (ofElement (.question (question identifier))) :=
  evaluates_of_rewrites extended member (rewrites_plainQuestion.2
    ⟨_, _, rfl, evaluates_of_denotesText extended denotes, rfl⟩)

theorem evaluates_of_denotesElement {tree : Tree} {element : Element}
    (denotes : tree.DenotesElement element) : rules.Evaluates context tree (ofElement element) := by
  induction tree using Tree.smallerInduction generalizing element with
  | step tree ih =>
      cases denotes with
      | heading text =>
          have member : textElement "markdown_heading" "h1" "content" .heading ∈ all := by
            simp [all]
          exact evaluates_textElement extended member text
      | paragraph text =>
          have member : textElement "markdown_paragraph" "p" "content" .paragraph ∈ all := by
            simp [all]
          exact evaluates_textElement extended member text
      | startButton target =>
          have member :
              textElement "start_button" "start_button" "start_node" .startButton ∈ all := by
            simp [all]
          exact evaluates_textElement extended member target
      | nextSteps text =>
          have member : nextSteps ∈ all := by simp [all]
          exact evaluates_of_rewrites extended member (rewrites_nextSteps.2
            ⟨_, _, rfl, evaluates_of_denotesText extended text, rfl⟩)
      | multipleChoice order identifier options collected =>
          have member : multipleChoice ∈ all := by simp [all]
          obtain ⟨value, evaluated, pairs⟩ := evaluates_pairs extended options
          rw [OrderedMap.collects_iff.1 collected]
          exact evaluates_of_rewrites extended member (rewrites_multipleChoice.2
            ⟨_, _, _, _, value, _, rfl, order, evaluates_of_denotesText extended identifier,
              evaluated, pairs, rfl⟩)
      | date identifier =>
          have member : plainQuestion "date_question" "date" .date ∈ all := by simp [all]
          exact evaluates_plainQuestion extended member identifier
      | salary identifier =>
          have member : plainQuestion "salary_question" "salary" .salary ∈ all := by simp [all]
          exact evaluates_plainQuestion extended member identifier
      | text identifier =>
          have member : plainQuestion "text_question" "text" .text ∈ all := by simp [all]
          exact evaluates_plainQuestion extended member identifier
      | bothCases order guard whenTrue whenFalse =>
          have member : conditionalWithBothCases ∈ all := by simp [all]
          obtain ⟨trueValue, trueEvaluated, trueElements⟩ :=
            evaluates_of_denotesList extended Value.converts_element
              (whenTrue.imp_smaller (Tree.depth_lt_of_listed order (.tail _ (.head _)))
                fun inner smaller _ denoted => yields_built (ih inner smaller denoted))
          obtain ⟨falseValue, falseEvaluated, falseElements⟩ :=
            evaluates_of_denotesList extended Value.converts_element
              (whenFalse.imp_smaller (Tree.depth_lt_of_listed order (.tail _ (.tail _ (.head _))))
                fun inner smaller _ denoted => yields_built (ih inner smaller denoted))
          exact evaluates_of_rewrites extended member (rewrites_conditionalWithBothCases.2
            ⟨_, _, _, trueValue, _, falseValue, _, _, _, rfl, order,
              evaluates_of_denotesPredicate extended guard, trueEvaluated, falseEvaluated,
              trueElements, falseElements, rfl⟩)
      | trueCase order guard whenTrue =>
          have member : conditionalWithTrueCase ∈ all := by simp [all]
          obtain ⟨value, evaluated, elements⟩ :=
            evaluates_of_denotesList extended Value.converts_element
              (whenTrue.imp_smaller (Tree.depth_lt_of_listed order (.tail _ (.head _)))
                fun inner smaller _ denoted => yields_built (ih inner smaller denoted))
          exact evaluates_of_rewrites extended member (rewrites_conditionalWithTrueCase.2
            ⟨_, _, _, value, _, _, rfl, order, evaluates_of_denotesPredicate extended guard,
              evaluated, elements, rfl⟩)
      | noCase guard =>
          have member : conditional ∈ all := by simp [all]
          exact evaluates_of_rewrites extended member (rewrites_conditional.2
            ⟨_, _, rfl, evaluates_of_denotesPredicate extended guard, rfl⟩)
      | routing listed =>
          have member : nextNodeRules ∈ all := by simp [all]
          obtain ⟨value, evaluated, converted⟩ :=
            evaluates_of_denotesList extended Value.converts_routingRule
              (listed.imp fun _ _ _ denoted =>
                yields_built (evaluates_of_denotesRule extended denoted))
          exact evaluates_of_rewrites extended member (rewrites_nextNodeRules.2
            ⟨_, value, _, rfl, evaluated, converted, rfl⟩)

theorem evaluates_elements {tree : Tree} {elements : List Element}
    (denotes : tree.DenotesList Tree.DenotesElement elements) :
    ∃ value, rules.Evaluates context tree value ∧
      value.toItems.mapM Value.toElement = .ok elements :=
  evaluates_of_denotesList extended Value.converts_element
    (denotes.imp fun _ _ _ denoted =>
      yields_built (evaluates_of_denotesElement extended denoted))

/-! ## Documents -/

theorem evaluates_of_denotesNode {tree : Tree} {node : Node}
    (denotes : tree.DenotesNode context.nodeName node) :
    ∃ value, rules.Evaluates context tree value ∧ value.toNode context.nodeName = .ok node := by
  cases denotes with
  | whole order attributes collected body =>
      have member : nodeWithFrontMatter ∈ all := by simp [all]
      obtain ⟨attributesValue, attributesEvaluated, pairs⟩ := evaluates_pairs extended attributes
      obtain ⟨bodyValue, bodyEvaluated, elements⟩ := evaluates_elements extended body
      rw [SortedMap.collects_iff.1 collected]
      refine ⟨_, evaluates_of_rewrites extended member (rewrites_nodeWithFrontMatter.2
        ⟨_, _, attributesValue, _, bodyValue, _, _, rfl, order, attributesEvaluated,
          bodyEvaluated, pairs, elements, rfl⟩), rfl⟩
  | frontMatter attributes collected =>
      have member : frontMatter ∈ all := by simp [all]
      obtain ⟨value, evaluated, pairs⟩ := evaluates_pairs extended attributes
      rw [SortedMap.collects_iff.1 collected]
      exact ⟨_, evaluates_of_rewrites extended member (rewrites_frontMatter.2
        ⟨_, value, _, rfl, evaluated, pairs, rfl⟩), rfl⟩
  | body body =>
      have member : FlowRules.node ∈ all := by simp [all]
      obtain ⟨value, evaluated, elements⟩ := evaluates_elements extended body
      exact ⟨_, evaluates_of_rewrites extended member (rewrites_node.2
        ⟨_, value, _, rfl, evaluated, elements, rfl⟩), rfl⟩

end FlowRules

/-- A tree is compiled to a node exactly when the grammar lets it denote the node
and it is no deeper than the limit. -/
theorem Registry.rewriteNode_flow_iff {limit : Nat} {context : Context} {tree : Tree}
    {node : Node} :
    Registry.flow.rewriteNode limit context tree = .ok node ↔
      tree.depth ≤ limit ∧ tree.DenotesNode context.nodeName node := by
  have same : Registry.flow.rewriteNode limit context tree =
      FlowRules.all.rewriteNode limit context tree := rfl
  rw [same, RuleList.rewriteNode_eq_ok_iff]
  apply and_congr_right
  intro _
  constructor
  · rintro ⟨value, evaluated, converted⟩
    exact FlowRules.denotesNode_of_describes (FlowRules.describes_of_evaluates evaluated) converted
  · exact FlowRules.evaluates_of_denotesNode FlowRules.extendedBy_all

/-- Where the limit admits the tree, the flow rules compile it to a node exactly when
the grammar lets it denote that node. -/
theorem Registry.compiles_iff_denotes {limit : Nat} {name : String} {tree : Tree}
    (fits : tree.depth ≤ limit) (node : Node) :
    Registry.flow.rewriteNode limit ⟨name⟩ tree = .ok node ↔ tree.DenotesNode name node := by
  rw [rewriteNode_flow_iff]
  exact and_iff_right fits

/-- A question with a repeated answer, which keeps its place and takes the later label. -/
theorem Registry.compiles_repeated_answer :
    Registry.flow.rewriteNode 8 ⟨"start"⟩
      (.group [("body", .sequence [.group [("multiple_choice", .group [
        ("options", .sequence [
          .group [("value", .leaf "yes"), ("label", .leaf "Yes")],
          .group [("label", .leaf "No"), ("value", .leaf "no")],
          .group [("value", .leaf "yes"), ("label", .group [("set_value", .leaf "Sure")])]]),
        ("identifier", .leaf "agreed")])]])]) =
      .ok ⟨"start",
        [.question (.multipleChoice "agreed" (.ofList [("yes", "Sure"), ("no", "No")]))],
        .empty⟩ :=
  (Registry.compiles_iff_denotes (by decide) _).2 <| .body <| .sequence <| .cons
    (.multipleChoice (.swap _ _ _) .leaf
      (.sequence (.cons (.choiceOption (.refl _) .leaf .leaf)
        (.cons (.choiceOption (.swap _ _ _) .leaf .leaf)
          (.cons (.choiceOption (.refl _) .leaf (.setValue .leaf)) .nil))))
      (OrderedMap.collects_iff.2 (by decide)))
    .nil

end InterviewFlow
