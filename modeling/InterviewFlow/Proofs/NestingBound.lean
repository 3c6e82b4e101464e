import InterviewFlow.Proofs.Image
import InterviewFlow.Proofs.JsonRoundTrip

/-! How deep the JSON of a compiled node is nested, compared with its document. A lone
item in place of a list costs the document two levels for three of the output, and
nothing costs it less. -/

set_option autoImplicit false

namespace InterviewFlow

namespace Tree

/-! ## Levels of a document -/

theorem depth_add_two_le (outer : String) {tag : String} {inner : Tree}
    {entries listed : List (String × Tree)} (order : entries.Perm listed)
    (member : (tag, inner) ∈ listed) :
    inner.depth + 2 ≤ (group [(outer, group entries)]).depth :=
  Nat.le_trans (Nat.succ_le_succ (depth_lt_of_entry (order.mem_iff.2 member))) depth_lt_tagged

theorem three_le_depth (outer : String) {tag : String} {inner : Tree}
    {entries listed : List (String × Tree)} (order : entries.Perm listed)
    (member : (tag, inner) ∈ listed) : 3 ≤ (group [(outer, group entries)]).depth :=
  Nat.le_trans (Nat.add_le_add_right (depth_pos inner) 2) (depth_add_two_le outer order member)

theorem two_le_depth_tagged {tag : String} {inner : Tree} : 2 ≤ (group [(tag, inner)]).depth :=
  Nat.lt_of_le_of_lt (depth_pos inner) depth_lt_tagged

theorem three_le_depth_tagged (outer tag : String) (inner : Tree) :
    3 ≤ (group [(outer, group [(tag, inner)])]).depth :=
  Nat.lt_of_le_of_lt two_le_depth_tagged depth_lt_tagged

theorem DenotesPredicate.two_le_depth {tree : Tree} {predicate : Predicate}
    (denotes : tree.DenotesPredicate predicate) : 2 ≤ tree.depth := by
  cases denotes with
  | _ => exact two_le_depth_tagged

theorem DenotesElement.two_le_depth {tree : Tree} {element : Element}
    (denotes : tree.DenotesElement element) : 2 ≤ tree.depth := by
  cases denotes with
  | _ => exact two_le_depth_tagged

/-! ## Levels of the output -/

/-- A list is nested as deep as its items, each of which its tree contains or is. -/
theorem DenotesList.nesting_le {α : Type} {write : α → Json} {tree : Tree} {items : List α}
    {extra : Nat} (denotes : DenotesList (fun inner item =>
      2 * (write item).nesting + extra ≤ 3 * inner.depth) tree items) :
    2 * Json.nestingOfItems (items.map write) + extra ≤ max (3 * tree.depth) extra := by
  have bounded : DenotesList (fun _ item => 2 * (write item).nesting + extra ≤ 3 * tree.depth)
      tree items := denotes.imp fun inner within item bound => by omega
  have within : Json.nestingOfItems (items.map write) ≤
      (max (3 * tree.depth) extra - extra) / 2 := by
    rw [Json.nestingOfItems_le_iff, List.forall_mem_map]
    intro item member
    have bound := bounded.forall_mem item member
    omega
  omega

theorem DenotesPredicate.nesting_le {tree : Tree} {predicate : Predicate}
    (denotes : tree.DenotesPredicate predicate) :
    2 * predicate.toJson.nesting + 3 ≤ 3 * tree.depth := by
  induction tree using smallerInduction generalizing predicate with
  | step tree ih =>
      have tagged := denotes.two_le_depth
      cases denotes with
      | equality order _ _ =>
          have deep := three_le_depth "equality_predicate" order (.head _)
          rw [Predicate.nesting_equality]
          omega
      | membership order _ _ _ =>
          have deep := three_le_depth "set_membership_predicate" order (.head _)
          rw [Predicate.nesting_membership]
          omega
      | named _ =>
          rw [Predicate.nesting_named]
          omega
      | otherwise _ =>
          rw [Predicate.nesting_otherwise]
          omega
      | @combined _ _ _ first others order firstDenotes othersDenote =>
          have firstDeep := depth_add_two_le "combined_predicate" order (.head _)
          have othersDeep := depth_add_two_le "combined_predicate" order (.tail _ (.head _))
          have firstBound := ih _ (depth_lt_of_listed order (.head _)) firstDenotes
          have othersBound : 2 * Json.nestingOfItems (others.map Predicate.toJson) + 3 ≤ _ :=
            (othersDenote.imp_smaller (depth_lt_of_listed order (.tail _ (.head _)))
              fun inner smaller _ denoted => ih inner smaller denoted).nesting_le
          rw [Predicate.nesting_combined, List.map_cons, Json.nestingOfItems]
          omega
      | application order _ _ =>
          have deep := three_le_depth "function_predicate" order (.head _)
          rw [Predicate.nesting_function]
          omega
      | @bareFunction nameTree _ _ =>
          have deep := three_le_depth_tagged "function_predicate" "name" nameTree
          rw [Predicate.nesting_function]
          omega
      | comparison order _ _ _ =>
          have deep := three_le_depth "comparison_predicate" order (.head _)
          rw [Predicate.nesting_comparison]
          omega

theorem DenotesRule.nesting_le {tree : Tree} {rule : RoutingRule}
    (denotes : tree.DenotesRule rule) : 2 * rule.toJson.nesting + 5 ≤ 3 * tree.depth := by
  induction tree using smallerInduction generalizing rule with
  | step tree ih =>
      cases denotes with
      | direct order guard _ =>
          have guardDeep := depth_add_two_le "rule" order (.head _)
          have guardBound := guard.nesting_le
          rw [RoutingRule.nesting_direct]
          omega
      | @nested _ _ _ _ children order guard childrenDenote =>
          have guardDeep := depth_add_two_le "nested_rule" order (.head _)
          have childrenDeep := depth_add_two_le "nested_rule" order (.tail _ (.head _))
          have guardTagged := guard.two_le_depth
          have guardBound := guard.nesting_le
          have childrenBound : 2 * Json.nestingOfItems (children.map RoutingRule.toJson) + 5 ≤ _ :=
            (childrenDenote.imp_smaller (depth_lt_of_listed order (.tail _ (.head _)))
              fun inner smaller _ denoted => ih inner smaller denoted).nesting_le
          rw [RoutingRule.nesting_nested]
          -- An empty list of children still nests once; the levels of the guard allow for it.
          omega

theorem DenotesElement.nesting_le {tree : Tree} {element : Element}
    (denotes : tree.DenotesElement element) : 2 * element.toJson.nesting ≤ 3 * tree.depth := by
  induction tree using smallerInduction generalizing element with
  | step tree ih =>
      have tagged := denotes.two_le_depth
      cases denotes with
      | heading _ =>
          rw [Element.nesting_heading]
          omega
      | paragraph _ =>
          rw [Element.nesting_paragraph]
          omega
      | startButton _ =>
          rw [Element.nesting_startButton]
          omega
      | nextSteps _ =>
          rw [Element.nesting_nextSteps]
          omega
      | multipleChoice order _ _ _ =>
          have deep := three_le_depth "multiple_choice" order (.head _)
          rw [Element.nesting_question, Question.nesting_multipleChoice]
          omega
      | @date inner _ _ =>
          have deep := three_le_depth_tagged "date" "identifier" inner
          rw [Element.nesting_question, Question.nesting_date]
          omega
      | @salary inner _ _ =>
          have deep := three_le_depth_tagged "salary" "identifier" inner
          rw [Element.nesting_question, Question.nesting_salary]
          omega
      | @text inner _ _ =>
          have deep := three_le_depth_tagged "text" "identifier" inner
          rw [Element.nesting_question, Question.nesting_text]
          omega
      | @bothCases _ _ _ _ _ whenTrue whenFalse order guard trueDenote falseDenote =>
          have guardDeep := depth_add_two_le "conditional" order (.head _)
          have trueDeep := depth_add_two_le "conditional" order (.tail _ (.head _))
          have falseDeep := depth_add_two_le "conditional" order (.tail _ (.tail _ (.head _)))
          have guardTagged := guard.two_le_depth
          have guardBound := guard.nesting_le
          have trueBound : 2 * Json.nestingOfItems (whenTrue.map Element.toJson) + 0 ≤ _ :=
            (trueDenote.imp_smaller (depth_lt_of_listed order (.tail _ (.head _)))
              fun inner smaller _ denoted => ih inner smaller denoted).nesting_le
          have falseBound : 2 * Json.nestingOfItems (whenFalse.map Element.toJson) + 0 ≤ _ :=
            (falseDenote.imp_smaller (depth_lt_of_listed order (.tail _ (.tail _ (.head _))))
              fun inner smaller _ denoted => ih inner smaller denoted).nesting_le
          rw [Element.nesting_conditional]
          omega
      | @trueCase _ _ _ _ whenTrue order guard trueDenote =>
          have guardDeep := depth_add_two_le "conditional" order (.head _)
          have trueDeep := depth_add_two_le "conditional" order (.tail _ (.head _))
          have guardTagged := guard.two_le_depth
          have guardBound := guard.nesting_le
          have trueBound : 2 * Json.nestingOfItems (whenTrue.map Element.toJson) + 0 ≤ _ :=
            (trueDenote.imp_smaller (depth_lt_of_listed order (.tail _ (.head _)))
              fun inner smaller _ denoted => ih inner smaller denoted).nesting_le
          rw [Element.nesting_conditional]
          simp only [List.map_nil, Json.nestingOfItems]
          omega
      | @noCase guardTree _ guard =>
          have guardDeep : guardTree.depth + 2 ≤ _ :=
            depth_add_two_le "conditional" (.refl [("predicate", guardTree)]) (.head _)
          have guardTagged := guard.two_le_depth
          have guardBound := guard.nesting_le
          rw [Element.nesting_conditional]
          simp only [List.map_nil, Json.nestingOfItems]
          omega
      | @routing inner rules rulesDenote =>
          have rulesDeep : inner.depth < (group [("next_node_rules", inner)]).depth :=
            depth_lt_tagged
          have rulesBound : 2 * Json.nestingOfItems (rules.map RoutingRule.toJson) + 5 ≤ _ :=
            (rulesDenote.imp fun _ _ _ denoted => denoted.nesting_le).nesting_le
          rw [Element.nesting_routing]
          omega

/-- Three levels of the output take at least two levels of the document. -/
theorem DenotesNode.nesting_le {name : String} {tree : Tree} {node : Node}
    (denotes : tree.DenotesNode name node) : 2 * node.toJson.nesting ≤ 3 * tree.depth + 1 := by
  have elements : ∀ {bodyTree : Tree} {body : List Element},
      DenotesList DenotesElement bodyTree body →
      2 * Json.nestingOfItems (body.map Element.toJson) + 0 ≤ max (3 * bodyTree.depth) 0 :=
    fun body => (body.imp fun _ _ _ denoted => denoted.nesting_le).nesting_le
  cases denotes with
  | @whole _ _ bodyTree _ _ body order _ _ bodyDenotes =>
      have bodyDeep : bodyTree.depth < _ := depth_lt_of_entry (order.mem_iff.2 (.tail _ (.head _)))
      have bodyBound := elements bodyDenotes
      have bodyPositive := depth_pos bodyTree
      rw [Node.nesting_toJson]
      dsimp only
      omega
  | @frontMatter attributesTree _ _ _ _ =>
      have tagged : 2 ≤ (group [("front_matter", attributesTree)]).depth := two_le_depth_tagged
      rw [Node.nesting_toJson]
      simp only [List.map_nil, Json.nestingOfItems]
      omega
  | @body bodyTree body bodyDenotes =>
      have bodyDeep : bodyTree.depth < (group [("body", bodyTree)]).depth := depth_lt_tagged
      have bodyBound := elements bodyDenotes
      have bodyPositive := depth_pos bodyTree
      rw [Node.nesting_toJson]
      dsimp only
      omega

end Tree

end InterviewFlow
