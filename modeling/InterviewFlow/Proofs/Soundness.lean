import InterviewFlow.Proofs.Grammar
import InterviewFlow.Proofs.Productions

/-! Whatever the flow rules rewrite a tree to, the grammar of flow documents
describes. A rule that reads described subtrees answers something described, and
the depth of the tree carries this through the whole of it. -/

set_option autoImplicit false

namespace InterviewFlow

namespace FlowRules

variable {rules : RuleList} {context : Context}

/-- Every flow rule is in the list, no two rules of the list compete, and none of them
can match a group template inside a flow rule's pattern. -/
structure ExtendedBy (rules : RuleList) : Prop where
  accepted : rules.firstFault? = none
  distinct : rules.DistinctTags
  included : List.Sublist all rules
  inert : ∀ rule ∈ all, ∀ inner ∈ rule.pattern.nestedGroups, rules.Inert inner

theorem extendedBy_all : ExtendedBy all :=
  ⟨firstFault?_all, distinctTags_all, .refl _, inert_nestedGroups⟩

theorem ExtendedBy.firstMatch?_sequence (extended : ExtendedBy rules) (items : List Value) :
    rules.firstMatch? (.sequence items) = none := by
  have several : 2 ≤ all.length := by decide
  exact RuleList.firstMatch?_sequence_of_accepted extended.accepted
    (Nat.le_trans several extended.included.length_le) items

theorem evaluates_of_rewrites (extended : ExtendedBy rules) {rule : RewriteRule}
    (member : rule ∈ all) {tree : Tree} {result : Value}
    (rewrites : rule.Rewrites (rules.Evaluates context) context tree result) :
    rules.Evaluates context tree result := by
  obtain ⟨templates, shape⟩ := groupsConsumed_all.rooted rule member
  exact RuleList.evaluates_of_rewrites extended.accepted extended.distinct
    (extended.included.subset member) shape (extended.inert rule member) rewrites

theorem evaluates_leaf {text : String} : rules.Evaluates context (.leaf text) (.leaf text) := by
  rw [RuleList.Evaluates, RuleList.evaluate]

theorem evaluates_inj {tree : Tree} {left right : Value}
    (leftEvaluated : rules.Evaluates context tree left)
    (rightEvaluated : rules.Evaluates context tree right) : left = right :=
  Except.ok.inj (leftEvaluated.symm.trans rightEvaluated)

theorem evaluates_of_denotesText (extended : ExtendedBy rules) {tree : Tree} {text : String}
    (denotes : tree.DenotesText text) : rules.Evaluates context tree (.leaf text) := by
  induction denotes with
  | leaf => exact evaluates_leaf
  | setValue _ ih =>
      have member : unwrapped "set_value" "set_value" "value" ∈ all := by simp [all]
      exact evaluates_of_rewrites extended member (rewrites_unwrapped.2 ⟨_, _, rfl, ih, rfl⟩)
  | functionArgument _ ih =>
      have member : unwrapped "function_argument" "function_argument" "argument" ∈ all := by
        simp [all]
      exact evaluates_of_rewrites extended member (rewrites_unwrapped.2 ⟨_, _, rfl, ih, rfl⟩)

/-! ## What a tree is rewritten to -/

/-- The grammar describes a value: a text, an object, or a container whose members
are described. Front matter alone comes as a list of one. -/
inductive Describes (context : Context) : Tree → Value → Prop where
  | text {tree : Tree} {text : String} :
      tree.DenotesText text → Describes context tree (.leaf text)
  | pair {tree : Tree} {key text : String} :
      tree.DenotesPair (key, text) → Describes context tree (.built (.pair key text))
  | predicate {tree : Tree} {predicate : Predicate} :
      tree.DenotesPredicate predicate → Describes context tree (ofPredicate predicate)
  | routingRule {tree : Tree} {rule : RoutingRule} :
      tree.DenotesRule rule → Describes context tree (ofRoutingRule rule)
  | element {tree : Tree} {element : Element} :
      tree.DenotesElement element → Describes context tree (ofElement element)
  | node {tree : Tree} {node : Node} :
      tree.DenotesNode context.nodeName node → Describes context tree (.built (.node node))
  | frontMatter {tree : Tree} {attributes : FrontMatter} :
      tree.DenotesNode context.nodeName ⟨context.nodeName, [], attributes⟩ →
      Describes context tree (.sequence [.built (.frontMatter attributes)])
  | sequence {trees : List Tree} {values : List Value} :
      List.Forall₂ (Describes context) trees values →
      Describes context (.sequence trees) (.sequence values)
  | group {entries : List (String × Tree)} {values : List (String × Value)} :
      Describes context (.group entries) (.group values)

theorem Describes.text_inv {tree : Tree} {text : String}
    (described : Describes context tree (.leaf text)) : tree.DenotesText text := by
  cases described with
  | text denotes => exact denotes

theorem Describes.pair_inv {tree : Tree} {pair : String × String}
    (described : Describes context tree (.built (.pair pair.1 pair.2))) :
    tree.DenotesPair pair := by
  cases described with
  | pair denotes => exact denotes

theorem Describes.predicate_inv {tree : Tree} {predicate : Predicate}
    (described : Describes context tree (ofPredicate predicate)) :
    tree.DenotesPredicate predicate := by
  cases described with
  | predicate denotes => exact denotes

theorem Describes.routingRule_inv {tree : Tree} {rule : RoutingRule}
    (described : Describes context tree (ofRoutingRule rule)) : tree.DenotesRule rule := by
  cases described with
  | routingRule denotes => exact denotes

theorem Describes.element_inv {tree : Tree} {element : Element}
    (described : Describes context tree (ofElement element)) : tree.DenotesElement element := by
  cases described with
  | element denotes => exact denotes

theorem Describes.sequence_inv {tree : Tree} {values : List Value}
    (described : Describes context tree (.sequence values)) :
    (∃ attributes, values = [.built (.frontMatter attributes)] ∧
      tree.DenotesNode context.nodeName ⟨context.nodeName, [], attributes⟩) ∨
    ∃ trees, tree = .sequence trees ∧ List.Forall₂ (Describes context) trees values := by
  cases described with
  | frontMatter denotes => exact .inl ⟨_, rfl, denotes⟩
  | sequence described => exact .inr ⟨_, rfl, described⟩

/-- The tree is rewritten to the value and the grammar describes it. -/
def Known (context : Context) (tree : Tree) (value : Value) : Prop :=
  all.Evaluates context tree value ∧ Describes context tree value

/-- A value that converts to a list of items describes a list of them. -/
theorem Known.denotesList {α : Type} {conversion : Value → Except TransformError α}
    {embed : α → Value} (converts : Value.Converts conversion embed)
    {Item : Tree → α → Prop} {tree : Tree} {value : Value} {items : List α}
    (known : Known context tree value)
    (converted : value.toItems.mapM conversion = .ok items)
    (invert : ∀ inner item, Describes context inner (embed item) → Item inner item) :
    tree.DenotesList Item items := by
  obtain ⟨evaluated, shape⟩ := known
  rcases converts.mapM_toItems_eq_ok_iff.1 converted with
    ⟨rfl, rfl⟩ | rfl | ⟨item, rfl, full, rfl⟩
  · exact .empty shape.text_inv
  · rcases shape.sequence_inv with ⟨attributes, same, _⟩ | ⟨trees, rfl, related⟩
    · -- Front matter in a list is an object that no conversion takes.
      obtain ⟨item, rfl, embedded⟩ := List.map_eq_singleton_iff.1 same
      rcases converts.atomic item with ⟨text, leaf⟩ | ⟨object, built, other⟩
      · rw [leaf] at embedded
        cases embedded
      · rw [built] at embedded
        exact absurd (Value.built.inj embedded) (other attributes)
    · apply Tree.DenotesList.sequence
      exact (List.forall₂_map_right_iff.1 related).imp invert
  · refine .single ?_ (invert _ _ shape)
    intro empty
    exact full (evaluates_inj evaluated (evaluates_of_denotesText extendedBy_all empty))

theorem Known.texts {tree : Tree} {value : Value} {texts : List String}
    (known : Known context tree value) (converted : value.toItems.mapM Value.toText = .ok texts) :
    tree.DenotesList Tree.DenotesText texts :=
  known.denotesList Value.converts_text converted fun _ _ => Describes.text_inv

theorem Known.pairs {tree : Tree} {value : Value} {pairs : List (String × String)}
    (known : Known context tree value) (converted : value.toItems.mapM Value.toPair = .ok pairs) :
    tree.DenotesList Tree.DenotesPair pairs :=
  known.denotesList Value.converts_pair converted fun _ _ => Describes.pair_inv

theorem Known.predicates {tree : Tree} {value : Value} {predicates : List Predicate}
    (known : Known context tree value)
    (converted : value.toItems.mapM Value.toPredicate = .ok predicates) :
    tree.DenotesList Tree.DenotesPredicate predicates :=
  known.denotesList Value.converts_predicate converted fun _ _ => Describes.predicate_inv

theorem Known.routingRules {tree : Tree} {value : Value} {rules : List RoutingRule}
    (known : Known context tree value)
    (converted : value.toItems.mapM Value.toRoutingRule = .ok rules) :
    tree.DenotesList Tree.DenotesRule rules :=
  known.denotesList Value.converts_routingRule converted fun _ _ => Describes.routingRule_inv

theorem Known.elements {tree : Tree} {value : Value} {elements : List Element}
    (known : Known context tree value)
    (converted : value.toItems.mapM Value.toElement = .ok elements) :
    tree.DenotesList Tree.DenotesElement elements :=
  known.denotesList Value.converts_element converted fun _ _ => Describes.element_inv

/-! ## One step down -/

section

variable {tree : Tree} {result : Value}

theorem describes_textElement {name tag slot : String} {element : String → Element}
    (production : ∀ inner text, inner.DenotesText text →
      (Tree.group [(tag, inner)]).DenotesElement (element text))
    (rewrites : (textElement name tag slot element).Rewrites (Known context) context tree result) :
    Describes context tree result := by
  obtain ⟨inner, text, rfl, known, rfl⟩ := rewrites_textElement.1 rewrites
  exact .element (production inner text known.2.text_inv)

theorem describes_unwrapped {name tag slot : String}
    (production : ∀ inner text, inner.DenotesText text →
      (Tree.group [(tag, inner)]).DenotesText text)
    (rewrites : (unwrapped name tag slot).Rewrites (Known context) context tree result) :
    Describes context tree result := by
  obtain ⟨inner, text, rfl, known, rfl⟩ := rewrites_unwrapped.1 rewrites
  exact .text (production inner text known.2.text_inv)

theorem describes_pair {name keyTag textTag : String} (apart : keyTag ≠ textTag)
    (production : ∀ entries keyTree key textTree text,
      List.Perm entries [(keyTag, keyTree), (textTag, textTree)] → keyTree.DenotesText key →
      textTree.DenotesText text → (Tree.group entries).DenotesPair (key, text))
    (rewrites : (pair name keyTag textTag).Rewrites (Known context) context tree result) :
    Describes context tree result := by
  obtain ⟨entries, keyTree, key, textTree, text, rfl, order, keyKnown, textKnown, rfl⟩ :=
    (rewrites_pair apart).1 rewrites
  exact .pair (production entries keyTree key textTree text order keyKnown.2.text_inv
    textKnown.2.text_inv)

theorem describes_plainQuestion {name tag : String} {question : String → Question}
    (production : ∀ inner identifier, inner.DenotesText identifier →
      (Tree.group [(tag, .group [("identifier", inner)])]).DenotesElement
        (.question (question identifier)))
    (rewrites : (plainQuestion name tag question).Rewrites (Known context) context tree result) :
    Describes context tree result := by
  obtain ⟨inner, identifier, rfl, known, rfl⟩ := rewrites_plainQuestion.1 rewrites
  exact .element (production inner identifier known.2.text_inv)

theorem describes_nodeWithFrontMatter
    (rewrites : nodeWithFrontMatter.Rewrites (Known context) context tree result) :
    Describes context tree result := by
  obtain ⟨_, _, _, _, _, _, _, rfl, order, attributes, body, pairs, elements, rfl⟩ :=
    rewrites_nodeWithFrontMatter.1 rewrites
  exact .node (.whole order (attributes.pairs pairs) (SortedMap.collects_ofList _)
    (body.elements elements))

theorem describes_frontMatter
    (rewrites : frontMatter.Rewrites (Known context) context tree result) :
    Describes context tree result := by
  obtain ⟨_, _, _, rfl, attributes, pairs, rfl⟩ := rewrites_frontMatter.1 rewrites
  exact .frontMatter (.frontMatter (attributes.pairs pairs) (SortedMap.collects_ofList _))

theorem describes_node
    (rewrites : FlowRules.node.Rewrites (Known context) context tree result) :
    Describes context tree result := by
  obtain ⟨_, _, _, rfl, body, elements, rfl⟩ := rewrites_node.1 rewrites
  exact .node (.body (body.elements elements))

theorem describes_multipleChoice
    (rewrites : multipleChoice.Rewrites (Known context) context tree result) :
    Describes context tree result := by
  obtain ⟨_, _, _, _, _, _, rfl, order, identifier, options, pairs, rfl⟩ :=
    rewrites_multipleChoice.1 rewrites
  exact .element (.multipleChoice order identifier.2.text_inv (options.pairs pairs)
    (OrderedMap.collects_ofList _))

theorem describes_nextSteps
    (rewrites : nextSteps.Rewrites (Known context) context tree result) :
    Describes context tree result := by
  obtain ⟨_, _, rfl, text, rfl⟩ := rewrites_nextSteps.1 rewrites
  exact .element (.nextSteps text.2.text_inv)

theorem describes_conditionalWithBothCases
    (rewrites : conditionalWithBothCases.Rewrites (Known context) context tree result) :
    Describes context tree result := by
  obtain ⟨_, _, _, _, _, _, _, _, _, rfl, order, guard, trueCase, falseCase, whenTrue,
    whenFalse, rfl⟩ := rewrites_conditionalWithBothCases.1 rewrites
  exact .element (.bothCases order guard.2.predicate_inv (trueCase.elements whenTrue)
    (falseCase.elements whenFalse))

theorem describes_conditionalWithTrueCase
    (rewrites : conditionalWithTrueCase.Rewrites (Known context) context tree result) :
    Describes context tree result := by
  obtain ⟨_, _, _, _, _, _, rfl, order, guard, trueCase, whenTrue, rfl⟩ :=
    rewrites_conditionalWithTrueCase.1 rewrites
  exact .element (.trueCase order guard.2.predicate_inv (trueCase.elements whenTrue))

theorem describes_conditional
    (rewrites : conditional.Rewrites (Known context) context tree result) :
    Describes context tree result := by
  obtain ⟨_, _, rfl, guard, rfl⟩ := rewrites_conditional.1 rewrites
  exact .element (.noCase guard.2.predicate_inv)

theorem describes_equalityPredicate
    (rewrites : equalityPredicate.Rewrites (Known context) context tree result) :
    Describes context tree result := by
  obtain ⟨_, _, _, _, _, rfl, order, varname, expected, rfl⟩ :=
    rewrites_equalityPredicate.1 rewrites
  exact .predicate (.equality order varname.2.text_inv expected.2.text_inv)

theorem describes_setMembershipPredicate
    (rewrites : setMembershipPredicate.Rewrites (Known context) context tree result) :
    Describes context tree result := by
  obtain ⟨_, _, _, _, _, _, rfl, order, varname, values, texts, rfl⟩ :=
    rewrites_setMembershipPredicate.1 rewrites
  exact .predicate (.membership order varname.2.text_inv (values.texts texts)
    (OrderedSet.collects_ofList _))

theorem describes_namedPredicate
    (rewrites : namedPredicate.Rewrites (Known context) context tree result) :
    Describes context tree result := by
  obtain ⟨_, _, rfl, name, rfl⟩ := rewrites_namedPredicate.1 rewrites
  exact .predicate (.named name.2.text_inv)

theorem describes_otherwisePredicate
    (rewrites : otherwisePredicate.Rewrites (Known context) context tree result) :
    Describes context tree result := by
  obtain ⟨⟨_, rfl, _, text⟩, rfl⟩ := rewrites_otherwisePredicate.1 rewrites
  exact .predicate (.otherwise text.2.text_inv)

theorem describes_combinedPredicate
    (rewrites : combinedPredicate.Rewrites (Known context) context tree result) :
    Describes context tree result := by
  obtain ⟨_, _, _, _, _, _, rfl, order, first, values, others, rfl⟩ :=
    rewrites_combinedPredicate.1 rewrites
  exact .predicate (.combined order first.2.predicate_inv (values.predicates others))

theorem describes_functionPredicateWithArguments
    (rewrites : functionPredicateWithArguments.Rewrites (Known context) context tree result) :
    Describes context tree result := by
  obtain ⟨_, _, _, _, _, _, rfl, order, name, values, arguments, rfl⟩ :=
    rewrites_functionPredicateWithArguments.1 rewrites
  exact .predicate (.application order name.2.text_inv (values.texts arguments))

theorem describes_functionPredicate
    (rewrites : functionPredicate.Rewrites (Known context) context tree result) :
    Describes context tree result := by
  obtain ⟨_, _, rfl, name, rfl⟩ := rewrites_functionPredicate.1 rewrites
  exact .predicate (.bareFunction name.2.text_inv)

theorem describes_comparisonPredicate
    (rewrites : comparisonPredicate.Rewrites (Known context) context tree result) :
    Describes context tree result := by
  obtain ⟨_, _, _, _, _, _, _, rfl, order, varname, value, symbol, rfl⟩ :=
    rewrites_comparisonPredicate.1 rewrites
  exact .predicate (.comparison order varname.2.text_inv value.2.text_inv symbol.2.text_inv)

theorem describes_routingRule
    (rewrites : routingRule.Rewrites (Known context) context tree result) :
    Describes context tree result := by
  obtain ⟨_, _, _, _, _, rfl, order, guard, outcome, rfl⟩ := rewrites_routingRule.1 rewrites
  exact .routingRule (.direct order guard.2.predicate_inv outcome.2.text_inv)

theorem describes_nestedRule
    (rewrites : nestedRule.Rewrites (Known context) context tree result) :
    Describes context tree result := by
  obtain ⟨_, _, _, _, _, _, rfl, order, guard, values, children, rfl⟩ :=
    rewrites_nestedRule.1 rewrites
  exact .routingRule (.nested order guard.2.predicate_inv (values.routingRules children))

theorem describes_nextNodeRules
    (rewrites : nextNodeRules.Rewrites (Known context) context tree result) :
    Describes context tree result := by
  obtain ⟨_, _, _, rfl, value, rules, rfl⟩ := rewrites_nextNodeRules.1 rewrites
  exact .element (.routing (value.routingRules rules))

end

/-- A rule whose subtrees are described answers something described. -/
theorem describes_of_rewrites : ∀ rule ∈ all, ∀ tree result,
    rule.Rewrites (Known context) context tree result → Describes context tree result := by
  simp only [all, List.forall_mem_cons, List.not_mem_nil, IsEmpty.forall_iff, implies_true,
    and_true]
  exact ⟨fun _ _ => describes_nodeWithFrontMatter,
    fun _ _ => describes_frontMatter,
    fun _ _ => describes_node,
    fun _ _ => describes_textElement fun _ _ => .heading,
    fun _ _ => describes_textElement fun _ _ => .paragraph,
    fun _ _ => describes_textElement fun _ _ => .startButton,
    fun _ _ => describes_pair (by decide) fun _ _ _ _ _ => .frontMatterAttribute,
    fun _ _ => describes_pair (by decide) fun _ _ _ _ _ => .choiceOption,
    fun _ _ => describes_pair (by decide) fun _ _ _ _ _ => .link,
    fun _ _ => describes_multipleChoice,
    fun _ _ => describes_plainQuestion fun _ _ => .date,
    fun _ _ => describes_plainQuestion fun _ _ => .salary,
    fun _ _ => describes_plainQuestion fun _ _ => .text,
    fun _ _ => describes_nextSteps,
    fun _ _ => describes_conditionalWithBothCases,
    fun _ _ => describes_conditionalWithTrueCase,
    fun _ _ => describes_conditional,
    fun _ _ => describes_equalityPredicate,
    fun _ _ => describes_unwrapped fun _ _ => .setValue,
    fun _ _ => describes_setMembershipPredicate,
    fun _ _ => describes_namedPredicate,
    fun _ _ => describes_otherwisePredicate,
    fun _ _ => describes_combinedPredicate,
    fun _ _ => describes_unwrapped fun _ _ => .functionArgument,
    fun _ _ => describes_functionPredicateWithArguments,
    fun _ _ => describes_functionPredicate,
    fun _ _ => describes_comparisonPredicate,
    fun _ _ => describes_routingRule,
    fun _ _ => describes_nestedRule,
    fun _ _ => describes_nextNodeRules⟩

/-- Whatever a tree is rewritten to, the grammar describes. -/
theorem describes_of_evaluates {tree : Tree} {value : Value}
    (evaluated : all.Evaluates context tree value) : Describes context tree value := by
  induction tree using Tree.smallerInduction generalizing value with
  | step tree ih =>
      cases tree with
      | leaf text =>
          cases evaluates_inj evaluated evaluates_leaf
          exact .text .leaf
      | sequence items =>
          obtain ⟨values, related, rfl⟩ :=
            (RuleList.evaluates_sequence_iff groupsConsumed_all.firstMatch?_sequence).1 evaluated
          apply Describes.sequence
          apply Tree.forall₂_imp_of_mem related
          intro item member value
          exact ih item (Tree.depth_lt_of_item member)
      | group entries =>
          rcases RuleList.evaluates_group_cases groupsConsumed_all evaluated with
            ⟨rule, member, bindings, read, built⟩ | ⟨values, _, rfl⟩
          · obtain ⟨templates, shape⟩ := groupsConsumed_all.rooted rule member
            rw [shape] at read
            -- What the rule reads below the group is smaller, so it is described already.
            have known : Pattern.Reads (Known context) (.group templates) _ bindings :=
              read.mono_group fun subtree value smaller evaluated =>
                ⟨evaluated, ih subtree smaller evaluated⟩
            rw [← shape] at known
            exact describes_of_rewrites rule member _ _ ⟨bindings, known, built⟩
          · exact .group

theorem denotesNode_of_describes {tree : Tree} {value : Value} {node : Node}
    (described : Describes context tree value)
    (converted : value.toNode context.nodeName = .ok node) :
    tree.DenotesNode context.nodeName node := by
  unfold Value.toNode at converted
  split at converted
  · cases converted
    cases described with
    | node denotes => exact denotes
  · cases converted
    rcases described.sequence_inv with ⟨attributes, same, denotes⟩ | ⟨trees, rfl, related⟩
    · cases same
      exact denotes
    · obtain ⟨item, _, described, _, _⟩ := List.forall₂_cons_right_iff.1 related
      cases described
  · cases converted

end FlowRules

end InterviewFlow
