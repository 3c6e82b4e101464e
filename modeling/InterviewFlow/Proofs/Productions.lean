import InterviewFlow.Proofs.Templates

/-! The flow rules as productions. Each rule is run once on the captures of its
own pattern, which leaves one equivalence a rule: the shape of the trees it
reads, what is read below them and the object it answers. No flow rule can match
a group template inside another one's pattern, and none answers a group. -/

set_option autoImplicit false

namespace InterviewFlow

namespace Consume

theorem run_take (slot : String) (captures : Captures) :
    (take slot).run captures =
      match captures.get? slot with
      | some value => (.ok value, captures.erase slot)
      | none => (.error (.missingCapture slot), captures) := by
  change ((match captures.get? slot with
    | some value => do
        modify fun captures => captures.erase slot
        return value
    | none => throw (.missingCapture slot) : Consume Value)).run captures = _
  cases captures.get? slot <;> rfl

theorem run_bind {α β : Type} (first : Consume α) (next : α → Consume β) (captures : Captures) :
    (first >>= next).run captures =
      match first.run captures with
      | (.ok value, left) => (next value).run left
      | (.error error, left) => (.error error, left) := by
  change ExceptT.bindCont next (first.run captures).1 (first.run captures).2 = _
  rcases first.run captures with ⟨_ | _, left⟩ <;> rfl

@[simp] theorem result_pure {α : Type} (value : α) (captures : Captures) :
    (pure value : Consume α).result captures = .ok value := rfl

/-- Reading a slot gives its value to the conversion and leaves the other slots. -/
@[simp] theorem result_convert_bind {α β : Type} {slot : String}
    {conversion : Value → Except TransformError α} {next : α → Consume β}
    {captures : Captures} :
    (convert slot conversion >>= next).result captures =
      match captures.get? slot with
      | some value => conversion value >>= fun converted =>
          (next converted).result (captures.erase slot)
      | none => .error (.missingCapture slot) := by
  rw [result, convert, run_bind, run_bind, run_take]
  cases captures.get? slot with
  | none => rfl
  | some value =>
      change (match (conversion value, captures.erase slot) with
        | (.ok converted, left) => (next converted).run left
        | (.error error, left) => (.error error, left)).1 =
          conversion value >>= fun converted => (next converted).result (captures.erase slot)
      cases conversion value <;> rfl

@[simp] theorem result_outcome_bind {α β : Type} {outcome : Except TransformError α}
    {next : α → Consume β} {captures : Captures} :
    result ((ExceptT.mk (pure outcome) : Consume α) >>= next) captures =
      outcome >>= fun value => (next value).result captures := by
  rw [result, run_bind]
  cases outcome <;> rfl

@[simp] theorem text_eq (slot : String) : text slot = convert slot Value.toText := rfl

@[simp] theorem predicate_eq (slot : String) :
    predicate slot = convert slot Value.toPredicate := rfl

@[simp] theorem texts_eq (slot : String) :
    texts slot = convert slot fun value => value.toItems.mapM Value.toText := rfl

@[simp] theorem predicates_eq (slot : String) :
    predicates slot = convert slot fun value => value.toItems.mapM Value.toPredicate := rfl

@[simp] theorem elements_eq (slot : String) :
    elements slot = convert slot fun value => value.toItems.mapM Value.toElement := rfl

@[simp] theorem routingRules_eq (slot : String) :
    routingRules slot = convert slot fun value => value.toItems.mapM Value.toRoutingRule := rfl

@[simp] theorem pairs_eq (slot : String) :
    pairs slot = convert slot fun value => value.toItems.mapM Value.toPair := rfl

/-! ## Computations that never answer a group -/

/-- Whatever is captured, the answer is no group. -/
def AnswersNoGroup (consume : Consume Value) : Prop :=
  ∀ captures entries, consume.result captures ≠ .ok (.group entries)

theorem AnswersNoGroup.bind {α : Type} {first : Consume α} {next : α → Consume Value}
    (answers : ∀ value, AnswersNoGroup (next value)) : AnswersNoGroup (first >>= next) := by
  intro captures entries done
  rw [result, run_bind] at done
  split at done
  · next value left _ => exact answers value left entries done
  · cases done

theorem AnswersNoGroup.pure {value : Value} (other : ∀ entries, value ≠ .group entries) :
    AnswersNoGroup (Pure.pure value) := by
  intro captures entries done
  exact other entries (Except.ok.inj done)

end Consume

@[simp] theorem Captures.bindAll_cons (captures : Captures) (binding : String × Value)
    (rest : List (String × Value)) :
    captures.bindAll (binding :: rest) = (captures.bind binding.1 binding.2).bindAll rest := rfl

@[simp] theorem Captures.bindAll_nil (captures : Captures) : captures.bindAll [] = captures := rfl

@[simp] theorem Captures.ofList_cons (binding : String × Value) (rest : List (String × Value)) :
    Captures.ofList (binding :: rest) =
      (Captures.empty.bind binding.1 binding.2).bindAll rest := rfl

@[simp] theorem Builder.ofConsume_apply (consume : Context → Consume Value) (context : Context)
    (captures : Captures) :
    Builder.ofConsume consume context captures = (consume context).result captures := rfl

@[simp] theorem Except.ok_bind {ε α β : Type} (value : α) (next : α → Except ε β) :
    (Except.ok value >>= next) = next value := rfl

theorem ComparisonOperator.ofSymbol_eq_ok_iff {text : String} {operator : ComparisonOperator} :
    ofSymbol text = .ok operator ↔ text = operator.symbol := by
  rw [← ofSymbol?_eq_some_iff, ofSymbol]
  cases ofSymbol? text <;> simp

namespace Value

theorem toText_eq_ok_iff {value : Value} {text : String} :
    value.toText = .ok text ↔ value = .leaf text := by
  cases value <;> simp [toText, mismatch]

theorem toPredicate_eq_ok_iff {value : Value} {predicate : Predicate} :
    value.toPredicate = .ok predicate ↔ value = FlowRules.ofPredicate predicate := by
  rcases value with _ | _ | _ | (_ | _ | _ | _ | _ | _) <;>
    simp [toPredicate, mismatch, FlowRules.ofPredicate]

theorem toElement_eq_ok_iff {value : Value} {element : Element} :
    value.toElement = .ok element ↔ value = FlowRules.ofElement element := by
  rcases value with _ | _ | _ | (_ | _ | _ | _ | _ | _) <;>
    simp [toElement, mismatch, FlowRules.ofElement]

theorem toRoutingRule_eq_ok_iff {value : Value} {rule : RoutingRule} :
    value.toRoutingRule = .ok rule ↔ value = FlowRules.ofRoutingRule rule := by
  rcases value with _ | _ | _ | (_ | _ | _ | _ | _ | _) <;>
    simp [toRoutingRule, mismatch, FlowRules.ofRoutingRule]

theorem toPair_eq_ok_iff {value : Value} {pair : String × String} :
    value.toPair = .ok pair ↔ value = .built (.pair pair.1 pair.2) := by
  rcases value with _ | _ | _ | (_ | _ | _ | _ | _ | _) <;>
    simp [toPair, mismatch, Prod.ext_iff]

/-- The conversion succeeds on exactly the values that stand for an item, and such
a value is a text or an object other than front matter. -/
structure Converts {α : Type} (conversion : Value → Except TransformError α)
    (embed : α → Value) : Prop where
  iff : ∀ value item, conversion value = .ok item ↔ value = embed item
  atomic : ∀ item, (∃ text, embed item = .leaf text) ∨
    ∃ object, embed item = .built object ∧ ∀ attributes, object ≠ .frontMatter attributes

theorem converts_text : Converts toText .leaf where
  iff _ _ := toText_eq_ok_iff
  atomic text := .inl ⟨text, rfl⟩

theorem converts_predicate : Converts toPredicate FlowRules.ofPredicate where
  iff _ _ := toPredicate_eq_ok_iff
  atomic _ := .inr ⟨_, rfl, nofun⟩

theorem converts_element : Converts toElement FlowRules.ofElement where
  iff _ _ := toElement_eq_ok_iff
  atomic _ := .inr ⟨_, rfl, nofun⟩

theorem converts_routingRule : Converts toRoutingRule FlowRules.ofRoutingRule where
  iff _ _ := toRoutingRule_eq_ok_iff
  atomic _ := .inr ⟨_, rfl, nofun⟩

theorem converts_pair : Converts toPair fun pair => .built (.pair pair.1 pair.2) where
  iff _ _ := toPair_eq_ok_iff
  atomic _ := .inr ⟨_, rfl, nofun⟩

theorem Converts.mapM_eq_ok_iff {α : Type} {conversion : Value → Except TransformError α}
    {embed : α → Value} (converts : Converts conversion embed) {values : List Value}
    {items : List α} : values.mapM conversion = .ok items ↔ values = items.map embed := by
  rw [InterviewFlow.mapM_eq_ok_iff, ← List.forall₂_eq_eq_eq, List.forall₂_map_right_iff]
  simp only [converts.iff]

/-- What a value stands for as a list: nothing, its items, or itself. -/
theorem Converts.mapM_toItems_eq_ok_iff {α : Type}
    {conversion : Value → Except TransformError α} {embed : α → Value}
    (converts : Converts conversion embed) {value : Value} {items : List α} :
    value.toItems.mapM conversion = .ok items ↔
      (value = .leaf "" ∧ items = []) ∨ value = .sequence (items.map embed) ∨
        ∃ item, value = embed item ∧ value ≠ .leaf "" ∧ items = [item] := by
  have single : [value] = items.map embed ↔ ∃ item, value = embed item ∧ items = [item] := by
    rw [eq_comm, List.map_eq_singleton_iff]
    simp only [eq_comm, and_comm]
  rw [converts.mapM_eq_ok_iff]
  cases value with
  | leaf text =>
      by_cases empty : text = ""
      · simp [toItems, empty, eq_comm]
      · simp [toItems, empty, single]
  | sequence values =>
      have notItem : ∀ item, Value.sequence values ≠ embed item := by
        intro item same
        rcases converts.atomic item with ⟨text, shape⟩ | ⟨object, shape, _⟩ <;>
          simp [shape] at same
      simp [toItems, notItem]
  | group entries => simp [toItems, single]
  | built object => simp [toItems, single]

end Value

namespace FlowRules

open RewriteRule Pattern

variable {Related : Tree → Value → Prop} {context : Context} {tree : Tree} {result : Value}

theorem rewrites_nodeWithFrontMatter :
    nodeWithFrontMatter.Rewrites Related context tree result ↔
      ∃ entries attributesTree attributes bodyTree body pairs elements,
        tree = .group entries ∧
        entries.Perm [("front_matter", attributesTree), ("body", bodyTree)] ∧
        Related attributesTree attributes ∧
        Related bodyTree body ∧
        attributes.toItems.mapM Value.toPair = .ok pairs ∧
        body.toItems.mapM Value.toElement = .ok elements ∧
        result = .built (.node ⟨context.nodeName, elements, .ofList pairs⟩) := by
  simp [Rewrites, nodeWithFrontMatter, bind_eq_ok_iff, and_assoc, @eq_comm _ _ result,
    -bind_pure_comp]

theorem rewrites_frontMatter :
    frontMatter.Rewrites Related context tree result ↔
      ∃ attributesTree attributes pairs,
        tree = .group [("front_matter", attributesTree)] ∧
        Related attributesTree attributes ∧
        attributes.toItems.mapM Value.toPair = .ok pairs ∧
        result = .sequence [.built (.frontMatter (.ofList pairs))] := by
  simp [Rewrites, frontMatter, rule, bind_eq_ok_iff, and_assoc, @eq_comm _ _ result,
    -bind_pure_comp]

theorem rewrites_node :
    node.Rewrites Related context tree result ↔
      ∃ bodyTree body elements,
        tree = .group [("body", bodyTree)] ∧
        Related bodyTree body ∧
        body.toItems.mapM Value.toElement = .ok elements ∧
        result = .built (.node ⟨context.nodeName, elements, .empty⟩) := by
  simp [Rewrites, node, bind_eq_ok_iff, and_assoc, @eq_comm _ _ result, -bind_pure_comp]

theorem rewrites_textElement {name tag slot : String} {element : String → Element} :
    (textElement name tag slot element).Rewrites Related context tree result ↔
      ∃ inner text,
        tree = .group [(tag, inner)] ∧
        Related inner (.leaf text) ∧
        result = ofElement (element text) := by
  simp [Rewrites, textElement, rule, Value.toText, and_assoc, @eq_comm _ _ result, -bind_pure_comp]

theorem rewrites_unwrapped {name tag slot : String} :
    (unwrapped name tag slot).Rewrites Related context tree result ↔
      ∃ inner text,
        tree = .group [(tag, inner)] ∧
        Related inner (.leaf text) ∧
        result = .leaf text := by
  simp [Rewrites, unwrapped, rule, Value.toText, and_assoc, @eq_comm _ _ result, -bind_pure_comp]

theorem rewrites_pair {name keyTag textTag : String} (apart : keyTag ≠ textTag) :
    (pair name keyTag textTag).Rewrites Related context tree result ↔
      ∃ entries keyTree key textTree text,
        tree = .group entries ∧
        entries.Perm [(keyTag, keyTree), (textTag, textTree)] ∧
        Related keyTree (.leaf key) ∧
        Related textTree (.leaf text) ∧
        result = .built (.pair key text) := by
  simp [Rewrites, pair, rule, apart, Ne.symm apart, Value.toText, and_assoc, @eq_comm _ _ result,
    -bind_pure_comp]

theorem rewrites_multipleChoice :
    multipleChoice.Rewrites Related context tree result ↔
      ∃ entries identifierTree identifier optionsTree options pairs,
        tree = .group [("multiple_choice", .group entries)] ∧
        entries.Perm [("identifier", identifierTree), ("options", optionsTree)] ∧
        Related identifierTree (.leaf identifier) ∧
        Related optionsTree options ∧
        options.toItems.mapM Value.toPair = .ok pairs ∧
        result = ofElement (.question (.multipleChoice identifier (.ofList pairs))) := by
  simp [Rewrites, multipleChoice, rule, Value.toText, bind_eq_ok_iff, and_assoc, @eq_comm _ _
    result, -bind_pure_comp]

theorem rewrites_plainQuestion {name tag : String} {question : String → Question} :
    (plainQuestion name tag question).Rewrites Related context tree result ↔
      ∃ inner identifier,
        tree = .group [(tag, .group [("identifier", inner)])] ∧
        Related inner (.leaf identifier) ∧
        result = ofElement (.question (question identifier)) := by
  simp [Rewrites, plainQuestion, rule, Value.toText, and_assoc, @eq_comm _ _ result,
    -bind_pure_comp]

theorem rewrites_nextSteps :
    nextSteps.Rewrites Related context tree result ↔
      ∃ inner text,
        tree = .group [("next_steps", .group [("content", inner)])] ∧
        Related inner (.leaf text) ∧
        result = ofElement (.nextSteps text) := by
  simp [Rewrites, nextSteps, rule, Value.toText, and_assoc, @eq_comm _ _ result, -bind_pure_comp]

theorem rewrites_conditionalWithBothCases :
    conditionalWithBothCases.Rewrites Related context tree result ↔
      ∃ entries guardTree trueTree trueValue falseTree falseValue guard whenTrue whenFalse,
        tree = .group [("conditional", .group entries)] ∧
        entries.Perm [("predicate", guardTree), ("true_case", trueTree),
          ("false_case", falseTree)] ∧
        Related guardTree (ofPredicate guard) ∧
        Related trueTree trueValue ∧
        Related falseTree falseValue ∧
        trueValue.toItems.mapM Value.toElement = .ok whenTrue ∧
        falseValue.toItems.mapM Value.toElement = .ok whenFalse ∧
        result = ofElement (.conditional guard whenTrue whenFalse) := by
  simp [Rewrites, conditionalWithBothCases, rule, bind_eq_ok_iff, Value.toPredicate_eq_ok_iff,
    and_assoc, @eq_comm _ _ result, -bind_pure_comp]

theorem rewrites_conditionalWithTrueCase :
    conditionalWithTrueCase.Rewrites Related context tree result ↔
      ∃ entries guardTree trueTree trueValue guard whenTrue,
        tree = .group [("conditional", .group entries)] ∧
        entries.Perm [("predicate", guardTree), ("true_case", trueTree)] ∧
        Related guardTree (ofPredicate guard) ∧
        Related trueTree trueValue ∧
        trueValue.toItems.mapM Value.toElement = .ok whenTrue ∧
        result = ofElement (.conditional guard whenTrue []) := by
  simp [Rewrites, conditionalWithTrueCase, rule, bind_eq_ok_iff, Value.toPredicate_eq_ok_iff,
    and_assoc, @eq_comm _ _ result, -bind_pure_comp]

theorem rewrites_conditional :
    conditional.Rewrites Related context tree result ↔
      ∃ guardTree guard,
        tree = .group [("conditional", .group [("predicate", guardTree)])] ∧
        Related guardTree (ofPredicate guard) ∧
        result = ofElement (.conditional guard [] []) := by
  simp [Rewrites, conditional, rule, bind_eq_ok_iff, Value.toPredicate_eq_ok_iff, and_assoc,
    @eq_comm _ _ result, -bind_pure_comp]

theorem rewrites_equalityPredicate :
    equalityPredicate.Rewrites Related context tree result ↔
      ∃ entries varnameTree varname expectedTree expected,
        tree = .group [("equality_predicate", .group entries)] ∧
        entries.Perm [("varname", varnameTree), ("expected_value", expectedTree)] ∧
        Related varnameTree (.leaf varname) ∧
        Related expectedTree (.leaf expected) ∧
        result = ofPredicate (.equality varname expected) := by
  simp [Rewrites, equalityPredicate, rule, Value.toText, and_assoc, @eq_comm _ _ result,
    -bind_pure_comp]

theorem rewrites_setMembershipPredicate :
    setMembershipPredicate.Rewrites Related context tree result ↔
      ∃ entries varnameTree varname valuesTree values texts,
        tree = .group [("set_membership_predicate", .group entries)] ∧
        entries.Perm [("varname", varnameTree), ("values", valuesTree)] ∧
        Related varnameTree (.leaf varname) ∧
        Related valuesTree values ∧
        values.toItems.mapM Value.toText = .ok texts ∧
        result = ofPredicate (.membership varname (.ofList texts)) := by
  simp [Rewrites, setMembershipPredicate, rule, Value.toText, bind_eq_ok_iff, and_assoc, @eq_comm _
    _ result, -bind_pure_comp]

theorem rewrites_namedPredicate :
    namedPredicate.Rewrites Related context tree result ↔
      ∃ inner name,
        tree = .group [("named_predicate", inner)] ∧
        Related inner (.leaf name) ∧
        result = ofPredicate (.named name) := by
  simp [Rewrites, namedPredicate, rule, Value.toText, and_assoc, @eq_comm _ _ result,
    -bind_pure_comp]

theorem rewrites_otherwisePredicate :
    otherwisePredicate.Rewrites Related context tree result ↔
      (∃ inner, tree = .group [("otherwise_predicate", inner)] ∧
        ∃ text, Related inner (.leaf text)) ∧ result = ofPredicate .otherwise := by
  simp [Rewrites, otherwisePredicate, rule, and_assoc, @eq_comm _ _ result, -bind_pure_comp]

theorem rewrites_combinedPredicate :
    combinedPredicate.Rewrites Related context tree result ↔
      ∃ entries firstTree othersTree othersValue first others,
        tree = .group [("combined_predicate", .group entries)] ∧
        entries.Perm [("first_predicate", firstTree), ("and_predicates", othersTree)] ∧
        Related firstTree (ofPredicate first) ∧
        Related othersTree othersValue ∧
        othersValue.toItems.mapM Value.toPredicate = .ok others ∧
        result = ofPredicate (.combined (first :: others)) := by
  simp [Rewrites, combinedPredicate, rule, bind_eq_ok_iff, Predicate.conjunction,
    Value.toPredicate_eq_ok_iff, and_assoc, @eq_comm _ _ result, -bind_pure_comp]

theorem rewrites_functionPredicateWithArguments :
    functionPredicateWithArguments.Rewrites Related context tree result ↔
      ∃ entries nameTree name argumentsTree argumentsValue arguments,
        tree = .group [("function_predicate", .group entries)] ∧
        entries.Perm [("name", nameTree), ("arguments", argumentsTree)] ∧
        Related nameTree (.leaf name) ∧
        Related argumentsTree argumentsValue ∧
        argumentsValue.toItems.mapM Value.toText = .ok arguments ∧
        result = ofPredicate (.function name arguments) := by
  simp [Rewrites, functionPredicateWithArguments, rule, Value.toText, bind_eq_ok_iff, and_assoc,
    @eq_comm _ _ result, -bind_pure_comp]

theorem rewrites_functionPredicate :
    functionPredicate.Rewrites Related context tree result ↔
      ∃ inner name,
        tree = .group [("function_predicate", .group [("name", inner)])] ∧
        Related inner (.leaf name) ∧
        result = ofPredicate (.function name []) := by
  simp [Rewrites, functionPredicate, rule, Value.toText, and_assoc, @eq_comm _ _ result,
    -bind_pure_comp]

theorem rewrites_comparisonPredicate :
    comparisonPredicate.Rewrites Related context tree result ↔
      ∃ entries varnameTree varname valueTree value operatorTree operator,
        tree = .group [("comparison_predicate", .group entries)] ∧
        entries.Perm [("varname", varnameTree), ("value", valueTree),
          ("operator", operatorTree)] ∧
        Related varnameTree (.leaf varname) ∧
        Related valueTree (.leaf value) ∧
        Related operatorTree (.leaf operator.symbol) ∧
        result = ofPredicate (.comparison ⟨operator, varname, value⟩) := by
  simp [Rewrites, comparisonPredicate, rule, Value.toText, bind_eq_ok_iff,
    ComparisonOperator.ofSymbol_eq_ok_iff, and_assoc, @eq_comm _ _ result, -bind_pure_comp]

theorem rewrites_routingRule :
    routingRule.Rewrites Related context tree result ↔
      ∃ entries guardTree outcomeTree outcome guard,
        tree = .group [("rule", .group entries)] ∧
        entries.Perm [("predicate", guardTree), ("outcome", outcomeTree)] ∧
        Related guardTree (ofPredicate guard) ∧
        Related outcomeTree (.leaf outcome) ∧
        result = ofRoutingRule (.direct guard outcome) := by
  simp [Rewrites, routingRule, rule, Value.toText, bind_eq_ok_iff, Value.toPredicate_eq_ok_iff,
    and_assoc, @eq_comm _ _ result, -bind_pure_comp]

theorem rewrites_nestedRule :
    nestedRule.Rewrites Related context tree result ↔
      ∃ entries guardTree childrenTree childrenValue guard children,
        tree = .group [("nested_rule", .group entries)] ∧
        entries.Perm [("predicate", guardTree), ("child_rules", childrenTree)] ∧
        Related guardTree (ofPredicate guard) ∧
        Related childrenTree childrenValue ∧
        childrenValue.toItems.mapM Value.toRoutingRule = .ok children ∧
        result = ofRoutingRule (.nested guard children) := by
  simp [Rewrites, nestedRule, rule, bind_eq_ok_iff, Value.toPredicate_eq_ok_iff, and_assoc, @eq_comm
    _ _ result, -bind_pure_comp]

theorem rewrites_nextNodeRules :
    nextNodeRules.Rewrites Related context tree result ↔
      ∃ inner value rules,
        tree = .group [("next_node_rules", inner)] ∧
        Related inner value ∧
        value.toItems.mapM Value.toRoutingRule = .ok rules ∧
        result = ofElement (.routing rules) := by
  simp [Rewrites, nextNodeRules, rule, bind_eq_ok_iff, and_assoc, @eq_comm _ _ result,
    -bind_pure_comp]

/-! ## The rules together -/

/-- The group templates inside the patterns are left alone by all rules. -/
theorem inert_nestedGroups :
    ∀ rule ∈ all, ∀ inner ∈ rule.pattern.nestedGroups, all.Inert inner := by
  unfold RuleList.Inert
  decide

/-- Every builder uses its captures up step by step and ends in an object, a text
or a list. -/
theorem answersNoGroup_all : ∀ rule ∈ all, ∃ consume : Context → Consume Value,
    rule.build = .ofConsume consume ∧ ∀ context, (consume context).AnswersNoGroup := by
  simp only [all, List.forall_mem_cons, List.not_mem_nil, IsEmpty.forall_iff, implies_true,
    and_true]
  repeat' apply And.intro
  all_goals refine ⟨_, rfl, fun _ => ?_⟩
  all_goals repeat' first
    | exact .pure nofun
    | refine .bind fun _ => ?_

theorem groupsConsumed_all : all.GroupsConsumed where
  rooted := by
    simp only [all, List.forall_mem_cons, List.not_mem_nil, IsEmpty.forall_iff, implies_true,
      and_true]
    repeat' apply And.intro
    all_goals exact ⟨_, rfl⟩
  finished := by
    intro rule member context captures entries
    obtain ⟨consume, built, answers⟩ := answersNoGroup_all rule member
    rw [built]
    exact answers context captures entries

end FlowRules

end InterviewFlow
