import InterviewFlow.Proofs.Builders
import InterviewFlow.Proofs.Census
import InterviewFlow.Proofs.DepthLimit
import InterviewFlow.Proofs.Renaming

/-! Why a document is refused. Besides the depth limit there are three faults of a group in
it, and one of the whole: an operator that is none, a guard that is no predicate, an item of
a list that is not what the list holds, and a document that is not a node. A builder finds
all slots it takes, and a leaf in every slot for one, so no other error comes out. -/

set_option autoImplicit false

namespace InterviewFlow

/-! ## What conversions report -/

namespace Expectation

variable {α : Type} {expected : Expectation} {conversion : Value → Except TransformError α}

theorem Decides.refused (decides : expected.Decides conversion) {value : Value}
    {error : TransformError} (failed : conversion value = .error error) :
    ¬ expected.Accepts value ∧ error = .shapeMismatch expected.describe value.describe := by
  rcases decides value with ⟨_, item, done⟩ | ⟨other, reported⟩
  · rw [done] at failed
    cases failed
  · rw [reported] at failed
    cases failed
    exact ⟨other, rfl⟩

theorem Decides.exists_refused (decides : expected.Decides conversion) {items : List Value}
    {error : TransformError} (failed : items.mapM conversion = .error error) :
    ∃ item ∈ items, ¬ expected.Accepts item ∧
      error = .shapeMismatch expected.describe item.describe := by
  obtain ⟨item, member, refused⟩ := exists_error_of_mapM failed
  exact ⟨item, member, decides.refused refused⟩

theorem decides_node (name : String) : node.Decides (Value.toNode name) := by
  intro value
  match value with
  | .leaf _ | .group _ | .sequence [] | .sequence [.leaf _] | .sequence [.sequence _]
  | .sequence [.group _] => exact .inr ⟨nofun, rfl⟩
  | .built object =>
      cases object with
      | node whole => exact .inl ⟨.node, _, rfl⟩
      | _ => exact .inr ⟨nofun, rfl⟩
  | .sequence [.built object] =>
      cases object with
      | frontMatter attributes => exact .inl ⟨.frontMatter, _, rfl⟩
      | _ => exact .inr ⟨nofun, rfl⟩
  | .sequence (item :: next :: rest) => exact .inr ⟨nofun, Value.toNode_several name item next rest⟩

theorem ne_nil_of_mem_guardPaths : ∀ path ∈ guardPaths, path ≠ [] := by
  decide

theorem ne_nil_of_mem_lists : ∀ entry ∈ lists, entry.2.2 ≠ [] := by
  decide

end Expectation

theorem ComparisonOperator.ofSymbol_eq_error {text : String} {error : TransformError}
    (failed : ofSymbol text = .error error) :
    error = .invalidOperator text ∧ text ∉ ["<", "<=", ">", ">="] := by
  rw [ofSymbol] at failed
  split at failed
  · cases failed
  · next unread =>
      cases failed
      refine ⟨rfl, fun listed => ?_⟩
      simp only [List.mem_cons, List.not_mem_nil, or_false] at listed
      rcases listed with rfl | rfl | rfl | rfl <;> exact absurd unread (by decide)

/-! ## Faults -/

namespace Tree

/-- What the tree holds at the end of a path of tags. -/
def at? : Tree → List String → Option Tree
  | tree, [] => some tree
  | .group entries, tag :: path => (Entries.get? tag entries).bind fun inner => inner.at? path
  | _, _ :: _ => none

/-- What is wrong with a group when a rule matches it and does not build: something it
holds is not what is expected there. -/
inductive Fault (context : Context) (tree : Tree) : TransformError → Prop where
  | operator {inner : Tree} {text : String} :
      tree.at? ["comparison_predicate", "operator"] = some inner → inner.DenotesText text →
      text ∉ ["<", "<=", ">", ">="] → Fault context tree (.invalidOperator text)
  | guard {path : List String} {inner : Tree} {value : Value} :
      path ∈ Expectation.guardPaths → tree.at? path = some inner →
      FlowRules.all.Evaluates context inner value → ¬ Expectation.predicate.Accepts value →
      Fault context tree (.shapeMismatch "a predicate" value.describe)
  | item {expected : Expectation} {words : String} {path : List String} {inner : Tree}
      {value item : Value} :
      (expected, words, path) ∈ Expectation.lists → tree.at? path = some inner →
      FlowRules.all.Evaluates context inner value → item ∈ value.toItems →
      ¬ expected.Accepts item → Fault context tree (.shapeMismatch words item.describe)

theorem Fault.expected_mem {context : Context} {tree : Tree} {expected found : String}
    (fault : tree.Fault context (.shapeMismatch expected found)) :
    expected ∈ ["a predicate", "an element", "a rule or nested rule", "a key/value pair",
      "a leaf"] := by
  have listed : ∀ entry ∈ Expectation.lists, entry.2.1 ∈ ["a predicate", "an element",
      "a rule or nested rule", "a key/value pair", "a leaf"] := by
    decide
  cases fault with
  | guard => exact .head _
  | item place => exact listed _ place

end Tree

namespace FlowRules

variable {context : Context}

theorem exists_at?_below {entries : List (String × Tree)} {values : List (String × Value)}
    (tagwise : Tagwise (all.Evaluates context) entries values) {tag : String} {path : List String}
    {part : Value} (reached : (Value.group values).at? (tag :: path) = some part) :
    ∃ source value, all.Evaluates context source value ∧ value.at? path = some part ∧
      (Tree.group entries).at? (tag :: path) = source.at? path := by
  obtain ⟨value, present, continued⟩ := Option.bind_eq_some_iff.1 reached
  obtain ⟨source, found, evaluated⟩ := tagwise.get?_right present
  refine ⟨source, value, evaluated, continued, ?_⟩
  rw [Tree.at?, found, Option.bind_some]

theorem exists_at?_of_evaluates {tree : Tree} {value part : Value} {path : List String}
    (evaluated : all.Evaluates context tree value) (reached : value.at? path = some part) :
    ∃ inner, tree.at? path = some inner ∧ all.Evaluates context inner part := by
  induction path generalizing tree value with
  | nil =>
      rw [Value.at?] at reached
      cases reached
      exact ⟨tree, by rw [Tree.at?], evaluated⟩
  | cons tag path ih =>
      cases value with
      | leaf text => cases reached
      | built object => cases reached
      | sequence items => cases reached
      | group values =>
          obtain ⟨entries, rfl, tagwise⟩ :=
            RuleList.groupsFromGroups groupsConsumed_all tree values evaluated
          obtain ⟨source, inner, innerEvaluated, continued, same⟩ :=
            exists_at?_below tagwise reached
          rw [same]
          exact ih innerEvaluated continued

theorem exists_at?_of_tagwise {entries : List (String × Tree)} {values : List (String × Value)}
    (tagwise : Tagwise (all.Evaluates context) entries values) {path : List String}
    (below : path ≠ []) {part : Value} (reached : (Value.group values).at? path = some part) :
    ∃ inner, (Tree.group entries).at? path = some inner ∧ all.Evaluates context inner part := by
  cases path with
  | nil => exact absurd rfl below
  | cons tag path =>
      obtain ⟨source, value, evaluated, continued, same⟩ := exists_at?_below tagwise reached
      rw [same]
      exact exists_at?_of_evaluates evaluated continued

end FlowRules

/-! ## Builders -/

namespace Consume

theorem result_convert_of_bound {α β : Type} {slot : String}
    {conversion : Value → Except TransformError α} {next : α → Consume β} {captures : Captures}
    {value : Value} (bound : captures.get? slot = some value) :
    (convert slot conversion >>= next).result captures = conversion value >>= fun converted =>
      (next converted).result (captures.erase slot) := by
  rw [result_convert_bind, bound]

/-- The slots that are not taken hold what they held at first. -/
def Keeps (captures left : Captures) (taken : List String) : Prop :=
  ∀ slot, slot ∉ taken → left.get? slot = captures.get? slot

theorem Keeps.erase {captures left : Captures} {taken : List String}
    (keeps : Keeps captures left taken) (slot : String) :
    Keeps captures (left.erase slot) (slot :: taken) := by
  intro other fresh
  rw [List.mem_cons, not_or] at fresh
  obtain ⟨different, untaken⟩ := fresh
  rw [Captures.get?_erase, if_neg (Ne.symm different)]
  exact keeps other untaken

/-- On the captures of a match of its own pattern a builder fails for a fault of the tree only. -/
theorem Builds.fault {pattern : Pattern} {taken : List String} {consume : Consume Value}
    (builds : Builds pattern taken consume) {context : Context}
    {entries : List (String × Tree)} {values : List (String × Value)}
    (tagwise : Tagwise (FlowRules.all.Evaluates context) entries values) {captures : Captures}
    (matched : pattern.match? (.group values) = some captures) {left : Captures}
    (keeps : Keeps captures left taken) {error : TransformError}
    (failed : consume.result left = .error error) : (Tree.group entries).Fault context error := by
  -- Whatever was taken before, the next slot still holds what the match bound to it.
  induction builds generalizing left with
  | answer => cases failed
  | @text _ slot _ fresh leaf _ ih =>
      obtain ⟨text, bound⟩ := leaf.captured matched
      rw [text_eq, result_convert_of_bound ((keeps slot fresh).trans bound)] at failed
      exact ih text (keeps.erase slot) failed
  | @predicate _ slot _ fresh binds _ ih =>
      obtain ⟨path, place, part, reached, bound⟩ := binds.captured matched
      rw [predicate_eq, result_convert_of_bound ((keeps slot fresh).trans bound),
        bind_eq_error_iff] at failed
      rcases failed with refused | ⟨guard, _, later⟩
      · obtain ⟨inner, found, evaluated⟩ := FlowRules.exists_at?_of_tagwise tagwise
          (Expectation.ne_nil_of_mem_guardPaths path place) reached
        obtain ⟨other, rfl⟩ := Expectation.decides_predicate.refused refused
        exact .guard place found evaluated other
      · exact ih guard (keeps.erase slot) later
  | @items _ slot _ expected _ _ decides fresh binds _ ih =>
      obtain ⟨path, place, part, reached, bound⟩ := binds.captured matched
      rw [result_convert_of_bound ((keeps slot fresh).trans bound), bind_eq_error_iff] at failed
      rcases failed with refused | ⟨items, _, later⟩
      · have listed := Expectation.mem_lists_of_mem_listPaths place
        obtain ⟨inner, found, evaluated⟩ := FlowRules.exists_at?_of_tagwise tagwise
          (Expectation.ne_nil_of_mem_lists _ listed) reached
        obtain ⟨item, member, other, rfl⟩ := decides.exists_refused refused
        exact .item listed found evaluated member other
      · exact ih items (keeps.erase slot) later
  | @operator _ slot _ fresh leaf binds _ ih =>
      obtain ⟨path, place, part, reached, bound⟩ := binds.captured matched
      obtain ⟨text, shape⟩ := leaf.captured matched
      rw [text_eq, result_convert_of_bound ((keeps slot fresh).trans bound)] at failed
      cases bound.symm.trans shape
      rw [Value.toText, Except.ok_bind, result_outcome_bind, bind_eq_error_iff] at failed
      rcases failed with refused | ⟨operator, _, later⟩
      · cases List.mem_singleton.1 place
        obtain ⟨inner, found, evaluated⟩ :=
          FlowRules.exists_at?_of_tagwise tagwise (by simp) reached
        obtain ⟨rfl, unknown⟩ := ComparisonOperator.ofSymbol_eq_error refused
        exact .operator found (FlowRules.describes_of_evaluates evaluated).text_inv unknown
      · exact ih operator (keeps.erase slot) later
  | conjunction _ ih =>
      rw [result_outcome_bind, Predicate.conjunction] at failed
      exact ih _ keeps failed

end Consume

/-! ## Documents -/

/-- Rewriting fails at a group that a rule matches once its members are rewritten. -/
theorem RuleList.exists_failed_build {rules : RuleList} {context : Context}
    (consumed : rules.GroupsConsumed) {tree : Tree} {error : TransformError}
    (failed : rules.evaluate context tree = .error error) :
    ∃ entries values, .group entries ∈ tree.subtrees ∧
      Tagwise (rules.Evaluates context) entries values ∧ ∃ rule ∈ rules, ∃ captures,
        rule.pattern.match? (.group values) = some captures ∧
          rule.build context captures = .error error := by
  induction tree using Tree.memberInduction with
  | leaf text =>
      rw [evaluate] at failed
      cases failed
  | sequence items ih =>
      rw [evaluate, bind_eq_error_iff, evaluateItems_eq_mapM] at failed
      rcases failed with below | ⟨values, _, here⟩
      · obtain ⟨item, member, itemFailed⟩ := exists_error_of_mapM below
        obtain ⟨entries, values, inside, found⟩ := ih item member itemFailed
        refine ⟨entries, values, ?_, found⟩
        rw [Tree.subtrees, Tree.subtreesOfItems_eq_flatMap]
        exact List.mem_cons_of_mem _ (List.mem_flatMap.2 ⟨item, member, inside⟩)
      · simp only [replace, consumed.firstMatch?_sequence] at here
        cases here
  | group entries ih =>
      rw [evaluate, bind_eq_error_iff] at failed
      rcases failed with below | ⟨values, done, here⟩
      · rw [evaluateEntries_eq_mapM] at below
        obtain ⟨entry, member, entryFailed⟩ := exists_error_of_mapM below
        rcases bind_eq_error_iff.1 entryFailed with treeFailed | ⟨_, _, impossible⟩
        · obtain ⟨others, values, inside, found⟩ := ih entry member treeFailed
          refine ⟨others, values, ?_, found⟩
          rw [Tree.subtrees, Tree.subtreesOfEntries_eq_flatMap]
          exact List.mem_cons_of_mem _ (List.mem_flatMap.2 ⟨entry, member, inside⟩)
        · cases impossible
      · rw [replace] at here
        split at here
        · next rule captures found =>
            obtain ⟨member, matched⟩ := mem_of_firstMatch? found
            exact ⟨entries, values, by simp [Tree.subtrees], evaluateEntries_eq_ok_iff.1 done,
              rule, member, captures, matched, here⟩
        · cases here

theorem FlowRules.exists_fault_of_evaluate {context : Context} {tree : Tree}
    {error : TransformError} (failed : all.evaluate context tree = .error error) :
    ∃ part ∈ tree.subtrees, part.Fault context error := by
  obtain ⟨entries, values, inside, tagwise, rule, member, captures, matched, refused⟩ :=
    RuleList.exists_failed_build groupsConsumed_all failed
  obtain ⟨consume, own, builds⟩ := builds_all rule member
  rw [own] at refused
  exact ⟨_, inside, (builds context).fault tagwise matched (fun _ _ => rfl) refused⟩

theorem FlowRules.bindsLeaf_all :
    ∀ rule ∈ all, ∀ slot ∈ rule.pattern.simpleSlots, rule.pattern.BindsLeaf slot := by
  decide

theorem RuleList.error_of_rewrite {rules : RuleList} {limit : Nat} {context : Context}
    {tree : Tree} {error : TransformError}
    (failed : rules.rewrite limit context tree = .error error) :
    error = .depthExceeded limit ∧ limit < tree.depth ∨
      rules.evaluate context tree = .error error := by
  by_cases fits : tree.depth ≤ limit
  · rw [rewrite_eq_evaluate rules context fits] at failed
    exact .inr failed
  · have deep : limit < tree.depth := Nat.lt_of_not_le fits
    rcases rewrite_eq_error_of_depth_lt rules context deep with stopped | ⟨other, own, same⟩
    · rw [stopped] at failed
      cases failed
      exact .inl ⟨rfl, deep⟩
    · rw [same] at failed
      cases failed
      exact .inr own

theorem Consume.result_text_of_bound {slot text : String} {captures : Captures}
    (bound : captures.get? slot = some (.leaf text)) :
    (Consume.text slot).result captures = .ok text := by
  rw [← bind_pure (Consume.text slot), text_eq, result_convert_of_bound bound]
  rfl

/-- A document is refused for its depth, for a fault of a group in it, or because the whole
becomes something else than a node. What was expected instead is one of six things, of which
a capture is none. A conjunction without members and a missing capture never show, and a slot
for a leaf always has a text for the builder that takes it. -/
theorem Registry.rewriteNode_flow_errors :
    (∀ limit context tree error, flow.rewriteNode limit context tree = .error error →
      (error = .depthExceeded limit ∧ limit < tree.depth ∨
        (∃ part ∈ tree.subtrees, part.Fault context error) ∨
        ∃ value, flow.rules.Evaluates context tree value ∧ ¬ Expectation.node.Accepts value ∧
          error = .shapeMismatch "a node" value.describe) ∧
      (∀ expected found, error = .shapeMismatch expected found →
        expected ∈ ["a predicate", "an element", "a rule or nested rule", "a key/value pair",
          "a leaf", "a node"]) ∧
      error ≠ .emptyCombination ∧ ∀ slot, error ≠ .missingCapture slot) ∧
    ∀ rule ∈ flow.rules, ∀ value captures, rule.pattern.match? value = some captures →
      ∀ slot ∈ rule.pattern.simpleSlots, ∀ left : Captures,
        left.get? slot = captures.get? slot → ∃ text, (Consume.text slot).result left = .ok text := by
  constructor
  · intro limit context tree error failed
    rw [rewriteNode, RuleList.rewriteNode, bind_eq_error_iff] at failed
    rcases failed with stopped | ⟨value, done, other⟩
    · rcases RuleList.error_of_rewrite stopped with ⟨rfl, deep⟩ | refused
      · exact ⟨.inl ⟨rfl, deep⟩, by simp, by simp, by simp⟩
      · obtain ⟨part, inside, fault⟩ := FlowRules.exists_fault_of_evaluate refused
        refine ⟨.inr (.inl ⟨part, inside, fault⟩), ?_, ?_⟩
        · intro expected found same
          subst same
          exact List.mem_append_left ["a node"] fault.expected_mem
        · cases fault <;> simp
    · obtain ⟨_, evaluated⟩ := RuleList.rewrite_eq_ok_iff.1 done
      obtain ⟨refused, rfl⟩ := (Expectation.decides_node context.nodeName).refused other
      refine ⟨.inr (.inr ⟨value, evaluated, refused, rfl⟩), ?_, by simp, by simp⟩
      intro expected found same
      cases same
      decide
  · intro rule member value captures matched slot simple left same
    obtain ⟨text, bound⟩ := (FlowRules.bindsLeaf_all rule member slot simple).captured matched
    exact ⟨text, Consume.result_text_of_bound (same.trans bound)⟩

/-- A wrapped operator that is none, below a guard, and a text for an element. -/
theorem Registry.rewriteNode_flow_errors_operator :
    let test : Tree := .group [("comparison_predicate", .group [("varname", .leaf "age"),
      ("operator", .group [("set_value", .leaf "~")]), ("value", .leaf "18")])]
    let tree : Tree := .group [("body", .group [("conditional", .group [("predicate", test)])])]
    let bare : Tree := .group [("body", .leaf "x")]
    let value : Value := .group [("h1", .leaf "Start")]
    flow.rewriteNode 9 ⟨"start"⟩ tree = .error (.invalidOperator "~") ∧
    (∃ part ∈ tree.subtrees, part.Fault ⟨"start"⟩ (.invalidOperator "~")) ∧
    flow.rewriteNode 9 ⟨"start"⟩ bare = .error (.shapeMismatch "an element" "\"x\"") ∧
    (∃ part ∈ bare.subtrees, part.Fault ⟨"start"⟩ (.shapeMismatch "an element" "\"x\"")) ∧
    let heading := FlowRules.textElement "markdown_heading" "h1" "content" .heading
    ∃ captures, heading.pattern.match? value = some captures ∧
      ∃ text, (Consume.text "content").result captures = .ok text := by
  intro test tree bare value
  obtain ⟨faults, texts⟩ := rewriteNode_flow_errors
  have failed : flow.rewriteNode 9 ⟨"start"⟩ tree = .error (.invalidOperator "~") := rfl
  have refused : flow.rewriteNode 9 ⟨"start"⟩ bare =
      .error (.shapeMismatch "an element" "\"x\"") := rfl
  refine ⟨failed, ?_, refused, ?_, ?_⟩
  · obtain ⟨⟨impossible, _⟩ | found | ⟨_, _, _, impossible⟩, _⟩ :=
      faults 9 ⟨"start"⟩ tree _ failed
    · cases impossible
    · exact found
    · cases impossible
  · obtain ⟨⟨impossible, _⟩ | found | ⟨_, _, _, impossible⟩, _⟩ :=
      faults 9 ⟨"start"⟩ bare _ refused
    · cases impossible
    · exact found
    · simp at impossible
  · intro heading
    have member : heading ∈ flow.rules := by simp [heading, flow, FlowRules.all]
    exact ⟨_, rfl, texts heading member value _ rfl "content" (by decide) _ rfl⟩

end InterviewFlow
