import InterviewFlow.Proofs.Image
import InterviewFlow.Proofs.NodeText
import InterviewFlow.Proofs.Normalization

/-! What can be loaded. A text read within a room gives a value that is written within it,
so that the nodes read from model JSON are those written within the limit; and the nodes
read from bytes are those that can be stored. Neither reader looks at conjunctions. -/

set_option autoImplicit false

namespace InterviewFlow

/-! ## The nesting of what was read -/

theorem Json.nestingOfItems_of_mapM {α : Type} {read : Json → Option α} {write : α → Json}
    {room : Nat} {items : List Json} {values : List α} (taken : items.mapM read = some values)
    (each : ∀ item value, read item = some value → (write value).nesting ≤ room) :
    nestingOfItems (values.map write) ≤ room := by
  induction items generalizing values with
  | nil =>
      cases taken
      exact Nat.zero_le room
  | cons item rest ih =>
      rw [List.mapM_cons] at taken
      obtain ⟨value, itemRead, taken⟩ := Option.bind_eq_some_iff.1 taken
      obtain ⟨values, restRead, taken⟩ := Option.bind_eq_some_iff.1 taken
      cases taken
      exact Nat.max_le.2 ⟨each item value itemRead, ih restRead⟩

theorem Comparison.nesting_le_of_ofJson? {room : Nat} {json : Json} {comparison : Comparison}
    (read : ofJson? room json = some comparison) : comparison.toJson.nesting ≤ room := by
  cases room with
  | zero => cases read
  | succ room => exact Nat.le_add_left 1 room

theorem Predicate.nesting_le_of_ofJson? {room : Nat} {json : Json} {predicate : Predicate}
    (read : ofJson? room json = some predicate) : predicate.toJson.nesting ≤ room := by
  induction room using Nat.strong_induction_on generalizing json predicate with
  | h room ih =>
      revert read
      fun_cases ofJson? room json <;> intro read
      case case1 | case2 =>
        cases read
        exact Nat.zero_le _
      case case3 room content =>
        obtain ⟨name, _, read⟩ := Option.bind_eq_some_iff.1 read
        cases read
        exact Nat.le_add_left 1 room
      case case4 room content =>
        obtain ⟨fields, _, read⟩ := Option.bind_eq_some_iff.1 read
        split at read
        · obtain ⟨varname, _, read⟩ := Option.bind_eq_some_iff.1 read
          obtain ⟨expected, _, read⟩ := Option.bind_eq_some_iff.1 read
          cases read
          exact Nat.le_add_left 2 room
        · cases read
      case case5 room content =>
        obtain ⟨fields, _, read⟩ := Option.bind_eq_some_iff.1 read
        split at read
        · obtain ⟨varname, _, read⟩ := Option.bind_eq_some_iff.1 read
          obtain ⟨values, _, read⟩ := Option.bind_eq_some_iff.1 read
          cases read
          rw [nesting_membership]
          exact Nat.le_add_left 3 room
        · cases read
      case case6 room items =>
        obtain ⟨members, membersRead, read⟩ := Option.bind_eq_some_iff.1 read
        cases read
        have below : Json.nestingOfItems (members.map toJson) ≤ room :=
          Json.nestingOfItems_of_mapM membersRead fun _ _ => ih room (by omega)
        rw [nesting_combined]
        omega
      case case7 room content =>
        obtain ⟨fields, _, read⟩ := Option.bind_eq_some_iff.1 read
        split at read
        · obtain ⟨name, _, read⟩ := Option.bind_eq_some_iff.1 read
          obtain ⟨arguments, _, read⟩ := Option.bind_eq_some_iff.1 read
          cases read
          rw [nesting_function]
          exact Nat.le_add_left 3 room
        · cases read
      case case8 room content =>
        obtain ⟨test, testRead, read⟩ := Option.bind_eq_some_iff.1 read
        cases read
        have below := Comparison.nesting_le_of_ofJson? testRead
        rw [toJson, Json.nesting_tagged]
        omega
      case case9 => cases read

theorem RoutingRule.nesting_le_of_ofJson? {room : Nat} {json : Json} {rule : RoutingRule}
    (read : ofJson? room json = some rule) : rule.toJson.nesting ≤ room := by
  induction room using Nat.strong_induction_on generalizing json rule with
  | h room ih =>
      revert read
      fun_cases ofJson? room json <;> intro read
      case case1 room content =>
        obtain ⟨fields, _, read⟩ := Option.bind_eq_some_iff.1 read
        split at read
        · obtain ⟨guard, guardRead, read⟩ := Option.bind_eq_some_iff.1 read
          obtain ⟨outcome, _, read⟩ := Option.bind_eq_some_iff.1 read
          cases read
          have guardBelow := Predicate.nesting_le_of_ofJson? guardRead
          rw [nesting_direct]
          omega
        · cases read
      case case2 room content =>
        obtain ⟨fields, _, read⟩ := Option.bind_eq_some_iff.1 read
        split at read
        · obtain ⟨guard, guardRead, read⟩ := Option.bind_eq_some_iff.1 read
          obtain ⟨children, childrenRead, read⟩ := Option.bind_eq_some_iff.1 read
          cases read
          have guardBelow := Predicate.nesting_le_of_ofJson? guardRead
          have childrenBelow : Json.nestingOfItems (children.map toJson) ≤ room :=
            Json.nestingOfItems_of_mapM childrenRead fun _ _ => ih room (by omega)
          rw [nesting_nested]
          omega
        · cases read
      case case3 => cases read

theorem Question.nesting_le_of_ofJson? {room : Nat} {json : Json} {question : Question}
    (read : ofJson? room json = some question) : question.toJson.nesting ≤ room := by
  revert read
  fun_cases ofJson? room json <;> intro read
  case case1 room content =>
    obtain ⟨fields, _, read⟩ := Option.bind_eq_some_iff.1 read
    split at read
    · obtain ⟨identifier, _, read⟩ := Option.bind_eq_some_iff.1 read
      obtain ⟨options, _, read⟩ := Option.bind_eq_some_iff.1 read
      cases read
      rw [nesting_multipleChoice]
      exact Nat.le_add_left 3 room
    · cases read
  case case2 room content | case3 room content | case4 room content =>
    obtain ⟨identifier, _, rfl⟩ := Option.map_eq_some_iff.1 read
    exact Nat.le_add_left 2 room
  case case5 => cases read

theorem Element.nesting_le_of_ofJson? {room : Nat} {json : Json} {element : Element}
    (read : ofJson? room json = some element) : element.toJson.nesting ≤ room := by
  induction room using Nat.strong_induction_on generalizing json element with
  | h room ih =>
      revert read
      fun_cases ofJson? room json <;> intro read
      case case1 room content | case2 room content | case3 room content | case4 room content =>
        obtain ⟨text, _, rfl⟩ := Option.map_eq_some_iff.1 read
        exact Nat.le_add_left 1 room
      case case5 room content =>
        obtain ⟨fields, _, read⟩ := Option.bind_eq_some_iff.1 read
        split at read
        · obtain ⟨guard, guardRead, read⟩ := Option.bind_eq_some_iff.1 read
          obtain ⟨whenTrue, trueRead, read⟩ := Option.bind_eq_some_iff.1 read
          obtain ⟨whenFalse, falseRead, read⟩ := Option.bind_eq_some_iff.1 read
          cases read
          have guardBelow := Predicate.nesting_le_of_ofJson? guardRead
          have trueBelow : Json.nestingOfItems (whenTrue.map toJson) ≤ room :=
            Json.nestingOfItems_of_mapM trueRead fun _ _ => ih room (by omega)
          have falseBelow : Json.nestingOfItems (whenFalse.map toJson) ≤ room :=
            Json.nestingOfItems_of_mapM falseRead fun _ _ => ih room (by omega)
          rw [nesting_conditional]
          omega
        · cases read
      case case6 room content =>
        obtain ⟨prompt, promptRead, rfl⟩ := Option.map_eq_some_iff.1 read
        have below := Question.nesting_le_of_ofJson? promptRead
        rw [nesting_question]
        omega
      case case7 room content =>
        obtain ⟨fields, _, read⟩ := Option.bind_eq_some_iff.1 read
        split at read
        · obtain ⟨rules, rulesRead, read⟩ := Option.bind_eq_some_iff.1 read
          cases read
          have rulesBelow : Json.nestingOfItems (rules.map RoutingRule.toJson) ≤ room :=
            Json.nestingOfItems_of_mapM rulesRead fun _ _ => RoutingRule.nesting_le_of_ofJson?
          rw [nesting_routing]
          omega
        · cases read
      case case8 => cases read

theorem Node.nesting_le_of_ofJson? {room : Nat} {json : Json} {node : Node}
    (read : ofJson? room json = some node) : node.toJson.nesting ≤ room := by
  revert read
  fun_cases ofJson? room json <;> intro read
  case case1 room =>
    obtain ⟨fields, _, read⟩ := Option.bind_eq_some_iff.1 read
    split at read
    · obtain ⟨name, _, read⟩ := Option.bind_eq_some_iff.1 read
      obtain ⟨body, bodyRead, read⟩ := Option.bind_eq_some_iff.1 read
      obtain ⟨frontMatter, frontMatterRead, read⟩ := Option.bind_eq_some_iff.1 read
      cases read
      have bodyBelow : Json.nestingOfItems (body.map Element.toJson) ≤ room :=
        Json.nestingOfItems_of_mapM bodyRead fun _ _ => Element.nesting_le_of_ofJson?
      -- Front matter is two objects, the first of which the room less one has to hold.
      have frontMatterBelow : 1 ≤ room := by
        cases room with
        | zero => cases frontMatterRead
        | succ room => exact Nat.le_add_left 1 room
      rw [nesting_toJson]
      change 2 + max (Json.nestingOfItems (body.map Element.toJson)) 1 ≤ room + 2
      omega
    · cases read
  case case2 => cases read

/-- The nodes read from JSON texts are those that are written within the limit. -/
theorem Node.exists_ofJsonText?_iff {node : Node} :
    (∃ text, ofJsonText? text = some node) ↔ node.toJson.nesting ≤ Json.nestingLimit := by
  constructor
  · rintro ⟨text, read⟩
    obtain ⟨json, _, read⟩ := Option.bind_eq_some_iff.1 read
    exact nesting_le_of_ofJson? read
  · intro fits
    refine ⟨node.toJson.compact, ?_⟩
    rw [ofJsonText?_compact, if_pos fits]

/-- The artifacts read from bytes are the storable ones of the current revision. -/
theorem Artifact.exists_ofBytes_iff {artifact : Artifact} :
    (∃ bytes, ofBytes bytes = .ok artifact) ↔
      artifact.version = 1 ∧ StorableNode artifact.node := by
  constructor
  · rintro ⟨bytes, accepted⟩
    obtain ⟨current, rest, read⟩ := ofBytes_eq_ok_iff.1 accepted
    obtain ⟨taken, _, short⟩ := answers_artifact _ _ _ _ read
    exact ⟨current, short.storable⟩
  · rintro ⟨current, storable⟩
    exact ⟨artifact.toBytes, ofBytes_of_storable current storable⟩

/-- Loading asks nothing of conjunctions, empty or not: a node is read from some JSON text as
soon as it is written within the limit, and from some bytes as soon as it can be stored. It
has no empty conjunction exactly if some document is compiled to it. -/
theorem Node.loads_whatever_conjunctions (node : Node) :
    ((∃ text, ofJsonText? text = some node) ↔ node.toJson.nesting ≤ 127) ∧
    ((∃ bytes, Artifact.ofBytes bytes = .ok (.ofNode node)) ↔ Artifact.StorableNode node) ∧
    (node.WellFormed ↔
      ∃ limit tree, Registry.flow.rewriteNode limit ⟨node.name⟩ tree = .ok node) := by
  refine ⟨exists_ofJsonText?_iff, ?_, node.wellFormed_iff_compiled⟩
  rw [Artifact.exists_ofBytes_iff]
  exact and_iff_right rfl

/-- A conditional guarded by the conjunction of nothing, from a JSON text and from bytes. -/
theorem Node.loads_empty_conjunction :
    let node : Node := ⟨"p", [.conditional (.combined []) [] []], .empty⟩
    let text := "\x7b\"name\":\"p\",\"body\":[\x7b\"Conditional\":\x7b\"predicate\":"
      ++ "\x7b\"Combined\":[]\x7d,\"true_case\":[],\"false_case\":[]\x7d\x7d],"
      ++ "\"front_matter\":\x7b\"attributes\":\x7b\x7d\x7d\x7d"
    ofJsonText? text = some node ∧
      Artifact.ofBytes [1, 1, 112, 1, 4, 4, 0, 0, 0, 0] = .ok (.ofNode node) ∧
      ¬ node.WellFormed := by
  intro node text
  refine ⟨?_, rfl, ?_⟩
  · have written : node.toJson.compact = text := by decide +kernel
    have fits : node.toJson.nesting ≤ Json.nestingLimit := by decide
    rw [← written, ofJsonText?_compact, if_pos fits]
  · intro formed
    cases formed _ (.head _) with
    | conditional guard _ _ =>
        cases guard with
        | combined some _ => exact some rfl

end InterviewFlow
