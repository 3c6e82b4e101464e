import InterviewFlow.Proofs.JsonRoundTrip

/-! Nodes and their texts. A text of a node, pretty or compact, belongs to no other node,
also where it is nested deeper than the reader goes. -/

set_option autoImplicit false

namespace InterviewFlow

namespace Node

theorem toJson_injective {node other : Node} (same : node.toJson = other.toJson) :
    node = other := by
  -- With room for its nesting every value is read, so the limit plays no part here.
  have back : Node.ofJson? node.toJson.nesting node.toJson = some node := by
    rw [node.readsBack, if_pos (Nat.le_refl _)]
  have otherBack : Node.ofJson? node.toJson.nesting other.toJson = some other := by
    rw [other.readsBack, same, if_pos (Nat.le_refl _)]
  rw [← same, back] at otherBack
  exact Option.some.inj otherBack

theorem ofText?_pretty (node : Node) : Json.ofText? node.toJson.pretty = some node.toJson :=
  node.numberFree_toJson.ofText?_pretty

theorem ofText?_compact (node : Node) : Json.ofText? node.toJson.compact = some node.toJson :=
  node.numberFree_toJson.ofText?_compact

theorem eq_of_pretty_eq {node other : Node}
    (same : node.toJson.pretty = other.toJson.pretty) : node = other := by
  apply toJson_injective
  apply Option.some.inj
  rw [← ofText?_pretty, ← ofText?_pretty, same]

theorem eq_of_compact_eq {node other : Node}
    (same : node.toJson.compact = other.toJson.compact) : node = other := by
  apply toJson_injective
  apply Option.some.inj
  rw [← ofText?_compact, ← ofText?_compact, same]

theorem ofJsonText?_compact (node : Node) : ofJsonText? node.toJson.compact =
    if node.toJson.nesting ≤ Json.nestingLimit then some node else none := by
  rw [ofJsonText?, node.ofText?_compact, Option.bind_some, node.readsBack]

/-- The pretty text determines the node, and so does the compact one. Either spells the JSON
of the node, and it is read back as the node if that is nested at most 127 deep and as
nothing if it is nested deeper. -/
theorem text_determines_node (node other : Node) :
    (node.toJson.pretty = other.toJson.pretty ↔ node = other) ∧
    (node.toJson.compact = other.toJson.compact ↔ node = other) ∧
    (Json.ofText? node.toJson.pretty = some node.toJson ∧
      ofJsonText? node.toJson.pretty =
        if node.toJson.nesting ≤ 127 then some node else none) ∧
    (Json.ofText? node.toJson.compact = some node.toJson ∧
      ofJsonText? node.toJson.compact =
        if node.toJson.nesting ≤ 127 then some node else none) := by
  refine ⟨⟨eq_of_pretty_eq, ?_⟩, ⟨eq_of_compact_eq, ?_⟩, ?_, ?_⟩
  · rintro rfl
    rfl
  · rintro rfl
    rfl
  · exact ⟨node.ofText?_pretty, node.ofJsonText?_pretty⟩
  · exact ⟨node.ofText?_compact, node.ofJsonText?_compact⟩

end Node

end InterviewFlow
