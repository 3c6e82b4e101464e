import InterviewFlow.Artifact.Basic
import InterviewFlow.Json.Encoding
import InterviewFlow.Proofs.Image
import InterviewFlow.Proofs.Unseen

/-! The order of the entries of groups. A document and a rearrangement of it, at any
depth, denote the same objects, because every production lists its tags up to order; and
attributes of different names may come in any order, because front matter is sorted. -/

set_option autoImplicit false

namespace InterviewFlow

/-- As many others as entries, one found for the tag of each: the others in the order of
the entries. -/
theorem exists_relisting {α β : Type} {Related : α → β → Prop} {entries : Entries α}
    {others : Entries β} (distinct : Entries.Distinct entries)
    (sameLength : entries.length = others.length)
    (found : ∀ entry ∈ entries, ∃ item,
      Entries.get? entry.1 others = some item ∧ Related entry.2 item) :
    ∃ relisted, others.Perm relisted ∧ Tagwise Related entries relisted := by
  let Answers (entry : String × α) (other : String × β) : Prop :=
    (entry.1 = other.1 ∧ Related entry.2 other.2) ∧ Entries.get? other.1 others = some other.2
  obtain ⟨relisted, answers⟩ : ∃ relisted, List.Forall₂ Answers entries relisted := by
    apply exists_forall₂
    intro entry member
    obtain ⟨item, present, related⟩ := found entry member
    exact ⟨(entry.1, item), ⟨rfl, related⟩, present⟩
  have tagwise : Tagwise Related entries relisted := answers.imp fun _ _ => And.left
  have relistedDistinct : Entries.Distinct relisted := by
    rw [Entries.Distinct, ← tagwise.keys_eq]
    exact distinct
  refine ⟨relisted, (Entries.perm_iff_of_distinct relistedDistinct).2 ⟨?_, ?_⟩, tagwise⟩
  · exact tagwise.length_eq.symm.trans sameLength
  · intro other member
    have flipped : List.Forall₂ (fun other entry => Answers entry other) relisted entries :=
      answers.flip
    obtain ⟨entry, _, _, present⟩ := exists_of_forall₂ flipped member
    exact present

namespace Tree

/-! ## Rearrangements -/

/-- The trees differ at most in the order of the entries of groups. -/
inductive Rearranges : Tree → Tree → Prop where
  | leaf {text : String} : Rearranges (.leaf text) (.leaf text)
  | sequence {items others : List Tree} :
      List.Forall₂ Rearranges items others → Rearranges (.sequence items) (.sequence others)
  | group {entries listed others : List (String × Tree)} :
      entries.Perm listed → Entries.keys listed = Entries.keys others →
      List.Forall₂ Rearranges (listed.map Prod.snd) (others.map Prod.snd) →
      Rearranges (.group entries) (.group others)

theorem Rearranges.tagwise {entries listed others : List (String × Tree)}
    (order : entries.Perm listed) (tagwise : Tagwise Rearranges listed others) :
    Rearranges (.group entries) (.group others) := by
  obtain ⟨sameKeys, related⟩ := tagwise_iff.1 tagwise
  exact .group order sameKeys related

/-- Whatever order a group is listed in, its rearrangement can be listed the same way. -/
theorem Rearranges.group_inv {entries : List (String × Tree)} {other : Tree}
    (same : Rearranges (.group entries) other) : ∃ others, other = .group others ∧
      ∀ listed, entries.Perm listed →
        ∃ relisted, others.Perm relisted ∧ Tagwise Rearranges listed relisted := by
  cases same with
  | group order sameKeys related =>
      refine ⟨_, rfl, ?_⟩
      intro listed relist
      obtain ⟨relisted, tagwise, reorder⟩ :=
        List.perm_comp_forall₂ (relist.symm.trans order) (tagwise_iff.2 ⟨sameKeys, related⟩)
      exact ⟨relisted, reorder.symm, tagwise⟩

theorem Rearranges.symm {tree other : Tree} (same : Rearranges tree other) :
    Rearranges other tree := by
  induction tree using memberInduction generalizing other with
  | leaf text =>
      cases same with
      | leaf => exact .leaf
  | sequence items ih =>
      cases same with
      | sequence related =>
          have both := (List.forall₂_and_left _ _).2 ⟨ih, related⟩
          exact .sequence (.flip (both.imp fun _ _ ⟨swap, same⟩ => swap same))
  | group entries ih =>
      obtain ⟨others, rfl, lists⟩ := same.group_inv
      obtain ⟨relisted, reorder, tagwise⟩ := lists entries (.refl _)
      have both := (List.forall₂_and_left _ _).2 ⟨ih, tagwise⟩
      exact .tagwise reorder
        (.flip (both.imp fun _ _ ⟨swap, sameTag, same⟩ => ⟨sameTag.symm, swap same⟩))

theorem Rearranges.depth_le {tree other : Tree} (same : Rearranges tree other) :
    tree.depth ≤ other.depth := by
  induction tree using memberInduction generalizing other with
  | leaf text => exact depth_pos other
  | sequence items ih =>
      cases same with
      | sequence related =>
          rw [depth, depth, Nat.add_le_add_iff_left, depthOfItems_le_iff]
          intro item member
          obtain ⟨found, foundMember, foundSame⟩ := exists_of_forall₂ related member
          exact Nat.le_trans (ih item member foundSame) (depth_le_depthOfItems foundMember)
  | group entries ih =>
      obtain ⟨others, rfl, lists⟩ := same.group_inv
      obtain ⟨relisted, reorder, tagwise⟩ := lists entries (.refl _)
      rw [depth, depth, Nat.add_le_add_iff_left, depthOfEntries_le_iff]
      intro entry member
      obtain ⟨found, foundMember, _, foundSame⟩ := exists_of_forall₂ tagwise member
      exact Nat.le_trans (ih entry member foundSame)
        (depth_le_depthOfEntries (reorder.mem_iff.2 foundMember))

theorem Rearranges.depth_eq {tree other : Tree} (same : Rearranges tree other) :
    tree.depth = other.depth :=
  Nat.le_antisymm same.depth_le same.symm.depth_le

/-! ## What a rearrangement denotes -/

theorem unseen_rearranges : Unseen Rearranges where
  symm := Rearranges.symm
  leaf_inv same := by
    cases same with
    | leaf => rfl
  sequence_inv same := by
    cases same with
    | sequence related => exact ⟨_, rfl, related⟩
  group_inv same := by
    obtain ⟨others, rfl, lists⟩ := same.group_inv
    refine ⟨others, rfl, fun listed order => ?_⟩
    obtain ⟨relisted, reorder, tagwise⟩ := lists listed order
    exact ⟨relisted, reorder, tagwise.imp fun _ _ ⟨sameTag, same⟩ => ⟨sameTag, .inl same⟩⟩

theorem DenotesNode.rearranged {name : String} {tree other : Tree} {node : Node}
    (denotes : tree.DenotesNode name node) (same : Rearranges tree other) :
    other.DenotesNode name node :=
  denotes.carried unseen_rearranges same

/-! ## Equivalent trees -/

theorem equivalentItems_iff {items others : List Tree} : equivalentItems items others = true ↔
    List.Forall₂ (fun item other => item.equivalent other = true) items others := by
  induction items generalizing others with
  | nil => cases others <;> simp [equivalentItems]
  | cons item rest ih => cases others <;> simp [equivalentItems, ih]

theorem equivalentEntries_iff {entries others : List (String × Tree)} :
    equivalentEntries entries others = true ↔ ∀ entry ∈ entries, ∃ found,
      Entries.get? entry.1 others = some found ∧ entry.2.equivalent found = true := by
  induction entries with
  | nil => simp [equivalentEntries]
  | cons entry rest ih =>
      obtain ⟨tag, tree⟩ := entry
      rw [equivalentEntries, Bool.and_eq_true, ih, List.forall_mem_cons]
      apply and_congr_left
      intro _
      cases Entries.get? tag others <;> simp

/-- Comparing entries tag by tag misses no order of them, as long as no tag repeats. -/
theorem rearranges_of_equivalent {tree other : Tree} (distinct : tree.DistinctTags)
    (same : tree.equivalent other = true) : Rearranges tree other := by
  induction distinct generalizing other with
  | leaf =>
      cases other with
      | leaf text =>
          obtain rfl : _ = text := by simpa [equivalent] using same
          exact .leaf
      | _ => cases same
  | sequence _ ih =>
      cases other with
      | sequence others =>
          rw [equivalent, equivalentItems_iff] at same
          have both := (List.forall₂_and_left _ _).2 ⟨ih, same⟩
          exact .sequence (both.imp fun _ _ ⟨rearranges, same⟩ => rearranges same)
      | _ => cases same
  | @group entries distinct _ ih =>
      cases other with
      | group others =>
          rw [equivalent, Bool.and_eq_true, decide_eq_true_eq, equivalentEntries_iff] at same
          obtain ⟨sameLength, found⟩ := same
          obtain ⟨relisted, reorder, tagwise⟩ : ∃ relisted, others.Perm relisted ∧
              Tagwise (fun tree other => tree.equivalent other = true) entries relisted :=
            exists_relisting distinct sameLength found
          have both := (List.forall₂_and_left _ _).2 ⟨ih, tagwise⟩
          apply Rearranges.symm
          exact .tagwise reorder (.flip (both.imp fun _ _ ⟨rearranges, sameTag, same⟩ =>
            ⟨sameTag.symm, (rearranges same).symm⟩))
      | _ => cases same

/-! ## The order of attributes -/

theorem denotesPair_rightUnique : Relator.RightUnique DenotesPair := by
  intro tree pair other denotes otherDenotes
  have evaluated : FlowRules.all.Evaluates ⟨""⟩ tree (.built (.pair pair.1 pair.2)) :=
    FlowRules.evaluates_of_denotesPair FlowRules.extendedBy_all denotes
  have otherEvaluated : FlowRules.all.Evaluates ⟨""⟩ tree (.built (.pair other.1 other.2)) :=
    FlowRules.evaluates_of_denotesPair FlowRules.extendedBy_all otherDenotes
  injection FlowRules.evaluates_inj evaluated otherEvaluated with same
  injection same with sameKey sameText
  exact Prod.ext sameKey sameText

theorem denotesList_pairs_iff {items : List Tree} {pairs : List (String × String)} :
    DenotesList DenotesPair (.sequence items) pairs ↔ List.Forall₂ DenotesPair items pairs := by
  constructor
  · intro denotes
    cases denotes with
    | empty text => cases text
    | sequence related => exact related
    | single _ pair => cases pair
  · exact .sequence

/-- The documents differ in the order of their attributes, which have different names. -/
inductive ShufflesAttributes : Tree → Tree → Prop where
  | shuffle {before after : List (String × Tree)} {items shuffled : List Tree}
      {pairs : List (String × String)} :
      List.Forall₂ DenotesPair items pairs → Entries.Distinct pairs → items.Perm shuffled →
      ShufflesAttributes (.group (before ++ ("front_matter", .sequence items) :: after))
        (.group (before ++ ("front_matter", .sequence shuffled) :: after))

theorem ShufflesAttributes.ofPairs {before after : List (String × Tree)}
    {pairs shuffled : List (String × String)} (distinct : Entries.Distinct pairs)
    (order : pairs.Perm shuffled) :
    ShufflesAttributes
      (.group (before ++ ("front_matter", Tree.ofPairs "name" "value" pairs) :: after))
      (.group (before ++ ("front_matter", Tree.ofPairs "name" "value" shuffled) :: after)) := by
  refine .shuffle ?_ distinct (order.map _)
  rw [List.forall₂_map_left_iff, List.forall₂_same]
  intro pair _
  exact .frontMatterAttribute (.refl _) .leaf .leaf

theorem ShufflesAttributes.symm {tree other : Tree} (shuffles : ShufflesAttributes tree other) :
    ShufflesAttributes other tree := by
  obtain ⟨denote, distinct, order⟩ := shuffles
  obtain ⟨pairs', denote', order'⟩ := List.perm_comp_forall₂ order.symm denote
  exact .shuffle denote' ((order'.map Prod.fst).nodup_iff.2 distinct) order.symm

theorem ShufflesAttributes.depth_le {tree other : Tree} (shuffles : ShufflesAttributes tree other) :
    tree.depth ≤ other.depth := by
  obtain @⟨before, after, items, shuffled, _, _, _, order⟩ := shuffles
  have itemsFit : (sequence items).depth ≤ (sequence shuffled).depth := by
    rw [depth, depth, Nat.add_le_add_iff_left, depthOfItems_le_iff]
    intro item member
    exact depth_le_depthOfItems (order.mem_iff.1 member)
  rw [depth, depth, Nat.add_le_add_iff_left, depthOfEntries_le_iff]
  intro entry member
  obtain early | rfl | late : entry ∈ before ∨ entry = ("front_matter", sequence items) ∨
      entry ∈ after := by simpa using member
  · exact depth_le_depthOfEntries (List.mem_append_left _ early)
  · have inside : ("front_matter", sequence shuffled) ∈
        before ++ ("front_matter", sequence shuffled) :: after :=
      List.mem_append_right _ (.head _)
    exact Nat.le_trans itemsFit (depth_le_depthOfEntries inside)
  · exact depth_le_depthOfEntries (List.mem_append_right _ (.tail _ late))

theorem perm_cons_inv {tag : String} {tree other : Tree} {before after rest : List (String × Tree)}
    (order : (before ++ (tag, tree) :: after).Perm ((tag, other) :: rest))
    (fresh : tag ∉ Entries.keys rest) : tree = other ∧ (before ++ after).Perm rest := by
  have member : (tag, tree) ∈ (tag, other) :: rest :=
    order.mem_iff.1 (List.mem_append_right _ (.head _))
  rcases List.mem_cons.1 member with same | later
  · cases same
    exact ⟨rfl, (List.perm_middle.symm.trans order).cons_inv⟩
  · exact absurd (Entries.mem_keys_iff.2 ⟨tree, later⟩) fresh

theorem DenotesNode.shuffled {name : String} {tree other : Tree} {node : Node}
    (denotes : tree.DenotesNode name node) (shuffles : ShufflesAttributes tree other) :
    other.DenotesNode name node := by
  obtain @⟨before, after, items, shuffled, pairs, itemsDenote, distinct, order⟩ := shuffles
  have collects {attributes : SortedMap String} {pairs' : List (String × String)}
      (attributesDenote : DenotesList DenotesPair (.sequence items) pairs')
      (collected : attributes.Collects pairs') : ∃ shuffledPairs,
      DenotesList DenotesPair (.sequence shuffled) shuffledPairs ∧
        attributes.Collects shuffledPairs := by
    have itemsDenote' := denotesList_pairs_iff.1 attributesDenote
    obtain rfl : pairs = pairs' :=
      List.right_unique_forall₂' denotesPair_rightUnique itemsDenote itemsDenote'
    obtain ⟨shuffledPairs, shuffledDenote, reorder⟩ :=
      List.perm_comp_forall₂ order.symm itemsDenote
    exact ⟨shuffledPairs, .sequence shuffledDenote, collected.perm distinct reorder.symm⟩
  generalize whole : group (before ++ ("front_matter", .sequence items) :: after) = root at denotes
  cases denotes with
  | whole listed attributesDenote collected body =>
      cases whole
      obtain ⟨rfl, others⟩ := perm_cons_inv listed (by simp)
      obtain ⟨shuffledPairs, shuffledDenote, shuffledCollected⟩ :=
        collects attributesDenote collected
      exact .whole (List.perm_middle.trans (others.cons _)) shuffledDenote shuffledCollected body
  | frontMatter attributesDenote collected =>
      injection whole with listed
      obtain ⟨rfl, others⟩ := perm_cons_inv (.of_eq listed) (by simp)
      obtain ⟨rfl, rfl⟩ := List.append_eq_nil_iff.1 others.eq_nil
      obtain ⟨shuffledPairs, shuffledDenote, shuffledCollected⟩ :=
        collects attributesDenote collected
      exact .frontMatter shuffledDenote shuffledCollected
  | body _ =>
      injection whole with listed
      have member : ("front_matter", sequence items) ∈ [("body", _)] :=
        listed ▸ List.mem_append_right _ (.head _)
      simp at member

end Tree

/-- The order of the entries of groups and, where the names differ, of the attributes is
not seen in what a document is compiled to. -/
theorem Registry.compiles_in_any_order {limit : Nat} {context : Context} {tree other : Tree}
    (alike : tree.DistinctTags ∧ tree.equivalent other = true ∨ tree.ShufflesAttributes other) :
    (∀ node, Registry.flow.rewriteNode limit context tree = .ok node ↔
      Registry.flow.rewriteNode limit context other = .ok node) ∧
    ∀ node otherNode, Registry.flow.rewriteNode limit context tree = .ok node →
      Registry.flow.rewriteNode limit context other = .ok otherNode →
      node.toJson.pretty = otherNode.toJson.pretty ∧
        (Artifact.ofNode node).toBytes = (Artifact.ofNode otherNode).toBytes := by
  have sameNode : ∀ node, Registry.flow.rewriteNode limit context tree = .ok node ↔
      Registry.flow.rewriteNode limit context other = .ok node := by
    intro node
    rw [rewriteNode_flow_iff, rewriteNode_flow_iff]
    rcases alike with ⟨distinct, equivalent⟩ | shuffles
    · have same := Tree.rearranges_of_equivalent distinct equivalent
      rw [same.depth_eq]
      exact and_congr_right fun _ => ⟨fun denotes => denotes.rearranged same,
        fun denotes => denotes.rearranged same.symm⟩
    · rw [Nat.le_antisymm shuffles.depth_le shuffles.symm.depth_le]
      exact and_congr_right fun _ => ⟨fun denotes => denotes.shuffled shuffles,
        fun denotes => denotes.shuffled shuffles.symm⟩
  refine ⟨sameNode, ?_⟩
  intro node otherNode compiled otherCompiled
  obtain rfl : node = otherNode :=
    Except.ok.inj (((sameNode node).1 compiled).symm.trans otherCompiled)
  exact ⟨rfl, rfl⟩

/-- A question with its options first, the body ahead of the attributes, and then the
attributes the other way round as well. -/
theorem Registry.compiles_in_any_order_question :
    let body : Tree := .sequence [.group [("multiple_choice", .group [
      ("options", .sequence [.group [("label", .leaf "Yes"), ("value", .leaf "yes")]]),
      ("identifier", .leaf "agreed")])]]
    let document (pairs : List (String × String)) : Tree :=
      .group [("body", body), ("front_matter", .ofPairs "name" "value" pairs)]
    let node : Node := ⟨"start", [.question (.multipleChoice "agreed" (.ofList [("yes", "Yes")]))],
      .ofList [("lang", "en"), ("owner", "tax")]⟩
    Registry.flow.rewriteNode 7 ⟨"start"⟩ (document [("lang", "en"), ("owner", "tax")]) =
      .ok node ∧
    Registry.flow.rewriteNode 7 ⟨"start"⟩ (document [("owner", "tax"), ("lang", "en")]) =
      .ok node := by
  intro body document node
  have formed : node.WellFormed := List.forall_mem_singleton.2 .question
  have compiled : Registry.flow.rewriteNode 7 ⟨"start"⟩ node.toTree = .ok node :=
    rewriteNode_flow_iff.2 ⟨by decide, formed.denotes⟩
  have equivalent : node.toTree.equivalent (document [("lang", "en"), ("owner", "tax")]) = true := by
    decide
  have bodyFirst :=
    ((compiles_in_any_order (.inl ⟨formed.denotes.distinctTags, equivalent⟩)).1 node).1 compiled
  have shuffles :
      Tree.ShufflesAttributes (.group ([("body", body)] ++ ("front_matter", _) :: [])) _ :=
    .ofPairs (by decide) (.swap ("owner", "tax") ("lang", "en") [])
  exact ⟨bodyFirst, ((compiles_in_any_order (.inr shuffles)).1 node).1 bodyFirst⟩

end InterviewFlow
