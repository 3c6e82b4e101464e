import InterviewFlow.Proofs.Acceptance
import InterviewFlow.Proofs.ArtifactRoundTrip
import InterviewFlow.Proofs.KeyOrder
import InterviewFlow.Proofs.LoneItems
import InterviewFlow.Proofs.NodeText

/-! Repeated keys and values. A document, model JSON and an artifact may each repeat the keys of
options and attributes and the members of sets. All three make the same collection of what is
listed, so it does not matter on which way a node was put together. -/

set_option autoImplicit false

namespace InterviewFlow

open Artifact (Recovers readTag readText readList readTextEntry writeInteger writeText writeTexts
  writeTextEntries)

/-! ## Options of a question -/

/-- A multiple choice that lists the pairs gets the options, wherever it stands. -/
structure Question.ListsOptions (identifier : String) (pairs : List (String × String))
    (options : OrderedMap String) : Prop where
  document {entries : List (String × Tree)} {identifierTree optionsTree : Tree} {limit : Nat}
    {context : Context} :
    entries.Perm [("identifier", identifierTree), ("options", optionsTree)] →
    identifierTree.DenotesText identifier → optionsTree.DenotesList Tree.DenotesPair pairs →
    (Tree.group [("multiple_choice", .group entries)]).depth ≤ limit →
    Registry.flow.rewrite limit context (.group [("multiple_choice", .group entries)]) =
      .ok (FlowRules.ofElement (.question (.multipleChoice identifier options)))
  json {room : Nat} {content : Json} :
    content.record? ["identifier", "options"] =
      some [.ofText identifier, .ofTextEntries pairs] →
    ofJson? (room + 3) (.tagged "MultipleChoice" content) =
      some (.multipleChoice identifier options)
  artifact {tag name map : List UInt8} :
    Recovers readTag tag 0 → Recovers readText name identifier →
    Recovers (readList readTextEntry) map pairs →
    Recovers Artifact.readQuestion (tag ++ (name ++ map)) (.multipleChoice identifier options)

theorem Question.listsOptions (identifier : String) (pairs : List (String × String)) :
    ListsOptions identifier pairs (.ofList pairs) where
  document := by
    intro entries identifierTree optionsTree limit context order identifierHeld listed fits
    refine RuleList.rewrite_eq_ok_iff.2 ⟨fits, ?_⟩
    exact FlowRules.evaluates_of_denotesElement FlowRules.extendedBy_all
      (.multipleChoice order identifierHeld listed (OrderedMap.collects_ofList pairs))
  json := by
    intro room content fields
    change (content.record? _).bind _ = _
    rw [fields]
    change (Json.ofTextEntries pairs).textEntries?.bind (fun options => some _) = _
    rw [Json.textEntries?_ofTextEntries]
    rfl
  artifact tagRead nameRead mapRead := tagRead.bind (nameRead.bind (mapRead.map rfl))

/-! ## Values of a set -/

/-- A set membership that lists the texts gets the values, wherever it stands. -/
structure Predicate.ListsValues (varname : String) (texts : List String)
    (values : OrderedSet) : Prop where
  document {entries : List (String × Tree)} {varnameTree valuesTree : Tree} {limit : Nat}
    {context : Context} :
    entries.Perm [("varname", varnameTree), ("values", valuesTree)] →
    varnameTree.DenotesText varname → valuesTree.DenotesList Tree.DenotesText texts →
    (Tree.group [("set_membership_predicate", .group entries)]).depth ≤ limit →
    Registry.flow.rewrite limit context (.group [("set_membership_predicate", .group entries)]) =
      .ok (FlowRules.ofPredicate (.membership varname values))
  json {room : Nat} {content : Json} :
    content.record? ["varname", "values"] = some [.ofText varname, .ofTexts texts] →
    ofJson? (room + 3) (.tagged "SetMembership" content) = some (.membership varname values)
  artifact {levels : Nat} {tag name set : List UInt8} :
    Recovers readTag tag 1 → Recovers readText name varname →
    Recovers (readList readText) set texts →
    Recovers (Artifact.readPredicate (levels + 1)) (tag ++ (name ++ set))
      (.membership varname values)

theorem Predicate.listsValues (varname : String) (texts : List String) :
    ListsValues varname texts (.ofList texts) where
  document := by
    intro entries varnameTree valuesTree limit context order varnameHeld listed fits
    refine RuleList.rewrite_eq_ok_iff.2 ⟨fits, ?_⟩
    exact FlowRules.evaluates_of_denotesPredicate FlowRules.extendedBy_all
      (.membership order varnameHeld listed (OrderedSet.collects_ofList texts))
  json := by
    intro room content fields
    change (content.record? _).bind _ = _
    rw [fields]
    change (Json.ofTexts texts).texts?.bind (fun values => some _) = _
    rw [Json.texts?_ofTexts]
    rfl
  artifact tagRead nameRead setRead := tagRead.bind (nameRead.bind (setRead.map rfl))

/-! ## Attributes of a node -/

/-- A node whose front matter lists the pairs gets the attributes, whatever its content is. -/
structure Node.ListsAttributes (pairs : List (String × String)) (attributes : SortedMap String) :
    Prop where
  document {name : String} {entries : List (String × Tree)} {attributesTree bodyTree : Tree}
    {body : List Element} {limit : Nat} :
    entries.Perm [("front_matter", attributesTree), ("body", bodyTree)] →
    attributesTree.DenotesList Tree.DenotesPair pairs →
    bodyTree.DenotesList Tree.DenotesElement body → (Tree.group entries).depth ≤ limit →
    Registry.flow.rewriteNode limit ⟨name⟩ (.group entries) = .ok ⟨name, body, ⟨attributes⟩⟩
  bareDocument {name : String} {attributesTree : Tree} {limit : Nat} :
    attributesTree.DenotesList Tree.DenotesPair pairs →
    (Tree.group [("front_matter", attributesTree)]).depth ≤ limit →
    Registry.flow.rewriteNode limit ⟨name⟩ (.group [("front_matter", attributesTree)]) =
      .ok ⟨name, [], ⟨attributes⟩⟩
  json {name text : String} {json frontMatter : Json} {items : List Json}
    {body : List Element} :
    Json.ofText? text = some json →
    json.record? ["name", "body", "front_matter"] =
      some [.ofText name, .array items, frontMatter] →
    items.mapM (Element.ofJson? (Json.nestingLimit - 2)) = some body →
    frontMatter.record? ["attributes"] = some [.ofTextEntries pairs] →
    ofJsonText? text = some ⟨name, body, ⟨attributes⟩⟩
  artifact {name : String} {version title content map rest : List UInt8} {body : List Element} :
    Recovers readTag version Artifact.currentVersion.toNat → Recovers readText title name →
    (∀ levels, content.length ≤ levels →
      Recovers (readList (Artifact.readElement levels)) content body) →
    Recovers (readList readTextEntry) map pairs →
    Artifact.ofBytes (version ++ (title ++ (content ++ map)) ++ rest) =
      .ok (.ofNode ⟨name, body, ⟨attributes⟩⟩)

theorem Node.listsAttributes (pairs : List (String × String)) :
    ListsAttributes pairs (.ofList pairs) where
  document := by
    intro name entries attributesTree bodyTree body limit order listed bodyHeld fits
    exact Registry.rewriteNode_flow_iff.2
      ⟨fits, .whole order listed (SortedMap.collects_ofList pairs) bodyHeld⟩
  bareDocument := by
    intro name attributesTree limit listed fits
    exact Registry.rewriteNode_flow_iff.2
      ⟨fits, .frontMatter listed (SortedMap.collects_ofList pairs)⟩
  json := by
    intro name text json frontMatter items body spelled fields bodyRead attributes
    have frontMatterRead : FrontMatter.ofJson? 126 frontMatter = some (.ofList pairs) := by
      change (frontMatter.record? _).bind _ = _
      rw [attributes]
      change (Json.ofTextEntries pairs).textEntries?.bind (fun pairs => some _) = _
      rw [Json.textEntries?_ofTextEntries]
      rfl
    rw [ofJsonText?, spelled]
    change (json.record? _).bind _ = _
    rw [fields]
    change (items.mapM (Element.ofJson? (Json.nestingLimit - 2))).bind (fun body =>
      (FrontMatter.ofJson? 126 frontMatter).bind fun frontMatter => some _) = _
    rw [bodyRead, frontMatterRead]
    rfl
  artifact := by
    intro name version title content map rest body versionRead titleRead bodyRead mapRead
    have whole : ∀ levels, content.length ≤ levels →
        Recovers (Artifact.readArtifact levels) (version ++ (title ++ (content ++ map)))
          (.ofNode ⟨name, body, ⟨.ofList pairs⟩⟩) := by
      intro levels enough
      have nodeRead : Recovers (Artifact.readNode levels) (title ++ (content ++ map))
          ⟨name, body, ⟨.ofList pairs⟩⟩ :=
        titleRead.bind ((bodyRead levels enough).bind (mapRead.map rfl))
      exact versionRead.bind (nodeRead.map rfl)
    rw [Artifact.ofBytes, whole _ (by simp only [List.length_append]; omega)]
    rfl

/-! ## Agreement -/

/-- Whatever is listed, the three ways make the same options, attributes and values of it:
options by the first occurrence of their keys and attributes by the bytes of theirs, each with
the last text of its key, and values without repeats. -/
theorem repeats_agree (pairs : List (String × String)) (texts : List String) :
    (∃ options : OrderedMap String, options.Collects pairs ∧
      ∀ identifier, Question.ListsOptions identifier pairs options) ∧
    (∃ attributes : SortedMap String,
      attributes.entries.Pairwise
        (fun earlier later => Artifact.utf8 earlier.1 < Artifact.utf8 later.1) ∧
      (∀ key, FrontMatter.get? ⟨attributes⟩ key = Entries.last? key pairs) ∧
      Node.ListsAttributes pairs attributes) ∧
    ∃ values : OrderedSet, values.Collects texts ∧
      ∀ varname, Predicate.ListsValues varname texts values := by
  refine ⟨⟨.ofList pairs, OrderedMap.collects_ofList pairs, ?_⟩,
    ⟨.ofList pairs, ?_, SortedMap.collects_ofList pairs, Node.listsAttributes pairs⟩,
    ⟨.ofList texts, OrderedSet.collects_ofList texts, ?_⟩⟩
  · exact fun identifier => Question.listsOptions identifier pairs
  · exact (SortedMap.ofList pairs).ascending.imp Artifact.utf8_lt_iff.2
  · exact fun varname => Predicate.listsValues varname texts

/-- A repeated option, set value and attribute on each of the three ways. -/
theorem repeats_agree_twice :
    let pairs := [("b", "1"), ("a", "2"), ("b", "3")]
    let texts := ["x", "y", "x"]
    let entry (key text : String) (pair : String × String) : Tree :=
      .group [(key, .leaf pair.1), (text, .leaf pair.2)]
    let choice : Question := .multipleChoice "q" (.ofList [("b", "3"), ("a", "2")])
    let test : Predicate := .membership "v" (.ofList ["x", "y"])
    let node : Node := ⟨"p", [], .ofList [("a", "2"), ("b", "3")]⟩
    (Registry.flow.rewrite 5 ⟨"p"⟩ (.group [("multiple_choice", .group
        [("options", .sequence (pairs.map (entry "value" "label"))), ("identifier", .leaf "q")])]) =
          .ok (FlowRules.ofElement (.question choice)) ∧
      Question.ofJson? 3 (.tagged "MultipleChoice"
        (.ofFields [("options", .ofTextEntries pairs), ("identifier", .ofText "q")])) =
          some choice ∧
      Artifact.readQuestion (writeInteger 0 ++ (writeText "q" ++ writeTextEntries pairs)) =
        some (choice, [])) ∧
    (Registry.flow.rewrite 5 ⟨"p"⟩ (.membership "v" (.sequence (texts.map .setValue))) =
        .ok (FlowRules.ofPredicate test) ∧
      Predicate.ofJson? 3 (.tagged "SetMembership" (.array [.ofText "v", .ofTexts texts])) =
        some test ∧
      Artifact.readPredicate 1 (writeInteger 1 ++ (writeText "v" ++ writeTexts texts)) =
        some (test, [])) ∧
    (Registry.flow.rewriteNode 5 ⟨"p"⟩ (.group [("body", .leaf ""),
        ("front_matter", .sequence (pairs.map (entry "name" "value")))]) = .ok node ∧
      Node.ofJsonText? (Json.ofFields [("name", .ofText "p"), ("body", .array []),
        ("front_matter", .ofFields [("attributes", .ofTextEntries pairs)])]).compact =
          some node ∧
      Artifact.ofBytes (writeInteger 1 ++ (writeText "p" ++ (writeInteger 0 ++
        writeTextEntries pairs)) ++ [7]) = .ok (.ofNode node)) := by
  intro pairs texts entry choice test node
  obtain ⟨⟨options, optionsCollect, choices⟩, ⟨attributes, _, found, nodes⟩,
    ⟨values, valuesCollect, memberships⟩⟩ := repeats_agree pairs texts
  have attributesCollect : attributes.Collects pairs := found
  obtain rfl : options = .ofList [("b", "3"), ("a", "2")] :=
    (OrderedMap.collects_iff.1 optionsCollect).trans rfl
  obtain rfl : values = .ofList ["x", "y"] := (OrderedSet.collects_iff.1 valuesCollect).trans rfl
  obtain rfl : attributes = .ofList [("a", "2"), ("b", "3")] :=
    (SortedMap.collects_iff.1 attributesCollect).trans rfl
  have mapRead : Recovers (readList readTextEntry) (writeTextEntries pairs) pairs :=
    Artifact.recovers_textEntries ⟨by decide, by decide⟩
  have setRead : Recovers (readList readText) (writeTexts texts) texts :=
    Artifact.recovers_texts ⟨by decide, by decide⟩
  have options : (pairs.map (entry "value" "label")).Forall₂ Tree.DenotesPair pairs :=
    List.forall₂_map_left_iff.2
      (List.forall₂_same.2 fun _ _ => .choiceOption (.refl _) .leaf .leaf)
  have declared : (pairs.map (entry "name" "value")).Forall₂ Tree.DenotesPair pairs :=
    List.forall₂_map_left_iff.2
      (List.forall₂_same.2 fun _ _ => .frontMatterAttribute (.refl _) .leaf .leaf)
  have members : (texts.map Tree.setValue).Forall₂ Tree.DenotesText texts :=
    List.forall₂_map_left_iff.2 (List.forall₂_same.2 fun _ _ => .setValue .leaf)
  refine ⟨⟨?_, ?_, ?_⟩, ⟨?_, ?_, ?_⟩, ⟨?_, ?_, ?_⟩⟩
  · exact (choices "q").document (.swap _ _ _) .leaf (.sequence options) (by decide)
  · exact (choices "q").json rfl
  · exact (choices "q").artifact (Artifact.recovers_tag (by decide))
      (Artifact.recovers_text (by decide)) mapRead []
  · exact (memberships "v").document (.refl _) .leaf (.sequence members) (by decide)
  · exact (memberships "v").json rfl
  · exact (memberships "v").artifact (Artifact.recovers_tag (by decide))
      (Artifact.recovers_text (by decide)) setRead []
  · exact nodes.document (.swap _ _ _) (.sequence declared) (.empty .leaf) (by decide)
  · exact nodes.json (Json.NumberFree.ofText?_compact (by simp)) rfl rfl rfl
  · have noContent : ∀ levels, (writeInteger 0).length ≤ levels →
        Recovers (readList (Artifact.readElement levels)) (writeInteger 0) [] := by
      intro levels _
      rw [← List.append_nil (writeInteger 0)]
      exact (Artifact.recovers_length (by decide)).bind (.pure [])
    exact nodes.artifact (Artifact.recovers_tag (by decide)) (Artifact.recovers_text (by decide))
      noContent mapRead

end InterviewFlow
