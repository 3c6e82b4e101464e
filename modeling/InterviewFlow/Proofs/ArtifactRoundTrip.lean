import InterviewFlow.Artifact.Basic
import InterviewFlow.Proofs.Collections
import InterviewFlow.Proofs.Framing

/-! Artifacts are read back as they were written, from bytes that may go on behind
them, and never from a part of their bytes. Reading is bounded by a number of levels;
the induction carries that the bytes of a value are at least as many as its levels. -/

set_option autoImplicit false

namespace InterviewFlow

namespace Artifact

/-! ## What can be written

Lengths are written in at most eight bytes. -/

/-- A text of fewer than `2 ^ 64` bytes. -/
def ShortText (text : String) : Prop :=
  text.utf8ByteSize < 2 ^ 64

instance (text : String) : Decidable (ShortText text) :=
  inferInstanceAs (Decidable (text.utf8ByteSize < 2 ^ 64))

def ShortTexts (texts : List String) : Prop :=
  texts.length < 2 ^ 64 ∧ ∀ text ∈ texts, ShortText text

def ShortEntries (entries : Entries String) : Prop :=
  entries.length < 2 ^ 64 ∧ ∀ entry ∈ entries, ShortText entry.1 ∧ ShortText entry.2

inductive StorablePredicate : Predicate → Prop where
  | equality {varname expected : String} (shortName : ShortText varname)
      (shortExpected : ShortText expected) : StorablePredicate (.equality varname expected)
  | membership {varname : String} {values : OrderedSet} (shortName : ShortText varname)
      (shortValues : ShortTexts values.items) : StorablePredicate (.membership varname values)
  | named {name : String} (shortName : ShortText name) : StorablePredicate (.named name)
  | otherwise : StorablePredicate .otherwise
  | combined {members : List Predicate} (few : members.length < 2 ^ 64)
      (each : ∀ member ∈ members, StorablePredicate member) : StorablePredicate (.combined members)
  | function {name : String} {arguments : List String} (shortName : ShortText name)
      (shortArguments : ShortTexts arguments) : StorablePredicate (.function name arguments)
  | comparison {operator : ComparisonOperator} {varname value : String}
      (shortName : ShortText varname) (shortValue : ShortText value) :
      StorablePredicate (.comparison ⟨operator, varname, value⟩)

inductive StorableRule : RoutingRule → Prop where
  | direct {predicate : Predicate} {outcome : String} (guard : StorablePredicate predicate)
      (shortOutcome : ShortText outcome) : StorableRule (.direct predicate outcome)
  | nested {predicate : Predicate} {children : List RoutingRule}
      (guard : StorablePredicate predicate) (few : children.length < 2 ^ 64)
      (each : ∀ child ∈ children, StorableRule child) : StorableRule (.nested predicate children)

inductive StorableQuestion : Question → Prop where
  | multipleChoice {identifier : String} {options : OrderedMap String}
      (shortName : ShortText identifier) (shortOptions : ShortEntries options.entries) :
      StorableQuestion (.multipleChoice identifier options)
  | date {identifier : String} (shortName : ShortText identifier) :
      StorableQuestion (.date identifier)
  | salary {identifier : String} (shortName : ShortText identifier) :
      StorableQuestion (.salary identifier)
  | text {identifier : String} (shortName : ShortText identifier) :
      StorableQuestion (.text identifier)

inductive StorableElement : Element → Prop where
  | heading {text : String} (short : ShortText text) : StorableElement (.heading text)
  | paragraph {text : String} (short : ShortText text) : StorableElement (.paragraph text)
  | startButton {target : String} (short : ShortText target) :
      StorableElement (.startButton target)
  | nextSteps {text : String} (short : ShortText text) : StorableElement (.nextSteps text)
  | conditional {guard : Predicate} {whenTrue whenFalse : List Element}
      (guarded : StorablePredicate guard) (fewTrue : whenTrue.length < 2 ^ 64)
      (eachTrue : ∀ element ∈ whenTrue, StorableElement element)
      (fewFalse : whenFalse.length < 2 ^ 64)
      (eachFalse : ∀ element ∈ whenFalse, StorableElement element) :
      StorableElement (.conditional guard whenTrue whenFalse)
  | question {prompt : Question} (storable : StorableQuestion prompt) :
      StorableElement (.question prompt)
  | routing {rules : List RoutingRule} (few : rules.length < 2 ^ 64)
      (each : ∀ rule ∈ rules, StorableRule rule) : StorableElement (.routing rules)

/-- Every text and every collection of the node is shorter than `2 ^ 64`. -/
structure StorableNode (node : Node) : Prop where
  name : ShortText node.name
  count : node.body.length < 2 ^ 64
  body : ∀ element ∈ node.body, StorableElement element
  attributes : ShortEntries node.frontMatter.attributes.entries

/-! ## Reading back what was written -/

theorem writePredicates_eq_flatMap (predicates : List Predicate) :
    writePredicates predicates = predicates.flatMap writePredicate := by
  induction predicates with
  | nil => rfl
  | cons predicate rest ih => rw [writePredicates, ih, List.flatMap_cons]

theorem writeRoutingRules_eq_flatMap (rules : List RoutingRule) :
    writeRoutingRules rules = rules.flatMap writeRoutingRule := by
  induction rules with
  | nil => rfl
  | cons rule rest ih => rw [writeRoutingRules, ih, List.flatMap_cons]

theorem writeElements_eq_flatMap (elements : List Element) :
    writeElements elements = elements.flatMap writeElement := by
  induction elements with
  | nil => rfl
  | cons element rest ih => rw [writeElements, ih, List.flatMap_cons]

theorem recovers_texts {texts : List String} (short : ShortTexts texts) :
    Recovers (readList readText) (writeTexts texts) texts :=
  recovers_list short.1 fun text member => recovers_text (short.2 text member)

theorem recovers_textEntries {entries : Entries String} (short : ShortEntries entries) :
    Recovers (readList readTextEntry) (writeTextEntries entries) entries := by
  refine recovers_list short.1 fun entry member => ?_
  obtain ⟨shortKey, shortText⟩ := short.2 entry member
  exact (recovers_text shortKey).bind ((recovers_text shortText).map rfl)

theorem recovers_operator (operator : ComparisonOperator) :
    Recovers readOperator (writeInteger (operatorTag operator)) operator := by
  rw [← List.append_nil (writeInteger _)]
  cases operator with
  | less => exact (recovers_tag (by decide)).bind (.pure _)
  | lessOrEqual => exact (recovers_tag (by decide)).bind (.pure _)
  | greater => exact (recovers_tag (by decide)).bind (.pure _)
  | greaterOrEqual => exact (recovers_tag (by decide)).bind (.pure _)

theorem recovers_comparison {comparison : Comparison} (shortName : ShortText comparison.varname)
    (shortValue : ShortText comparison.value) :
    Recovers readComparison (writeComparison comparison) comparison := by
  rw [writeComparison, List.append_assoc]
  exact (recovers_operator _).bind
    ((recovers_text shortName).bind ((recovers_text shortValue).map rfl))

/-- The number of a variant takes a byte, so the content has a level less. -/
theorem exists_room {tag levels : Nat} {content : List UInt8}
    (enough : (writeInteger tag ++ content).length ≤ levels) :
    ∃ room, levels = room + 1 ∧ content.length ≤ room := by
  have marked : 0 < (writeInteger tag).length := by
    unfold writeInteger
    repeat' split
    all_goals exact Nat.zero_lt_succ _
  rw [List.length_append] at enough
  exact ⟨levels - 1, by omega, by omega⟩

theorem recovers_predicate {predicate : Predicate} (storable : StorablePredicate predicate)
    {levels : Nat} (enough : (writePredicate predicate).length ≤ levels) :
    Recovers (readPredicate levels) (writePredicate predicate) predicate := by
  -- Levels are counted in bytes: a member is shorter than the conjunction around it.
  induction storable generalizing levels with
  | equality shortName shortExpected =>
      rw [writePredicate, List.append_assoc] at enough ⊢
      obtain ⟨room, rfl, _⟩ := exists_room enough
      exact (recovers_tag (by decide)).bind
        ((recovers_text shortName).bind ((recovers_text shortExpected).map rfl))
  | @membership _ values shortName shortValues =>
      rw [writePredicate, List.append_assoc] at enough ⊢
      obtain ⟨room, rfl, _⟩ := exists_room enough
      exact (recovers_tag (by decide)).bind ((recovers_text shortName).bind
        ((recovers_texts shortValues).map (congrArg _ values.ofList_items)))
  | named shortName =>
      rw [writePredicate] at enough ⊢
      obtain ⟨room, rfl, _⟩ := exists_room enough
      exact (recovers_tag (by decide)).bind ((recovers_text shortName).map rfl)
  | otherwise =>
      rw [writePredicate, ← List.append_nil (writeInteger _)] at enough ⊢
      obtain ⟨room, rfl, _⟩ := exists_room enough
      exact (recovers_tag (by decide)).bind (.pure _)
  | @combined members few each ih =>
      rw [writePredicate, writePredicates_eq_flatMap, List.append_assoc] at enough ⊢
      obtain ⟨room, rfl, content⟩ := exists_room enough
      rw [List.length_append] at content
      have memberRead : ∀ member ∈ members, Recovers (readPredicate room) _ member :=
        fun member found => ih member found (length_le_of_mem (by omega) found)
      exact (recovers_tag (by decide)).bind ((recovers_list few memberRead).map rfl)
  | function shortName shortArguments =>
      rw [writePredicate, List.append_assoc] at enough ⊢
      obtain ⟨room, rfl, _⟩ := exists_room enough
      exact (recovers_tag (by decide)).bind
        ((recovers_text shortName).bind ((recovers_texts shortArguments).map rfl))
  | comparison shortName shortValue =>
      rw [writePredicate] at enough ⊢
      obtain ⟨room, rfl, _⟩ := exists_room enough
      exact (recovers_tag (by decide)).bind ((recovers_comparison shortName shortValue).map rfl)

theorem recovers_rule {rule : RoutingRule} (storable : StorableRule rule) {levels : Nat}
    (enough : (writeRoutingRule rule).length ≤ levels) :
    Recovers (readRoutingRule levels) (writeRoutingRule rule) rule := by
  induction storable generalizing levels with
  | direct guard shortOutcome =>
      rw [writeRoutingRule, List.append_assoc] at enough ⊢
      obtain ⟨room, rfl, content⟩ := exists_room enough
      rw [List.length_append] at content
      have guardRead := recovers_predicate guard (Nat.le_of_add_right_le content)
      exact (recovers_tag (by decide)).bind (guardRead.bind ((recovers_text shortOutcome).map rfl))
  | @nested _ children guard few each ih =>
      rw [writeRoutingRule, writeRoutingRules_eq_flatMap, List.append_assoc, List.append_assoc]
        at enough ⊢
      obtain ⟨room, rfl, content⟩ := exists_room enough
      rw [List.length_append, List.length_append] at content
      have guardRead := recovers_predicate guard (Nat.le_of_add_right_le content)
      have childRead : ∀ child ∈ children, Recovers (readRoutingRule room) _ child :=
        fun child found => ih child found (length_le_of_mem (by omega) found)
      exact (recovers_tag (by decide)).bind
        (guardRead.bind ((recovers_list few childRead).map rfl))

theorem recovers_question {question : Question} (storable : StorableQuestion question) :
    Recovers readQuestion (writeQuestion question) question := by
  cases storable with
  | @multipleChoice _ options shortName shortOptions =>
      rw [writeQuestion, List.append_assoc]
      exact (recovers_tag (by decide)).bind ((recovers_text shortName).bind
        ((recovers_textEntries shortOptions).map (congrArg _ options.ofList_entries)))
  | date shortName =>
      exact (recovers_tag (by decide)).bind ((recovers_text shortName).map rfl)
  | salary shortName =>
      exact (recovers_tag (by decide)).bind ((recovers_text shortName).map rfl)
  | text shortName =>
      exact (recovers_tag (by decide)).bind ((recovers_text shortName).map rfl)

theorem recovers_element {element : Element} (storable : StorableElement element) {levels : Nat}
    (enough : (writeElement element).length ≤ levels) :
    Recovers (readElement levels) (writeElement element) element := by
  induction storable generalizing levels with
  | heading short =>
      rw [writeElement] at enough ⊢
      obtain ⟨room, rfl, _⟩ := exists_room enough
      exact (recovers_tag (by decide)).bind ((recovers_text short).map rfl)
  | paragraph short =>
      rw [writeElement] at enough ⊢
      obtain ⟨room, rfl, _⟩ := exists_room enough
      exact (recovers_tag (by decide)).bind ((recovers_text short).map rfl)
  | startButton short =>
      rw [writeElement] at enough ⊢
      obtain ⟨room, rfl, _⟩ := exists_room enough
      exact (recovers_tag (by decide)).bind ((recovers_text short).map rfl)
  | nextSteps short =>
      rw [writeElement] at enough ⊢
      obtain ⟨room, rfl, _⟩ := exists_room enough
      exact (recovers_tag (by decide)).bind ((recovers_text short).map rfl)
  | @conditional guard whenTrue whenFalse guarded fewTrue eachTrue fewFalse eachFalse
      ihTrue ihFalse =>
      rw [writeElement, writeElements_eq_flatMap, writeElements_eq_flatMap] at enough ⊢
      simp only [List.append_assoc] at enough ⊢
      rw [← List.append_assoc (writeInteger whenTrue.length)] at enough ⊢
      obtain ⟨room, rfl, content⟩ := exists_room enough
      simp only [List.length_append] at content
      have guardRead := recovers_predicate guarded (Nat.le_of_add_right_le content)
      have trueRead : ∀ element ∈ whenTrue, Recovers (readElement room) _ element :=
        fun element found => ihTrue element found (length_le_of_mem (by omega) found)
      have falseRead : ∀ element ∈ whenFalse, Recovers (readElement room) _ element :=
        fun element found => ihFalse element found (length_le_of_mem (by omega) found)
      exact (recovers_tag (by decide)).bind (guardRead.bind
        ((recovers_list fewTrue trueRead).bind ((recovers_list fewFalse falseRead).map rfl)))
  | question storable =>
      rw [writeElement] at enough ⊢
      obtain ⟨room, rfl, _⟩ := exists_room enough
      exact (recovers_tag (by decide)).bind ((recovers_question storable).map rfl)
  | @routing rules few each =>
      rw [writeElement, writeRoutingRules_eq_flatMap, List.append_assoc] at enough ⊢
      obtain ⟨room, rfl, content⟩ := exists_room enough
      rw [List.length_append] at content
      have ruleRead : ∀ rule ∈ rules, Recovers (readRoutingRule room) _ rule :=
        fun rule found => recovers_rule (each rule found) (length_le_of_mem (by omega) found)
      exact (recovers_tag (by decide)).bind ((recovers_list few ruleRead).map rfl)

theorem recovers_node {node : Node} (storable : StorableNode node) {levels : Nat}
    (enough : (writeNode node).length ≤ levels) :
    Recovers (readNode levels) (writeNode node) node := by
  rw [writeNode, writeElements_eq_flatMap, List.append_assoc, List.append_assoc,
    ← List.append_assoc (writeInteger node.body.length)] at enough ⊢
  simp only [List.length_append] at enough
  have elementRead : ∀ element ∈ node.body, Recovers (readElement levels) _ element :=
    fun element found => recovers_element (storable.body element found)
      (length_le_of_mem (by omega) found)
  have same := node.frontMatter.attributes.ofList_entries
  exact (recovers_text storable.name).bind ((recovers_list storable.count elementRead).bind
    ((recovers_textEntries storable.attributes).map
      (congrArg (fun attributes => Node.mk node.name node.body ⟨attributes⟩) same)))

theorem recovers_artifact {artifact : Artifact} (storable : StorableNode artifact.node)
    {levels : Nat} (enough : artifact.toBytes.length ≤ levels) :
    Recovers (readArtifact levels) artifact.toBytes artifact := by
  rw [toBytes, List.length_append] at enough
  have nodeRead := recovers_node storable (Nat.le_of_add_left_le enough)
  have same : Artifact.mk (.ofNat artifact.version.toNat) artifact.node = artifact := by
    rw [UInt32.ofNat_toNat]
  exact (recovers_tag artifact.version.toNat_lt).bind (nodeRead.map same)

/-! ## Reading goes on -/

theorem continues_textEntry : Continues readTextEntry readTextEntry :=
  continues_text.bind fun _ => continues_text.bind fun _ => .pure _

theorem continues_operator : Continues readOperator readOperator := by
  refine continues_tag.bind fun tag => ?_
  split
  · exact .pure _
  · exact .pure _
  · exact .pure _
  · exact .pure _
  · exact .failure

theorem continues_comparison : Continues readComparison readComparison :=
  continues_operator.bind fun _ => continues_text.bind fun _ => continues_text.bind fun _ => .pure _

theorem continues_predicate {levels further : Nat} (more : levels ≤ further) :
    Continues (readPredicate levels) (readPredicate further) := by
  induction levels generalizing further with
  | zero => exact .failure
  | succ levels ih =>
      obtain ⟨room, rfl⟩ := Nat.exists_eq_add_of_le' (Nat.le_of_add_left_le more)
      have members := continues_list (ih (Nat.le_of_succ_le_succ more))
      refine continues_tag.bind fun tag => ?_
      split
      · exact continues_text.bind fun _ => continues_text.bind fun _ => .pure _
      · exact continues_text.bind fun _ => (continues_list continues_text).bind fun _ => .pure _
      · exact continues_text.bind fun _ => .pure _
      · exact .pure _
      · exact members.bind fun _ => .pure _
      · exact continues_text.bind fun _ => (continues_list continues_text).bind fun _ => .pure _
      · exact continues_comparison.bind fun _ => .pure _
      · exact .failure

theorem continues_rule {levels further : Nat} (more : levels ≤ further) :
    Continues (readRoutingRule levels) (readRoutingRule further) := by
  induction levels generalizing further with
  | zero => exact .failure
  | succ levels ih =>
      obtain ⟨room, rfl⟩ := Nat.exists_eq_add_of_le' (Nat.le_of_add_left_le more)
      have within := Nat.le_of_succ_le_succ more
      refine continues_tag.bind fun tag => ?_
      split
      · exact (continues_predicate within).bind fun _ => continues_text.bind fun _ => .pure _
      · exact (continues_predicate within).bind fun _ =>
          (continues_list (ih within)).bind fun _ => .pure _
      · exact .failure

theorem continues_question : Continues readQuestion readQuestion := by
  refine continues_tag.bind fun tag => ?_
  split
  · exact continues_text.bind fun _ => (continues_list continues_textEntry).bind fun _ => .pure _
  · exact continues_text.bind fun _ => .pure _
  · exact continues_text.bind fun _ => .pure _
  · exact continues_text.bind fun _ => .pure _
  · exact .failure

theorem continues_element {levels further : Nat} (more : levels ≤ further) :
    Continues (readElement levels) (readElement further) := by
  induction levels generalizing further with
  | zero => exact .failure
  | succ levels ih =>
      obtain ⟨room, rfl⟩ := Nat.exists_eq_add_of_le' (Nat.le_of_add_left_le more)
      have within := Nat.le_of_succ_le_succ more
      have branch := continues_list (ih within)
      refine continues_tag.bind fun tag => ?_
      split
      · exact continues_text.bind fun _ => .pure _
      · exact continues_text.bind fun _ => .pure _
      · exact continues_text.bind fun _ => .pure _
      · exact continues_text.bind fun _ => .pure _
      · exact (continues_predicate within).bind fun _ => branch.bind fun _ =>
          branch.bind fun _ => .pure _
      · exact continues_question.bind fun _ => .pure _
      · exact (continues_list (continues_rule within)).bind fun _ => .pure _
      · exact .failure

theorem continues_node {levels further : Nat} (more : levels ≤ further) :
    Continues (readNode levels) (readNode further) :=
  continues_text.bind fun _ => (continues_list (continues_element more)).bind fun _ =>
    (continues_list continues_textEntry).bind fun _ => .pure _

theorem continues_artifact {levels further : Nat} (more : levels ≤ further) :
    Continues (readArtifact levels) (readArtifact further) :=
  continues_tag.bind fun _ => (continues_node more).bind fun _ => .pure _

/-! ## Whole artifacts -/

theorem message_unsupportedVersion (version : UInt32) :
    (ArtifactError.unsupportedVersion version).message =
      "Artifact error: Unsupported artifact version " ++ version.toNat.repr
        ++ " (expected 1)" := by
  have expected : " (expected " ++ (currentVersion.toNat.repr ++ ")") = " (expected 1)" := by
    decide
  rw [← expected, ← String.append_assoc, ← String.append_assoc]
  rfl

/-- An artifact of the current revision is read back whatever follows it; one of another
revision is refused by its number; a proper part of an artifact cannot be decoded. -/
theorem ofBytes_toBytes {artifact : Artifact} (storable : StorableNode artifact.node) :
    (∀ trailing, artifact.version = 1 →
      ofBytes (artifact.toBytes ++ trailing) = .ok artifact) ∧
    (∀ trailing, artifact.version ≠ 1 → ∃ error,
      ofBytes (artifact.toBytes ++ trailing) = .error error ∧
      error.message = "Artifact error: Unsupported artifact version "
        ++ artifact.version.toNat.repr ++ " (expected 1)") ∧
    ∀ part, part <+: artifact.toBytes → part ≠ artifact.toBytes →
      ofBytes part = .error .undecodable := by
  have whole : ∀ trailing, readArtifact (artifact.toBytes ++ trailing).length
      (artifact.toBytes ++ trailing) = some (artifact, trailing) := by
    intro trailing
    apply recovers_artifact storable
    rw [List.length_append]
    exact Nat.le_add_right _ _
  refine ⟨?_, ?_, ?_⟩
  · intro trailing current
    rw [ofBytes, whole]
    exact if_pos current
  · intro trailing other
    refine ⟨.unsupportedVersion artifact.version, ?_, ?_⟩
    · rw [ofBytes, whole]
      exact if_neg other
    · exact message_unsupportedVersion artifact.version
  · intro part partOf proper
    have nothing := (recovers_artifact storable (Nat.le_refl _)).eq_none_of_part
      (continues_artifact partOf.length_le) partOf proper
    rw [ofBytes, nothing]

/-- A set and options out of alphabetical order and a text of more than 250 bytes, with
other bytes behind. -/
theorem ofBytes_toBytes_long :
    let node : Node := ⟨"start",
      [.conditional (.combined [.membership "region" (.ofList ["north", "east"]), .otherwise])
        [.heading (String.ofList (List.replicate 300 'x'))]
        [.question (.multipleChoice "agreed" (.ofList [("yes", "Yes"), ("no", "No")]))]],
      .ofList [("lang", "de"), ("author", "me")]⟩
    ofBytes ((ofNode node).toBytes ++ [7, 7]) = .ok (ofNode node) := by
  intro node
  have guarded : StorablePredicate
      (.combined [.membership "region" (.ofList ["north", "east"]), .otherwise]) := by
    refine .combined (by decide) ?_
    simp only [List.forall_mem_cons]
    exact ⟨.membership (by decide) ⟨by decide, by decide⟩, .otherwise, List.forall_mem_nil _⟩
  have heading : StorableElement (.heading (String.ofList (List.replicate 300 'x'))) :=
    .heading (by decide +kernel)
  have question : StorableElement
      (.question (.multipleChoice "agreed" (.ofList [("yes", "Yes"), ("no", "No")]))) :=
    .question (.multipleChoice (by decide) ⟨by decide, by decide⟩)
  have storable : StorableNode (ofNode node).node :=
    { name := by decide
      count := by decide
      body := List.forall_mem_singleton.2 (.conditional guarded (by decide)
        (List.forall_mem_singleton.2 heading) (by decide) (List.forall_mem_singleton.2 question))
      attributes := ⟨by decide, by decide⟩ }
  exact (ofBytes_toBytes storable).1 [7, 7] rfl

end Artifact

end InterviewFlow
