import InterviewFlow.Proofs.Evaluation
import InterviewFlow.Proofs.Precedence

/-! Patterns on trees. A rule matches a group whose subtrees have been
rewritten; where the group templates inside its pattern are matched by no rule,
this can be said of the tree itself: its groups spell the pattern, and each slot
holds what the subtree at its place is rewritten to. -/

set_option autoImplicit false

namespace InterviewFlow

/-! ## Captures as lists of bindings -/

namespace Captures

/-- Binds slots one after the other. -/
def bindAll (captures : Captures) (bindings : List (String × Value)) : Captures :=
  bindings.foldl (fun captures binding => captures.bind binding.1 binding.2) captures

def ofList (bindings : List (String × Value)) : Captures :=
  empty.bindAll bindings

theorem bindAll_append (captures : Captures) (first second : List (String × Value)) :
    captures.bindAll (first ++ second) = (captures.bindAll first).bindAll second := by
  simp [bindAll]

@[simp] theorem get?_bind (captures : Captures) (slot name : String) (value : Value) :
    (captures.bind slot value).get? name =
      if slot = name then some value else captures.get? name := by
  by_cases same : slot = name
  · subst same
    rw [if_pos rfl]
    exact SortedMap.get?_insert_self
  · rw [if_neg same]
    exact SortedMap.get?_insert_of_ne (Ne.symm same)

@[simp] theorem get?_erase (captures : Captures) (slot name : String) :
    (captures.erase slot).get? name = if slot = name then none else captures.get? name := by
  by_cases same : slot = name
  · subst same
    rw [if_pos rfl]
    exact Entries.get?_erase_self
  · rw [if_neg same]
    exact Entries.get?_erase_of_ne (Ne.symm same)

end Captures

namespace Pattern

/-! ## Reading a tree by a pattern -/

mutual

/-- The tree spells the pattern, and each slot is bound to what is related to
the subtree at its place. -/
def Reads (Related : Tree → Value → Prop) : Pattern → Tree → List (String × Value) → Prop
  | .simple slot, tree, bindings =>
      ∃ text, Related tree (.leaf text) ∧ bindings = [(slot, .leaf text)]
  | .subtree slot, tree, bindings => ∃ value, Related tree value ∧ bindings = [(slot, value)]
  | .group templates, tree, bindings =>
      ∃ entries, tree = .group entries ∧ templates.length = entries.length ∧
        ReadsAll Related templates entries bindings

def ReadsAll (Related : Tree → Value → Prop) :
    List (String × Pattern) → List (String × Tree) → List (String × Value) → Prop
  | [], _, bindings => bindings = []
  | (tag, template) :: rest, entries, bindings =>
      ∃ tree first others, Entries.get? tag entries = some tree ∧
        Reads Related template tree first ∧ ReadsAll Related rest entries others ∧
        bindings = first ++ others

end

theorem ReadsAll.member {Related : Tree → Value → Prop} {templates : List (String × Pattern)}
    {entries : List (String × Tree)} {bindings : List (String × Value)}
    (read : ReadsAll Related templates entries bindings) {template : String × Pattern}
    (member : template ∈ templates) :
    ∃ tree below, Entries.get? template.1 entries = some tree ∧
      Reads Related template.2 tree below := by
  induction templates generalizing bindings with
  | nil => simp at member
  | cons head rest ih =>
      obtain ⟨tree, first, others, present, headRead, restRead, _⟩ := read
      rcases List.mem_cons.1 member with rfl | later
      · exact ⟨tree, first, present, headRead⟩
      · exact ih restRead later

theorem ReadsAll.imp {Related Stronger : Tree → Value → Prop}
    {templates : List (String × Pattern)} {entries : List (String × Tree)}
    {bindings : List (String × Value)} (read : ReadsAll Related templates entries bindings)
    (each : ∀ template ∈ templates, ∀ tree below, tree.depth < (Tree.group entries).depth →
      Reads Related template.2 tree below → Reads Stronger template.2 tree below) :
    ReadsAll Stronger templates entries bindings := by
  induction templates generalizing bindings with
  | nil => exact read
  | cons head rest ih =>
      obtain ⟨tag, template⟩ := head
      obtain ⟨tree, first, others, present, headRead, restRead, rfl⟩ := read
      have smaller : tree.depth < (Tree.group entries).depth := by
        have below : tree.depth ≤ Tree.depthOfEntries entries :=
          Tree.depth_le_depthOfEntries (Entries.mem_of_get?_eq_some present)
        simp only [Tree.depth]
        omega
      exact ⟨tree, first, others, present,
        each (tag, template) (by simp) tree first smaller headRead,
        ih restRead fun template member => each template (by simp [member]), rfl⟩

theorem Reads.mono {Related Stronger : Tree → Value → Prop} {pattern : Pattern} {tree : Tree}
    {bindings : List (String × Value)} (read : Reads Related pattern tree bindings)
    (strengthen : ∀ subtree value, subtree.depth ≤ tree.depth → Related subtree value →
      Stronger subtree value) :
    Reads Stronger pattern tree bindings := by
  induction pattern using entryInduction generalizing tree bindings with
  | simple slot =>
      obtain ⟨text, related, rfl⟩ := read
      exact ⟨text, strengthen _ _ (Nat.le_refl _) related, rfl⟩
  | subtree slot =>
      obtain ⟨value, related, rfl⟩ := read
      exact ⟨value, strengthen _ _ (Nat.le_refl _) related, rfl⟩
  | group templates ih =>
      obtain ⟨entries, rfl, sameLength, readAll⟩ := read
      refine ⟨entries, rfl, sameLength, readAll.imp ?_⟩
      intro template member subtree below smaller subtreeRead
      apply ih template member subtreeRead
      intro inner value within
      exact strengthen inner value (by omega)

/-- A group template reads proper subtrees only, so the relation may be
strengthened by what is known of smaller trees. -/
theorem Reads.mono_group {Related Stronger : Tree → Value → Prop}
    {templates : List (String × Pattern)} {tree : Tree} {bindings : List (String × Value)}
    (read : Reads Related (.group templates) tree bindings)
    (strengthen : ∀ subtree value, subtree.depth < tree.depth → Related subtree value →
      Stronger subtree value) :
    Reads Stronger (.group templates) tree bindings := by
  obtain ⟨entries, rfl, sameLength, readAll⟩ := read
  refine ⟨entries, rfl, sameLength, readAll.imp ?_⟩
  intro template member subtree below smaller subtreeRead
  apply subtreeRead.mono
  intro inner value within
  exact strengthen inner value (by omega)

/-! ## Reading a group in the order of its templates -/

/-- The trees are tagged and ordered like the templates, and each is read by its own. -/
@[simp] def ReadsInOrder (Related : Tree → Value → Prop) :
    List (String × Pattern) → List (String × Tree) → List (String × Value) → Prop
  | [], listed, bindings => listed = [] ∧ bindings = []
  | (tag, template) :: rest, listed, bindings =>
      ∃ tree others first later, listed = (tag, tree) :: others ∧
        Reads Related template tree first ∧ ReadsInOrder Related rest others later ∧
        bindings = first ++ later

theorem ReadsInOrder.keys_eq {Related : Tree → Value → Prop}
    {templates : List (String × Pattern)} {listed : List (String × Tree)}
    {bindings : List (String × Value)} (read : ReadsInOrder Related templates listed bindings) :
    Entries.keys listed = Entries.keys templates := by
  induction templates generalizing listed bindings with
  | nil =>
      rw [read.1]
      rfl
  | cons head rest ih =>
      obtain ⟨tree, others, first, later, rfl, _, readRest, _⟩ := read
      simp [ih readRest]

theorem readsAll_iff {Related : Tree → Value → Prop} {templates : List (String × Pattern)}
    {entries : List (String × Tree)} {bindings : List (String × Value)} :
    ReadsAll Related templates entries bindings ↔
      ∃ listed, ReadsInOrder Related templates listed bindings ∧
        ∀ entry ∈ listed, Entries.get? entry.1 entries = some entry.2 := by
  induction templates generalizing bindings with
  | nil => simp [ReadsAll, ReadsInOrder]
  | cons head rest ih =>
      obtain ⟨tag, template⟩ := head
      simp only [ReadsAll, ReadsInOrder, ih]
      constructor
      · rintro ⟨tree, first, later, present, read, ⟨listed, readRest, found⟩, rfl⟩
        refine ⟨(tag, tree) :: listed, ⟨tree, listed, first, later, rfl, read, readRest, rfl⟩, ?_⟩
        exact List.forall_mem_cons.2 ⟨present, found⟩
      · rintro ⟨_, ⟨tree, others, first, later, rfl, read, readRest, rfl⟩, found⟩
        obtain ⟨present, foundRest⟩ := List.forall_mem_cons.1 found
        exact ⟨tree, first, later, present, read, ⟨others, readRest, foundRest⟩, rfl⟩

@[simp] theorem reads_group_iff {Related : Tree → Value → Prop}
    {templates : List (String × Pattern)} {tree : Tree} {bindings : List (String × Value)}
    (distinct : (templates.map Prod.fst).Nodup) :
    Reads Related (.group templates) tree bindings ↔
      ∃ entries listed, tree = .group entries ∧ entries.Perm listed ∧
        ReadsInOrder Related templates listed bindings := by
  have listedDistinct : ∀ listed, ReadsInOrder Related templates listed bindings →
      Entries.Distinct listed := by
    intro listed read
    rw [Entries.Distinct, read.keys_eq]
    exact distinct
  have sameLength : ∀ listed, ReadsInOrder Related templates listed bindings →
      listed.length = templates.length := by
    intro listed read
    simpa [Entries.keys] using congrArg List.length read.keys_eq
  simp only [Reads, readsAll_iff]
  constructor
  · rintro ⟨entries, rfl, length, listed, read, found⟩
    refine ⟨entries, listed, rfl, ?_, read⟩
    exact (Entries.perm_iff_of_distinct (listedDistinct listed read)).2
      ⟨(sameLength listed read).trans length, found⟩
  · rintro ⟨entries, listed, rfl, order, read⟩
    obtain ⟨length, found⟩ :=
      (Entries.perm_iff_of_distinct (listedDistinct listed read)).1 order
    exact ⟨entries, rfl, (sameLength listed read).symm.trans length, listed, read, found⟩

@[simp] theorem reads_simple_iff {Related : Tree → Value → Prop} {slot : String} {tree : Tree}
    {bindings : List (String × Value)} :
    Reads Related (.simple slot) tree bindings ↔
      ∃ text, Related tree (.leaf text) ∧ bindings = [(slot, .leaf text)] := by
  rw [Reads]

@[simp] theorem reads_subtree_iff {Related : Tree → Value → Prop} {slot : String} {tree : Tree}
    {bindings : List (String × Value)} :
    Reads Related (.subtree slot) tree bindings ↔
      ∃ value, Related tree value ∧ bindings = [(slot, value)] := by
  rw [Reads]

/-! ## From captures to the tree -/

/-- Groups are related to groups only, tag by tag. -/
def GroupsFromGroups (Related : Tree → Value → Prop) : Prop :=
  ∀ tree values, Related tree (.group values) →
    ∃ entries, tree = .group entries ∧ Tagwise Related entries values

theorem readsAll_of_captureAll {Related : Tree → Value → Prop}
    {templates : List (String × Pattern)} {entries : List (String × Tree)}
    {values : List (String × Value)} (tagwise : Tagwise Related entries values)
    (reads : ∀ template ∈ templates, ∀ tree value before after, Related tree value →
      capture before template.2 value = some after →
      ∃ bindings, Reads Related template.2 tree bindings ∧ after = before.bindAll bindings)
    {captures result : Captures}
    (accepted : captureAll captures templates values = some result) :
    ∃ bindings, ReadsAll Related templates entries bindings ∧
      result = captures.bindAll bindings := by
  induction templates generalizing captures with
  | nil =>
      simp only [captureAll, Option.some.injEq] at accepted
      exact ⟨[], rfl, accepted.symm⟩
  | cons head rest ih =>
      obtain ⟨tag, template⟩ := head
      obtain ⟨value, extended, present, matched, continued⟩ := captureAll_cons_eq_some.1 accepted
      obtain ⟨tree, found, related⟩ := tagwise.get?_right present
      obtain ⟨first, firstRead, rfl⟩ :=
        reads (tag, template) (by simp) tree value captures extended related matched
      obtain ⟨others, othersRead, rfl⟩ :=
        ih (fun template member => reads template (by simp [member])) continued
      exact ⟨first ++ others, ⟨tree, first, others, found, firstRead, othersRead, rfl⟩,
        (Captures.bindAll_append captures first others).symm⟩

theorem reads_of_capture {Related : Tree → Value → Prop} (groups : GroupsFromGroups Related)
    {pattern : Pattern} {tree : Tree} {value : Value} {captures result : Captures}
    (related : Related tree value) (accepted : capture captures pattern value = some result) :
    ∃ bindings, Reads Related pattern tree bindings ∧ result = captures.bindAll bindings := by
  induction pattern using entryInduction generalizing tree value captures result with
  | simple slot =>
      obtain ⟨text, rfl, rfl⟩ := capture_simple_eq_some accepted
      exact ⟨_, ⟨text, related, rfl⟩, rfl⟩
  | subtree slot =>
      simp only [capture_subtree, Option.some.injEq] at accepted
      exact ⟨_, ⟨value, related, rfl⟩, accepted.symm⟩
  | group templates ih =>
      obtain ⟨values, rfl, sameLength, acceptedAll⟩ := capture_group_eq_some accepted
      obtain ⟨entries, rfl, tagwise⟩ := groups tree values related
      obtain ⟨bindings, readAll, rfl⟩ := readsAll_of_captureAll tagwise
        (fun template member tree value before after => ih template member) acceptedAll
      exact ⟨bindings, ⟨entries, rfl, sameLength.trans tagwise.length_eq.symm, readAll⟩, rfl⟩

/-! ## Nested group templates -/

mutual

/-- The group templates of a pattern, itself included. -/
def groups : Pattern → List Pattern
  | .group templates => .group templates :: groupsOfAll templates
  | .simple _ => []
  | .subtree _ => []

def groupsOfAll : List (String × Pattern) → List Pattern
  | [] => []
  | (_, template) :: rest => template.groups ++ groupsOfAll rest

end

/-- The group templates strictly inside a pattern. -/
def nestedGroups : Pattern → List Pattern
  | .group templates => groupsOfAll templates
  | .simple _ => []
  | .subtree _ => []

theorem mem_groupsOfAll {templates : List (String × Pattern)} {template : String × Pattern}
    (member : template ∈ templates) {inner : Pattern} (inside : inner ∈ template.2.groups) :
    inner ∈ groupsOfAll templates := by
  induction templates with
  | nil => simp at member
  | cons head rest ih =>
      rw [groupsOfAll, List.mem_append]
      rcases List.mem_cons.1 member with rfl | later
      · exact .inl inside
      · exact .inr (ih later)

end Pattern

/-- The rule's pattern reads the tree, and its builder answers the result for what was read. -/
def RewriteRule.Rewrites (rule : RewriteRule) (Related : Tree → Value → Prop) (context : Context)
    (tree : Tree) (result : Value) : Prop :=
  ∃ bindings, Pattern.Reads Related rule.pattern tree bindings ∧
    rule.build context (.ofList bindings) = .ok result

/-! ## From the tree to captures -/

namespace RuleList

variable {rules : RuleList} {context : Context}

def Evaluates (rules : RuleList) (context : Context) (tree : Tree) (value : Value) : Prop :=
  rules.evaluate context tree = .ok value

/-- No rule of the list can match what the pattern matches. -/
def Inert (rules : RuleList) (pattern : Pattern) : Prop :=
  ∀ rule ∈ rules, rule.pattern.overlaps pattern = false

theorem replace_of_inert (distinct : rules.DistinctTags) {pattern : Pattern}
    (patternDistinct : pattern.DistinctTags) (inert : rules.Inert pattern) {value : Value}
    {captures : Captures} (matched : pattern.match? value = some captures) :
    rules.replace context value = .ok value := by
  have silent : rules.firstMatch? value = none := by
    rw [firstMatch?_eq_none_iff]
    intro rule member
    cases competes : rule.pattern.match? value with
    | none => rfl
    | some others =>
        have overlap := Pattern.overlaps_of_match? (distinct rule member) patternDistinct
          competes matched
        rw [inert rule member] at overlap
        cases overlap
  simp only [replace, silent]

/-- Templates that read the entries of a group capture the rewritten entries. -/
theorem captureAll_of_readsAll {templates : List (String × Pattern)}
    (templatesDistinct : Entries.Distinct templates)
    {entries : List (String × Tree)} {bindings : List (String × Value)}
    (sameLength : templates.length = entries.length)
    (read : Pattern.ReadsAll (rules.Evaluates context) templates entries bindings)
    (captured : ∀ template ∈ templates, ∀ tree below,
      Pattern.Reads (rules.Evaluates context) template.2 tree below →
      ∃ value, rules.Evaluates context tree value ∧
        ∀ captures, Pattern.capture captures template.2 value = some (captures.bindAll below)) :
    ∃ values, Tagwise (rules.Evaluates context) entries values ∧
      ∀ captures, Pattern.captureAll captures templates values =
        some (captures.bindAll bindings) := by
  have tags : (Entries.keys templates).Perm (Entries.keys entries) := by
    apply Entries.keys_perm_of_found templatesDistinct (by simpa [Entries.keys] using sameLength)
    intro tag named
    obtain ⟨template, member⟩ := Entries.mem_keys_iff.1 named
    obtain ⟨tree, _, present, _⟩ := read.member member
    exact ⟨tree, present⟩
  have entriesDistinct : Entries.Distinct entries := tags.nodup_iff.1 templatesDistinct
  have total : ∀ entry ∈ entries, ∃ value, rules.Evaluates context entry.2 value := by
    intro entry member
    have named : entry.1 ∈ Entries.keys templates :=
      tags.mem_iff.2 (Entries.mem_keys_iff.2 ⟨entry.2, member⟩)
    obtain ⟨template, templateMember⟩ := Entries.mem_keys_iff.1 named
    obtain ⟨tree, below, present, templateRead⟩ := read.member templateMember
    have same : Entries.get? entry.1 entries = some entry.2 :=
      (Entries.get?_eq_some_iff entriesDistinct).2 member
    cases same.symm.trans present
    obtain ⟨value, evaluated, _⟩ := captured _ templateMember _ _ templateRead
    exact ⟨value, evaluated⟩
  obtain ⟨values, tagwise⟩ := Tagwise.exists_of_forall total
  refine ⟨values, tagwise, ?_⟩
  clear tags total sameLength templatesDistinct
  induction templates generalizing bindings with
  | nil =>
      intro captures
      obtain rfl : bindings = [] := read
      simp [Pattern.captureAll, Captures.bindAll]
  | cons head rest ih =>
      obtain ⟨tag, template⟩ := head
      obtain ⟨tree, first, others, present, headRead, restRead, rfl⟩ := read
      intro captures
      obtain ⟨value, evaluated, headCaptured⟩ := captured (tag, template) (by simp) _ _ headRead
      obtain ⟨value', present', evaluated'⟩ := tagwise.get?_left present
      have sameValue : value = value' := Except.ok.inj (evaluated.symm.trans evaluated')
      subst sameValue
      rw [Pattern.captureAll_cons_eq_some]
      refine ⟨value, captures.bindAll first, present', headCaptured captures, ?_⟩
      rw [ih restRead (fun template member => captured template (by simp [member])),
        Captures.bindAll_append]

/-- A tree read by a pattern whose groups are inert keeps its shape. -/
theorem capture_of_reads (distinct : rules.DistinctTags) {pattern : Pattern}
    (patternDistinct : pattern.DistinctTags)
    (inert : ∀ inner ∈ pattern.groups, rules.Inert inner)
    {tree : Tree} {bindings : List (String × Value)}
    (read : Pattern.Reads (rules.Evaluates context) pattern tree bindings) :
    ∃ value, rules.Evaluates context tree value ∧
      ∀ captures, Pattern.capture captures pattern value = some (captures.bindAll bindings) := by
  induction pattern using Pattern.entryInduction generalizing tree bindings with
  | simple slot =>
      obtain ⟨text, evaluated, rfl⟩ := read
      exact ⟨.leaf text, evaluated, fun captures => Pattern.capture_simple_leaf⟩
  | subtree slot =>
      obtain ⟨value, evaluated, rfl⟩ := read
      exact ⟨value, evaluated, fun captures => Pattern.capture_subtree⟩
  | group templates ih =>
      obtain ⟨entries, rfl, sameLength, readAll⟩ := read
      have inertBelow : ∀ template ∈ templates, ∀ inner ∈ template.2.groups,
          rules.Inert inner := by
        intro template member inner inside
        apply inert
        rw [Pattern.groups]
        exact List.mem_cons_of_mem _ (Pattern.mem_groupsOfAll member inside)
      obtain ⟨values, tagwise, captured⟩ := captureAll_of_readsAll patternDistinct.keys
        sameLength readAll fun template member tree below =>
          ih template member (patternDistinct.template member) (inertBelow template member)
      have matched : ∀ captures : Captures,
          Pattern.capture captures (.group templates) (.group values) =
            some (captures.bindAll bindings) := by
        intro captures
        simp only [Pattern.capture, if_pos (sameLength.trans tagwise.length_eq), captured]
      have unchanged : rules.replace context (.group values) = .ok (.group values) :=
        replace_of_inert distinct patternDistinct (inert _ (by simp [Pattern.groups]))
          (matched .empty)
      exact ⟨.group values, evaluate_group_eq_ok_iff.2 ⟨values, tagwise, unchanged⟩, matched⟩

/-- A tree spelled by the pattern of a rule becomes what the rule builds. -/
theorem evaluates_of_rewrites (accepted : rules.firstFault? = none)
    (distinct : rules.DistinctTags) {rule : RewriteRule} (member : rule ∈ rules)
    {templates : List (String × Pattern)} (shape : rule.pattern = .group templates)
    (inert : ∀ inner ∈ rule.pattern.nestedGroups, rules.Inert inner)
    {tree : Tree} {result : Value}
    (rewrites : rule.Rewrites (rules.Evaluates context) context tree result) :
    rules.Evaluates context tree result := by
  obtain ⟨bindings, read, built⟩ := rewrites
  have patternDistinct := distinct rule member
  rw [shape] at read inert patternDistinct
  obtain ⟨entries, rfl, sameLength, readAll⟩ := read
  obtain ⟨values, tagwise, captured⟩ := captureAll_of_readsAll patternDistinct.keys
    sameLength readAll fun template templateMember tree below =>
      capture_of_reads distinct (patternDistinct.template templateMember)
        fun inner inside => inert inner (Pattern.mem_groupsOfAll templateMember inside)
  have matched : rule.pattern.match? (.group values) = some (.ofList bindings) := by
    simp only [shape, Pattern.match?, Pattern.capture,
      if_pos (sameLength.trans tagwise.length_eq), captured]
    rfl
  have found : rules.firstMatch? (.group values) = some (rule, .ofList bindings) :=
    (firstMatch?_eq_some_iff (exclusiveOn_of_accepted accepted distinct _)).2 ⟨member, matched⟩
  apply evaluate_group_eq_ok_iff.2
  exact ⟨values, tagwise, by simp only [replace, found, built]⟩

/-! ## Inverting an evaluation -/

/-- Every rule is about groups, and none answers a group. -/
structure GroupsConsumed (rules : RuleList) : Prop where
  rooted : ∀ rule ∈ rules, ∃ templates, rule.pattern = .group templates
  finished : ∀ rule ∈ rules, ∀ context captures entries,
    rule.build context captures ≠ .ok (.group entries)

theorem replace_eq_ok {value result : Value} (done : rules.replace context value = .ok result) :
    (∃ rule ∈ rules, ∃ captures, rule.pattern.match? value = some captures ∧
      rule.build context captures = .ok result) ∨
    rules.firstMatch? value = none ∧ result = value := by
  unfold replace at done
  split at done
  · next rule captures found =>
      obtain ⟨member, matched⟩ := mem_of_firstMatch? found
      exact .inl ⟨rule, member, captures, matched, done⟩
  · next unmatched => exact .inr ⟨unmatched, (Except.ok.inj done).symm⟩

/-- A sequence is rewritten item by item and stays one. -/
theorem evaluates_sequence_iff
    (unmatched : ∀ values, rules.firstMatch? (.sequence values) = none) {items : List Tree}
    {result : Value} :
    rules.Evaluates context (.sequence items) result ↔
      ∃ values, List.Forall₂ (rules.Evaluates context) items values ∧
        result = .sequence values := by
  rw [Evaluates, evaluate_sequence_eq_ok_iff]
  simp only [replace, unmatched, Except.ok.injEq, @eq_comm _ _ result]
  rfl

theorem GroupsConsumed.firstMatch?_eq_none (consumed : rules.GroupsConsumed) {value : Value}
    (other : ∀ entries, value ≠ .group entries) : rules.firstMatch? value = none := by
  rw [firstMatch?_eq_none_iff]
  intro rule member
  obtain ⟨templates, shape⟩ := consumed.rooted rule member
  cases value with
  | group entries => exact absurd rfl (other entries)
  | _ => simp [shape, Pattern.match?, Pattern.capture]

theorem GroupsConsumed.firstMatch?_sequence (consumed : rules.GroupsConsumed)
    (values : List Value) : rules.firstMatch? (.sequence values) = none := by
  apply consumed.firstMatch?_eq_none
  intro entries same
  cases same

theorem groupsFromGroups (consumed : rules.GroupsConsumed) :
    Pattern.GroupsFromGroups (rules.Evaluates context) := by
  intro tree values evaluated
  cases tree with
  | leaf text => simp [Evaluates, evaluate] at evaluated
  | sequence items =>
      obtain ⟨_, _, shape⟩ := (evaluates_sequence_iff consumed.firstMatch?_sequence).1 evaluated
      cases shape
  | group entries =>
      obtain ⟨rewritten, tagwise, done⟩ := evaluate_group_eq_ok_iff.1 evaluated
      rcases replace_eq_ok done with ⟨rule, member, captures, _, built⟩ | ⟨_, same⟩
      · exact absurd built (consumed.finished rule member context captures values)
      · cases same
        exact ⟨entries, rfl, tagwise⟩

/-- A group is spelled by the pattern of a rule and becomes what the rule
builds, or else it keeps its tags over the rewritten subtrees. -/
theorem evaluates_group_cases (consumed : rules.GroupsConsumed)
    {entries : List (String × Tree)} {result : Value}
    (evaluated : rules.Evaluates context (.group entries) result) :
    (∃ rule ∈ rules, rule.Rewrites (rules.Evaluates context) context (.group entries) result) ∨
    ∃ values, Tagwise (rules.Evaluates context) entries values ∧ result = .group values := by
  obtain ⟨values, tagwise, done⟩ := evaluate_group_eq_ok_iff.1 evaluated
  rcases replace_eq_ok done with ⟨rule, member, captures, matched, built⟩ | ⟨_, same⟩
  · obtain ⟨templates, shape⟩ := consumed.rooted rule member
    rw [shape] at matched
    obtain ⟨_, sameGroup, sameLength, accepted⟩ := Pattern.capture_group_eq_some matched
    cases sameGroup
    obtain ⟨bindings, readAll, rfl⟩ := Pattern.readsAll_of_captureAll tagwise
      (fun template _ tree value before after =>
        Pattern.reads_of_capture (groupsFromGroups consumed)) accepted
    refine .inl ⟨rule, member, bindings, ?_, built⟩
    rw [shape]
    exact ⟨entries, rfl, sameLength.trans tagwise.length_eq.symm, readAll⟩
  · exact .inr ⟨values, tagwise, same⟩

end RuleList

end InterviewFlow
