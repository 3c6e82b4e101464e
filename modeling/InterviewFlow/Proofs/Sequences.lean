import InterviewFlow.Proofs.Evaluation
import InterviewFlow.Proofs.Precedence
import InterviewFlow.Proofs.Validation

/-! Which values rules are put to use on. Leaves are handed on before any rule is looked up,
and a list of several rules that is accepted has no template that takes any value, the only one
that could take a sequence. So of such rules each replaces groups only. -/

set_option autoImplicit false

namespace InterviewFlow

/-- A rule put to use on a value. -/
structure Application where
  rule : RewriteRule
  value : Value

/-- A computation that notes the rules put to use, those before an error included. -/
abbrev Noting := ExceptT TransformError (StateM (List Application))

namespace Noting

variable {α β : Type} {allowed : Application → Prop}

def note (application : Application) : Noting Unit :=
  modify (· ++ [application])

def outcome (noting : Noting α) : Except TransformError α × List Application :=
  noting.run.run []

/-- Whatever was noted before, the answer is that of the plain computation, and all that is
noted is allowed. -/
def Erases (allowed : Application → Prop) (noting : Noting α)
    (plain : Except TransformError α) : Prop :=
  ∀ earlier, ∃ noted, noting.run.run earlier = (plain, earlier ++ noted) ∧
    ∀ application ∈ noted, allowed application

namespace Erases

theorem liftExcept (plain : Except TransformError α) :
    Erases allowed (MonadExcept.ofExcept plain) plain := by
  intro earlier
  refine ⟨[], ?_, by simp⟩
  rw [List.append_nil]
  cases plain <;> rfl

theorem note {application : Application} (holds : allowed application) :
    Erases allowed (Noting.note application) (.ok ()) :=
  fun _ => ⟨[application], rfl, by simpa using holds⟩

theorem bind {noting : Noting α} {plain : Except TransformError α} {next : α → Noting β}
    {plainNext : α → Except TransformError β} (first : Erases allowed noting plain)
    (second : ∀ value, Erases allowed (next value) (plainNext value)) :
    Erases allowed (noting >>= next) (plain >>= plainNext) := by
  intro earlier
  obtain ⟨noted, ran, allAllowed⟩ := first earlier
  cases plain with
  | error error =>
      refine ⟨noted, ?_, allAllowed⟩
      simp only [ExceptT.run_bind, StateT.run_bind, ran]
      rfl
  | ok value =>
      obtain ⟨later, ranNext, laterAllowed⟩ := second value (earlier ++ noted)
      refine ⟨noted ++ later, ?_, ?_⟩
      · simp only [ExceptT.run_bind, StateT.run_bind, ran]
        rw [← List.append_assoc]
        exact ranNext
      · intro application member
        rcases List.mem_append.1 member with before | after
        · exact allAllowed application before
        · exact laterAllowed application after

theorem mapM {step : α → Noting β} {plainStep : α → Except TransformError β}
    (steps : ∀ item, Erases allowed (step item) (plainStep item)) (items : List α) :
    Erases allowed (items.mapM step) (items.mapM plainStep) := by
  induction items with
  | nil => exact liftExcept (.ok [])
  | cons item rest ih =>
      rw [List.mapM_cons, List.mapM_cons]
      exact (steps item).bind fun value => ih.bind fun values => liftExcept (.ok (value :: values))

end Erases

end Noting

namespace RuleList

/-- As `replace`, noting the rule before its builder is called. -/
def replaceNoting (rules : RuleList) (context : Context) (value : Value) : Noting Value :=
  match rules.firstMatch? value with
  | some (rule, captures) => do
      Noting.note ⟨rule, value⟩
      MonadExcept.ofExcept (rule.build context captures)
  | none => return value

/-- As `rewriteWithin`, noting each rule put to use. -/
def rewriteNoting (rules : RuleList) (limit : Nat) (context : Context) :
    Nat → Tree → Noting Value
  | 0, _ => throw (.depthExceeded limit)
  | _ + 1, .leaf text => return .leaf text
  | room + 1, .sequence items => do
      let values ← items.mapM (rewriteNoting rules limit context room)
      rules.replaceNoting context (.sequence values)
  | room + 1, .group entries => do
      let values ← entries.mapM fun entry => do
        let value ← rewriteNoting rules limit context room entry.2
        return (entry.1, value)
      rules.replaceNoting context (.group values)

/-- The rule is the first that matches, and what it matches is a container. -/
def Applies (rules : RuleList) (application : Application) : Prop :=
  (∃ captures, rules.firstMatch? application.value = some (application.rule, captures)) ∧
    ((∃ items, application.value = .sequence items) ∨
      ∃ entries, application.value = .group entries)

variable {rules : RuleList}

theorem replaceNoting_erases (context : Context) {value : Value}
    (container : (∃ items, value = .sequence items) ∨ ∃ entries, value = .group entries) :
    Noting.Erases rules.Applies (rules.replaceNoting context value)
      (rules.replace context value) := by
  unfold replaceNoting replace
  cases found : rules.firstMatch? value with
  | none => exact .liftExcept (.ok value)
  | some selected =>
      obtain ⟨rule, captures⟩ := selected
      have applies : rules.Applies ⟨rule, value⟩ := ⟨⟨captures, found⟩, container⟩
      exact (Noting.Erases.note applies).bind fun _ => .liftExcept (rule.build context captures)

theorem rewriteNoting_erases (limit : Nat) (context : Context) (room : Nat) (tree : Tree) :
    Noting.Erases rules.Applies (rules.rewriteNoting limit context room tree)
      (rules.rewriteWithin limit context room tree) := by
  -- The limit is reported and a leaf handed on before any rule is looked up.
  induction room generalizing tree with
  | zero =>
      rw [rewriteNoting, rewriteWithin]
      exact .liftExcept (.error _)
  | succ room ih =>
      cases tree with
      | leaf text =>
          rw [rewriteNoting, rewriteWithin]
          exact .liftExcept (.ok _)
      | sequence items =>
          rw [rewriteNoting, rewriteWithin]
          exact (Noting.Erases.mapM ih items).bind fun values =>
            replaceNoting_erases context (.inl ⟨values, rfl⟩)
      | group entries =>
          rw [rewriteNoting, rewriteWithin]
          have steps : ∀ entry : String × Tree, Noting.Erases rules.Applies
              (do let value ← rules.rewriteNoting limit context room entry.2
                  return (entry.1, value))
              (do let value ← rules.rewriteWithin limit context room entry.2
                  return (entry.1, value)) :=
            fun entry => (ih entry.2).bind fun value => .liftExcept (.ok (entry.1, value))
          exact (Noting.Erases.mapM steps entries).bind fun values =>
            replaceNoting_erases context (.inr ⟨values, rfl⟩)

theorem Applies.group_of_accepted (accepted : rules.firstFault? = none)
    (several : 2 ≤ rules.length) {application : Application}
    (applies : rules.Applies application) :
    application.rule ∈ rules ∧ ∃ entries, application.value = .group entries := by
  obtain ⟨⟨captures, found⟩, ⟨items, sequence⟩ | group⟩ := applies
  · rw [sequence, firstMatch?_sequence_of_accepted accepted several] at found
    cases found
  · exact ⟨(mem_of_firstMatch? found).1, group⟩

theorem rewrite_sequence_of_accepted (accepted : rules.firstFault? = none)
    (several : 2 ≤ rules.length) {limit : Nat} {context : Context} {items : List Tree}
    {value : Value} :
    rules.rewrite limit context (.sequence items) = .ok value ↔
      (Tree.sequence items).depth ≤ limit ∧ ∃ values, value = .sequence values ∧
        List.Forall₂ (fun item value => rules.rewrite limit context item = .ok value)
          items values := by
  simp only [rewrite_eq_ok_iff, evaluate_sequence_eq_ok_iff, List.forall₂_and_left]
  apply and_congr_right
  intro fits
  have below : ∀ item ∈ items, item.depth ≤ limit :=
    Tree.depthOfItems_le_iff.1 (by simp only [Tree.depth] at fits; omega)
  apply exists_congr
  intro values
  have unmatched : rules.replace context (.sequence values) = .ok (.sequence values) := by
    rw [replace, firstMatch?_sequence_of_accepted accepted several]
  rw [unmatched, Except.ok.injEq, eq_comm, and_comm, and_iff_right below]

/-- A list with a template that takes any value is accepted only if there is nothing else
in it. -/
theorem accepted_subtree_iff {rule : RewriteRule} {slot : String}
    (shape : rule.pattern = .subtree slot) (member : rule ∈ rules) :
    rules.firstFault? = none ↔ rules = [rule] := by
  constructor
  · intro accepted
    have lone : ¬ 2 ≤ rules.length := fun several =>
      ne_subtree_of_accepted accepted several member slot shape
    match rules, lone, member with
    | [only], _, member => rw [List.mem_singleton.1 member]
    | _ :: _ :: _, lone, _ => simp at lone
  · rintro rfl
    simp [firstFault?, firstAmbiguity?, firstMisplaced?, shape, Pattern.family?]

end RuleList

namespace Registry

/-- Several rules that are accepted leave sequences to their items: a sequence becomes the
sequence of what its items become, no rule is found for one, and in a run the rules replace
groups only, never a leaf. So any rules that do the same to groups and nothing to sequences
rewrite alike. A rule that takes any value is accepted only by itself. -/
theorem sequences_kept {rules : RuleList} {registry : Registry}
    (built : build rules = .ok registry) (several : 2 ≤ rules.length) :
    (∀ limit context items value, registry.rewrite limit context (.sequence items) = .ok value ↔
      (Tree.sequence items).depth ≤ limit ∧ ∃ values, value = .sequence values ∧
        List.Forall₂ (fun item value => registry.rewrite limit context item = .ok value)
          items values) ∧
    (∀ items, registry.find? (.sequence items) = none) ∧
    (∀ limit context tree,
      (rules.rewriteNoting limit context limit tree).outcome.1 =
        registry.rewrite limit context tree ∧
      ∀ application ∈ (rules.rewriteNoting limit context limit tree).outcome.2,
        application.rule ∈ rules ∧ ∃ entries, application.value = .group entries) ∧
    (∀ others : RuleList, (∀ items, others.firstMatch? (.sequence items) = none) →
      (∀ entries, others.firstMatch? (.group entries) = registry.find? (.group entries)) →
      ∀ limit context tree,
        others.rewrite limit context tree = registry.rewrite limit context tree) ∧
    ∀ (rule : RewriteRule) (slot : String), rule.pattern = .subtree slot →
      ∀ others : RuleList, rule ∈ others →
        ((∃ accepting, build others = .ok accepting) ↔ others = [rule]) := by
  obtain ⟨accepted, rfl⟩ := build_eq_ok_iff.1 built
  have unmatched := RuleList.firstMatch?_sequence_of_accepted accepted several
  refine ⟨?_, unmatched, ?_, ?_, ?_⟩
  · intro limit context items value
    exact RuleList.rewrite_sequence_of_accepted accepted several
  · intro limit context tree
    obtain ⟨noted, ran, applies⟩ :=
      @RuleList.rewriteNoting_erases registry.rules limit context limit tree []
    rw [Noting.outcome, ran]
    exact ⟨rfl, fun application member =>
      (applies application member).group_of_accepted accepted several⟩
  · intro others noSequence sameGroups limit context tree
    have sameSequences : ∀ items,
        others.firstMatch? (.sequence items) = registry.rules.firstMatch? (.sequence items) :=
      fun items => (noSequence items).trans (unmatched items).symm
    exact RuleList.rewriteWithin_congr_of_containers sameSequences sameGroups limit context
      limit tree
  · intro rule slot shape others member
    rw [exists_build_iff]
    exact RuleList.accepted_subtree_iff shape member

/-- A rule for leaves beside one for groups: it is found for a leaf, but in a run no leaf is
replaced, and without it all trees are rewritten alike. Beside a rule for groups none is
accepted that takes any value. -/
theorem sequences_kept_leafRule :
    let upper : RewriteRule := ⟨"upper", .simple "text", fun _ _ => .ok (.leaf "X")⟩
    let bold : RewriteRule :=
      ⟨"bold", .group [("b", .subtree "inner")], fun _ _ => .ok (.leaf "bold")⟩
    let any : RewriteRule := ⟨"any", .subtree "all", fun _ _ => .ok (.leaf "any")⟩
    let tree : Tree := .sequence [.leaf "plain", .group [("b", .leaf "in")]]
    (∃ registry, build [upper, bold] = .ok registry ∧
      (registry.find? (.leaf "plain")).isSome = true ∧
      registry.rewrite 3 ⟨"start"⟩ tree = .ok (.sequence [.leaf "plain", .leaf "bold"]) ∧
      ∀ application ∈ (RuleList.rewriteNoting [upper, bold] 3 ⟨"start"⟩ 3 tree).outcome.2,
        application.rule ∈ [upper, bold] ∧ ∃ entries, application.value = .group entries) ∧
    (∀ limit context tree, RuleList.rewrite [bold] limit context tree =
      RuleList.rewrite [upper, bold] limit context tree) ∧
    ¬ ∃ accepting, build [bold, any] = .ok accepting := by
  intro upper bold any tree
  have accepted : RuleList.firstFault? [upper, bold] = none := by decide
  have built : build [upper, bold] = .ok ⟨_, accepted⟩ := build_eq_ok_iff.2 ⟨accepted, rfl⟩
  obtain ⟨rewritten, _, applied, same, alone⟩ := sequences_kept built (by decide)
  refine ⟨⟨⟨_, accepted⟩, built, rfl, ?_, (applied 3 ⟨"start"⟩ tree).2⟩, ?_, ?_⟩
  · exact (rewritten _ _ _ _).2 ⟨by decide, _, rfl, .cons rfl (.cons rfl .nil)⟩
  · exact same [bold] (fun _ => rfl) fun _ => rfl
  · intro both
    have lone := (alone any "all" rfl [bold, any] (by simp)).1 both
    simp at lone

end Registry

end InterviewFlow
