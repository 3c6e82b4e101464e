import InterviewFlow.Proofs.Evaluation
import InterviewFlow.Rewriting.FlowRules

/-! What the depth limit changes. A limit is checked on the way down and builders fail
on the way up, so a tree that is too deep may fail in either way first; but the only
failure that a limit adds is its own. -/

set_option autoImplicit false

namespace InterviewFlow

theorem bind_eq_or_eq_error {ε α β : Type} {first other : Except ε α} {next : α → Except ε β}
    {error : ε} (cut : first = other ∨ first = .error error) :
    first >>= next = other >>= next ∨ first >>= next = .error error := by
  rcases cut with rfl | rfl
  · exact .inl rfl
  · exact .inr rfl

/-- Steps that agree with others, or else stop with one error, do so in a list as well. -/
theorem mapM_eq_or_eq_error {ε α β : Type} {items : List α} {step other : α → Except ε β}
    {error : ε} (cut : ∀ item ∈ items, step item = other item ∨ step item = .error error) :
    items.mapM step = items.mapM other ∨ items.mapM step = .error error := by
  induction items with
  | nil => exact .inl rfl
  | cons item rest ih =>
      rw [List.mapM_cons, List.mapM_cons]
      rcases cut item (by simp) with same | stopped
      · rw [same]
        cases other item with
        | error failure => exact .inl rfl
        | ok value =>
            rcases ih fun later member => cut later (by simp [member]) with
              sameRest | stoppedRest
            · rw [sameRest]
              exact .inl rfl
            · rw [stoppedRest]
              exact .inr rfl
      · rw [stopped]
        exact .inr rfl

namespace RuleList

variable (rules : RuleList) (context : Context)

/-- Within any room a tree is rewritten as without a limit, or the limit is reported. -/
theorem rewriteWithin_eq_evaluate_or (limit room : Nat) (tree : Tree) :
    rules.rewriteWithin limit context room tree = rules.evaluate context tree ∨
      rules.rewriteWithin limit context room tree = .error (.depthExceeded limit) := by
  induction room generalizing tree with
  | zero => exact .inr (by rw [rewriteWithin])
  | succ room ih =>
      cases tree with
      | leaf text => exact .inl (by rw [rewriteWithin, evaluate])
      | sequence items =>
          rw [rewriteWithin, evaluate, evaluateItems_eq_mapM]
          exact bind_eq_or_eq_error (mapM_eq_or_eq_error fun item _ => ih item)
      | group entries =>
          rw [rewriteWithin, evaluate, evaluateEntries_eq_mapM]
          exact bind_eq_or_eq_error
            (mapM_eq_or_eq_error fun entry _ => bind_eq_or_eq_error (ih entry.2))

theorem rewrite_eq_evaluate {limit : Nat} {tree : Tree} (fits : tree.depth ≤ limit) :
    rules.rewrite limit context tree = rules.evaluate context tree :=
  rewriteWithin_eq_evaluate fits

theorem rewrite_eq_error_of_depth_lt {limit : Nat} {tree : Tree} (deep : limit < tree.depth) :
    rules.rewrite limit context tree = .error (.depthExceeded limit) ∨
      ∃ error, rules.evaluate context tree = .error error ∧
        rules.rewrite limit context tree = .error error := by
  rcases rewriteWithin_eq_evaluate_or rules context limit limit tree with same | stopped
  · cases outcome : rules.evaluate context tree with
    | error error => exact .inr ⟨error, rfl, same.trans outcome⟩
    | ok value =>
        have fits : tree.depth ≤ limit := depth_le_of_rewriteWithin (same.trans outcome)
        omega
  · exact .inl stopped

end RuleList

namespace Registry

/-- Limits that admit a tree make no difference. A limit that does not is an error, its
own or the one that every sufficient limit gives; hence, for a tree that some sufficient
limit rewrites, exactly the sufficient limits do and the others report themselves. -/
theorem rewrite_depth_limit (registry : Registry) (limit : Nat) (context : Context)
    (tree : Tree) :
    (tree.depth ≤ limit → ∀ other, tree.depth ≤ other →
      registry.rewrite limit context tree = registry.rewrite other context tree) ∧
    (limit < tree.depth → ∃ error, registry.rewrite limit context tree = .error error ∧
      (error = .depthExceeded limit ∨ ∀ sufficient, tree.depth ≤ sufficient →
        registry.rewrite sufficient context tree = .error error)) ∧
    ∀ sufficient value, tree.depth ≤ sufficient →
      registry.rewrite sufficient context tree = .ok value →
      ((∃ result, registry.rewrite limit context tree = .ok result) ↔ tree.depth ≤ limit) ∧
      (limit < tree.depth →
        registry.rewrite limit context tree = .error (.depthExceeded limit)) := by
  have within : ∀ {limit}, tree.depth ≤ limit →
      registry.rewrite limit context tree = registry.rules.evaluate context tree :=
    RuleList.rewrite_eq_evaluate registry.rules context
  refine ⟨fun fits other otherFits => (within fits).trans (within otherFits).symm, ?_, ?_⟩
  · intro deep
    rcases RuleList.rewrite_eq_error_of_depth_lt registry.rules context deep with
      stopped | ⟨error, failed, same⟩
    · exact ⟨_, stopped, .inl rfl⟩
    · exact ⟨error, same, .inr fun _ fits => (within fits).trans failed⟩
  · intro sufficient value fits done
    have evaluated : registry.rules.evaluate context tree = .ok value :=
      (within fits).symm.trans done
    refine ⟨⟨?_, fun limitFits => ⟨value, (within limitFits).trans evaluated⟩⟩, ?_⟩
    · rintro ⟨result, rewritten⟩
      exact (RuleList.rewrite_eq_ok_iff.1 rewritten).1
    · intro deep
      rcases RuleList.rewrite_eq_error_of_depth_lt registry.rules context deep with
        stopped | ⟨error, failed, _⟩
      · exact stopped
      · rw [evaluated] at failed
        cases failed

/-- A bad operator ahead of a part that is too deep is reported before the limit, so it is
what every sufficient limit reports. -/
theorem rewrite_depth_limit_operator :
    let tree : Tree := .sequence
      [.group [("comparison_predicate", .group [
        ("value", .leaf "18"), ("varname", .leaf "age"), ("operator", .leaf "~")])],
       .sequence [.sequence [.sequence [.leaf "deep"]]]]
    flow.rewrite 3 ⟨"start"⟩ tree = .error (.depthExceeded 3) ∧
      flow.rewrite 4 ⟨"start"⟩ tree = .error (.invalidOperator "~") ∧
      ∀ sufficient, 5 ≤ sufficient →
        flow.rewrite sufficient ⟨"start"⟩ tree = .error (.invalidOperator "~") := by
  intro tree
  have early : flow.rewrite 4 ⟨"start"⟩ tree = .error (.invalidOperator "~") := rfl
  refine ⟨rfl, early, ?_⟩
  obtain ⟨error, failed, limit | every⟩ :=
    (rewrite_depth_limit flow 4 ⟨"start"⟩ tree).2.1 (by decide)
  · rw [limit, early] at failed
    cases failed
  · rw [early] at failed
    cases failed
    exact every

end Registry

end InterviewFlow
