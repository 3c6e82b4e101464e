import InterviewFlow.Proofs.Faults
import InterviewFlow.Rewriting.Access
import Mathlib.Data.Finset.Card

/-! Captures under calls of their accessors. A look-up leaves them as they are. Any other call
uses up its slot and no other, also when the value of the slot is not what was asked for, and is
refused where the slot is not bound. So in a run each captured value goes to one call at most. -/

set_option autoImplicit false

namespace InterviewFlow

namespace Captures

def names (captures : Captures) : Finset String :=
  (Entries.keys captures.slots.entries).toFinset

theorem mem_names {captures : Captures} {slot : String} :
    slot ∈ captures.names ↔ ∃ value, captures.get? slot = some value := by
  rw [names, List.mem_toFinset, ← Entries.get?_isSome_iff]
  exact Iff.rfl

theorem card_names (captures : Captures) : captures.names.card = captures.size := by
  rw [names, List.toFinset_card_of_nodup captures.slots.distinct, Entries.keys, List.length_map]
  rfl

end Captures

def Accessor.answer : Accessor → Value → Except TransformError Accessed
  | .get, value => .ok (.lookup (some value))
  | .take, value => .ok (.value value)
  | .text, value => value.toText.map .text
  | .predicate, value => value.toPredicate.map .predicate
  | .texts, value => (value.toItems.mapM Value.toText).map .texts
  | .predicates, value => (value.toItems.mapM Value.toPredicate).map .predicates
  | .elements, value => (value.toItems.mapM Value.toElement).map .elements
  | .routingRules, value => (value.toItems.mapM Value.toRoutingRule).map .routingRules
  | .pairs, value => (value.toItems.mapM Value.toPair).map .pairs

theorem shapeMismatch_of_map {α β : Type} {outcome : Except TransformError α} {wrap : α → β}
    {error : TransformError} (failed : outcome.map wrap = .error error)
    (reported : ∀ raised, outcome = .error raised →
      ∃ (expected : Expectation) (found : String),
        raised = .shapeMismatch expected.describe found) :
    ∃ (expected : Expectation) (found : String),
      error = .shapeMismatch expected.describe found := by
  cases outcome with
  | ok item => cases failed
  | error raised =>
      cases failed
      exact reported error rfl

/-- A conversion reports what was expected and what was found, and never a missing capture. -/
theorem Accessor.shapeMismatch_of_answer {accessor : Accessor} {value : Value}
    {error : TransformError} (failed : accessor.answer value = .error error) :
    ∃ (expected : Expectation) (found : String),
      error = .shapeMismatch expected.describe found := by
  have one : ∀ {α : Type} {expected : Expectation} {conversion : Value → Except TransformError α},
      expected.Decides conversion → ∀ raised, conversion value = .error raised →
        ∃ (expected : Expectation) (found : String),
          raised = .shapeMismatch expected.describe found :=
    fun decides _ refused => ⟨_, _, (decides.refused refused).2⟩
  have each : ∀ {α : Type} {expected : Expectation} {conversion : Value → Except TransformError α},
      expected.Decides conversion → ∀ raised, value.toItems.mapM conversion = .error raised →
        ∃ (expected : Expectation) (found : String),
          raised = .shapeMismatch expected.describe found := by
    intro α expected conversion decides raised refused
    obtain ⟨item, _, _, same⟩ := decides.exists_refused refused
    exact ⟨expected, item.describe, same⟩
  cases accessor with
  | get => cases failed
  | take => cases failed
  | text => exact shapeMismatch_of_map failed (one Expectation.decides_text)
  | predicate => exact shapeMismatch_of_map failed (one Expectation.decides_predicate)
  | texts => exact shapeMismatch_of_map failed (each Expectation.decides_text)
  | predicates => exact shapeMismatch_of_map failed (each Expectation.decides_predicate)
  | elements => exact shapeMismatch_of_map failed (each Expectation.decides_element)
  | routingRules => exact shapeMismatch_of_map failed (each Expectation.decides_routingRule)
  | pairs => exact shapeMismatch_of_map failed (each Expectation.decides_pair)

/-! ## One call -/

namespace Consume

theorem run_convert {α : Type} (slot : String) (conversion : Value → Except TransformError α)
    (captures : Captures) :
    (convert slot conversion).run captures =
      match captures.get? slot with
      | some value => (conversion value, captures.erase slot)
      | none => (.error (.missingCapture slot), captures) := by
  rw [convert, run_bind, run_take]
  cases captures.get? slot <;> rfl

theorem run_convert_map {α β : Type} (slot : String)
    (conversion : Value → Except TransformError α) (wrap : α → β) (captures : Captures) :
    (do return wrap (← convert slot conversion) : Consume β).run captures =
      match captures.get? slot with
      | some value => ((conversion value).map wrap, captures.erase slot)
      | none => (.error (.missingCapture slot), captures) := by
  rw [run_bind, run_convert]
  cases captures.get? slot with
  | none => rfl
  | some value =>
      dsimp only
      cases conversion value <;> rfl

end Consume

namespace AccessorCall

theorem run_consume_get (slot : String) (captures : Captures) :
    (consume ⟨.get, slot⟩).run captures = (.ok (.lookup (captures.get? slot)), captures) :=
  rfl

theorem run_consume {call : AccessorCall} (consuming : call.accessor ≠ .get)
    (captures : Captures) :
    call.consume.run captures =
      match captures.get? call.slot with
      | some value => (call.accessor.answer value, captures.erase call.slot)
      | none => (.error (.missingCapture call.slot), captures) := by
  obtain ⟨accessor, slot⟩ := call
  cases accessor with
  | get => exact absurd rfl consuming
  | take =>
      rw [consume, Consume.run_bind, Consume.run_take]
      cases captures.get? slot <;> rfl
  | text => exact Consume.run_convert_map slot _ _ captures
  | predicate => exact Consume.run_convert_map slot _ _ captures
  | texts => exact Consume.run_convert_map slot _ _ captures
  | predicates => exact Consume.run_convert_map slot _ _ captures
  | elements => exact Consume.run_convert_map slot _ _ captures
  | routingRules => exact Consume.run_convert_map slot _ _ captures
  | pairs => exact Consume.run_convert_map slot _ _ captures

/-- What a call may do to captures. Nothing is said of a converted value but that it is what the
accessor makes of the value of the slot: the slot is used up whether that is an error or not. -/
inductive Uses (captures : Captures) :
    AccessorCall → Except TransformError Accessed → Captures → Prop where
  | lookup {slot : String} :
      Uses captures ⟨.get, slot⟩ (.ok (.lookup (captures.get? slot))) captures
  | bound {accessor : Accessor} {slot : String} {value : Value} {left : Captures} :
      accessor ≠ .get → captures.get? slot = some value → left.get? slot = none →
      (∀ other, other ≠ slot → left.get? other = captures.get? other) →
      Uses captures ⟨accessor, slot⟩ (accessor.answer value) left
  | unbound {accessor : Accessor} {slot : String} :
      accessor ≠ .get → captures.get? slot = none →
      Uses captures ⟨accessor, slot⟩ (.error (.missingCapture slot)) captures

theorem uses_consume (call : AccessorCall) (captures : Captures) :
    call.Uses captures (call.consume.run captures).1 (call.consume.run captures).2 := by
  by_cases lookup : call.accessor = .get
  · obtain ⟨accessor, slot⟩ := call
    subst lookup
    rw [run_consume_get]
    exact .lookup
  · rw [run_consume lookup]
    cases found : captures.get? call.slot with
    | none => exact .unbound lookup found
    | some value =>
        refine .bound lookup found ?_ ?_
        · rw [Captures.get?_erase, if_pos rfl]
        · intro other different
          rw [Captures.get?_erase, if_neg different.symm]

theorem Uses.get? {call : AccessorCall} {captures left : Captures}
    {result : Except TransformError Accessed} (uses : call.Uses captures result left)
    (slot : String) : left.get? slot =
      if call.accessor ≠ .get ∧ call.slot = slot then none else captures.get? slot := by
  cases uses with
  | lookup => simp
  | @bound accessor own value _ consuming _ unbound kept =>
      by_cases same : own = slot
      · subst same
        simp [consuming, unbound]
      · simp [same, kept slot (Ne.symm same)]
  | @unbound accessor own consuming missing =>
      by_cases same : own = slot
      · subst same
        simp [missing]
      · simp [same]

/-! ## A run of calls -/

/-- The slots that calls ask to use up. -/
def consumed (calls : List AccessorCall) : Finset String :=
  ((calls.filter fun call => call.accessor ≠ .get).map AccessorCall.slot).toFinset

theorem mem_consumed {calls : List AccessorCall} {slot : String} :
    slot ∈ consumed calls ↔ ∃ call ∈ calls, call.accessor ≠ .get ∧ call.slot = slot := by
  simp [consumed, and_assoc]

/-- What calls leave of captures. -/
def leftBy (captures : Captures) : List AccessorCall → Captures
  | [] => captures
  | call :: rest => leftBy (call.consume.run captures).2 rest

theorem run_eq_some {captures : Captures} {calls : List AccessorCall} {position : Nat}
    {call : AccessorCall} (present : calls[position]? = some call) :
    (run captures calls)[position]? =
      some (call.consume.run (leftBy captures (calls.take position))) := by
  induction calls generalizing captures position with
  | nil => simp at present
  | cons head rest ih =>
      cases position with
      | zero =>
          cases present
          rfl
      | succ position => exact ih present

theorem leftBy_append (captures : Captures) (calls others : List AccessorCall) :
    leftBy captures (calls ++ others) = leftBy (leftBy captures calls) others := by
  induction calls generalizing captures with
  | nil => rfl
  | cons call rest ih => exact ih _

theorem leftBy_take_succ {captures : Captures} {calls : List AccessorCall} {position : Nat}
    {call : AccessorCall} (present : calls[position]? = some call) :
    leftBy captures (calls.take (position + 1)) =
      (call.consume.run (leftBy captures (calls.take position))).2 := by
  rw [List.take_add_one, present, Option.toList_some, leftBy_append, leftBy, leftBy]

/-- A slot stays as it was captured until a call asks to use it up. -/
theorem get?_leftBy (captures : Captures) (calls : List AccessorCall) (slot : String) :
    (leftBy captures calls).get? slot =
      if slot ∈ consumed calls then none else captures.get? slot := by
  induction calls generalizing captures with
  | nil => rfl
  | cons call rest ih =>
      have first := (call.uses_consume captures).get? slot
      have either : slot ∈ consumed (call :: rest) ↔
          (call.accessor ≠ .get ∧ call.slot = slot) ∨ slot ∈ consumed rest := by
        simp [mem_consumed]
      rw [leftBy, ih, first]
      by_cases here : call.accessor ≠ .get ∧ call.slot = slot
      · simp [either, here]
      · simp [either, here]

theorem names_leftBy (captures : Captures) (calls : List AccessorCall) :
    (leftBy captures calls).names = captures.names \ consumed calls := by
  ext slot
  rw [Finset.mem_sdiff, Captures.mem_names, Captures.mem_names, get?_leftBy]
  by_cases used : slot ∈ consumed calls <;> simp [used]

theorem size_leftBy (captures : Captures) (calls : List AccessorCall) :
    (leftBy captures calls).size =
      captures.size - (captures.names ∩ consumed calls).card := by
  rw [← Captures.card_names, ← Captures.card_names, names_leftBy, Finset.card_sdiff,
    Finset.inter_comm]

/-- A call that comes after another one on its slot is refused. -/
theorem refused_of_earlier {captures : Captures} {calls : List AccessorCall}
    {earlier later : Nat} {first second : AccessorCall} (before : earlier < later)
    (firstCall : calls[earlier]? = some first) (secondCall : calls[later]? = some second)
    (firstConsumes : first.accessor ≠ .get) (secondConsumes : second.accessor ≠ .get)
    (sameSlot : first.slot = second.slot) :
    (run captures calls)[later]? = some (.error (.missingCapture second.slot),
      leftBy captures (calls.take later)) := by
  have used : second.slot ∈ consumed (calls.take later) := by
    refine mem_consumed.2 ⟨first, ?_, firstConsumes, sameSlot⟩
    refine List.mem_of_getElem? (i := earlier) ?_
    rw [List.getElem?_take_of_lt before, firstCall]
  have unbound : (leftBy captures (calls.take later)).get? second.slot = none := by
    rw [get?_leftBy, if_pos used]
  rw [run_eq_some secondCall, run_consume secondConsumes, unbound]

/-- Captures are used up linearly. Every call of a run finds what the calls before it left: a
slot is still bound to what was captured, unless one of them asked to use it up. A look-up
changes nothing, a call on a slot that is not bound is refused as a missing capture and changes
nothing, and any other call takes its own slot away and keeps the rest, whether the value is
converted or reported as something else than expected. So a run leaves as many slots as were
captured less those it used up, and of two calls that use up one slot the later is refused. -/
theorem captures_linear (captures : Captures) (calls : List AccessorCall) :
    (∀ position call, calls[position]? = some call → ∃ result,
      (run captures calls)[position]? =
        some (result, leftBy captures (calls.take (position + 1))) ∧
      call.Uses (leftBy captures (calls.take position)) result
        (leftBy captures (calls.take (position + 1)))) ∧
    (∀ slot, (leftBy captures calls).get? slot =
      if slot ∈ consumed calls then none else captures.get? slot) ∧
    (leftBy captures calls).size =
      captures.size - (captures.names ∩ consumed calls).card ∧
    (∀ earlier later : Nat, earlier < later → ∀ first second,
      calls[earlier]? = some first → calls[later]? = some second →
      first.accessor ≠ .get → second.accessor ≠ .get → first.slot = second.slot →
      ∃ left, (run captures calls)[later]? =
        some (.error (.missingCapture second.slot), left)) ∧
    (∀ (accessor : Accessor) (value : Value) (error : TransformError),
      accessor.answer value = .error error →
      ∃ (expected : Expectation) (found : String),
        error = .shapeMismatch expected.describe found) ∧
    ∀ slot, (TransformError.missingCapture slot).message =
      "Shape mismatch: expected a capture named '" ++ slot ++ "', but found no such capture" := by
  refine ⟨?_, get?_leftBy captures calls, size_leftBy captures calls, ?_, ?_, fun _ => rfl⟩
  · intro position call present
    rw [leftBy_take_succ present]
    exact ⟨_, run_eq_some present, call.uses_consume _⟩
  · intro earlier later before first second firstCall secondCall firstConsumes secondConsumes same
    exact ⟨_, refused_of_earlier before firstCall secondCall firstConsumes secondConsumes same⟩
  · exact fun _ _ _ failed => Accessor.shapeMismatch_of_answer failed

/-- A look-up, a conversion that fails, the slot asked for again, and another slot. -/
example : ∃ captures, (Pattern.group [("a", .subtree "x"), ("b", .simple "y")]).match?
      (.group [("b", .leaf "2"), ("a", .sequence [])]) = some captures ∧
    (run captures [⟨.get, "x"⟩, ⟨.text, "x"⟩, ⟨.take, "x"⟩, ⟨.text, "y"⟩]).map
        (fun call => (call.1, call.2.size)) =
      [(.ok (.lookup (some (.sequence []))), 2), (.error (.shapeMismatch "a leaf" "[]"), 1),
        (.error (.missingCapture "x"), 1), (.ok (.text "2"), 0)] :=
  ⟨_, rfl, rfl⟩

end AccessorCall

end InterviewFlow
