import InterviewFlow.Compiler
import InterviewFlow.Proofs.DocumentReading
import InterviewFlow.Proofs.Faults

/-! The two limits on recursion together. The reader counts arrays and objects and stops at
127 of them, the compiler counts levels of the tree, and a tree has one level more than
containers around its deepest leaf. So what is read has at most 128 levels, from there on a
depth limit changes nothing, and one source tells all smaller limits from the others. -/

set_option autoImplicit false

namespace InterviewFlow

/-! ## Levels of what is read -/

namespace Json

theorem depth_le_of_forall₂ {items : List Json} {trees : List Tree} {room : Nat}
    (each : ∀ item ∈ items, ∀ {tree}, item.HasTree tree → tree.depth ≤ item.nesting + 1)
    (fits : ∀ item ∈ items, item.nesting ≤ room) (related : List.Forall₂ HasTree items trees) :
    ∀ tree ∈ trees, tree.depth ≤ room + 1 := by
  intro tree member
  obtain ⟨item, itemMember, shape⟩ := exists_of_forall₂ related.flip member
  exact Nat.le_trans (each item itemMember shape) (Nat.succ_le_succ (fits item itemMember))

theorem HasTree.depth_le {value : Json} {tree : Tree} (shape : value.HasTree tree) :
    tree.depth ≤ value.nesting + 1 := by
  -- A leaf is one level in no container; every container adds one to both.
  induction value using memberInduction generalizing tree with
  | null => cases shape
  | bool value =>
      cases shape
      exact Nat.le_refl 1
  | number literal =>
      cases shape
      exact Nat.le_refl 1
  | string text =>
      cases shape
      exact Nat.le_refl 1
  | array items ih =>
      obtain ⟨trees, related, rfl⟩ := hasTree_array_iff.1 shape
      have fits := nestingOfItems_le_iff.1 (Nat.le_refl (nestingOfItems items))
      have below := Tree.depthOfItems_le_iff.2 (depth_le_of_forall₂ ih fits related)
      rw [Tree.depth, nesting]
      omega
  | object entries ih =>
      cases shape with
      | @object fields kept trees collects sameKeys related =>
          have included : kept.entries.map Prod.snd ⊆ fields.map Prod.snd := by
            rw [OrderedMap.collects_iff.1 collects]
            exact List.map_subset _ fun _ => Entries.mem_of_mem_ofList
          have bounds : ∀ value ∈ fields.map Prod.snd, ∀ {tree : Tree},
              value.HasTree tree → tree.depth ≤ value.nesting + 1 := by
            intro value member
            obtain ⟨field, found, rfl⟩ := List.mem_map.1 member
            exact ih _ (List.mem_map_of_mem found)
          have fits := nestingOfItems_le_iff.1 (Nat.le_refl (nestingOfItems (fields.map Prod.snd)))
          have each := depth_le_of_forall₂ (fun value member => bounds value (included member))
            (fun value member => fits value (included member)) related
          have below := Tree.depthOfEntries_le_iff.2 (List.forall_mem_map.1 each)
          change _ ≤ (ofFields fields).nesting + 1
          rw [Tree.depth, nesting_ofFields]
          omega

end Json

/-! ## A source for every smaller limit -/

/-- A leaf inside so many sequences. -/
def Tree.nested : Nat → Tree
  | 0 => .leaf ""
  | count + 1 => .sequence [nested count]

namespace Tree

theorem distinctTags_nested (count : Nat) : (nested count).DistinctTags := by
  induction count with
  | zero => exact .leaf
  | succ count ih => exact .sequence (List.forall_mem_singleton.2 ih)

theorem nesting_nested (count : Nat) : (nested count).nesting = count := by
  induction count with
  | zero => rfl
  | succ count ih =>
      rw [nested, nesting, nestingOfItems, nestingOfItems, ih]
      omega

end Tree

theorem RuleList.rewriteWithin_nested (rules : RuleList) (context : Context) (limit : Nat)
    {room count : Nat} (deep : room ≤ count) :
    rules.rewriteWithin limit context room (.nested count) = .error (.depthExceeded limit) := by
  induction room generalizing count with
  | zero => rw [rewriteWithin]
  | succ room ih =>
      cases count with
      | zero => omega
      | succ count =>
          rw [Tree.nested, rewriteWithin, List.mapM_cons, ih (Nat.le_of_succ_le_succ deep)]
          rfl

/-! ## Both limits -/

theorem ok_ne_error {ε α : Type} {value : α} {error : ε} :
    (.ok value : Except ε α) ≠ .error error := by
  intro same
  cases same

theorem Document.depth_le_of_read {source : String} {tree : Tree}
    (done : Document.read source = .ok tree) : tree.depth ≤ 128 := by
  obtain ⟨value, accepted, shape⟩ := read_eq_ok_iff.1 done
  exact Nat.le_trans shape.depth_le (Nat.succ_le_succ accepted.shallow)

namespace Compiler

/-- The standard compiler with another depth limit. -/
def limited (limit : Nat) : Compiler :=
  { standard with depthLimit := limit }

theorem compile_limited (limit : Nat) (name source : String) :
    (limited limit).compile name source =
      ((Document.read source).mapError CompileError.document >>= fun tree =>
        (Registry.flow.rewriteNode limit ⟨name⟩ tree).mapError CompileError.transform) := by
  simp only [compile, limited, standard]
  cases Document.read source with
  | error error => rfl
  | ok tree =>
      simp only [Except.mapError, Except.ok_bind]
      cases Registry.flow.rewriteNode limit ⟨name⟩ tree <;> rfl

theorem rewriteNode_of_read {limit : Nat} {name source : String} {tree : Tree}
    (enough : 128 ≤ limit) (done : Document.read source = .ok tree) :
    Registry.flow.rewriteNode limit ⟨name⟩ tree =
      (Registry.flow.rules.evaluate ⟨name⟩ tree >>= Value.toNode name) := by
  have fits := Nat.le_trans (Document.depth_le_of_read done) enough
  rw [Registry.rewriteNode, RuleList.rewriteNode, RuleList.rewrite_eq_evaluate _ _ fits]

theorem rewriteNode_ne_depthExceeded {limit other : Nat} {name source : String} {tree : Tree}
    (enough : 128 ≤ limit) (done : Document.read source = .ok tree) :
    Registry.flow.rewriteNode limit ⟨name⟩ tree ≠ .error (.depthExceeded other) := by
  rw [rewriteNode_of_read enough done]
  intro failed
  rcases bind_eq_error_iff.1 failed with refused | ⟨value, _, unfit⟩
  · obtain ⟨part, _, fault⟩ := FlowRules.exists_fault_of_evaluate refused
    cases fault
  · obtain ⟨_, impossible⟩ := (Expectation.decides_node name).refused unfit
    cases impossible

/-- What is read has at most 128 levels. So the default limit is never exceeded, all limits
from 128 on give the same results, and no smaller one would do: there is a source for which
each smaller limit reports itself. -/
theorem recursion_limits_compose :
    (∀ source tree, Document.read source = .ok tree → tree.depth ≤ 128) ∧
    (∀ name source limit,
      standard.compile name source ≠ .error (.transform (.depthExceeded limit))) ∧
    (∀ limit, 128 ≤ limit → ∀ other, 128 ≤ other → ∀ name source,
      (limited limit).compile name source = (limited other).compile name source) ∧
    ∃ source, ∀ limit < 128, ∀ name,
      (limited limit).compile name source = .error (.transform (.depthExceeded limit)) := by
  refine ⟨fun _ _ => Document.depth_le_of_read, ?_, ?_, ?_⟩
  · intro name source limit
    change (limited Registry.defaultDepthLimit).compile name source ≠ _
    rw [compile_limited]
    cases done : Document.read source with
    | error error => nofun
    | ok tree =>
        rw [Except.mapError, Except.ok_bind]
        cases outcome : Registry.flow.rewriteNode Registry.defaultDepthLimit ⟨name⟩ tree with
        | ok node => exact ok_ne_error
        | error error =>
            intro failed
            cases failed
            exact rewriteNode_ne_depthExceeded (by decide) done outcome
  · intro limit enough other otherEnough name source
    rw [compile_limited, compile_limited]
    cases done : Document.read source with
    | error error => rfl
    | ok tree =>
        rw [Except.mapError, Except.ok_bind, Except.ok_bind, rewriteNode_of_read enough done,
          rewriteNode_of_read otherEnough done]
  · refine ⟨(Tree.nested 127).toJson.pretty, ?_⟩
    have done : Document.read (Tree.nested 127).toJson.pretty = .ok (.nested 127) := by
      apply Document.read_pretty (Tree.distinctTags_nested 127)
      rw [Tree.nesting_toJson, Tree.nesting_nested, Json.nestingLimit]
    intro limit small name
    rw [compile_limited, done, Except.mapError, Except.ok_bind, Registry.rewriteNode,
      RuleList.rewriteNode, RuleList.rewrite,
      RuleList.rewriteWithin_nested _ _ _ (Nat.le_of_lt_succ small)]
    rfl

/-- A leaf in three arrays has four levels. -/
theorem recursion_limits_compose_nested :
    (let source := (Tree.nested 3).toJson.compact
    Document.read source = .ok (.nested 3) ∧ (Tree.nested 3).depth ≤ 128 ∧
      (limited 128).compile "start" source = (limited 1000).compile "start" source) ∧
    ∃ source, (limited 127).compile "start" source = .error (.transform (.depthExceeded 127)) := by
  obtain ⟨shallow, _, same, source, least⟩ := recursion_limits_compose
  have done : Document.read (Tree.nested 3).toJson.compact = .ok (.nested 3) :=
    Document.read_of_spelledBy (Tree.distinctTags_nested 3)
      (Json.ofText?_eq_some_iff.1 (Tree.numberFree_toJson _).ofText?_compact)
  refine ⟨⟨done, shallow _ _ done, same 128 (by decide) 1000 (by decide) "start" _⟩, source, ?_⟩
  exact least 127 (by decide) "start"

end Compiler

end InterviewFlow
