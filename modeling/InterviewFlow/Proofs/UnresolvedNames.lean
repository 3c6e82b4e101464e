import InterviewFlow.Proofs.Collections
import InterviewFlow.Proofs.JsonRoundTrip
import InterviewFlow.Proofs.Places

/-! The names a node refers to, by their places. A place is a path of positions; the
lexicographic order of paths is document order, with a guard before the branches and
children under it. The unresolved names are the unbound names that have a place, each
once and in the order of their first places. -/

set_option autoImplicit false

namespace InterviewFlow

/-! ## References by place -/

/-- The predicate refers to the name at the path, which goes through the members of
conjunctions. -/
inductive Predicate.NamedAt : Predicate → List Nat → String → Prop where
  | named {name : String} : NamedAt (.named name) [] name
  | member {members : List Predicate} {index : Nat} {member : Predicate} {path : List Nat}
      {name : String} :
      members[index]? = some member → NamedAt member path name →
      NamedAt (.combined members) (index :: path) name

/-- The guard of a routing rule comes before its children. -/
inductive RoutingRule.NamedAt : RoutingRule → List Nat → String → Prop where
  | guard {rule : RoutingRule} {path : List Nat} {name : String} :
      rule.predicate.NamedAt path name → NamedAt rule (0 :: path) name
  | child {predicate : Predicate} {children : List RoutingRule} {index : Nat}
      {child : RoutingRule} {path : List Nat} {name : String} :
      children[index]? = some child → NamedAt child path name →
      NamedAt (.nested predicate children) (1 :: index :: path) name

/-- The guard of a conditional comes before its true branch, and that before its false one. -/
inductive Element.NamedAt : Element → List Nat → String → Prop where
  | guard {predicate : Predicate} {whenTrue whenFalse : List Element} {path : List Nat}
      {name : String} :
      predicate.NamedAt path name →
      NamedAt (.conditional predicate whenTrue whenFalse) (0 :: path) name
  | whenTrue {predicate : Predicate} {whenTrue whenFalse : List Element} {index : Nat}
      {element : Element} {path : List Nat} {name : String} :
      whenTrue[index]? = some element → NamedAt element path name →
      NamedAt (.conditional predicate whenTrue whenFalse) (1 :: index :: path) name
  | whenFalse {predicate : Predicate} {whenTrue whenFalse : List Element} {index : Nat}
      {element : Element} {path : List Nat} {name : String} :
      whenFalse[index]? = some element → NamedAt element path name →
      NamedAt (.conditional predicate whenTrue whenFalse) (2 :: index :: path) name
  | rule {rules : List RoutingRule} {index : Nat} {rule : RoutingRule} {path : List Nat}
      {name : String} :
      rules[index]? = some rule → rule.NamedAt path name →
      NamedAt (.routing rules) (index :: path) name

/-- The body of the node refers to the name at the path. -/
inductive Node.NamedAt (node : Node) : List Nat → String → Prop where
  | element {index : Nat} {element : Element} {path : List Nat} {name : String} :
      node.body[index]? = some element → element.NamedAt path name →
      NamedAt node (index :: path) name

/-! ## The traversals enumerate the names -/

theorem Predicate.enumerates_references (predicate : Predicate) :
    Enumerates predicate.NamedAt predicate.references := by
  induction predicate using memberInduction with
  | combined members ih =>
      rw [references, referencesOfAll_eq_flatMap]
      refine (Enumerates.atItems ih).congr fun path name => ?_
      constructor
      · intro held
        cases held with
        | member present held => exact ⟨_, _, _, rfl, present, held⟩
      · rintro ⟨index, member, inner, rfl, present, held⟩
        exact .member present held
  | other predicate single =>
      cases predicate with
      | combined members => exact absurd rfl (single members)
      | named name =>
          refine ⟨[([], name)], List.pairwise_singleton _ _, fun path other => ?_, rfl⟩
          rw [List.mem_singleton]
          constructor
          · rintro ⟨⟩
            exact .named
          · rintro ⟨⟩
            rfl
      | _ =>
          refine Enumerates.nil fun path name held => ?_
          cases held

namespace RoutingRule

def references (rule : RoutingRule) : List String :=
  rule.preorder.flatMap fun entry => entry.predicate.references

theorem references_nested (predicate : Predicate) (children : List RoutingRule) :
    (nested predicate children).references =
      predicate.references ++ children.flatMap references := by
  rw [references, preorder, preorderOfAll_eq_flatMap, List.flatMap_cons, List.flatMap_assoc]
  rfl

theorem enumerates_references (rule : RoutingRule) : Enumerates rule.NamedAt rule.references := by
  induction rule using memberInduction with
  | direct predicate outcome =>
      rw [references, preorder, List.flatMap_singleton]
      refine (predicate.enumerates_references.below 0).congr fun path name => ?_
      constructor
      · rintro ⟨held⟩
        exact ⟨_, rfl, held⟩
      · rintro ⟨inner, rfl, held⟩
        exact .guard held
  | nested predicate children ih =>
      rw [references_nested]
      have children := (Enumerates.atItems ih).below 1
      refine ((predicate.enumerates_references.below 0).append children ?_).congr ?_
      · rintro path name later other ⟨inner, rfl, _⟩ ⟨deeper, rfl, _⟩
        exact List.cons_lt_cons_iff.2 (.inl Nat.zero_lt_one)
      · intro path name
        constructor
        · intro held
          cases held with
          | guard held => exact .inl ⟨_, rfl, held⟩
          | child present held => exact .inr ⟨_, rfl, _, _, _, rfl, present, held⟩
        · rintro (⟨inner, rfl, held⟩ | ⟨inner, rfl, index, child, deeper, rfl, present, held⟩)
          · exact .guard held
          · exact .child present held

end RoutingRule

namespace Element

def references (element : Element) : List String :=
  element.preorder.flatMap fun part => part.ownPredicates.flatMap Predicate.references

theorem references_conditional (predicate : Predicate) (whenTrue whenFalse : List Element) :
    (conditional predicate whenTrue whenFalse).references =
      predicate.references ++ (whenTrue.flatMap references ++ whenFalse.flatMap references) := by
  rw [references, preorder, preorderOfAll_eq_flatMap, preorderOfAll_eq_flatMap,
    List.flatMap_cons, List.flatMap_append, List.flatMap_assoc, List.flatMap_assoc,
    ownPredicates, List.flatMap_singleton]
  rfl

theorem references_routing (rules : List RoutingRule) :
    (routing rules).references = rules.flatMap RoutingRule.references := by
  rw [references, preorder, List.flatMap_singleton, ownPredicates, RoutingRule.predicates,
    RoutingRule.preorderOfAll_eq_flatMap, List.flatMap_map, List.flatMap_assoc]
  rfl

theorem enumerates_references (element : Element) :
    Enumerates element.NamedAt element.references := by
  induction element using memberInduction with
  | conditional predicate whenTrue whenFalse trueHeld falseHeld =>
      rw [references_conditional]
      have trueBranch := (Enumerates.atItems trueHeld).below 1
      have falseBranch := (Enumerates.atItems falseHeld).below 2
      refine ((predicate.enumerates_references.below 0).append
        (trueBranch.append falseBranch ?_) ?_).congr ?_
      · rintro path name later other ⟨inner, rfl, _⟩ ⟨deeper, rfl, _⟩
        exact List.cons_lt_cons_iff.2 (.inl Nat.one_lt_two)
      · rintro path name later other ⟨inner, rfl, _⟩ (⟨deeper, rfl, _⟩ | ⟨deeper, rfl, _⟩)
        · exact List.cons_lt_cons_iff.2 (.inl Nat.zero_lt_one)
        · exact List.cons_lt_cons_iff.2 (.inl Nat.zero_lt_two)
      · intro path name
        constructor
        · intro held
          cases held with
          | guard held => exact .inl ⟨_, rfl, held⟩
          | whenTrue present held => exact .inr (.inl ⟨_, rfl, _, _, _, rfl, present, held⟩)
          | whenFalse present held => exact .inr (.inr ⟨_, rfl, _, _, _, rfl, present, held⟩)
        · rintro (⟨inner, rfl, held⟩ | ⟨inner, rfl, index, element, deeper, rfl, present, held⟩ |
            ⟨inner, rfl, index, element, deeper, rfl, present, held⟩)
          · exact .guard held
          · exact .whenTrue present held
          · exact .whenFalse present held
  | other element single =>
      cases element with
      | conditional predicate whenTrue whenFalse =>
          exact absurd rfl (single predicate whenTrue whenFalse)
      | routing rules =>
          rw [references_routing]
          have each := Enumerates.atItems fun rule (_ : rule ∈ rules) => rule.enumerates_references
          refine each.congr fun path name => ?_
          constructor
          · intro held
            cases held with
            | rule present held => exact ⟨_, _, _, rfl, present, held⟩
          · rintro ⟨index, rule, inner, rfl, present, held⟩
            exact .rule present held
      | _ =>
          refine Enumerates.nil fun path name held => ?_
          cases held

end Element

/-! ## First places -/

/-- Of the names at the paths, the earlier one is somewhere before the later one is anywhere. -/
def FirstBefore (At : List Nat → String → Prop) (earlier later : String) : Prop :=
  ∃ path, At path earlier ∧ ∀ other, At other later → path < other

/-- Without their repeats the names stand in the order of their first places. -/
theorem Enumerates.pairwise_ofList {At : List Nat → String → Prop} {names : List String}
    (enumerates : Enumerates At names) :
    (OrderedSet.ofList names).items.Pairwise (FirstBefore At) := by
  obtain ⟨places, ascending, exact, rfl⟩ := enumerates
  obtain rfl : (fun path name => (path, name) ∈ places) = At :=
    funext fun path => funext fun name => propext (exact path name)
  clear exact
  induction places using List.reverseRecOn with
  | nil => exact .nil
  | append_singleton places place ih =>
      obtain ⟨last, name⟩ := place
      obtain ⟨placesAscending, _, before⟩ := List.pairwise_append.1 ascending
      have beforeLast : ∀ path other, (path, other) ∈ places → path < last :=
        fun path other member => before _ member _ (List.mem_singleton_self _)
      -- A further place is behind all others, so it changes no first place.
      have kept : ∀ {earlier later},
          FirstBefore (fun path name => (path, name) ∈ places) earlier later →
          FirstBefore (fun path name' => (path, name') ∈ places ++ [(last, name)])
            earlier later := by
        rintro earlier later ⟨path, held, first⟩
        refine ⟨path, List.mem_append_left _ held, fun other member => ?_⟩
        rcases List.mem_append.1 member with inside | only
        · exact first other inside
        · cases List.mem_singleton.1 only
          exact beforeLast path earlier held
      have old := (ih placesAscending).imp kept
      rw [List.map_append, List.map_singleton, OrderedSet.ofList_append_singleton]
      by_cases present : name ∈ (OrderedSet.ofList (places.map Prod.snd)).items
      · rwa [OrderedSet.insert, dif_pos present]
      · rw [OrderedSet.insert, dif_neg present]
        refine List.pairwise_append.2 ⟨old, List.pairwise_singleton _ _, ?_⟩
        intro earlier member later only
        cases List.mem_singleton.1 only
        obtain ⟨⟨path, _⟩, held, rfl⟩ := List.mem_map.1 (OrderedSet.mem_ofList.1 member)
        refine ⟨path, List.mem_append_left _ held, fun other otherMember => ?_⟩
        rcases List.mem_append.1 otherMember with inside | only
        · exact absurd (OrderedSet.mem_ofList.2 (List.mem_map_of_mem inside)) present
        · cases List.mem_singleton.1 only
          exact beforeLast path _ held

/-! ## Unresolved names -/

namespace Node

theorem enumerates_references (node : Node) :
    Enumerates node.NamedAt (node.predicates.flatMap Predicate.references) := by
  have listed : node.predicates.flatMap Predicate.references =
      node.body.flatMap Element.references := by
    rw [predicates, elements, Element.preorderOfAll_eq_flatMap, List.flatMap_assoc,
      List.flatMap_assoc]
    rfl
  rw [listed]
  have each := Enumerates.atItems fun element (_ : element ∈ node.body) =>
    element.enumerates_references
  refine each.congr fun path name => ?_
  constructor
  · rintro ⟨present, held⟩
    exact ⟨_, _, _, rfl, present, held⟩
  · rintro ⟨index, element, inner, rfl, present, held⟩
    exact .element present held

theorem unresolved_of_wider {node : Node} {resolver wider : Resolver}
    (binds : ∀ name, (resolver name).isSome = true → (wider name).isSome = true) :
    node.unresolved wider =
      (node.unresolved resolver).filter fun name => (wider name).isNone := by
  rw [unresolved, unresolved, List.filter_filter]
  apply List.filter_congr
  intro name _
  have unbound : (wider name).isNone = true → (resolver name).isNone = true := by
    simpa using mt (binds name)
  rw [Bool.eq_iff_iff, Bool.and_eq_true]
  exact ⟨fun free => ⟨free, unbound free⟩, And.left⟩

/-- The unresolved names are the names with a place in the node that the resolver does not
bind, each once, by first place in document order; and a resolver that binds more
leaves the others as they are. -/
theorem unresolved_exact (node : Node) (resolver : Resolver) :
    (node.unresolved resolver).Nodup ∧
    (∀ name, name ∈ node.unresolved resolver ↔
      resolver name = none ∧ ∃ path, node.NamedAt path name) ∧
    (node.unresolved resolver).Pairwise (FirstBefore node.NamedAt) ∧
    ∀ wider : Resolver,
      (∀ name, (resolver name).isSome = true → (wider name).isSome = true) →
      node.unresolved wider =
        (node.unresolved resolver).filter fun name => (wider name).isNone := by
  refine ⟨?_, ?_, ?_, fun wider => unresolved_of_wider⟩
  · exact (OrderedSet.ofList _).distinct.filter _
  · intro name
    rw [unresolved, List.mem_filter, OrderedSet.mem_ofList, node.enumerates_references.mem_iff,
      Option.isNone_iff_eq_none, and_comm]
  · exact node.enumerates_references.pairwise_ofList.filter _

/-- Names in a conjunction, in both branches and below a nested rule; one is bound from the
start, one later. -/
theorem unresolved_exact_nested :
    let node : Node := ⟨"start",
      [.conditional (.combined [.named "adult", .combined [.named "bound", .named "resident"]])
        [.routing [.nested (.named "member") [.direct (.named "adult") "end"]]]
        [.conditional (.named "guest") [] []]], .empty⟩
    let resolver : Resolver := fun name => if name = "bound" then some .otherwise else none
    let wider : Resolver := fun name =>
      if name = "bound" ∨ name = "resident" then some .otherwise else none
    node.unresolved resolver = ["adult", "resident", "member", "guest"] ∧
      FirstBefore node.NamedAt "resident" "guest" ∧
      (∀ name, (resolver name).isSome = true → (wider name).isSome = true) ∧
      node.unresolved wider = ["adult", "member", "guest"] := by
  intro node resolver wider
  have names : node.unresolved resolver = ["adult", "resident", "member", "guest"] := by
    decide
  have binds : ∀ name, (resolver name).isSome = true → (wider name).isSome = true := by
    intro name
    simp only [resolver, wider]
    split <;> simp_all
  obtain ⟨_, _, ordered, widened⟩ := unresolved_exact node resolver
  refine ⟨names, ?_, binds, ?_⟩
  · rw [names] at ordered
    exact List.rel_of_pairwise_cons (List.pairwise_cons.1 ordered).2 (by decide)
  · rw [widened wider binds, names]
    decide

end Node

end InterviewFlow
