import InterviewFlow.Rewriting.Rewrite
import Mathlib.Data.List.Forall2

/-! Rewriting without a depth limit. `RuleList.evaluate` recurses over the tree
itself; within a limit that is at least the depth of the tree, rewriting has the
same result or the same error, and within a smaller one it never succeeds. -/

set_option autoImplicit false

namespace InterviewFlow

/-! ## Computations that succeed -/

theorem bind_eq_ok_iff {ε α β : Type} {computation : Except ε α} {next : α → Except ε β}
    {result : β} :
    computation >>= next = .ok result ↔
      ∃ value, computation = .ok value ∧ next value = .ok result := by
  cases computation with
  | error error => simp [bind, Except.bind]
  | ok value => simp [bind, Except.bind]

theorem mapM_eq_ok_iff {ε α β : Type} {step : α → Except ε β} {items : List α}
    {results : List β} :
    items.mapM step = .ok results ↔
      List.Forall₂ (fun item result => step item = .ok result) items results := by
  induction items generalizing results with
  | nil => simp [pure, Except.pure, eq_comm]
  | cons item rest ih =>
      rw [List.mapM_cons, List.forall₂_cons_left_iff]
      simp only [bind_eq_ok_iff, ih, pure, Except.pure, Except.ok.injEq]
      constructor
      · rintro ⟨head, headDone, tail, tailDone, rfl⟩
        exact ⟨head, tail, headDone, tailDone, rfl⟩
      · rintro ⟨head, tail, headDone, tailDone, rfl⟩
        exact ⟨head, headDone, tail, tailDone, rfl⟩

theorem exists_of_forall₂ {α β : Type} {Related : α → β → Prop} {items : List α}
    {results : List β} (related : List.Forall₂ Related items results) {item : α}
    (member : item ∈ items) : ∃ result ∈ results, Related item result := by
  induction related with
  | nil => simp at member
  | @cons head result _ _ first _ ih =>
      rcases List.mem_cons.1 member with rfl | later
      · exact ⟨result, by simp, first⟩
      · obtain ⟨found, foundMember, foundRelated⟩ := ih later
        exact ⟨found, by simp [foundMember], foundRelated⟩

theorem exists_forall₂ {α β : Type} {Related : α → β → Prop} {items : List α}
    (total : ∀ item ∈ items, ∃ result, Related item result) :
    ∃ results, List.Forall₂ Related items results := by
  induction items with
  | nil => exact ⟨[], .nil⟩
  | cons item rest ih =>
      obtain ⟨result, related⟩ := total item (by simp)
      obtain ⟨results, below⟩ := ih fun later member => total later (by simp [member])
      exact ⟨result :: results, .cons related below⟩

/-! ## Computations that fail -/

theorem bind_eq_error_iff {ε α β : Type} {computation : Except ε α} {next : α → Except ε β}
    {error : ε} :
    computation >>= next = .error error ↔
      computation = .error error ∨ ∃ value, computation = .ok value ∧ next value = .error error := by
  cases computation with
  | error raised => simp [bind, Except.bind]
  | ok value => simp [bind, Except.bind]

theorem exists_error_of_mapM {ε α β : Type} {step : α → Except ε β} {items : List α} {error : ε}
    (failed : items.mapM step = .error error) : ∃ item ∈ items, step item = .error error := by
  induction items with
  | nil => cases failed
  | cons item rest ih =>
      rw [List.mapM_cons, bind_eq_error_iff] at failed
      rcases failed with here | ⟨_, _, later⟩
      · exact ⟨item, List.mem_cons_self, here⟩
      · rcases bind_eq_error_iff.1 later with below | ⟨_, _, impossible⟩
        · obtain ⟨found, member, fails⟩ := ih below
          exact ⟨found, List.mem_cons_of_mem _ member, fails⟩
        · cases impossible

/-! ## Entries related tag by tag -/

/-- The two lists have the same tags in the same order and related items under them. -/
def Tagwise {α β : Type} (Related : α → β → Prop) (left : Entries α) (right : Entries β) : Prop :=
  List.Forall₂ (fun entry entry' => entry.1 = entry'.1 ∧ Related entry.2 entry'.2) left right

namespace Tagwise

variable {α β : Type} {Related : α → β → Prop} {left : Entries α} {right : Entries β}

theorem keys_eq (tagwise : Tagwise Related left right) :
    Entries.keys left = Entries.keys right := by
  induction tagwise with
  | nil => rfl
  | cons head _ ih => simp [head.1, ih]

theorem length_eq (tagwise : Tagwise Related left right) : left.length = right.length :=
  List.Forall₂.length_eq tagwise

theorem get?_right (tagwise : Tagwise Related left right) {tag : String} {item : β}
    (found : Entries.get? tag right = some item) :
    ∃ source, Entries.get? tag left = some source ∧ Related source item := by
  induction tagwise with
  | nil => simp at found
  | @cons entry entry' _ _ head _ ih =>
      obtain ⟨name, source⟩ := entry
      obtain ⟨name', item'⟩ := entry'
      obtain ⟨rfl, related⟩ := head
      by_cases same : name = tag
      · simp only [Entries.get?, same, ↓reduceIte, Option.some.injEq] at found ⊢
        exact ⟨source, rfl, found ▸ related⟩
      · simp only [Entries.get?, same, ↓reduceIte] at found ⊢
        exact ih found

theorem get?_left (tagwise : Tagwise Related left right) {tag : String} {source : α}
    (found : Entries.get? tag left = some source) :
    ∃ item, Entries.get? tag right = some item ∧ Related source item := by
  induction tagwise with
  | nil => simp at found
  | @cons entry entry' _ _ head _ ih =>
      obtain ⟨name, source'⟩ := entry
      obtain ⟨name', item⟩ := entry'
      obtain ⟨rfl, related⟩ := head
      by_cases same : name = tag
      · simp only [Entries.get?, same, ↓reduceIte, Option.some.injEq] at found ⊢
        exact ⟨item, rfl, found ▸ related⟩
      · simp only [Entries.get?, same, ↓reduceIte] at found ⊢
        exact ih found

theorem exists_of_forall {left : Entries α}
    (total : ∀ entry ∈ left, ∃ item, Related entry.2 item) :
    ∃ right, Tagwise Related left right := by
  apply exists_forall₂
  intro entry member
  obtain ⟨item, related⟩ := total entry member
  exact ⟨(entry.1, item), rfl, related⟩

end Tagwise

theorem tagwise_iff {α β : Type} {Related : α → β → Prop} {left : Entries α}
    {right : Entries β} : Tagwise Related left right ↔ Entries.keys left = Entries.keys right ∧
      List.Forall₂ Related (left.map Prod.snd) (right.map Prod.snd) := by
  constructor
  · intro tagwise
    refine ⟨tagwise.keys_eq, ?_⟩
    rw [List.forall₂_map_left_iff, List.forall₂_map_right_iff]
    exact tagwise.imp fun _ _ => And.right
  · rintro ⟨sameKeys, related⟩
    induction left generalizing right with
    | nil =>
        cases right with
        | nil => exact .nil
        | cons entry rest => cases sameKeys
    | cons entry rest ih =>
        cases right with
        | nil => cases sameKeys
        | cons other others =>
            obtain ⟨sameTag, sameTags⟩ := List.cons.inj sameKeys
            cases related with
            | cons head tail => exact .cons ⟨sameTag, head⟩ (ih sameTags tail)

/-- Trees by their members: a container is met after the trees in it. -/
theorem Tree.memberInduction {motive : Tree → Prop} (leaf : ∀ text, motive (.leaf text))
    (sequence : ∀ items : List Tree, (∀ item ∈ items, motive item) → motive (.sequence items))
    (group : ∀ entries : List (String × Tree),
      (∀ entry ∈ entries, motive entry.2) → motive (.group entries))
    (tree : Tree) : motive tree := by
  refine @Tree.rec motive (fun items => ∀ item ∈ items, motive item)
    (fun entries => ∀ entry ∈ entries, motive entry.2) (fun entry => motive entry.2)
    leaf sequence group (by simp) ?_ (by simp) ?_ (fun _ _ held => held) tree
  · intro head rest headHeld restHeld item member
    rcases List.mem_cons.1 member with rfl | later
    · exact headHeld
    · exact restHeld item later
  · intro head rest headHeld restHeld entry member
    rcases List.mem_cons.1 member with rfl | later
    · exact headHeld
    · exact restHeld entry later

theorem Tree.depthOfItems_le_iff {items : List Tree} {room : Nat} :
    depthOfItems items ≤ room ↔ ∀ item ∈ items, item.depth ≤ room := by
  induction items with
  | nil => simp [depthOfItems]
  | cons item rest ih => rw [depthOfItems, Nat.max_le, ih, List.forall_mem_cons]

theorem Tree.depthOfEntries_le_iff {entries : List (String × Tree)} {room : Nat} :
    depthOfEntries entries ≤ room ↔ ∀ entry ∈ entries, entry.2.depth ≤ room := by
  induction entries with
  | nil => simp [depthOfEntries]
  | cons entry rest ih => rw [depthOfEntries, Nat.max_le, ih, List.forall_mem_cons]

namespace RuleList

variable (rules : RuleList) (context : Context)

mutual

/-- Rewrites a tree of any depth to whatever its root becomes. -/
def evaluate : Tree → Except TransformError Value
  | .leaf text => .ok (.leaf text)
  | .sequence items => do
      let values ← evaluateItems items
      rules.replace context (.sequence values)
  | .group entries => do
      let values ← evaluateEntries entries
      rules.replace context (.group values)

def evaluateItems : List Tree → Except TransformError (List Value)
  | [] => .ok []
  | item :: rest => do
      let value ← evaluate item
      let values ← evaluateItems rest
      return value :: values

def evaluateEntries : List (String × Tree) → Except TransformError (List (String × Value))
  | [] => .ok []
  | (tag, tree) :: rest => do
      let value ← evaluate tree
      let values ← evaluateEntries rest
      return (tag, value) :: values

end

variable {rules context}

theorem evaluateItems_eq_mapM (items : List Tree) :
    rules.evaluateItems context items = items.mapM (rules.evaluate context) := by
  induction items with
  | nil => rfl
  | cons item rest ih => rw [evaluateItems, List.mapM_cons, ih]

theorem evaluateEntries_eq_mapM (entries : List (String × Tree)) :
    rules.evaluateEntries context entries = entries.mapM fun entry => do
      let value ← rules.evaluate context entry.2
      return (entry.1, value) := by
  induction entries with
  | nil => rfl
  | cons entry rest ih =>
      rw [evaluateEntries, List.mapM_cons, ih]
      simp only [bind_assoc, pure_bind]

theorem evaluateEntries_eq_ok_iff {entries : List (String × Tree)}
    {values : List (String × Value)} :
    rules.evaluateEntries context entries = .ok values ↔
      Tagwise (fun tree value => rules.evaluate context tree = .ok value) entries values := by
  rw [evaluateEntries_eq_mapM, mapM_eq_ok_iff, Tagwise]
  apply iff_of_eq
  congr 1
  funext entry result
  apply propext
  simp only [bind_eq_ok_iff, pure, Except.pure, Except.ok.injEq]
  constructor
  · rintro ⟨value, done, rfl⟩
    exact ⟨rfl, done⟩
  · rintro ⟨sameTag, done⟩
    exact ⟨result.2, done, Prod.ext sameTag rfl⟩

theorem evaluate_sequence_eq_ok_iff {items : List Tree} {result : Value} :
    rules.evaluate context (.sequence items) = .ok result ↔
      ∃ values, List.Forall₂ (fun item value => rules.evaluate context item = .ok value)
        items values ∧ rules.replace context (.sequence values) = .ok result := by
  rw [evaluate, bind_eq_ok_iff]
  simp only [evaluateItems_eq_mapM, mapM_eq_ok_iff]

theorem evaluate_group_eq_ok_iff {entries : List (String × Tree)} {result : Value} :
    rules.evaluate context (.group entries) = .ok result ↔
      ∃ values, Tagwise (fun tree value => rules.evaluate context tree = .ok value)
        entries values ∧ rules.replace context (.group values) = .ok result := by
  rw [evaluate, bind_eq_ok_iff]
  simp only [evaluateEntries_eq_ok_iff]

/-! ## Agreement with rewriting within a limit -/

theorem mapM_congr_of_mem {ε α β : Type} {items : List α} {step other : α → Except ε β}
    (same : ∀ item ∈ items, step item = other item) : items.mapM step = items.mapM other := by
  induction items with
  | nil => rfl
  | cons item rest ih =>
      rw [List.mapM_cons, List.mapM_cons, same item (by simp),
        ih fun later member => same later (by simp [member])]

theorem rewriteWithin_eq_evaluate {limit room : Nat} {tree : Tree} (fits : tree.depth ≤ room) :
    rules.rewriteWithin limit context room tree = rules.evaluate context tree := by
  induction tree using Tree.memberInduction generalizing room with
  | leaf text =>
      cases room with
      | zero => simp [Tree.depth] at fits
      | succ room => simp only [rewriteWithin, evaluate]
  | sequence items ih =>
      cases room with
      | zero => simp [Tree.depth] at fits
      | succ room =>
          have below : ∀ item ∈ items, item.depth ≤ room :=
            Tree.depthOfItems_le_iff.1 (by simp only [Tree.depth] at fits; omega)
          have same : items.mapM (rules.rewriteWithin limit context room) =
              items.mapM (rules.evaluate context) :=
            mapM_congr_of_mem fun item member => ih item member (below item member)
          rw [rewriteWithin, evaluate, evaluateItems_eq_mapM, same]
  | group entries ih =>
      cases room with
      | zero => simp [Tree.depth] at fits
      | succ room =>
          have below : ∀ entry ∈ entries, entry.2.depth ≤ room :=
            Tree.depthOfEntries_le_iff.1 (by simp only [Tree.depth] at fits; omega)
          rw [rewriteWithin, evaluate, evaluateEntries_eq_mapM]
          congr 1
          apply mapM_congr_of_mem
          intro entry member
          rw [ih entry member (below entry member)]

theorem depth_le_of_rewriteWithin {limit room : Nat} {tree : Tree} {value : Value}
    (done : rules.rewriteWithin limit context room tree = .ok value) : tree.depth ≤ room := by
  induction room generalizing tree value with
  | zero => simp [rewriteWithin] at done
  | succ room ih =>
      cases tree with
      | leaf text => simp [Tree.depth]
      | sequence items =>
          rw [rewriteWithin, bind_eq_ok_iff] at done
          obtain ⟨values, itemsDone, _⟩ := done
          have below : Tree.depthOfItems items ≤ room := by
            rw [Tree.depthOfItems_le_iff]
            intro item member
            obtain ⟨_, _, itemDone⟩ := exists_of_forall₂ (mapM_eq_ok_iff.1 itemsDone) member
            exact ih itemDone
          simp only [Tree.depth]
          omega
      | group entries =>
          rw [rewriteWithin, bind_eq_ok_iff] at done
          obtain ⟨values, entriesDone, _⟩ := done
          have below : Tree.depthOfEntries entries ≤ room := by
            rw [Tree.depthOfEntries_le_iff]
            intro entry member
            obtain ⟨_, _, entryDone⟩ := exists_of_forall₂ (mapM_eq_ok_iff.1 entriesDone) member
            obtain ⟨_, treeDone, _⟩ := bind_eq_ok_iff.1 entryDone
            exact ih treeDone
          simp only [Tree.depth]
          omega

theorem rewrite_eq_ok_iff {limit : Nat} {tree : Tree} {value : Value} :
    rules.rewrite limit context tree = .ok value ↔
      tree.depth ≤ limit ∧ rules.evaluate context tree = .ok value := by
  constructor
  · intro done
    have fits : tree.depth ≤ limit := depth_le_of_rewriteWithin done
    exact ⟨fits, rewriteWithin_eq_evaluate fits ▸ done⟩
  · rintro ⟨fits, done⟩
    rw [rewrite, rewriteWithin_eq_evaluate fits, done]

theorem rewriteNode_eq_ok_iff {limit : Nat} {tree : Tree} {node : Node} :
    rules.rewriteNode limit context tree = .ok node ↔
      tree.depth ≤ limit ∧ ∃ value, rules.evaluate context tree = .ok value ∧
        value.toNode context.nodeName = .ok node := by
  rw [rewriteNode, bind_eq_ok_iff]
  simp only [rewrite_eq_ok_iff, and_assoc, exists_and_left]

end RuleList

end InterviewFlow
