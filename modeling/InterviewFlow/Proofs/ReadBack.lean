import InterviewFlow.Compiler
import InterviewFlow.Proofs.DocumentText
import InterviewFlow.Proofs.NestingBound

/-! Compiled nodes and their JSON. The reader of documents and the reader of nodes stop at
the same nesting, but the output may be nested deeper than its document: conditionals
that stand in no list gain a level each. -/

set_option autoImplicit false

namespace InterviewFlow

/-! ## Conditionals that stand in no list -/

/-- Conditionals, each on its own in the branch of the one around it. -/
def Tree.loneConditionals : Nat → Tree
  | 0 => .group [("next_node_rules", .leaf "")]
  | count + 1 => .group [("conditional", .group
      [("predicate", .group [("otherwise_predicate", .leaf "")]),
        ("true_case", loneConditionals count)])]

def Element.loneConditionals : Nat → Element
  | 0 => .routing []
  | count + 1 => .conditional .otherwise [loneConditionals count] []

namespace Tree

theorem depth_loneConditionals (count : Nat) : (loneConditionals count).depth = 2 * count + 2 := by
  induction count with
  | zero => rfl
  | succ count ih =>
      simp only [loneConditionals, depth, depthOfEntries, ih]
      omega

theorem not_denotesText_tagged {tag text : String} {inner : Tree} (notValue : tag ≠ "set_value")
    (notArgument : tag ≠ "function_argument") : ¬ DenotesText (group [(tag, inner)]) text := by
  intro denotes
  cases denotes with
  | setValue _ => exact notValue rfl
  | functionArgument _ => exact notArgument rfl

theorem denotesList_loneConditionals {count : Nat}
    (denotes : (loneConditionals count).DenotesElement (.loneConditionals count)) :
    DenotesList DenotesElement (loneConditionals count) [.loneConditionals count] := by
  apply DenotesList.single _ denotes
  cases count with
  | zero => exact not_denotesText_tagged (by decide) (by decide)
  | succ count => exact not_denotesText_tagged (by decide) (by decide)

theorem denotes_loneConditionals (count : Nat) :
    (loneConditionals count).DenotesElement (.loneConditionals count) := by
  induction count with
  | zero => exact .routing (.empty .leaf)
  | succ count ih =>
      exact .trueCase (.refl _) (.otherwise .leaf) (denotesList_loneConditionals ih)

end Tree

theorem Element.nesting_loneConditionals (count : Nat) :
    (loneConditionals count).toJson.nesting = 3 * count + 3 := by
  induction count with
  | zero => rfl
  | succ count ih =>
      simp only [loneConditionals, nesting_conditional, Predicate.nesting_otherwise, List.map_cons,
        List.map_nil, Json.nestingOfItems, ih]
      omega

namespace Compiler

theorem compile_eq_ok_iff {name source : String} {node : Node} :
    standard.compile name source = .ok node ↔ ∃ tree, Document.read source = .ok tree ∧
      tree.depth ≤ Registry.defaultDepthLimit ∧ tree.DenotesNode name node := by
  constructor
  · intro compiled
    cases read : Document.read source with
    | error error => simp [compile, standard, read] at compiled
    | ok tree =>
        cases rewritten : Registry.flow.rewriteNode Registry.defaultDepthLimit ⟨name⟩ tree with
        | error error => simp [compile, standard, read, rewritten] at compiled
        | ok result =>
            have same : result = node := by
              simpa [compile, standard, read, rewritten] using compiled
            rw [same] at rewritten
            exact ⟨tree, rfl, Registry.rewriteNode_flow_iff.1 rewritten⟩
  · rintro ⟨tree, read, denotes⟩
    have rewritten := Registry.rewriteNode_flow_iff.2 denotes
    simp [compile, standard, read, rewritten]

/-- The document whose body is such a conditional. -/
def loneConditionals (count : Nat) : Tree :=
  .group [("body", .loneConditionals count)]

theorem depth_loneConditionals (count : Nat) : (loneConditionals count).depth = 2 * count + 3 := by
  simp only [loneConditionals, Tree.depth, Tree.depthOfEntries, Tree.depth_loneConditionals]
  omega

theorem read_loneConditionals {count : Nat} (shallow : count ≤ 62) :
    Document.read (loneConditionals count).toJson.pretty = .ok (loneConditionals count) := by
  apply Document.read_pretty
  · exact (Tree.denotes_loneConditionals count).distinctTags.tagged
  · apply Nat.le_trans (Tree.nesting_toJson_le _)
    rw [depth_loneConditionals, Json.nestingLimit]
    omega

theorem compile_loneConditionals {count : Nat} (shallow : count ≤ 62) :
    standard.compile "start" (loneConditionals count).toJson.pretty =
      .ok ⟨"start", [.loneConditionals count], .empty⟩ := by
  refine compile_eq_ok_iff.2 ⟨_, read_loneConditionals shallow, ?_, ?_⟩
  · rw [depth_loneConditionals, Registry.defaultDepthLimit]
    omega
  · exact .body (Tree.denotesList_loneConditionals (Tree.denotes_loneConditionals count))

/-! ## Reading the output -/

/-- A compiled node is read back from its pretty text exactly where that text nests no
deeper than JSON is read. A document of at most 84 levels always gives such a text. -/
theorem compiled_reads_back {name source : String} {node : Node}
    (compiled : standard.compile name source = .ok node) :
    (node.toJson.nesting ≤ 127 → Node.ofJsonText? node.toJson.pretty = some node) ∧
    (127 < node.toJson.nesting → Node.ofJsonText? node.toJson.pretty = none) ∧
    ∀ tree, Document.read source = .ok tree → tree.depth ≤ 84 →
      Node.ofJsonText? node.toJson.pretty = some node := by
  have back : node.toJson.nesting ≤ 127 → Node.ofJsonText? node.toJson.pretty = some node :=
    fun shallow => node.ofJsonText?_pretty.trans (if_pos shallow)
  refine ⟨back, ?_, ?_⟩
  · intro deep
    exact node.ofJsonText?_pretty.trans (if_neg (Nat.not_le_of_lt deep))
  · intro tree read levels
    obtain ⟨_, same, _, denotes⟩ := compile_eq_ok_iff.1 compiled
    rw [read] at same
    cases same
    have bound := denotes.nesting_le
    exact back (by omega)

/-- Forty such conditionals are still read back. -/
theorem compiled_reads_back_forty : ∃ node,
    standard.compile "start" (loneConditionals 40).toJson.pretty = .ok node ∧
      (loneConditionals 40).depth = 83 ∧ node.toJson.nesting = 125 ∧
      Node.ofJsonText? node.toJson.pretty = some node := by
  have compiled : standard.compile "start" (loneConditionals 40).toJson.pretty = _ :=
    compile_loneConditionals (by decide)
  refine ⟨_, compiled, depth_loneConditionals 40, ?_, ?_⟩
  · rw [Node.nesting_toJson]
    simp only [List.map_cons, List.map_nil, Json.nestingOfItems, Element.nesting_loneConditionals]
    rfl
  · apply (compiled_reads_back compiled).2.2 _ (read_loneConditionals (by decide))
    rw [depth_loneConditionals]
    decide

/-- One more is compiled to a node whose text is not read. -/
theorem not_read_back_forty_one : ∃ node,
    standard.compile "start" (loneConditionals 41).toJson.pretty = .ok node ∧
      (loneConditionals 41).depth = 85 ∧ Node.ofJsonText? node.toJson.pretty = none := by
  refine ⟨_, compile_loneConditionals (by decide), depth_loneConditionals 41, ?_⟩
  rw [Node.ofJsonText?_pretty, Node.nesting_toJson]
  simp only [List.map_cons, List.map_nil, Json.nestingOfItems, Element.nesting_loneConditionals]
  rfl

end Compiler

end InterviewFlow
