import InterviewFlow.Proofs.Conservation
import InterviewFlow.Proofs.Unseen

/-! Lone items. Where a list is read, a group by itself reads as the list of that group. An
empty text in a wrapper is the exception: it is unwrapped before the list is read, and then
no longer told from a list without items. -/

set_option autoImplicit false

namespace InterviewFlow

theorem forall₂_replaced {α : Type} {Related : α → α → Prop} (refl : ∀ item, Related item item)
    {before after : List α} {item other : α} (related : Related item other) :
    List.Forall₂ Related (before ++ item :: after) (before ++ other :: after) :=
  List.rel_append (List.forall₂_same.2 fun item _ => refl item)
    (.cons related (List.forall₂_same.2 fun item _ => refl item))

namespace Tree

/-! ## One place in a document -/

/-- The trees differ at one place that a list is read from, where the first has the old
tree and the second the new one. -/
inductive ReplacedInList (old new : Tree) : Tree → Tree → Prop where
  | here {tag : String} {before after : List (String × Tree)} : tag ∈ listTags →
      ReplacedInList old new (.group (before ++ (tag, old) :: after))
        (.group (before ++ (tag, new) :: after))
  | entry {tag : String} {tree other : Tree} {before after : List (String × Tree)} :
      ReplacedInList old new tree other →
      ReplacedInList old new (.group (before ++ (tag, tree) :: after))
        (.group (before ++ (tag, other) :: after))
  | item {tree other : Tree} {before after : List Tree} :
      ReplacedInList old new tree other →
      ReplacedInList old new (.sequence (before ++ tree :: after))
        (.sequence (before ++ other :: after))

variable {old new : Tree}

theorem ReplacedInList.tagged {tag : String} {tree other : Tree}
    (replaced : ReplacedInList old new tree other) :
    ReplacedInList old new (.group [(tag, tree)]) (.group [(tag, other)]) :=
  @entry old new tag tree other [] [] replaced

theorem ReplacedInList.symm {tree other : Tree} (replaced : ReplacedInList old new tree other) :
    ReplacedInList new old other tree := by
  induction replaced with
  | here listed => exact .here listed
  | entry _ ih => exact .entry ih
  | item _ ih => exact .item ih

section

variable {Same : Tree → Tree → Prop} (refl : ∀ tree, Same tree tree)
  (one : ∀ {tree other}, ReplacedInList old new tree other → Same tree other)

include refl one

theorem ReplacedInList.sequence_inv {items : List Tree} {other : Tree}
    (replaced : ReplacedInList old new (.sequence items) other) :
    ∃ others, other = .sequence others ∧ List.Forall₂ Same items others := by
  cases replaced with
  | item below => exact ⟨_, rfl, forall₂_replaced refl (one below)⟩

theorem ReplacedInList.group_inv (lists : old.ListsInto new) {entries : List (String × Tree)}
    {other : Tree} (replaced : ReplacedInList old new (.group entries) other) :
    ∃ others, other = .group others ∧ AlikeEntries Same entries others := by
  have equal : ∀ entry : String × Tree,
      entry.1 = entry.1 ∧ AlikeUnder Same entry.1 entry.2 entry.2 :=
    fun entry => ⟨rfl, .inl (refl entry.2)⟩
  cases replaced with
  | here listed => exact ⟨_, rfl, forall₂_replaced equal ⟨rfl, .inr ⟨listed, lists⟩⟩⟩
  | entry below => exact ⟨_, rfl, forall₂_replaced equal ⟨rfl, .inl (one below)⟩⟩

end

/-- The trees are equal, or one is the other with a list exchanged. -/
def Exchanges (old new tree other : Tree) : Prop :=
  tree = other ∨ ReplacedInList old new tree other ∨ ReplacedInList new old tree other

theorem Exchanges.group_inv (forth : old.ListsInto new) (back : new.ListsInto old)
    {entries : List (String × Tree)} {other : Tree} (same : Exchanges old new (.group entries) other) :
    ∃ others, other = .group others ∧ AlikeEntries (Exchanges old new) entries others := by
  rcases same with rfl | replaced | replaced
  · exact ⟨entries, rfl, List.forall₂_same.2 fun _ _ => ⟨rfl, .inl (.inl rfl)⟩⟩
  · exact replaced.group_inv (fun _ => .inl rfl) (fun below => .inr (.inl below)) forth
  · exact replaced.group_inv (fun _ => .inl rfl) (fun below => .inr (.inr below)) back

/-- Lists that each list the items of the other are exchanged unseen. -/
theorem unseen_exchanges (forth : old.ListsInto new) (back : new.ListsInto old) :
    Unseen (Exchanges old new) where
  symm same := by
    rcases same with rfl | replaced | replaced
    · exact .inl rfl
    · exact .inr (.inr replaced.symm)
    · exact .inr (.inl replaced.symm)
  leaf_inv same := by
    rcases same with same | replaced | replaced
    · exact same.symm
    · cases replaced
    · cases replaced
  sequence_inv same := by
    rcases same with rfl | replaced | replaced
    · exact ⟨_, rfl, List.forall₂_same.2 fun _ _ => .inl rfl⟩
    · exact replaced.sequence_inv (fun _ => .inl rfl) fun below => .inr (.inl below)
    · exact replaced.sequence_inv (fun _ => .inl rfl) fun below => .inr (.inr below)
  group_inv same := by
    obtain ⟨others, rfl, alike⟩ := Exchanges.group_inv forth back same
    refine ⟨others, rfl, fun listed order => ?_⟩
    obtain ⟨relisted, listedAlike, reorder⟩ := List.perm_comp_forall₂ order.symm alike
    exact ⟨relisted, reorder.symm, listedAlike⟩

/-! ## Groups as lists -/

theorem listsInto_singleton {entries : List (String × Tree)}
    (full : ¬ (group entries).DenotesText "") :
    (group entries).ListsInto (.sequence [.group entries]) := by
  intro α Item refuses items denotes
  cases denotes with
  | empty text => exact absurd text full
  | single _ item => exact .sequence (.cons item .nil)

theorem singleton_listsInto {tree : Tree} (full : ¬ tree.DenotesText "") :
    (sequence [tree]).ListsInto tree := by
  intro α Item refuses items denotes
  cases denotes with
  | empty text => cases text
  | single _ item => exact absurd item (refuses _ _)
  | sequence related =>
      cases related with
      | cons item rest =>
          cases rest
          exact .single full item

theorem listsInto_nil {tree : Tree} (empty : tree.DenotesText "") :
    tree.ListsInto (.sequence []) := by
  intro α Item refuses items denotes
  cases denotes with
  | empty _ => exact .sequence .nil
  | single full _ => exact absurd empty full
  | sequence _ => cases empty

theorem nil_listsInto {tree : Tree} (empty : tree.DenotesText "") :
    (sequence []).ListsInto tree := by
  intro α Item refuses items denotes
  cases denotes with
  | empty text => cases text
  | single _ item => exact absurd item (refuses _ _)
  | sequence related =>
      cases related
      exact .empty empty

end Tree

theorem Registry.rewriteNode_exchanges {old new : Tree} (forth : old.ListsInto new)
    (back : new.ListsInto old) {tree other : Tree} (replaced : old.ReplacedInList new tree other)
    {limit : Nat} (fits : tree.depth ≤ limit) (otherFits : other.depth ≤ limit)
    (context : Context) (node : Node) :
    flow.rewriteNode limit context tree = .ok node ↔
      flow.rewriteNode limit context other = .ok node := by
  have unseen := Tree.unseen_exchanges forth back
  rw [rewriteNode_flow_iff, rewriteNode_flow_iff, and_iff_right fits, and_iff_right otherFits]
  constructor
  · exact fun denotes => denotes.carried unseen (.inr (.inl replaced))
  · exact fun denotes => denotes.carried unseen (.inr (.inr replaced.symm))

/-! ## Arguments and set values -/

namespace Tree

def argument (text : String) : Tree :=
  .group [("function_argument", .leaf text)]

def setValue (text : String) : Tree :=
  .group [("set_value", .leaf text)]

def application (name : String) (arguments : Tree) : Tree :=
  .group [("function_predicate", .group [("name", .leaf name), ("arguments", arguments)])]

def membership (varname : String) (values : Tree) : Tree :=
  .group [("set_membership_predicate", .group [("varname", .leaf varname), ("values", values)])]

end Tree

theorem Tree.denotesList_of_text {tree : Tree} {text : String} (denotes : tree.DenotesText text) :
    tree.DenotesList DenotesText (if text = "" then [] else [text]) := by
  by_cases empty : text = ""
  · rw [if_pos empty]
    exact .empty (empty ▸ denotes)
  · rw [if_neg empty]
    refine .single (fun other => empty ?_) denotes
    exact Option.some.inj (denotes.text?_eq.symm.trans other.text?_eq)

namespace Registry

theorem rewrite_application {arguments : Tree} {texts : List String}
    (lists : arguments.DenotesList Tree.DenotesText texts) (name : String) {limit : Nat}
    (context : Context) (fits : (Tree.application name arguments).depth ≤ limit) :
    flow.rewrite limit context (.application name arguments) =
      .ok (FlowRules.ofPredicate (.function name texts)) :=
  RuleList.rewrite_eq_ok_iff.2 ⟨fits, FlowRules.evaluates_of_denotesPredicate
    FlowRules.extendedBy_all (.application (.refl _) .leaf lists)⟩

theorem rewrite_membership {values : Tree} {texts : List String}
    (lists : values.DenotesList Tree.DenotesText texts) (varname : String) {limit : Nat}
    (context : Context) (fits : (Tree.membership varname values).depth ≤ limit) :
    flow.rewrite limit context (.membership varname values) =
      .ok (FlowRules.ofPredicate (.membership varname (.ofList texts))) :=
  RuleList.rewrite_eq_ok_iff.2 ⟨fits, FlowRules.evaluates_of_denotesPredicate
    FlowRules.extendedBy_all
    (.membership (.refl _) .leaf lists (OrderedSet.collects_ofList texts))⟩

/-- A group in the place of a list compiles as the list of that group does, unless it is an
empty text in wrappers: then it compiles as the empty list does. So a wrapped argument or set
value by itself is lost if its text is empty, which in a list it is not. -/
theorem lone_items_compile {limit : Nat} {context : Context} :
    (∀ entries tree listed,
      Tree.ReplacedInList (.group entries) (.sequence [.group entries]) tree listed →
      tree.depth ≤ limit → listed.depth ≤ limit → ¬ (Tree.group entries).DenotesText "" →
      ∀ node, flow.rewriteNode limit context tree = .ok node ↔
        flow.rewriteNode limit context listed = .ok node) ∧
    (∀ entries tree emptied,
      Tree.ReplacedInList (.group entries) (.sequence []) tree emptied →
      tree.depth ≤ limit → emptied.depth ≤ limit → (Tree.group entries).DenotesText "" →
      ∀ node, flow.rewriteNode limit context tree = .ok node ↔
        flow.rewriteNode limit context emptied = .ok node) ∧
    ∀ name text, 5 ≤ limit →
      (flow.rewrite limit context (.application name (.argument text)) =
          .ok (FlowRules.ofPredicate (.function name (if text = "" then [] else [text]))) ∧
        flow.rewrite limit context (.application name (.sequence [.argument text])) =
          .ok (FlowRules.ofPredicate (.function name [text]))) ∧
      flow.rewrite limit context (.membership name (.setValue text)) =
          .ok (FlowRules.ofPredicate
            (.membership name (.ofList (if text = "" then [] else [text])))) ∧
        flow.rewrite limit context (.membership name (.sequence [.setValue text])) =
          .ok (FlowRules.ofPredicate (.membership name (.ofList [text]))) := by
  refine ⟨?_, ?_, ?_⟩
  · intro entries tree listed replaced fits listedFits full node
    exact rewriteNode_exchanges (Tree.listsInto_singleton full) (Tree.singleton_listsInto full)
      replaced fits listedFits context node
  · intro entries tree emptied replaced fits emptiedFits empty node
    exact rewriteNode_exchanges (Tree.listsInto_nil empty) (Tree.nil_listsInto empty)
      replaced fits emptiedFits context node
  · intro name text enough
    have argument : (Tree.argument text).DenotesText text := .functionArgument .leaf
    have setValue : (Tree.setValue text).DenotesText text := .setValue .leaf
    have lone : 4 ≤ limit := Nat.le_of_succ_le enough
    exact ⟨⟨rewrite_application (Tree.denotesList_of_text argument) name context lone,
        rewrite_application (.sequence (.cons argument .nil)) name context enough⟩,
      rewrite_membership (Tree.denotesList_of_text setValue) name context lone,
      rewrite_membership (.sequence (.cons setValue .nil)) name context enough⟩

/-- A heading alone in a body, an empty text there, and an argument. -/
theorem lone_items_compile_heading :
    let heading : Tree := .group [("h1", .leaf "Start")]
    let document (body : Tree) : Tree := .group [("body", body)]
    (∀ node, flow.rewriteNode 5 ⟨"start"⟩ (document heading) = .ok node ↔
      flow.rewriteNode 5 ⟨"start"⟩ (document (.sequence [heading])) = .ok node) ∧
    (∀ node, flow.rewriteNode 5 ⟨"start"⟩ (document (.setValue "")) = .ok node ↔
      flow.rewriteNode 5 ⟨"start"⟩ (document (.sequence [])) = .ok node) ∧
    flow.rewrite 5 ⟨"start"⟩ (.application "f" (.argument "x")) =
      .ok (FlowRules.ofPredicate (.function "f" ["x"])) := by
  intro heading document
  have replaced : ∀ old new : Tree, old.ReplacedInList new (document old) (document new) :=
    fun old new => @Tree.ReplacedInList.here old new "body" [] [] (by decide)
  have notText : ¬ heading.DenotesText "" := fun denotes => absurd denotes.text?_eq (by decide)
  obtain ⟨full, empty, texts⟩ := @lone_items_compile 5 ⟨"start"⟩
  exact ⟨full _ _ _ (replaced heading _) (by decide) (by decide) notText,
    empty _ _ _ (replaced (.setValue "") _) (by decide) (by decide) (.setValue .leaf),
    (texts "f" "x" (by decide)).1.1⟩

/-- A wrapped empty argument is lost by itself and kept in a list. -/
theorem lone_empty_argument_lost :
    let document (arguments : Tree) : Tree := .group [("body",
      .group [("conditional", .group [("predicate", .application "f" arguments)])])]
    let node (arguments : List String) : Node :=
      ⟨"start", [.conditional (.function "f" arguments) [] []], .empty⟩
    Tree.ReplacedInList (.argument "") (.sequence [.argument ""]) (document (.argument ""))
      (document (.sequence [.argument ""])) ∧
    flow.rewriteNode 8 ⟨"start"⟩ (document (.argument "")) = .ok (node []) ∧
    flow.rewriteNode 8 ⟨"start"⟩ (document (.sequence [.argument ""])) = .ok (node [""]) ∧
    flow.rewriteNode 8 ⟨"start"⟩ (document (.argument "")) ≠
      flow.rewriteNode 8 ⟨"start"⟩ (document (.sequence [.argument ""])) := by
  intro document node
  have lone : flow.rewriteNode 8 ⟨"start"⟩ (document (.argument "")) = .ok (node []) := rfl
  have listed : flow.rewriteNode 8 ⟨"start"⟩ (document (.sequence [.argument ""])) =
      .ok (node [""]) := rfl
  refine ⟨.tagged (.tagged (.tagged (.tagged ?_))), lone, listed, ?_⟩
  · exact @Tree.ReplacedInList.here _ _ "arguments" [("name", .leaf "f")] [] (by decide)
  · rw [lone, listed]
    simp [node]

end Registry

end InterviewFlow
