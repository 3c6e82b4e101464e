import InterviewFlow.Proofs.Productions

/-! The name a document is compiled under. It goes into the nodes that are built and
nowhere else: matching, conversions and diagnostics pass it by. Rewriting under another
name therefore gives the same value with its nodes renamed, or the same error. -/

set_option autoImplicit false

namespace InterviewFlow

/-! ## Values under another name -/

def Node.renamed (name : String) (node : Node) : Node :=
  { node with name }

def Built.renamed (name : String) : Built → Built
  | .node whole => .node (whole.renamed name)
  | other => other

theorem Built.kindName_renamed (name : String) (object : Built) :
    (object.renamed name).kindName = object.kindName := by
  cases object <;> rfl

namespace Value

mutual

/-- A value with all nodes in it under another name. -/
def renamed (name : String) : Value → Value
  | .leaf text => .leaf text
  | .sequence items => .sequence (renamedItems name items)
  | .group entries => .group (renamedEntries name entries)
  | .built object => .built (object.renamed name)

def renamedItems (name : String) : List Value → List Value
  | [] => []
  | item :: rest => item.renamed name :: renamedItems name rest

def renamedEntries (name : String) : List (String × Value) → List (String × Value)
  | [] => []
  | (tag, value) :: rest => (tag, value.renamed name) :: renamedEntries name rest

end

variable {name : String}

theorem renamedItems_eq_map (items : List Value) :
    renamedItems name items = items.map (renamed name) := by
  induction items with
  | nil => rfl
  | cons item rest ih => rw [renamedItems, ih, List.map_cons]

theorem renamedEntries_eq_map (entries : List (String × Value)) :
    renamedEntries name entries = entries.map fun entry => (entry.1, entry.2.renamed name) := by
  induction entries with
  | nil => rfl
  | cons entry rest ih => rw [renamedEntries, ih, List.map_cons]

theorem length_renamedEntries (entries : List (String × Value)) :
    (renamedEntries name entries).length = entries.length := by
  rw [renamedEntries_eq_map, List.length_map]

theorem get?_renamedEntries (tag : String) (entries : List (String × Value)) :
    Entries.get? tag (renamedEntries name entries) =
      (Entries.get? tag entries).map (renamed name) := by
  induction entries with
  | nil => rfl
  | cons entry rest ih =>
      obtain ⟨head, value⟩ := entry
      by_cases same : head = tag
      · simp only [renamedEntries, Entries.get?, same, ↓reduceIte, Option.map_some]
      · simp only [renamedEntries, Entries.get?, same, ↓reduceIte, ih]

/-! ## Diagnostics and conversions -/

mutual

/-- Diagnostics show a node as its kind only. -/
theorem describe_renamed : ∀ value : Value, (value.renamed name).describe = value.describe
  | .leaf _ => rfl
  | .sequence items => by rw [renamed, describe, describe, describeItems_renamed items]
  | .group entries => by rw [renamed, describe, describe, describeEntries_renamed entries]
  | .built object => by rw [renamed, describe, describe, object.kindName_renamed]

theorem describeItems_renamed :
    ∀ items : List Value, describeItems (renamedItems name items) = describeItems items
  | [] => rfl
  | item :: rest => by
      rw [renamedItems, describeItems, describeItems, describe_renamed item,
        describeItems_renamed rest]

theorem describeEntries_renamed : ∀ entries : List (String × Value),
    describeEntries (renamedEntries name entries) = describeEntries entries
  | [] => rfl
  | (tag, value) :: rest => by
      rw [renamedEntries, describeEntries, describeEntries, describe_renamed value,
        describeEntries_renamed rest]

end

theorem mismatch_renamed {α : Type} (expected : Expectation) (value : Value) :
    (mismatch expected (value.renamed name) : Except TransformError α) =
      mismatch expected value := by
  rw [mismatch, mismatch, describe_renamed]

/-- The conversion does not look at the names of nodes. -/
def IgnoresNames {α : Type} (conversion : Value → Except TransformError α) : Prop :=
  ∀ name value, conversion (value.renamed name) = conversion value

/-- A conversion that refuses sequences and groups ignores names if it does on objects. -/
theorem ignoresNames_of_objects {α : Type} {conversion : Value → Except TransformError α}
    (expected : Expectation)
    (sequence : ∀ items, conversion (.sequence items) = mismatch expected (.sequence items))
    (group : ∀ entries, conversion (.group entries) = mismatch expected (.group entries))
    (built : ∀ name object,
      conversion (.built (object.renamed name)) = conversion (.built object)) :
    IgnoresNames conversion := by
  intro name value
  cases value with
  | leaf text => rfl
  | sequence items =>
      rw [sequence, ← mismatch_renamed expected _, renamed]
      exact sequence _
  | group entries =>
      rw [group, ← mismatch_renamed expected _, renamed]
      exact group _
  | built object => exact built name object

theorem ignoresNames_text : IgnoresNames toText :=
  ignoresNames_of_objects .leaf (fun _ => rfl) (fun _ => rfl)
    fun _ object => mismatch_renamed .leaf (.built object)

theorem ignoresNames_predicate : IgnoresNames toPredicate :=
  ignoresNames_of_objects .predicate (fun _ => rfl) (fun _ => rfl)
    fun _ object => by cases object <;> rfl

theorem ignoresNames_element : IgnoresNames toElement :=
  ignoresNames_of_objects .element (fun _ => rfl) (fun _ => rfl)
    fun _ object => by cases object <;> rfl

theorem ignoresNames_routingRule : IgnoresNames toRoutingRule :=
  ignoresNames_of_objects .routingRule (fun _ => rfl) (fun _ => rfl)
    fun _ object => by cases object <;> rfl

theorem ignoresNames_pair : IgnoresNames toPair :=
  ignoresNames_of_objects .pair (fun _ => rfl) (fun _ => rfl)
    fun _ object => by cases object <;> rfl

theorem toItems_renamed (value : Value) :
    (value.renamed name).toItems = value.toItems.map (renamed name) := by
  cases value with
  | leaf text =>
      simp only [renamed, toItems]
      split <;> rfl
  | sequence items => exact renamedItems_eq_map items
  | group entries => rfl
  | built object => rfl

theorem IgnoresNames.items {α : Type} {conversion : Value → Except TransformError α}
    (ignores : IgnoresNames conversion) :
    IgnoresNames fun value => value.toItems.mapM conversion := by
  intro name value
  dsimp only
  rw [toItems_renamed, List.mapM_map]
  exact RuleList.mapM_congr_of_mem fun item _ => ignores name item

theorem toNode_several (name : String) (item next : Value) (rest : List Value) :
    toNode name (.sequence (item :: next :: rest)) =
      mismatch .node (.sequence (item :: next :: rest)) := by
  rcases item with _ | _ | _ | (_ | _ | _ | _ | _ | _) <;> rfl

/-- A whole document takes the name it is compiled under. -/
theorem toNode_renamed (first second : String) (value : Value) :
    (value.renamed second).toNode second = (value.toNode first).map (Node.renamed second) := by
  have other : ∀ value : Value, (value.renamed second).mismatch .node =
      ((value.mismatch .node : Except TransformError Node)).map (Node.renamed second) :=
    fun value => mismatch_renamed .node value
  cases value with
  | leaf text => rfl
  | group entries => exact other (.group entries)
  | built object => cases object <;> rfl
  | sequence items =>
      match items with
      | [] => rfl
      | [.leaf text] => rfl
      | [.sequence inner] => exact other (.sequence [.sequence inner])
      | [.group entries] => exact other (.sequence [.group entries])
      | [.built object] => cases object <;> rfl
      | item :: next :: rest =>
          rw [toNode_several, renamed, renamedItems, renamedItems, toNode_several]
          exact other (.sequence (item :: next :: rest))

end Value

/-! ## Matching -/

namespace Entries

variable {name : String}

theorem renamedEntries_erase (tag : String) (entries : List (String × Value)) :
    Value.renamedEntries name (erase tag entries) =
      erase tag (Value.renamedEntries name entries) := by
  rw [Value.renamedEntries_eq_map, Value.renamedEntries_eq_map, erase, erase, List.filter_map]
  rfl

theorem renamedEntries_putSorted (tag : String) (value : Value)
    (entries : List (String × Value)) :
    Value.renamedEntries name (putSorted tag value entries) =
      putSorted tag (value.renamed name) (Value.renamedEntries name entries) := by
  induction entries with
  | nil => rfl
  | cons entry rest ih =>
      obtain ⟨head, old⟩ := entry
      simp only [putSorted, Value.renamedEntries]
      split
      · rfl
      · split
        · rw [Value.renamedEntries, ih]
        · rfl

theorem Ascending.renamed {entries : List (String × Value)} (ascending : Ascending entries) :
    Ascending (Value.renamedEntries name entries) := by
  rw [Value.renamedEntries_eq_map]
  exact List.pairwise_map.2 ascending

end Entries

namespace Captures

def renamed (name : String) (captures : Captures) : Captures :=
  ⟨⟨Value.renamedEntries name captures.slots.entries, captures.slots.ascending.renamed⟩⟩

variable {name : String}

theorem get?_renamed (captures : Captures) (slot : String) :
    (captures.renamed name).get? slot = (captures.get? slot).map (Value.renamed name) :=
  Value.get?_renamedEntries slot captures.slots.entries

theorem bind_renamed (captures : Captures) (slot : String) (value : Value) :
    (captures.bind slot value).renamed name =
      (captures.renamed name).bind slot (value.renamed name) :=
  congrArg Captures.mk
    (SortedMap.ext (Entries.renamedEntries_putSorted slot value captures.slots.entries))

theorem erase_renamed (captures : Captures) (slot : String) :
    (captures.erase slot).renamed name = (captures.renamed name).erase slot :=
  congrArg Captures.mk (SortedMap.ext (Entries.renamedEntries_erase slot captures.slots.entries))

end Captures

namespace Pattern

variable {name : String}

theorem captureAll_renamed {templates : List (String × Pattern)}
    (each : ∀ template ∈ templates, ∀ captures value,
      capture (captures.renamed name) template.2 (value.renamed name) =
        (capture captures template.2 value).map (Captures.renamed name))
    (captures : Captures) (entries : List (String × Value)) :
    captureAll (captures.renamed name) templates (Value.renamedEntries name entries) =
      (captureAll captures templates entries).map (Captures.renamed name) := by
  induction templates generalizing captures with
  | nil => rfl
  | cons template rest ih =>
      obtain ⟨tag, pattern⟩ := template
      obtain ⟨first, others⟩ := List.forall_mem_cons.1 each
      rw [captureAll, captureAll, Value.get?_renamedEntries]
      cases Entries.get? tag entries with
      | none => rfl
      | some value =>
          simp only [Option.map_some, first captures value]
          cases capture captures pattern value with
          | none => rfl
          | some extended => exact ih others extended

theorem capture_renamed (pattern : Pattern) (captures : Captures) (value : Value) :
    pattern.capture (captures.renamed name) (value.renamed name) =
      (pattern.capture captures value).map (Captures.renamed name) := by
  induction pattern using entryInduction generalizing captures value with
  | simple slot =>
      cases value with
      | leaf text => exact congrArg some (captures.bind_renamed slot (.leaf text)).symm
      | sequence items => rfl
      | group entries => rfl
      | built object => rfl
  | subtree slot => exact congrArg some (captures.bind_renamed slot value).symm
  | group templates ih =>
      cases value with
      | leaf text => rfl
      | sequence items => rfl
      | built object => rfl
      | group entries =>
          rw [Value.renamed, capture, capture, Value.length_renamedEntries]
          split
          · exact captureAll_renamed ih captures entries
          · rfl

theorem match?_renamed (pattern : Pattern) (value : Value) :
    pattern.match? (value.renamed name) =
      (pattern.match? value).map (Captures.renamed name) :=
  pattern.capture_renamed .empty value

end Pattern

theorem RuleList.firstMatch?_renamed {name : String} (rules : RuleList) (value : Value) :
    rules.firstMatch? (value.renamed name) =
      (rules.firstMatch? value).map fun found => (found.1, found.2.renamed name) := by
  induction rules with
  | nil => rfl
  | cons rule rest ih =>
      rw [firstMatch?_cons, firstMatch?_cons, rule.pattern.match?_renamed]
      cases rule.pattern.match? value with
      | none => exact ih
      | some captures => rfl

/-! ## Building -/

/-- On renamed captures the right computation answers what the left one answers on the
captures themselves, renamed, and fails where that one fails. -/
def Consume.Follows (name : String) (left right : Consume Value) : Prop :=
  ∀ captures, right.result (captures.renamed name) =
    (left.result captures).map (Value.renamed name)

namespace Consume

variable {name : String}

theorem Follows.pure {left right : Value} (same : right = left.renamed name) :
    Follows name (Pure.pure left) (Pure.pure right) :=
  fun _ => congrArg Except.ok same

theorem Follows.outcome {α : Type} {outcome : Except TransformError α}
    {left right : α → Consume Value} (follows : ∀ value, Follows name (left value) (right value)) :
    Follows name ((ExceptT.mk (Pure.pure outcome) : Consume α) >>= left)
      ((ExceptT.mk (Pure.pure outcome) : Consume α) >>= right) := by
  intro captures
  rw [result_outcome_bind, result_outcome_bind]
  cases outcome with
  | error error => rfl
  | ok value => exact follows value captures

theorem Follows.convert {α : Type} {slot : String}
    {conversion : Value → Except TransformError α} (ignores : Value.IgnoresNames conversion)
    {left right : α → Consume Value} (follows : ∀ value, Follows name (left value) (right value)) :
    Follows name (Consume.convert slot conversion >>= left)
      (Consume.convert slot conversion >>= right) := by
  intro captures
  rw [result_convert_bind, result_convert_bind, captures.get?_renamed]
  cases captures.get? slot with
  | none => rfl
  | some value =>
      simp only [Option.map_some, ignores name value]
      cases conversion value with
      | error error => rfl
      | ok converted =>
          rw [Except.ok_bind, Except.ok_bind, ← captures.erase_renamed]
          exact follows converted (captures.erase slot)

end Consume

/-- The name in the context goes into built nodes only. -/
def RewriteRule.NamesNodesOnly (rule : RewriteRule) : Prop :=
  ∀ first second captures, rule.build ⟨second⟩ (captures.renamed second) =
    (rule.build ⟨first⟩ captures).map (Value.renamed second)

open Consume in
theorem FlowRules.namesNodesOnly_all : ∀ rule ∈ all, rule.NamesNodesOnly := by
  -- Every builder is a chain of conversions and ends in an object, a text or a list.
  have chain : ∀ (name : String) (pattern : Pattern) (consume : Context → Consume Value),
      (∀ first second, Follows second (consume ⟨first⟩) (consume ⟨second⟩)) →
      (⟨name, pattern, .ofConsume consume⟩ : RewriteRule).NamesNodesOnly :=
    fun _ _ _ follows first second => follows first second
  simp only [all, List.forall_mem_cons, List.not_mem_nil, IsEmpty.forall_iff, implies_true,
    and_true]
  repeat' apply And.intro
  all_goals refine chain _ _ _ fun first second => ?_
  any_goals simp only [text_eq, texts_eq, pairs_eq, predicate_eq, predicates_eq, elements_eq,
    routingRules_eq]
  all_goals with_reducible repeat' first
    | refine Follows.convert ?_ fun _ => ?_
    | refine Follows.outcome fun _ => ?_
  all_goals first
    | exact Follows.pure rfl
    | exact Value.ignoresNames_text
    | exact Value.ignoresNames_predicate
    | exact Value.ignoresNames_text.items
    | exact Value.ignoresNames_pair.items
    | exact Value.ignoresNames_predicate.items
    | exact Value.ignoresNames_element.items
    | exact Value.ignoresNames_routingRule.items

/-! ## Rewriting -/

/-- Steps that give what others give, converted, do so over a list as well. -/
theorem mapM_eq_map {ε α β γ : Type} {items : List α} {left : α → Except ε β}
    {right : α → Except ε γ} {f : β → γ} (each : ∀ item, right item = (left item).map f) :
    items.mapM right = (items.mapM left).map (List.map f) := by
  induction items with
  | nil => rfl
  | cons item rest ih =>
      rw [List.mapM_cons, List.mapM_cons, each, ih]
      cases left item with
      | error error => rfl
      | ok value => cases rest.mapM left <;> rfl

namespace RuleList

variable {rules : RuleList}

theorem replace_renamed (named : ∀ rule ∈ rules, rule.NamesNodesOnly) (first second : String)
    (value : Value) : rules.replace ⟨second⟩ (value.renamed second) =
      (rules.replace ⟨first⟩ value).map (Value.renamed second) := by
  rw [replace, replace, rules.firstMatch?_renamed]
  cases found : rules.firstMatch? value with
  | none => rfl
  | some match' =>
      obtain ⟨rule, captures⟩ := match'
      exact named rule (mem_of_firstMatch? found).1 first second captures

theorem rewriteWithin_renamed (named : ∀ rule ∈ rules, rule.NamesNodesOnly)
    (first second : String) (limit room : Nat) (tree : Tree) :
    rules.rewriteWithin limit ⟨second⟩ room tree =
      (rules.rewriteWithin limit ⟨first⟩ room tree).map (Value.renamed second) := by
  induction room generalizing tree with
  | zero => rw [rewriteWithin, rewriteWithin, Except.map]
  | succ room ih =>
      cases tree with
      | leaf text => simp only [rewriteWithin, Except.map, Value.renamed]
      | sequence items =>
          rw [rewriteWithin, rewriteWithin, mapM_eq_map ih]
          cases items.mapM (rules.rewriteWithin limit ⟨first⟩ room) with
          | error error => rfl
          | ok values =>
              have replaced := replace_renamed named first second (.sequence values)
              rw [Value.renamed, Value.renamedItems_eq_map] at replaced
              exact replaced
      | group entries =>
          have each : ∀ entry : String × Tree,
              (do let value ← rules.rewriteWithin limit ⟨second⟩ room entry.2
                  return (entry.1, value) : Except TransformError (String × Value)) =
              (do let value ← rules.rewriteWithin limit ⟨first⟩ room entry.2
                  return (entry.1, value) : Except TransformError (String × Value)).map
                fun entry => (entry.1, entry.2.renamed second) := by
            intro entry
            rw [ih]
            cases rules.rewriteWithin limit ⟨first⟩ room entry.2 <;> rfl
          rw [rewriteWithin, rewriteWithin, mapM_eq_map each]
          generalize entries.mapM (m := Except TransformError) _ = outcome
          cases outcome with
          | error error => rfl
          | ok values =>
              have replaced := replace_renamed named first second (.group values)
              rw [Value.renamed, Value.renamedEntries_eq_map] at replaced
              exact replaced

theorem rewriteNode_renamed (named : ∀ rule ∈ rules, rule.NamesNodesOnly)
    (first second : String) (limit : Nat) (tree : Tree) :
    rules.rewriteNode limit ⟨second⟩ tree =
      (rules.rewriteNode limit ⟨first⟩ tree).map (Node.renamed second) := by
  rw [rewriteNode, rewriteNode, rewrite, rewrite,
    rewriteWithin_renamed named first second limit limit tree]
  cases rules.rewriteWithin limit ⟨first⟩ limit tree with
  | error error => rfl
  | ok value => exact value.toNode_renamed first second

end RuleList

/-- A document compiles under one name exactly if it does under any other, to the same node
but for the name, which is the one it was given; and it fails with the same error. -/
theorem Registry.rewriteNode_flow_name_independent (limit : Nat) (tree : Tree)
    (first second : String) :
    (∀ node, flow.rewriteNode limit ⟨first⟩ tree = .ok node ↔
      node.name = first ∧ flow.rewriteNode limit ⟨second⟩ tree = .ok { node with name := second }) ∧
    ∀ error, flow.rewriteNode limit ⟨first⟩ tree = .error error ↔
      flow.rewriteNode limit ⟨second⟩ tree = .error error := by
  have renamed : ∀ first second, flow.rewriteNode limit ⟨second⟩ tree =
      (flow.rewriteNode limit ⟨first⟩ tree).map (Node.renamed second) :=
    fun first second =>
      RuleList.rewriteNode_renamed FlowRules.namesNodesOnly_all first second limit tree
  constructor
  · intro node
    constructor
    · intro compiled
      -- The name a node was given is the one it already has.
      have own := renamed first first
      rw [compiled] at own
      refine ⟨congrArg Node.name (Except.ok.inj own), ?_⟩
      rw [renamed first second, compiled]
      rfl
    · rintro ⟨rfl, compiled⟩
      rw [renamed second node.name, compiled]
      rfl
  · intro error
    constructor
    · intro failed
      rw [renamed first second, failed]
      rfl
    · intro failed
      rw [renamed second first, failed]
      rfl

end InterviewFlow
