import InterviewFlow.Proofs.Overlap
import InterviewFlow.Proofs.Precedence

/-! Validation is exact. A list of rules is accepted if no two patterns overlap and every
family runs from the most to the least specific rule; else the fault names the first thing
wrong, by the positions of the rules. The scan for a misplaced rule compares a rule with the
nearest one of its family before it only, and this is enough to order the whole family. -/

set_option autoImplicit false

namespace InterviewFlow

namespace RuleList

variable {rules : RuleList}

theorem pairwise_iff_positions {Related : RewriteRule → RewriteRule → Prop} :
    rules.Pairwise Related ↔ ∀ (i j : Nat) (earlier later : RewriteRule),
      i < j → rules[i]? = some earlier → rules[j]? = some later → Related earlier later := by
  rw [List.pairwise_iff_getElem]
  constructor
  · intro related i j earlier later before earlierFound laterFound
    obtain ⟨earlierInside, rfl⟩ := List.getElem?_eq_some_iff.1 earlierFound
    obtain ⟨laterInside, rfl⟩ := List.getElem?_eq_some_iff.1 laterFound
    exact related i j earlierInside laterInside before
  · intro related i j earlierInside laterInside before
    exact related i j _ _ before (List.getElem?_eq_getElem earlierInside)
      (List.getElem?_eq_getElem laterInside)

/-- A search by a test finds the first position that passes it. -/
theorem exists_least_of_find? {test : RewriteRule → Bool} {rule : RewriteRule}
    (scan : rules.find? test = some rule) : test rule = true ∧ ∃ k : Nat, rules[k]? = some rule ∧
      ∀ (k' : Nat) (other : RewriteRule), rules[k']? = some other → test other = true → k ≤ k' := by
  obtain ⟨passed, k, inside, rfl, failed⟩ := List.find?_eq_some_iff_getElem.1 scan
  refine ⟨passed, k, List.getElem?_eq_getElem inside, fun k' other there passes => ?_⟩
  obtain ⟨_, rfl⟩ := List.getElem?_eq_some_iff.1 there
  by_contra nearer
  have fails := failed k' (Nat.not_le.1 nearer)
  rw [passes] at fails
  cases fails

/-! ## Overlapping patterns -/

/-- The patterns at two positions overlap. -/
structure Ambiguity (rules : RuleList) (i j : Nat) (first second : RewriteRule) : Prop where
  apart : i ≠ j
  firstAt : rules[i]? = some first
  secondAt : rules[j]? = some second
  overlap : first.pattern.overlaps second.pattern = true

/-- No pair of such positions comes before this one in lexicographic order. -/
structure FirstAmbiguity (rules : RuleList) (i j : Nat) (first second : RewriteRule) : Prop
    extends Ambiguity rules i j first second where
  least : ∀ i' j' first' second', Ambiguity rules i' j' first' second' →
    i < i' ∨ i = i' ∧ j ≤ j'

def Unambiguous (rules : RuleList) : Prop :=
  ∀ i j first second, ¬ Ambiguity rules i j first second

theorem FirstAmbiguity.unique {i j i' j' : Nat} {first second first' second' : RewriteRule}
    (found : FirstAmbiguity rules i j first second)
    (other : FirstAmbiguity rules i' j' first' second') : first = first' ∧ second = second' := by
  have below := found.least _ _ _ _ other.toAmbiguity
  have above := other.least _ _ _ _ found.toAmbiguity
  obtain ⟨rfl, rfl⟩ : i = i' ∧ j = j' := by omega
  exact ⟨Option.some.inj (found.firstAt.symm.trans other.firstAt),
    Option.some.inj (found.secondAt.symm.trans other.secondAt)⟩

theorem Ambiguity.symm (distinct : rules.DistinctTags) {i j : Nat} {first second : RewriteRule}
    (found : Ambiguity rules i j first second) : Ambiguity rules j i second first where
  apart := found.apart.symm
  firstAt := found.secondAt
  secondAt := found.firstAt
  overlap := by
    rw [Pattern.overlaps_comm (distinct _ (List.mem_of_getElem? found.secondAt))
      (distinct _ (List.mem_of_getElem? found.firstAt)), found.overlap]

theorem unambiguous_iff (distinct : rules.DistinctTags) : rules.Unambiguous ↔
    rules.Pairwise fun earlier later => earlier.pattern.overlaps later.pattern = false := by
  rw [pairwise_iff_positions]
  constructor
  · intro unambiguous i j earlier later before earlierFound laterFound
    by_contra overlap
    exact unambiguous i j earlier later
      ⟨Nat.ne_of_lt before, earlierFound, laterFound, eq_true_of_ne_false overlap⟩
  · intro separate
    have ordered : ∀ i j first second, i < j → ¬ Ambiguity rules i j first second := by
      intro i j first second before found
      have apart := separate i j first second before found.firstAt found.secondAt
      exact absurd found.overlap (ne_true_of_eq_false apart)
    intro i j first second found
    obtain before | behind := Nat.lt_or_gt_of_ne found.apart
    · exact ordered i j first second before found
    · exact ordered j i second first behind (found.symm distinct)

theorem Ambiguity.of_cons {head : RewriteRule} {i j : Nat} {first second : RewriteRule}
    (found : Ambiguity (head :: rules) (i + 1) (j + 1) first second) :
    Ambiguity rules i j first second where
  apart := fun same => found.apart (congrArg (· + 1) same)
  firstAt := found.firstAt
  secondAt := found.secondAt
  overlap := found.overlap

theorem exists_of_firstAmbiguity? {fault : RegistryError}
    (found : rules.firstAmbiguity? = some fault) : ∃ i j first second, i < j ∧
      Ambiguity rules i j first second ∧ fault = .ambiguous first.name second.name ∧
      ∀ i' j' first' second', i' < j' → Ambiguity rules i' j' first' second' →
        i < i' ∨ i = i' ∧ j ≤ j' := by
  induction rules with
  | nil => cases found
  | cons head rest ih =>
      rw [firstAmbiguity?] at found
      cases scan : rest.find? fun later => head.pattern.overlaps later.pattern with
      | some later =>
          rw [scan] at found
          cases found
          obtain ⟨overlap, k, here, least⟩ := exists_least_of_find? scan
          refine ⟨0, k + 1, head, later, k.succ_pos, ⟨by simp, rfl, here, overlap⟩, rfl, ?_⟩
          intro i' j' first' second' ordered other
          cases i' with
          | succ i' => exact .inl i'.succ_pos
          | zero =>
              obtain ⟨j', rfl⟩ := Nat.exists_eq_add_one.2 ordered
              cases other.firstAt
              exact .inr ⟨rfl, Nat.succ_le_succ (least j' second' other.secondAt other.overlap)⟩
      | none =>
          rw [scan] at found
          obtain ⟨i, j, first, second, ordered, pair, same, least⟩ := ih found
          refine ⟨i + 1, j + 1, first, second, by omega,
            ⟨by omega, pair.firstAt, pair.secondAt, pair.overlap⟩, same, ?_⟩
          intro i' j' first' second' ordered' other
          obtain ⟨j', rfl⟩ := Nat.exists_eq_add_one.2 (Nat.zero_lt_of_lt ordered')
          cases i' with
          | succ i' =>
              have below := least i' j' first' second' (by omega) other.of_cons
              omega
          | zero =>
              cases other.firstAt
              have separate := List.find?_eq_none.1 scan second'
                (List.mem_of_getElem? other.secondAt)
              exact absurd other.overlap separate

theorem firstAmbiguity?_outcome (distinct : rules.DistinctTags) :
    (rules.firstAmbiguity? = none ∧ rules.Unambiguous) ∨
    ∃ i j first second, FirstAmbiguity rules i j first second ∧
      rules.firstAmbiguity? = some (.ambiguous first.name second.name) := by
  cases outcome : rules.firstAmbiguity? with
  | none => exact .inl ⟨rfl, (unambiguous_iff distinct).2 (firstAmbiguity?_eq_none_iff.1 outcome)⟩
  | some fault =>
      obtain ⟨i, j, first, second, ordered, found, rfl, least⟩ := exists_of_firstAmbiguity? outcome
      refine .inr ⟨i, j, first, second, ⟨found, ?_⟩, rfl⟩
      intro i' j' first' second' other
      obtain before | behind := Nat.lt_or_gt_of_ne other.apart
      · exact least i' j' first' second' before other
      · have swapped := least j' i' second' first' behind (other.symm distinct)
        omega

/-! ## Precedence within a family -/

/-- Of the rules before position `n`, the one at position `i` is the last of its family. -/
structure Nearest (rules : RuleList) (family : String) (n i : Nat) (rule : RewriteRule) :
    Prop where
  before : i < n
  found : rules[i]? = some rule
  ofFamily : rule.pattern.family? = some family
  last : ∀ k other, i < k → k < n → rules[k]? = some other →
    other.pattern.family? ≠ some family

/-- The rule at position `j` is more specific than the nearest one of its family before it. -/
structure Misplacement (rules : RuleList) (family : String) (i j : Nat)
    (earlier later : RewriteRule) : Prop where
  nearest : Nearest rules family j i earlier
  found : rules[j]? = some later
  ofFamily : later.pattern.family? = some family
  moreSpecific : earlier.pattern.specificity < later.pattern.specificity

/-- No rule before this one is misplaced. -/
structure FirstMisplacement (rules : RuleList) (family : String) (i j : Nat)
    (earlier later : RewriteRule) : Prop extends Misplacement rules family i j earlier later where
  least : ∀ family' i' j' earlier' later', Misplacement rules family' i' j' earlier' later' →
    j ≤ j'

theorem Nearest.unique {family : String} {n i i' : Nat} {rule rule' : RewriteRule}
    (nearest : Nearest rules family n i rule) (other : Nearest rules family n i' rule') :
    rule = rule' := by
  obtain apart | rfl | apart := Nat.lt_trichotomy i i'
  · exact absurd other.ofFamily (nearest.last i' rule' apart other.before other.found)
  · exact Option.some.inj (nearest.found.symm.trans other.found)
  · exact absurd nearest.ofFamily (other.last i rule apart nearest.before nearest.found)

theorem FirstMisplacement.unique {family family' : String} {i j i' j' : Nat}
    {earlier later earlier' later' : RewriteRule}
    (found : FirstMisplacement rules family i j earlier later)
    (other : FirstMisplacement rules family' i' j' earlier' later') :
    family = family' ∧ earlier = earlier' ∧ later = later' := by
  have below := found.least _ _ _ _ _ other.toMisplacement
  have above := other.least _ _ _ _ _ found.toMisplacement
  obtain rfl : j = j' := by omega
  obtain rfl : later = later' := Option.some.inj (found.found.symm.trans other.found)
  obtain rfl : family = family' := Option.some.inj (found.ofFamily.symm.trans other.ofFamily)
  exact ⟨rfl, found.nearest.unique other.nearest, rfl⟩

theorem nearest_succ_iff {family : String} {n i : Nat} {current rule : RewriteRule}
    (here : rules[n]? = some current) : Nearest rules family (n + 1) i rule ↔
      (current.pattern.family? = some family ∧ i = n ∧ rule = current) ∨
      (current.pattern.family? ≠ some family ∧ Nearest rules family n i rule) := by
  constructor
  · intro nearest
    obtain before | rfl := Nat.lt_succ_iff_lt_or_eq.1 nearest.before
    · refine .inr ⟨nearest.last n current before (by omega) here, before, nearest.found,
        nearest.ofFamily, fun k other after inside => ?_⟩
      exact nearest.last k other after (by omega)
    · obtain rfl : rule = current := Option.some.inj (nearest.found.symm.trans here)
      exact .inl ⟨nearest.ofFamily, rfl, rfl⟩
  · intro alternatives
    obtain ⟨ofFamily, rfl, rfl⟩ | ⟨foreign, nearest⟩ := alternatives
    · exact ⟨by omega, here, ofFamily, fun k _ after inside => by omega⟩
    · refine ⟨by have := nearest.before; omega, nearest.found, nearest.ofFamily, ?_⟩
      intro k other after inside found
      obtain before | rfl := Nat.lt_succ_iff_lt_or_eq.1 inside
      · exact nearest.last k other after before found
      · obtain rfl : other = current := Option.some.inj (found.symm.trans here)
        exact foreign

theorem exists_nearest {family : String} {n i : Nat} {rule : RewriteRule} (before : i < n)
    (inside : n ≤ rules.length) (found : rules[i]? = some rule)
    (ofFamily : rule.pattern.family? = some family) :
    ∃ k nearest, i ≤ k ∧ Nearest rules family n k nearest := by
  induction n with
  | zero => omega
  | succ n ih =>
      have here : rules[n]? = some rules[n] := List.getElem?_eq_getElem inside
      by_cases same : rules[n].pattern.family? = some family
      · exact ⟨n, rules[n], by omega, (nearest_succ_iff here).2 (.inl ⟨same, rfl, rfl⟩)⟩
      · have apart : i ≠ n := by
          intro atEnd
          subst atEnd
          rw [here] at found
          cases found
          exact same ofFamily
        obtain ⟨k, nearest, behind, isNearest⟩ := ih (by omega) (by omega)
        exact ⟨k, nearest, behind, (nearest_succ_iff here).2 (.inr ⟨same, isNearest⟩)⟩

/-- Every family runs from the most to the least specific of its rules. -/
def Descending (rules : RuleList) : Prop :=
  ∀ (family : String) (i j : Nat) (earlier later : RewriteRule),
    i < j → rules[i]? = some earlier → rules[j]? = some later →
    earlier.pattern.family? = some family → later.pattern.family? = some family →
    later.pattern.specificity ≤ earlier.pattern.specificity

theorem descending_iff_pairwise : rules.Descending ↔
    rules.Pairwise fun earlier later => ∀ family, earlier.pattern.family? = some family →
      later.pattern.family? = some family →
      later.pattern.specificity ≤ earlier.pattern.specificity := by
  rw [pairwise_iff_positions]
  constructor
  · intro descending i j earlier later before earlierFound laterFound family
    exact descending family i j earlier later before earlierFound laterFound
  · intro ordered family i j earlier later before earlierFound laterFound
    exact ordered i j earlier later before earlierFound laterFound family

/-- Comparing each rule with the nearest one before it orders every two of a family. -/
theorem descending_iff_placed : rules.Descending ↔
    ∀ family i j earlier later, ¬ Misplacement rules family i j earlier later := by
  constructor
  · intro descending family i j earlier later misplaced
    have ordered := descending family i j earlier later misplaced.nearest.before
      misplaced.nearest.found misplaced.found misplaced.nearest.ofFamily misplaced.ofFamily
    exact absurd misplaced.moreSpecific (Nat.not_lt.2 ordered)
  · intro placed family i j earlier later before earlierFound laterFound earlierFamily laterFamily
    induction j using Nat.strongRecOn generalizing later with
    | _ j ih =>
        have inside : j < rules.length := (List.getElem?_eq_some_iff.1 laterFound).1
        obtain ⟨k, between, behind, nearest⟩ :=
          exists_nearest before (Nat.le_of_lt inside) earlierFound earlierFamily
        have step : later.pattern.specificity ≤ between.pattern.specificity := by
          by_contra more
          exact placed family k j between later
            ⟨nearest, laterFound, laterFamily, Nat.not_le.1 more⟩
        obtain apart | rfl := Nat.lt_or_eq_of_le behind
        · exact Nat.le_trans step (ih k nearest.before between apart nearest.found nearest.ofFamily)
        · obtain rfl : between = earlier := Option.some.inj (nearest.found.symm.trans earlierFound)
          exact step

/-! ## The scan for a misplaced rule -/

/-- What the scan knows at position `n`: the nearest rule of every family, and that no rule
before this position is misplaced. -/
structure Scanned (rules : RuleList) (n : Nat) (latest : Entries RewriteRule) : Prop where
  nearest : ∀ family rule, Entries.get? family latest = some rule ↔
    ∃ i, Nearest rules family n i rule
  placed : ∀ family i j earlier later, Misplacement rules family i j earlier later → n ≤ j

theorem scanned_zero : Scanned rules 0 [] where
  nearest family rule := by
    constructor
    · intro present
      cases present
    · intro ⟨i, nearest⟩
      exact absurd nearest.before i.not_lt_zero
  placed _ _ j _ _ _ := j.zero_le

variable {n : Nat} {latest : Entries RewriteRule} {rule : RewriteRule}

theorem Scanned.skip (scanned : Scanned rules n latest) (here : rules[n]? = some rule)
    (familyless : rule.pattern.family? = none) : Scanned rules (n + 1) latest where
  nearest family other := by
    simp only [scanned.nearest, nearest_succ_iff here, familyless, reduceCtorEq, false_and,
      false_or, ne_eq, not_false_eq_true, true_and]
  placed family i j earlier later misplaced := by
    refine Nat.lt_of_le_of_ne (scanned.placed _ _ _ _ _ misplaced) ?_
    intro same
    subst same
    cases here.symm.trans misplaced.found
    cases familyless.symm.trans misplaced.ofFamily

theorem Scanned.put (scanned : Scanned rules n latest) (here : rules[n]? = some rule)
    {family : String} (ofFamily : rule.pattern.family? = some family)
    (least : ∀ previous, Entries.get? family latest = some previous →
      rule.pattern.specificity ≤ previous.pattern.specificity) :
    Scanned rules (n + 1) (Entries.put family rule latest) where
  nearest name other := by
    simp only [nearest_succ_iff here, ofFamily, Option.some.injEq, ne_eq]
    by_cases same : name = family
    · subst same
      simp [Entries.get?_put_self, eq_comm]
    · simp [Entries.get?_put_of_ne same, scanned.nearest, Ne.symm same]
  placed name i j earlier later misplaced := by
    refine Nat.lt_of_le_of_ne (scanned.placed _ _ _ _ _ misplaced) ?_
    intro same
    subst same
    cases here.symm.trans misplaced.found
    cases ofFamily.symm.trans misplaced.ofFamily
    have present := (scanned.nearest family earlier).2 ⟨i, misplaced.nearest⟩
    exact absurd misplaced.moreSpecific (Nat.not_lt.2 (least earlier present))

/-- A rule that is more specific than the nearest of its family is the first such rule. -/
theorem Scanned.firstMisplacement (scanned : Scanned rules n latest)
    (here : rules[n]? = some rule) {family : String} (ofFamily : rule.pattern.family? = some family)
    {previous : RewriteRule} (present : Entries.get? family latest = some previous)
    (more : previous.pattern.specificity < rule.pattern.specificity) :
    ∃ i, FirstMisplacement rules family i n previous rule := by
  obtain ⟨i, nearest⟩ := (scanned.nearest family previous).1 present
  exact ⟨i, ⟨nearest, here, ofFamily, more⟩, scanned.placed⟩

theorem Scanned.outcome (scanned : Scanned rules n latest) {rest : RuleList}
    (remaining : rules.drop n = rest) :
    (firstMisplaced? latest rest = none ∧
      ∀ family i j earlier later, ¬ Misplacement rules family i j earlier later) ∨
    ∃ family i j earlier later, FirstMisplacement rules family i j earlier later ∧
      firstMisplaced? latest rest = some (.misplaced family earlier.name later.name) := by
  -- Each step keeps what the scan knows, or stops at the first misplaced rule.
  induction rest generalizing n latest with
  | nil =>
      refine .inl ⟨rfl, fun family i j earlier later misplaced => ?_⟩
      have inside := (List.getElem?_eq_some_iff.1 misplaced.found).1
      have behind := scanned.placed _ _ _ _ _ misplaced
      have ended := List.drop_eq_nil_iff.1 remaining
      omega
  | cons rule rest ih =>
      have here : rules[n]? = some rule := by
        rw [← List.head?_drop, remaining, List.head?_cons]
      have others : rules.drop (n + 1) = rest := by
        rw [← List.tail_drop, remaining, List.tail_cons]
      rw [firstMisplaced?]
      cases ofFamily : rule.pattern.family? with
      | none => exact ih (scanned.skip here ofFamily) others
      | some family =>
          dsimp only
          cases present : Entries.get? family latest with
          | none => exact ih (scanned.put here ofFamily (by simp [present])) others
          | some previous =>
              by_cases more : previous.pattern.specificity < rule.pattern.specificity
              · obtain ⟨i, first⟩ := scanned.firstMisplacement here ofFamily present more
                exact .inr ⟨family, i, n, previous, rule, first, if_pos more⟩
              · simp only [more, ↓reduceIte]
                refine ih (scanned.put here ofFamily ?_) others
                simpa [present] using more

/-! ## Faults -/

/-- What validation has to answer: the first ambiguity, or else the first misplacement. -/
inductive Verdict (rules : RuleList) : Option RegistryError → Prop where
  | accepted : rules.Unambiguous → rules.Descending → Verdict rules none
  | ambiguous {i j : Nat} {first second : RewriteRule} :
      FirstAmbiguity rules i j first second →
      Verdict rules (some (.ambiguous first.name second.name))
  | misplaced {family : String} {i j : Nat} {earlier later : RewriteRule} :
      rules.Unambiguous → FirstMisplacement rules family i j earlier later →
      Verdict rules (some (.misplaced family earlier.name later.name))

theorem Verdict.unique {answer other : Option RegistryError} (verdict : Verdict rules answer)
    (otherVerdict : Verdict rules other) : answer = other := by
  cases verdict with
  | accepted unambiguous descending =>
      cases otherVerdict with
      | accepted => rfl
      | ambiguous found => exact absurd found.toAmbiguity (unambiguous _ _ _ _)
      | misplaced _ found =>
          exact absurd found.toMisplacement (descending_iff_placed.1 descending _ _ _ _ _)
  | ambiguous found =>
      cases otherVerdict with
      | accepted unambiguous => exact absurd found.toAmbiguity (unambiguous _ _ _ _)
      | ambiguous other =>
          obtain ⟨rfl, rfl⟩ := found.unique other
          rfl
      | misplaced unambiguous => exact absurd found.toAmbiguity (unambiguous _ _ _ _)
  | misplaced unambiguous found =>
      cases otherVerdict with
      | accepted _ descending =>
          exact absurd found.toMisplacement (descending_iff_placed.1 descending _ _ _ _ _)
      | ambiguous ambiguity => exact absurd ambiguity.toAmbiguity (unambiguous _ _ _ _)
      | misplaced _ other =>
          obtain ⟨rfl, rfl, rfl⟩ := found.unique other
          rfl

theorem verdict_firstFault? (distinct : rules.DistinctTags) : Verdict rules rules.firstFault? := by
  unfold firstFault?
  obtain ⟨absent, unambiguous⟩ | ⟨_, _, _, _, found, present⟩ := firstAmbiguity?_outcome distinct
  · rw [absent]
    have remaining : rules.drop 0 = rules := List.drop_zero
    obtain ⟨silent, placed⟩ | ⟨_, _, _, _, _, found, present⟩ := scanned_zero.outcome remaining
    · simp only [silent]
      exact .accepted unambiguous (descending_iff_placed.2 placed)
    · simp only [present]
      exact .misplaced unambiguous found
  · rw [present]
    exact .ambiguous found

theorem firstFault?_eq_iff (distinct : rules.DistinctTags) {answer : Option RegistryError} :
    rules.firstFault? = answer ↔ Verdict rules answer :=
  ⟨fun same => same ▸ verdict_firstFault? distinct, (verdict_firstFault? distinct).unique⟩

theorem firstFault?_eq_none_iff (distinct : rules.DistinctTags) :
    rules.firstFault? = none ↔ rules.Unambiguous ∧ rules.Descending := by
  rw [firstFault?_eq_iff distinct]
  constructor
  · intro verdict
    cases verdict with
    | accepted unambiguous descending => exact ⟨unambiguous, descending⟩
  · intro ⟨unambiguous, descending⟩
    exact .accepted unambiguous descending

theorem firstFault?_eq_ambiguous_iff (distinct : rules.DistinctTags) {first second : String} :
    rules.firstFault? = some (.ambiguous first second) ↔ ∃ i j earlier later,
      FirstAmbiguity rules i j earlier later ∧ earlier.name = first ∧ later.name = second := by
  rw [firstFault?_eq_iff distinct]
  constructor
  · intro verdict
    cases verdict with
    | ambiguous found => exact ⟨_, _, _, _, found, rfl, rfl⟩
  · intro ⟨i, j, earlier, later, found, firstName, secondName⟩
    subst firstName secondName
    exact .ambiguous found

theorem firstFault?_eq_misplaced_iff (distinct : rules.DistinctTags)
    {family earlier later : String} :
    rules.firstFault? = some (.misplaced family earlier later) ↔ rules.Unambiguous ∧
      ∃ i j previous rule, FirstMisplacement rules family i j previous rule ∧
        previous.name = earlier ∧ rule.name = later := by
  rw [firstFault?_eq_iff distinct]
  constructor
  · intro verdict
    cases verdict with
    | misplaced unambiguous found => exact ⟨unambiguous, _, _, _, _, found, rfl, rfl⟩
  · intro ⟨unambiguous, i, j, previous, rule, found, earlierName, laterName⟩
    subst earlierName laterName
    exact .misplaced unambiguous found

theorem firstFault?_sublist {kept : RuleList} (distinct : rules.DistinctTags)
    (sublist : kept.Sublist rules) (accepted : rules.firstFault? = none) :
    kept.firstFault? = none := by
  have keptDistinct : kept.DistinctTags := fun rule member => distinct rule (sublist.subset member)
  rw [firstFault?_eq_none_iff distinct, unambiguous_iff distinct, descending_iff_pairwise]
    at accepted
  rw [firstFault?_eq_none_iff keptDistinct, unambiguous_iff keptDistinct, descending_iff_pairwise]
  exact ⟨accepted.1.sublist sublist, accepted.2.sublist sublist⟩

end RuleList

namespace Registry

open RuleList

theorem build_eq_error_iff {rules : RuleList} {fault : RegistryError} :
    build rules = .error fault ↔ rules.firstFault? = some fault := by
  unfold build
  split <;> rename_i outcome <;> simp [outcome]

theorem exists_build_iff {rules : RuleList} :
    (∃ registry, build rules = .ok registry) ↔ rules.firstFault? = none := by
  simp only [build_eq_ok_iff]
  exact ⟨fun ⟨_, accepted, _⟩ => accepted, fun accepted => ⟨⟨rules, accepted⟩, accepted, rfl⟩⟩

/-- A list is accepted, and kept as it is, if no two of its rules overlap and every family runs
from the most to the least specific rule; otherwise the fault names the first two overlapping
rules or, where there are none, the first misplaced rule and the one before it in its family. So
what is left of an accepted list, when rules are dropped, is accepted. -/
theorem build_exact {rules : RuleList} (distinct : rules.DistinctTags) :
    ((∃ registry, build rules = .ok registry) ↔ rules.Unambiguous ∧ rules.Descending) ∧
    (∀ registry, build rules = .ok registry → registry.rules = rules) ∧
    (∀ first second, build rules = .error (.ambiguous first second) ↔
      ∃ i j earlier later, FirstAmbiguity rules i j earlier later ∧
        earlier.name = first ∧ later.name = second) ∧
    (∀ family earlier later, build rules = .error (.misplaced family earlier later) ↔
      rules.Unambiguous ∧ ∃ i j previous rule, FirstMisplacement rules family i j previous rule ∧
        previous.name = earlier ∧ rule.name = later) ∧
    ∀ kept : RuleList, kept.Sublist rules → (∃ registry, build rules = .ok registry) →
      ∃ registry, build kept = .ok registry := by
  simp only [exists_build_iff, build_eq_error_iff]
  exact ⟨firstFault?_eq_none_iff distinct, fun _ accepted => (build_eq_ok_iff.1 accepted).2,
    fun _ _ => firstFault?_eq_ambiguous_iff distinct,
    fun _ _ _ => firstFault?_eq_misplaced_iff distinct,
    fun _ sublist => firstFault?_sublist distinct sublist⟩

/-- A rule of another family stands between two rules of one, and a rival comes last. -/
theorem build_exact_interleaved :
    let rule (name : String) (pattern : Pattern) : RewriteRule :=
      ⟨name, pattern, fun _ _ => .ok (.leaf name)⟩
    let wide := rule "wide" (.group [("a", .simple "x")])
    let other := rule "other" (.group [("b", .simple "x"), ("c", .simple "y"), ("d", .simple "z")])
    let narrow := rule "narrow" (.group [("a", .simple "x"), ("c", .simple "x")])
    let rival := rule "rival" (.group [("a", .subtree "y")])
    RuleList.DistinctTags [wide, other, narrow, rival] ∧
    (∃ i j earlier later, FirstAmbiguity [wide, other, narrow, rival] i j earlier later ∧
      earlier.name = "wide" ∧ later.name = "rival") ∧
    (∃ i j previous rule, FirstMisplacement [wide, other, narrow] "a" i j previous rule ∧
      previous.name = "wide" ∧ rule.name = "narrow") ∧
    (RuleList.Unambiguous [narrow, other, wide] ∧ RuleList.Descending [narrow, other, wide]) ∧
    ∃ registry, build [narrow, wide] = .ok registry ∧ registry.rules = [narrow, wide] := by
  intro rule wide other narrow rival
  have distinct : RuleList.DistinctTags [wide, other, narrow, rival] := by decide
  have ambiguous : build [wide, other, narrow, rival] = .error (.ambiguous "wide" "rival") :=
    build_eq_error_iff.2 (by decide)
  have misplaced : build [wide, other, narrow] = .error (.misplaced "a" "wide" "narrow") :=
    build_eq_error_iff.2 (by decide)
  have accepted : ∃ registry, build [narrow, other, wide] = .ok registry :=
    exists_build_iff.2 (by decide)
  have orderedDistinct : RuleList.DistinctTags [narrow, other, wide] := by decide
  obtain ⟨orderedAccepted, _, _, _, sublists⟩ := build_exact orderedDistinct
  obtain ⟨_, _, ambiguities, _, _⟩ := build_exact distinct
  obtain ⟨_, _, _, misplacements, _⟩ :=
    @build_exact [wide, other, narrow] (by decide)
  obtain ⟨registry, kept⟩ := sublists [narrow, wide] (by simp) accepted
  obtain ⟨_, same, _⟩ := @build_exact [narrow, wide] (by decide)
  exact ⟨distinct, (ambiguities _ _).1 ambiguous, ((misplacements _ _ _).1 misplaced).2,
    orderedAccepted.1 accepted, registry, kept, same registry kept⟩

end Registry

end InterviewFlow
