import Mathlib.Data.List.Induction
import MisraPlatform.Library.Leveling
import MisraPlatform.Construction.ExecutionPlanner

/-
This file proves that the execution groups respect the dependencies and the tiers of the rules.
-/

namespace MisraPlatform.ExecutionPlanner

variable {Rule : Type} (metadata : Rule → RuleMetadata)

/-- Both rules are listed and the first one names the second as a dependency. -/
def DependsOn (rules : List Rule) (rule dependency : Rule) : Prop :=
  rule ∈ rules ∧ dependency ∈ rules ∧ (metadata dependency).ruleId ∈ (metadata rule).ruleDependencies

/-- The same relation between the ids of the rules, as the resolver walks it. -/
def LeadsTo (rules : List Rule) (ruleId dependencyId : String) : Prop :=
  dependencyId ∈ dependencyIds metadata rules ruleId ∧ dependencyId ∈ (byId metadata rules).keys

def baseTier (rules : List Rule) (ruleId : String) : Nat :=
  ((categoryTier metadata rules).get? ruleId).getD 0

section Resolution

variable {metadata} {rules : List Rule}

/-- A memoised tier is the least one over the memoised tiers of its dependencies. -/
structure Settled (metadata : Rule → RuleMetadata) (rules : List Rule)
    (memo : OrderedDict String Nat) (ruleId : String) (tier : Nat) : Prop where
  above : baseTier metadata rules ruleId ≤ tier
  exceeds : ∀ dependencyId, LeadsTo metadata rules ruleId dependencyId →
    ∃ lower, memo.get? dependencyId = some lower ∧ lower < tier
  reached : tier = baseTier metadata rules ruleId ∨ ∃ dependencyId lower,
    LeadsTo metadata rules ruleId dependencyId ∧ memo.get? dependencyId = some lower ∧ tier = lower + 1

def MemoSettled (metadata : Rule → RuleMetadata) (rules : List Rule)
    (memo : OrderedDict String Nat) : Prop :=
  ∀ ruleId tier, memo.get? ruleId = some tier → Settled metadata rules memo ruleId tier

def Extends (memo later : OrderedDict String Nat) : Prop :=
  ∀ ruleId tier, memo.get? ruleId = some tier → later.get? ruleId = some tier

theorem Extends.refl (memo : OrderedDict String Nat) : Extends memo memo := fun _ _ found => found

theorem Extends.trans {memo later last : OrderedDict String Nat} (first : Extends memo later)
    (second : Extends later last) : Extends memo last :=
  fun ruleId tier found => second ruleId tier (first ruleId tier found)

theorem Extends.insert {memo : OrderedDict String Nat} {ruleId : String}
    (fresh : memo.get? ruleId = none) (tier : Nat) : Extends memo (memo.insert ruleId tier) := by
  intro other lower found
  rw [OrderedDict.get?_insert]
  by_cases same : other = ruleId
  · rw [same, fresh] at found
    cases found
  · rw [if_neg same]
    exact found

theorem Settled.mono {memo later : OrderedDict String Nat} {ruleId : String} {tier : Nat}
    (extended : Extends memo later) (settled : Settled metadata rules memo ruleId tier) :
    Settled metadata rules later ruleId tier where
  above := settled.above
  exceeds dependencyId leads := by
    obtain ⟨lower, found, less⟩ := settled.exceeds dependencyId leads
    exact ⟨lower, extended _ _ found, less⟩
  reached := by
    cases settled.reached with
    | inl same => exact .inl same
    | inr lifted =>
        obtain ⟨dependencyId, lower, leads, found, same⟩ := lifted
        exact .inr ⟨dependencyId, lower, leads, extended _ _ found, same⟩

/-- The open calls are distinct listed ids without a memo. -/
structure Open (metadata : Rule → RuleMetadata) (rules : List Rule) (state : Resolution) : Prop where
  settled : MemoSettled metadata rules state.resolvedTier
  distinct : state.visiting.Nodup
  listed : ∀ open_ ∈ state.visiting, open_ ∈ (byId metadata rules).keys
  pending : ∀ open_ ∈ state.visiting, state.resolvedTier.get? open_ = none

/-- A call returns with the same open calls and a memo that has grown. -/
structure Returned (metadata : Rule → RuleMetadata) (rules : List Rule)
    (state later : Resolution) : Prop where
  sameVisiting : later.visiting = state.visiting
  extended : Extends state.resolvedTier later.resolvedTier
  isOpen : Open metadata rules later

theorem Returned.refl {state : Resolution} (isOpen : Open metadata rules state) :
    Returned metadata rules state state := ⟨rfl, Extends.refl _, isOpen⟩

theorem Returned.trans {state later last : Resolution} (first : Returned metadata rules state later)
    (second : Returned metadata rules later last) : Returned metadata rules state last :=
  ⟨second.sameVisiting.trans first.sameVisiting, first.extended.trans second.extended, second.isOpen⟩

def Cyclic (metadata : Rule → RuleMetadata) (rules : List Rule) : Prop :=
  ∃ ruleId, Relation.TransGen (LeadsTo metadata rules) ruleId ruleId

/-- The outcome of a call is a returned state or a cycle that exists. -/
def Outcome (metadata : Rule → RuleMetadata) (rules : List Rule) (state : Resolution)
    (good : Nat → Resolution → Prop) : Except PlanError (Nat × Resolution) → Prop
  | .ok answer => Returned metadata rules state answer.2 ∧ good answer.1 answer.2
  | .error (.cyclicRuleDependency _) => Cyclic metadata rules
  | .error _ => False

theorem Outcome.mono {state later : Resolution} {good : Nat → Resolution → Prop}
    {result : Except PlanError (Nat × Resolution)} (outcome : Outcome metadata rules later good result)
    (returned : Returned metadata rules state later) : Outcome metadata rules state good result := by
  cases result with
  | ok answer => exact ⟨returned.trans outcome.1, outcome.2⟩
  | error failure => cases failure <;> exact outcome

/-- The tier of a loop is the least one over the dependencies visited so far. -/
structure LoopTier (metadata : Rule → RuleMetadata) (rules : List Rule) (ruleId : String)
    (visited : List String) (tier : Nat) (memo : OrderedDict String Nat) : Prop where
  above : baseTier metadata rules ruleId ≤ tier
  exceeds : ∀ dependencyId ∈ visited, dependencyId ∈ (byId metadata rules).keys →
    ∃ lower, memo.get? dependencyId = some lower ∧ lower < tier
  reached : tier = baseTier metadata rules ruleId ∨ ∃ dependencyId ∈ visited, ∃ lower,
    dependencyId ∈ (byId metadata rules).keys ∧ memo.get? dependencyId = some lower ∧ tier = lower + 1

/-- The specification of a resolver at one id and state. -/
def Resolves (metadata : Rule → RuleMetadata) (rules : List Rule) (resolver : Resolver)
    (ruleId : String) (state : Resolution) : Prop :=
  Outcome metadata rules state (fun tier later => later.resolvedTier.get? ruleId = some tier)
    (resolver ruleId state)

/-- A call is due on a listed id that every open call leads to, with depth left for the rest. -/
structure Callable (metadata : Rule → RuleMetadata) (rules : List Rule) (depth : Nat)
    (ruleId : String) (state : Resolution) : Prop where
  isOpen : Open metadata rules state
  member : ruleId ∈ (byId metadata rules).keys
  reaches : ∀ caller ∈ state.visiting, Relation.TransGen (LeadsTo metadata rules) caller ruleId
  room : (byId metadata rules).keys.length < depth + state.visiting.length

/-- A passed dependency leaves the bounds of the loop as they are. -/
theorem LoopTier.skip {ruleId : String} {visited : List String} {tier : Nat}
    {memo : OrderedDict String Nat} {dependencyId : String}
    (loop : LoopTier metadata rules ruleId visited tier memo)
    (unknown : dependencyId ∉ (byId metadata rules).keys) :
    LoopTier metadata rules ruleId (visited ++ [dependencyId]) tier memo where
  above := loop.above
  exceeds other inside listed := by
    rw [List.mem_append, List.mem_singleton] at inside
    cases inside with
    | inl earlier => exact loop.exceeds other earlier listed
    | inr same => exact absurd (same ▸ listed) unknown
  reached := by
    cases loop.reached with
    | inl same => exact .inl same
    | inr lifted =>
        obtain ⟨other, earlier, rest⟩ := lifted
        exact .inr ⟨other, List.mem_append_left _ earlier, rest⟩

/-- A resolved dependency lifts the tier to the larger of the two bounds. -/
theorem LoopTier.visit {ruleId : String} {visited : List String} {tier lower : Nat}
    {memo later : OrderedDict String Nat} {dependencyId : String}
    (loop : LoopTier metadata rules ruleId visited tier memo) (extended : Extends memo later)
    (listed : dependencyId ∈ (byId metadata rules).keys)
    (resolved : later.get? dependencyId = some lower) :
    LoopTier metadata rules ruleId (visited ++ [dependencyId]) (max tier (lower + 1)) later where
  above := loop.above.trans (le_max_left _ _)
  exceeds other inside known := by
    rw [List.mem_append, List.mem_singleton] at inside
    cases inside with
    | inl earlier =>
        obtain ⟨number, found, less⟩ := loop.exceeds other earlier known
        exact ⟨number, extended _ _ found, less.trans_le (le_max_left _ _)⟩
    | inr same =>
        subst same
        exact ⟨lower, resolved, (Nat.lt_succ_self lower).trans_le (le_max_right _ _)⟩
  reached := by
    by_cases higher : tier ≤ lower + 1
    · rw [max_eq_right higher]
      exact .inr ⟨dependencyId, by simp, lower, listed, resolved, rfl⟩
    · rw [max_eq_left (by omega)]
      cases loop.reached with
      | inl same => exact .inl same
      | inr lifted =>
          obtain ⟨other, earlier, number, known, found, same⟩ := lifted
          exact .inr ⟨other, List.mem_append_left _ earlier, number, known, extended _ _ found, same⟩

/-- The loop over the dependencies keeps the open calls and the least tier. -/
theorem loop_outcome {resolver : Resolver} {depth : Nat} (ruleId : String)
    (resolves : ∀ dependencyId state, Callable metadata rules depth dependencyId state →
      Resolves metadata rules resolver dependencyId state)
    (rest visited : List String) (tier : Nat) (state : Resolution)
    (inside : ∀ dependencyId ∈ rest, dependencyId ∈ dependencyIds metadata rules ruleId)
    (isOpen : Open metadata rules state)
    (reaches : ∀ caller ∈ state.visiting, Relation.ReflTransGen (LeadsTo metadata rules) caller ruleId)
    (room : (byId metadata rules).keys.length < depth + state.visiting.length)
    (loop : LoopTier metadata rules ruleId visited tier state.resolvedTier) :
    Outcome metadata rules state
      (fun final later => LoopTier metadata rules ruleId (visited ++ rest) final later.resolvedTier)
      (rest.foldlM (visitDependency metadata rules resolver) (tier, state)) := by
  induction rest generalizing visited tier state with
  | nil =>
      rw [List.append_nil]
      exact ⟨Returned.refl isOpen, loop⟩
  | cons dependencyId rest ih =>
      have insideRest : ∀ other ∈ rest, other ∈ dependencyIds metadata rules ruleId :=
        fun other found => inside other (List.mem_cons_of_mem _ found)
      have again : visited ++ dependencyId :: rest = (visited ++ [dependencyId]) ++ rest := by simp
      rw [List.foldlM_cons, again]
      by_cases listed : dependencyId ∈ (byId metadata rules).keys
      · have leads : LeadsTo metadata rules ruleId dependencyId :=
          ⟨inside dependencyId (by simp), listed⟩
        have called := resolves dependencyId state
          ⟨isOpen, listed, fun caller found => .tail' (reaches caller found) leads, room⟩
        simp only [Resolves] at called
        cases answered : resolver dependencyId state with
        | error failure =>
            rw [answered] at called
            have step : visitDependency metadata rules resolver (tier, state) dependencyId =
                .error failure := by
              simp [visitDependency, listed, answered, Bind.bind, Except.bind]
            rw [step]
            cases failure <;> exact called
        | ok answer =>
            rw [answered] at called
            obtain ⟨returned, resolved⟩ := called
            have visited' := loop.visit returned.extended listed resolved
            have callers : answer.2.visiting = state.visiting := returned.sameVisiting
            have final := ih (visited ++ [dependencyId]) (max tier (answer.1 + 1)) answer.2 insideRest
              returned.isOpen (callers ▸ reaches) (callers ▸ room) visited'
            have step : visitDependency metadata rules resolver (tier, state) dependencyId =
                .ok (max tier (answer.1 + 1), answer.2) := by
              simp [visitDependency, listed, answered, Bind.bind, Except.bind, Pure.pure, Except.pure]
            rw [step]
            exact final.mono returned
      · have step : visitDependency metadata rules resolver (tier, state) dependencyId =
            .ok (tier, state) := by simp [visitDependency, listed]
        rw [step]
        exact ih _ _ _ insideRest isOpen reaches room (loop.skip listed)

/-- The bounds of a finished loop make the tier of its rule a settled one. -/
theorem LoopTier.settled {ruleId : String} {tier : Nat} {memo : OrderedDict String Nat}
    (loop : LoopTier metadata rules ruleId (dependencyIds metadata rules ruleId) tier memo) :
    Settled metadata rules memo ruleId tier where
  above := loop.above
  exceeds dependencyId leads := loop.exceeds dependencyId leads.1 leads.2
  reached := by
    cases loop.reached with
    | inl same => exact .inl same
    | inr lifted =>
        obtain ⟨dependencyId, inside, lower, listed, found, same⟩ := lifted
        exact .inr ⟨dependencyId, lower, ⟨inside, listed⟩, found, same⟩

/-- A call closes its own entry and stores its tier. -/
theorem returned_of_loop {ruleId : String} {tier : Nat} {state later : Resolution}
    (closed : ruleId ∉ state.visiting)
    (returned : Returned metadata rules { state with visiting := ruleId :: state.visiting } later)
    (settled : Settled metadata rules later.resolvedTier ruleId tier) :
    Returned metadata rules state
      { resolvedTier := later.resolvedTier.insert ruleId tier
        visiting := later.visiting.filter (· ≠ ruleId) } := by
  have callers : later.visiting = ruleId :: state.visiting := returned.sameVisiting
  have unresolved : later.resolvedTier.get? ruleId = none :=
    returned.isOpen.pending ruleId (by rw [callers]; simp)
  have extended := Extends.insert unresolved tier
  have restored : later.visiting.filter (· ≠ ruleId) = state.visiting := by
    rw [callers, List.filter_cons_of_neg (by simp), List.filter_eq_self]
    intro caller found
    simpa using fun same : caller = ruleId => closed (same ▸ found)
  have member : ∀ caller ∈ state.visiting, caller ∈ later.visiting := by
    intro caller found
    rw [callers]
    exact List.mem_cons_of_mem _ found
  constructor
  · exact restored
  · exact Extends.trans returned.extended extended
  · simp only [restored]
    constructor
    · intro other number found
      rw [OrderedDict.get?_insert] at found
      by_cases same : other = ruleId
      · rw [if_pos same, Option.some.injEq] at found
        subst same found
        exact settled.mono extended
      · rw [if_neg same] at found
        exact (returned.isOpen.settled other number found).mono extended
    · have distinct := returned.isOpen.distinct
      rw [callers] at distinct
      exact distinct.of_cons
    · intro caller found
      exact returned.isOpen.listed caller (member caller found)
    · intro caller found
      have other : caller ≠ ruleId := fun same => closed (same ▸ found)
      rw [OrderedDict.get?_insert, if_neg other]
      exact returned.isOpen.pending caller (member caller found)

/-- The induction is on the depth, every nested call opens one more listed id. -/
theorem resolve_resolves (depth : Nat) (ruleId : String) (state : Resolution)
    (callable : Callable metadata rules depth ruleId state) :
    Resolves metadata rules (resolve metadata rules depth) ruleId state := by
  have isOpen := callable.isOpen
  have bounded : ∀ opened : List String, opened.Nodup →
      (∀ caller ∈ opened, caller ∈ (byId metadata rules).keys) →
      opened.length ≤ (byId metadata rules).keys.length :=
    fun opened distinct listed => (List.subperm_of_subset distinct listed).length_le
  induction depth generalizing ruleId state with
  | zero =>
      have room := callable.room
      have := bounded state.visiting isOpen.distinct isOpen.listed
      omega
  | succ depth ih =>
      simp only [Resolves, resolve]
      cases memo : state.resolvedTier.get? ruleId with
      | some tier => exact ⟨Returned.refl isOpen, memo⟩
      | none =>
          by_cases again : ruleId ∈ state.visiting
          · simp only [again, if_true]
            exact ⟨ruleId, callable.reaches ruleId again⟩
          · simp only [again, if_false]
            have entered : Open metadata rules { state with visiting := ruleId :: state.visiting } := by
              constructor
              · exact isOpen.settled
              · exact List.nodup_cons.mpr ⟨again, isOpen.distinct⟩
              · exact List.forall_mem_cons.mpr ⟨callable.member, isOpen.listed⟩
              · exact List.forall_mem_cons.mpr ⟨memo, isOpen.pending⟩
            have reaches : ∀ caller ∈ ruleId :: state.visiting,
                Relation.ReflTransGen (LeadsTo metadata rules) caller ruleId :=
              List.forall_mem_cons.mpr ⟨.refl, fun caller found =>
                (callable.reaches caller found).to_reflTransGen⟩
            have room := callable.room
            have start : LoopTier metadata rules ruleId [] (baseTier metadata rules ruleId)
                state.resolvedTier := ⟨le_rfl, by simp, .inl rfl⟩
            have loop := loop_outcome ruleId
              (fun dependencyId inner ready => ih dependencyId inner ready ready.isOpen)
              (dependencyIds metadata rules ruleId) [] _ _ (fun _ found => found) entered reaches
              (by simp only [List.length_cons]; omega) start
            rw [List.nil_append] at loop
            simp only [baseTier] at loop
            cases result : (dependencyIds metadata rules ruleId).foldlM
                (visitDependency metadata rules (resolve metadata rules depth))
                (((categoryTier metadata rules).get? ruleId).getD 0,
                  { state with visiting := ruleId :: state.visiting }) with
            | error failure =>
                rw [result] at loop
                cases failure <;> exact loop
            | ok answer =>
                rw [result] at loop
                obtain ⟨returned, tier⟩ := loop
                have settled := tier.settled
                refine ⟨returned_of_loop again returned settled, ?_⟩
                simp [OrderedDict.get?_insert]

end Resolution

section Groups

variable {metadata} (tier : Rule → Nat)

theorem get?_addToGroup (number : Nat) (rule : Rule) (groups : OrderedDict Nat (List Rule)) (query : Nat) :
    (addToGroup number rule groups).get? query =
      if query = number then some ((groups.get? number).getD [] ++ [rule]) else groups.get? query := by
  rw [addToGroup, OrderedDict.get?_modify, OrderedDict.get?_setDefault]
  by_cases same : query = number
  · simp [same]
  · simp [same]

/-- The group of a tier lists the rules of the tier in input order. -/
theorem get?_groups (rules : List Rule) (number : Nat) :
    ((rules.foldl (fun groups rule => addToGroup (tier rule) rule groups) .empty).get? number).getD [] =
      rules.filter fun rule => tier rule = number := by
  induction rules using List.reverseRecOn with
  | nil => rfl
  | append_singleton rules rule ih =>
      rw [List.foldl_append, List.foldl_cons, List.foldl_nil, get?_addToGroup, List.filter_append]
      by_cases same : number = tier rule
      · rw [if_pos same, ← same, ih]
        simp [same]
      · rw [if_neg same, ih]
        simp [Ne.symm same]

theorem mem_keys_groups (rules : List Rule) (number : Nat) :
    number ∈ (rules.foldl (fun groups rule => addToGroup (tier rule) rule groups) .empty).keys ↔
      ∃ rule ∈ rules, tier rule = number := by
  induction rules using List.reverseRecOn with
  | nil => simp [OrderedDict.keys, OrderedDict.empty]
  | append_singleton rules rule ih =>
      rw [OrderedDict.mem_keys_iff] at ih ⊢
      rw [List.foldl_append, List.foldl_cons, List.foldl_nil, get?_addToGroup]
      by_cases same : number = tier rule
      · simp [same]
      · rw [if_neg same, ih]
        simp [Ne.symm same, or_and_right, exists_or]

/-- These are the tiers that some rule has, in increasing order. -/
def sortedTiers (rules : List Rule) : List Nat :=
  (rules.foldl (fun groups rule => addToGroup (tier rule) rule groups) .empty).keys.insertionSort (· ≤ ·)

theorem mem_sortedTiers (rules : List Rule) (number : Nat) :
    number ∈ sortedTiers tier rules ↔ ∃ rule ∈ rules, tier rule = number := by
  rw [sortedTiers, List.mem_insertionSort, mem_keys_groups]

theorem sortedTiers_sorted (rules : List Rule) : (sortedTiers tier rules).Pairwise (· < ·) := by
  have ordered : (sortedTiers tier rules).Pairwise (· ≤ ·) := List.pairwise_insertionSort _ _
  have distinct : (sortedTiers tier rules).Nodup :=
    (List.perm_insertionSort _ _).nodup_iff.mpr (OrderedDict.keys_nodup _)
  exact (ordered.and distinct).imp fun both => lt_of_le_of_ne both.1 both.2

theorem orderedGroups_eq (rules : List Rule) :
    orderedGroups (rules.foldl (fun groups rule => addToGroup (tier rule) rule groups) .empty) =
      (sortedTiers tier rules).map fun number => rules.filter fun rule => tier rule = number := by
  rw [orderedGroups, ← sortedTiers, ← List.filterMap_eq_map]
  apply List.filterMap_congr
  intro number inside
  rw [sortedTiers, List.mem_insertionSort, OrderedDict.mem_keys_iff] at inside
  obtain ⟨group, found⟩ := inside
  have listed := get?_groups tier rules number
  rw [found, Option.getD_some] at listed
  rw [found, listed]
  rfl

end Groups

section ListedRules

variable {metadata} {rules : List Rule}

theorem get?_byId (distinct : (rules.map fun rule => (metadata rule).ruleId).Nodup)
    (ruleId : String) (rule : Rule) :
    (byId metadata rules).get? ruleId = some rule ↔ rule ∈ rules ∧ (metadata rule).ruleId = ruleId := by
  rw [byId, OrderedDict.get?_ofItems (fun rule => (metadata rule).ruleId) (fun rule => rule) rules distinct]
  constructor
  · intro found
    obtain ⟨item, inside, same, equal⟩ := found
    exact equal ▸ ⟨inside, same⟩
  · intro found
    exact ⟨rule, found.1, found.2, rfl⟩

theorem mem_keys_byId (distinct : (rules.map fun rule => (metadata rule).ruleId).Nodup)
    (ruleId : String) :
    ruleId ∈ (byId metadata rules).keys ↔ ∃ rule ∈ rules, (metadata rule).ruleId = ruleId := by
  simp only [OrderedDict.mem_keys_iff, get?_byId distinct]

theorem dependencyIds_listed (distinct : (rules.map fun rule => (metadata rule).ruleId).Nodup)
    {rule : Rule} (listed : rule ∈ rules) :
    dependencyIds metadata rules (metadata rule).ruleId = (metadata rule).ruleDependencies := by
  rw [dependencyIds, (get?_byId distinct _ rule).mpr ⟨listed, rfl⟩]

theorem baseTier_listed (distinct : (rules.map fun rule => (metadata rule).ruleId).Nodup)
    {rule : Rule} (listed : rule ∈ rules) :
    baseTier metadata rules (metadata rule).ruleId =
      tierOfCategory (metadata rule).implementationCategory := by
  have found := (OrderedDict.get?_ofItems (fun rule => (metadata rule).ruleId)
    (fun rule => tierOfCategory (metadata rule).implementationCategory) rules distinct
    (metadata rule).ruleId _).mpr ⟨rule, listed, rfl, rfl⟩
  rw [baseTier, categoryTier, found, Option.getD_some]

/-- Distinct ids identify the listed rules. -/
theorem rule_unique (distinct : (rules.map fun rule => (metadata rule).ruleId).Nodup)
    {first second : Rule} (firstListed : first ∈ rules) (secondListed : second ∈ rules)
    (same : (metadata first).ruleId = (metadata second).ruleId) : first = second :=
  List.inj_on_of_nodup_map distinct firstListed secondListed same

/-- The two relations agree on the ids of listed rules. -/
theorem leadsTo_iff (distinct : (rules.map fun rule => (metadata rule).ruleId).Nodup)
    (ruleId dependencyId : String) :
    LeadsTo metadata rules ruleId dependencyId ↔
      ∃ rule dependency, DependsOn metadata rules rule dependency ∧
        (metadata rule).ruleId = ruleId ∧ (metadata dependency).ruleId = dependencyId := by
  constructor
  · intro leads
    obtain ⟨dependency, dependencyListed, sameDependency⟩ := (mem_keys_byId distinct _).mp leads.2
    have named := leads.1
    cases found : (byId metadata rules).get? ruleId with
    | none => simp [dependencyIds, found] at named
    | some rule =>
        obtain ⟨listed, same⟩ := (get?_byId distinct _ _).mp found
        rw [← same, dependencyIds_listed distinct listed, ← sameDependency] at named
        exact ⟨rule, dependency, ⟨listed, dependencyListed, named⟩, same, sameDependency⟩
  · intro depends
    obtain ⟨rule, dependency, edge, rfl, rfl⟩ := depends
    constructor
    · rw [dependencyIds_listed distinct edge.1]
      exact edge.2.2
    · exact (mem_keys_byId distinct _).mpr ⟨dependency, edge.2.1, rfl⟩

/-- A path of ids is a path of rules. -/
theorem path_of_leadsTo (distinct : (rules.map fun rule => (metadata rule).ruleId).Nodup)
    {ruleId dependencyId : String} (path : Relation.TransGen (LeadsTo metadata rules) ruleId dependencyId) :
    ∃ rule ∈ rules, ∃ dependency ∈ rules,
      Relation.TransGen (DependsOn metadata rules) rule dependency ∧
        (metadata rule).ruleId = ruleId ∧ (metadata dependency).ruleId = dependencyId := by
  induction path with
  | single leads =>
      obtain ⟨rule, dependency, edge, same, sameDependency⟩ := (leadsTo_iff distinct _ _).mp leads
      exact ⟨rule, edge.1, dependency, edge.2.1, .single edge, same, sameDependency⟩
  | tail _ leads ih =>
      obtain ⟨rule, listed, middle, middleListed, path, same, sameMiddle⟩ := ih
      obtain ⟨source, dependency, edge, sameSource, sameDependency⟩ := (leadsTo_iff distinct _ _).mp leads
      have joined : source = middle :=
        rule_unique distinct edge.1 middleListed (sameSource.trans sameMiddle.symm)
      exact ⟨rule, listed, dependency, edge.2.1, path.tail (joined ▸ edge), same, sameDependency⟩

theorem cyclic_iff (distinct : (rules.map fun rule => (metadata rule).ruleId).Nodup) :
    Cyclic metadata rules ↔ ∃ rule, Relation.TransGen (DependsOn metadata rules) rule rule := by
  constructor
  · intro cyclic
    obtain ⟨ruleId, path⟩ := cyclic
    obtain ⟨rule, listed, dependency, dependencyListed, rulePath, same, sameDependency⟩ :=
      path_of_leadsTo distinct path
    have joined : dependency = rule :=
      rule_unique distinct dependencyListed listed (sameDependency.trans same.symm)
    exact ⟨rule, joined ▸ rulePath⟩
  · intro cyclic
    obtain ⟨rule, path⟩ := cyclic
    refine ⟨(metadata rule).ruleId, path.lift (fun rule => (metadata rule).ruleId) ?_⟩
    intro first second edge
    exact (leadsTo_iff distinct _ _).mpr ⟨first, second, edge, rfl, rfl⟩

/-- The resolutions of all listed rules end in a complete memo or in a cycle that exists. -/
theorem resolveAll_outcome (distinct : (rules.map fun rule => (metadata rule).ruleId).Nodup)
    (order : List Rule) (inside : ∀ rule ∈ order, rule ∈ rules) :
    (∃ message, resolveAll metadata rules order = .error (.cyclicRuleDependency message) ∧
      Cyclic metadata rules) ∨
    ∃ memo, resolveAll metadata rules order = .ok memo ∧ MemoSettled metadata rules memo ∧
      ∀ rule ∈ order, ∃ tier, memo.get? (metadata rule).ruleId = some tier := by
  have keys : (byId metadata rules).keys.length = rules.length := by
    have entries := OrderedDict.entries_foldl_insert (fun rule => (metadata rule).ruleId) (fun rule => rule) rules
      OrderedDict.empty distinct
    rw [OrderedDict.keys_length, OrderedDict.size, byId, entries]
    simp [OrderedDict.empty]
  induction order using List.reverseRecOn with
  | nil => exact .inr ⟨.empty, rfl, by intro ruleId tier found; simp at found, by simp⟩
  | append_singleton order rule ih =>
      have earlier := ih fun other found => inside other (List.mem_append_left _ found)
      rw [resolveAll, List.foldlM_append]
      cases earlier with
      | inl raised =>
          obtain ⟨message, failed, cyclic⟩ := raised
          rw [resolveAll] at failed
          rw [failed]
          exact .inl ⟨message, rfl, cyclic⟩
      | inr resolved =>
          obtain ⟨memo, answered, settled, complete⟩ := resolved
          rw [resolveAll] at answered
          rw [answered]
          have listed := inside rule (by simp)
          have callable : Callable metadata rules (rules.length + 1) (metadata rule).ruleId
              { resolvedTier := memo, visiting := [] } := by
            constructor
            · exact ⟨settled, List.nodup_nil, by simp, by simp⟩
            · exact (mem_keys_byId distinct _).mpr ⟨rule, listed, rfl⟩
            · simp
            · rw [keys]
              simp
          have called := resolve_resolves _ _ _ callable
          simp only [Resolves] at called
          simp only [List.foldlM_cons, List.foldlM_nil, Bind.bind, Except.bind, Pure.pure, Except.pure]
          cases result : resolve metadata rules (rules.length + 1) (metadata rule).ruleId
              { resolvedTier := memo, visiting := [] } with
          | error failure =>
              rw [result] at called
              cases failure with
              | cyclicRuleDependency message => exact .inl ⟨message, rfl, called⟩
              | keyError other => exact called.elim
              | callStackExhausted => exact called.elim
          | ok answer =>
              rw [result] at called
              obtain ⟨returned, found⟩ := called
              refine .inr ⟨answer.2.resolvedTier, rfl, returned.isOpen.settled, ?_⟩
              intro other member
              rw [List.mem_append, List.mem_singleton] at member
              cases member with
              | inl before =>
                  obtain ⟨tier, known⟩ := complete other before
                  exact ⟨tier, returned.extended _ _ known⟩
              | inr same => exact ⟨answer.1, same ▸ found⟩

end ListedRules

section Plan

variable {rules : List Rule}

open Classical in
/-- The final tier of a listed rule stands in the memo, another rule keeps the tier of its category. -/
noncomputable def finalTier (rules : List Rule) (memo : OrderedDict String Nat) (rule : Rule) : Nat :=
  if rule ∈ rules then (memo.get? (metadata rule).ruleId).getD 0
  else tierOfCategory (metadata rule).implementationCategory

/-- Groups of rules are what the planner promises with respect to the final tiers. -/
structure RespectsTiers (rules : List Rule) (tier : Rule → Nat) (groups : List (List Rule)) : Prop where
  nonempty : [] ∉ groups
  partition : groups.flatten.Perm rules
  inputOrder : ∀ group ∈ groups, group.Sublist rules
  byTier : ∀ i j first second, first ∈ groups.getD i [] → second ∈ groups.getD j [] →
    (i < j ↔ tier first < tier second)
  afterDependencies : ∀ i j rule dependency, rule ∈ groups.getD i [] → dependency ∈ groups.getD j [] →
    DependsOn metadata rules rule dependency → j < i
  least : IsLeveling (DependsOn metadata rules)
    (fun rule => tierOfCategory (metadata rule).implementationCategory) tier

variable {metadata}

/-- The tier of a listed rule is the memoised one. -/
theorem finalTier_listed {memo : OrderedDict String Nat} {rule : Rule} {number : Nat}
    (listed : rule ∈ rules) (found : memo.get? (metadata rule).ruleId = some number) :
    finalTier metadata rules memo rule = number := by
  rw [finalTier, if_pos listed, found, Option.getD_some]

theorem finalTier_leveling (distinct : (rules.map fun rule => (metadata rule).ruleId).Nodup)
    {memo : OrderedDict String Nat} (settled : MemoSettled metadata rules memo)
    (complete : ∀ rule ∈ rules, ∃ tier, memo.get? (metadata rule).ruleId = some tier) :
    IsLeveling (DependsOn metadata rules)
      (fun rule => tierOfCategory (metadata rule).implementationCategory)
      (finalTier metadata rules memo) := by
  intro rule
  by_cases listed : rule ∈ rules
  · obtain ⟨tier, found⟩ := complete rule listed
    have here := settled _ _ found
    have base := baseTier_listed distinct listed
    rw [finalTier_listed listed found]
    constructor
    · constructor
      · exact base.symm.le.trans here.above
      · intro dependency edge
        obtain ⟨lower, foundLower, less⟩ :=
          here.exceeds _ ((leadsTo_iff distinct _ _).mpr ⟨rule, dependency, edge, rfl, rfl⟩)
        rw [finalTier_listed edge.2.1 foundLower]
        exact less
    · intro number bounds
      cases here.reached with
      | inl same =>
          rw [same, base]
          exact bounds.1
      | inr lifted =>
          obtain ⟨dependencyId, lower, leads, foundLower, same⟩ := lifted
          obtain ⟨source, dependency, edge, sameSource, sameDependency⟩ := (leadsTo_iff distinct _ _).mp leads
          have joined : source = rule := rule_unique distinct edge.1 listed sameSource
          subst joined sameDependency
          have less := bounds.2 dependency edge
          rw [finalTier_listed edge.2.1 foundLower] at less
          omega
  · have free : ∀ dependency, ¬ DependsOn metadata rules rule dependency := fun _ edge => listed edge.1
    rw [finalTier, if_neg listed]
    constructor
    · exact ⟨le_rfl, fun dependency edge => absurd edge (free dependency)⟩
    · intro number bounds
      exact bounds.1

theorem groupRules_eq {memo : OrderedDict String Nat} (items : List Rule)
    (listed : ∀ rule ∈ items, rule ∈ rules)
    (complete : ∀ rule ∈ rules, ∃ tier, memo.get? (metadata rule).ruleId = some tier)
    (groups : OrderedDict Nat (List Rule)) :
    items.foldlM (fun groups rule =>
      match memo.get? (metadata rule).ruleId with
      | some tier => .ok (addToGroup tier rule groups)
      | none => .error (.keyError (metadata rule).ruleId)) groups =
      (.ok (items.foldl (fun groups rule => addToGroup (finalTier metadata rules memo rule) rule groups) groups) :
        Except PlanError _) := by
  induction items generalizing groups with
  | nil => rfl
  | cons rule rest ih =>
      have here := listed rule (by simp)
      obtain ⟨tier, found⟩ := complete rule here
      rw [List.foldlM_cons, List.foldl_cons, found, finalTier_listed here found]
      exact ih (fun other inside => listed other (List.mem_cons_of_mem _ inside)) _

/-- The groups of a tier function with levels keep all promises. -/
theorem respects_of_leveling (distinct : (rules.map fun rule => (metadata rule).ruleId).Nodup)
    {tier : Rule → Nat}
    (leveled : IsLeveling (DependsOn metadata rules)
      (fun rule => tierOfCategory (metadata rule).implementationCategory) tier) :
    RespectsTiers metadata rules tier
      ((sortedTiers tier rules).map fun number => rules.filter fun rule => tier rule = number) := by
  have sorted := sortedTiers_sorted tier rules
  have tierAt : ∀ i rule, rule ∈ ((sortedTiers tier rules).map fun number =>
      rules.filter fun rule => tier rule = number).getD i [] →
      ∃ inside : i < (sortedTiers tier rules).length, (sortedTiers tier rules)[i] = tier rule := by
    intro i rule found
    rw [List.getD_eq_getElem?_getD, List.getElem?_map] at found
    cases number : (sortedTiers tier rules)[i]? with
    | none => simp [number] at found
    | some value =>
        obtain ⟨inside, same⟩ := List.getElem?_eq_some_iff.mp number
        simp only [number, Option.map_some, Option.getD_some, List.mem_filter, decide_eq_true_eq] at found
        exact ⟨inside, same.trans found.2.symm⟩
  have byTier : ∀ i j first second, first ∈ ((sortedTiers tier rules).map fun number =>
      rules.filter fun rule => tier rule = number).getD i [] → second ∈ ((sortedTiers tier rules).map
      fun number => rules.filter fun rule => tier rule = number).getD j [] →
      (i < j ↔ tier first < tier second) := by
    intro i j first second firstFound secondFound
    obtain ⟨iInside, firstTier⟩ := tierAt i first firstFound
    obtain ⟨jInside, secondTier⟩ := tierAt j second secondFound
    rw [← firstTier, ← secondTier]
    have increasing := List.pairwise_iff_getElem.mp sorted
    constructor
    · exact increasing i j iInside jInside
    · intro less
      by_contra later
      cases (not_lt.mp later).lt_or_eq with
      | inl before => exact less.asymm (increasing j i jInside iInside before)
      | inr same => simp [same] at less
  constructor
  · intro empty
    obtain ⟨number, inside, same⟩ := List.mem_map.mp empty
    obtain ⟨rule, listed, equal⟩ := (mem_sortedTiers tier rules number).mp inside
    have member : rule ∈ rules.filter fun rule => tier rule = number := by simp [listed, equal]
    rw [same] at member
    cases member
  · have rulesNodup : rules.Nodup := List.Nodup.of_map _ distinct
    rw [List.perm_ext_iff_of_nodup _ rulesNodup]
    · intro rule
      simp only [List.mem_flatten, List.mem_map, exists_exists_and_eq_and, List.mem_filter,
        decide_eq_true_eq, mem_sortedTiers]
      constructor
      · intro found
        obtain ⟨_, _, member⟩ := found
        exact member.1
      · intro listed
        exact ⟨rule, listed, listed, rfl⟩
    · rw [List.nodup_flatten]
      constructor
      · intro group inside
        obtain ⟨number, _, rfl⟩ := List.mem_map.mp inside
        exact rulesNodup.filter _
      · apply List.Pairwise.map _ _ sorted
        intro first second less rule inFirst inSecond
        have firstTier : tier rule = first := by simpa using (List.mem_filter.mp inFirst).2
        have secondTier : tier rule = second := by simpa using (List.mem_filter.mp inSecond).2
        omega
  · intro group inside
    obtain ⟨number, _, rfl⟩ := List.mem_map.mp inside
    exact List.filter_sublist
  · exact byTier
  · intro i j rule dependency ruleFound dependencyFound edge
    exact (byTier j i dependency rule dependencyFound ruleFound).mpr (leveled.lt edge)
  · exact leveled

/-- The plan of an order is a cycle that exists or the groups of a tier function with levels. -/
theorem resolveExecutionGroupsIn_outcome (distinct : (rules.map fun rule => (metadata rule).ruleId).Nodup)
    {order : List Rule} (rearranged : order.Perm rules) :
    (∃ message, resolveExecutionGroupsIn metadata order rules = .error (.cyclicRuleDependency message) ∧
      ∃ rule, Relation.TransGen (DependsOn metadata rules) rule rule) ∨
    ∃ tier, IsLeveling (DependsOn metadata rules)
        (fun rule => tierOfCategory (metadata rule).implementationCategory) tier ∧
      resolveExecutionGroupsIn metadata order rules =
        .ok ((sortedTiers tier rules).map fun number => rules.filter fun rule => tier rule = number) := by
  cases resolveAll_outcome distinct order (fun rule found => rearranged.mem_iff.mp found) with
  | inl raised =>
      obtain ⟨message, failed, cyclic⟩ := raised
      refine .inl ⟨message, ?_, (cyclic_iff distinct).mp cyclic⟩
      rw [resolveExecutionGroupsIn, failed]
      rfl
  | inr resolved =>
      obtain ⟨memo, answered, settled, complete⟩ := resolved
      have all : ∀ rule ∈ rules, ∃ tier, memo.get? (metadata rule).ruleId = some tier :=
        fun rule listed => complete rule (rearranged.mem_iff.mpr listed)
      refine .inr ⟨finalTier metadata rules memo, finalTier_leveling distinct settled all, ?_⟩
      have grouped : groupRules metadata memo rules = .ok (rules.foldl
          (fun groups rule => addToGroup (finalTier metadata rules memo rule) rule groups) .empty) :=
        groupRules_eq rules (fun _ listed => listed) all .empty
      rw [resolveExecutionGroupsIn, answered, ← orderedGroups_eq]
      change (groupRules metadata memo rules >>= fun groups => pure (orderedGroups groups)) = _
      rw [grouped]
      rfl

/-- The planner fails exactly on a cycle and its groups respect the tiers, in every order of resolution. -/
theorem resolveExecutionGroups_respects (rules order : List Rule)
    (distinct : (rules.map fun rule => (metadata rule).ruleId).Nodup) (rearranged : order.Perm rules) :
    ((∃ message, resolveExecutionGroupsIn metadata order rules =
        .error (.cyclicRuleDependency message)) ↔
      ∃ rule, Relation.TransGen (DependsOn metadata rules) rule rule) ∧
    ((¬ ∃ rule, Relation.TransGen (DependsOn metadata rules) rule rule) →
      ∃ tier groups, resolveExecutionGroupsIn metadata order rules = .ok groups ∧
        resolveExecutionGroups metadata rules = .ok groups ∧
        RespectsTiers metadata rules tier groups) := by
  constructor
  · constructor
    · intro raised
      obtain ⟨message, failed⟩ := raised
      cases resolveExecutionGroupsIn_outcome distinct rearranged with
      | inl cyclic => exact cyclic.choose_spec.2
      | inr resolved =>
          obtain ⟨tier, _, answered⟩ := resolved
          rw [answered] at failed
          cases failed
    · intro cyclic
      cases resolveExecutionGroupsIn_outcome distinct rearranged with
      | inl raised => exact ⟨raised.choose, raised.choose_spec.1⟩
      | inr resolved =>
          obtain ⟨tier, leveled, _⟩ := resolved
          obtain ⟨rule, path⟩ := cyclic
          exact absurd path (leveled.acyclic rule)
  · intro acyclic
    cases resolveExecutionGroupsIn_outcome distinct rearranged with
    | inl raised => exact absurd raised.choose_spec.2 acyclic
    | inr resolved =>
        obtain ⟨tier, leveled, answered⟩ := resolved
        cases resolveExecutionGroupsIn_outcome distinct (List.Perm.refl rules) with
        | inl raised => exact absurd raised.choose_spec.2 acyclic
        | inr inOrder =>
            obtain ⟨other, otherLeveled, inOrderAnswered⟩ := inOrder
            have same : tier = other := leveled.unique otherLeveled
            subst same
            exact ⟨tier, _, answered, inOrderAnswered, respects_of_leveling distinct leveled⟩

end Plan

/-- Two rules share a dependency, one of them also names a rule that is not listed. -/
def diamondRules : List RuleMetadata :=
  [⟨"top", "A_ast_only", ["left", "right"]⟩, ⟨"left", "B_type_system", ["bottom", "unlisted"]⟩,
    ⟨"right", "unknown", ["bottom"]⟩, ⟨"bottom", "A_ast_only", []⟩]

/-- The diamond is resolved from the last rule to the first and is no cycle. -/
theorem resolveExecutionGroups_respects_diamond :
    (diamondRules.map fun rule => rule.ruleId).Nodup ∧ diamondRules.reverse.Perm diamondRules ∧
    ((∃ message, resolveExecutionGroupsIn id diamondRules.reverse diamondRules =
        .error (.cyclicRuleDependency message)) ↔
      ∃ rule, Relation.TransGen (DependsOn id diamondRules) rule rule) ∧
    ((¬ ∃ rule, Relation.TransGen (DependsOn id diamondRules) rule rule) →
      ∃ tier groups, resolveExecutionGroupsIn id diamondRules.reverse diamondRules = .ok groups ∧
        resolveExecutionGroups id diamondRules = .ok groups ∧
        RespectsTiers id diamondRules tier groups) :=
  ⟨by decide, List.reverse_perm _,
    resolveExecutionGroups_respects diamondRules diamondRules.reverse (by decide) (List.reverse_perm _)⟩

example : (resolveExecutionGroups id diamondRules).toOption.map (List.map (List.map (·.ruleId))) =
    some [["bottom"], ["left", "right"], ["top"]] := by decide

end MisraPlatform.ExecutionPlanner
