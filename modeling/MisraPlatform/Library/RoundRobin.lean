import MisraPlatform.Library.OrderedDict
import Mathlib.Algebra.BigOperators.Group.List.Lemmas
import Mathlib.Algebra.GroupWithZero.Nat
import Mathlib.Algebra.Order.BigOperators.Group.List
import Mathlib.Algebra.Order.Group.Nat
import Mathlib.Data.Finset.Card
import Mathlib.Logic.Function.Basic
import Mathlib.Logic.Relation
import Mathlib.Order.BoundedOrder.Basic
import Mathlib.Order.Monotone.Basic

/-
This file is the round-robin iteration of the equations of a table up to its fixed point.
-/

namespace MisraPlatform.RoundRobin

variable {κ σ : Type} [DecidableEq κ]

/-- A key outside the table has the least value. -/
def read [Bot σ] (table : OrderedDict κ σ) (key : κ) : σ := (table.get? key).getD ⊥

theorem read_insert [Bot σ] (table : OrderedDict κ σ) (key : κ) (value : σ) :
    read (table.insert key value) = Function.update (read table) key value := by
  funext query
  rw [read, OrderedDict.get?_insert, Function.update_apply]
  by_cases same : query = key
  · simp [same]
  · rw [if_neg same, if_neg same, read]

/-- Every key starts with the least value. -/
def initial [Bot σ] (keys : List κ) : OrderedDict κ σ :=
  keys.foldl (fun table key => table.insert key ⊥) .empty

theorem read_initial [Bot σ] (keys : List κ) : read (initial keys : OrderedDict κ σ) = fun _ => ⊥ := by
  have fold : ∀ table : OrderedDict κ σ, read table = (fun _ => ⊥) →
      read (keys.foldl (fun table key => table.insert key ⊥) table) = fun _ => ⊥ := by
    induction keys with
    | nil => exact fun table least => least
    | cons key rest ih =>
        intro table least
        apply ih
        rw [read_insert, least]
        funext query
        simp [Function.update_apply]
  exact fold .empty rfl

/-- Distinct keys stand in the table in their order. -/
theorem keys_initial [Bot σ] (keys : List κ) (distinct : keys.Nodup) :
    (initial keys : OrderedDict κ σ).keys = keys := by
  have fold : ∀ (rest : List κ) (table : OrderedDict κ σ), (table.keys ++ rest).Nodup →
      (rest.foldl (fun table key => table.insert key ⊥) table).keys = table.keys ++ rest := by
    intro rest
    induction rest with
    | nil => simp
    | cons key rest ih =>
        intro table nodup
        have absent : key ∉ table.keys := fun present =>
          (List.nodup_append.mp nodup).2.2 key present key List.mem_cons_self rfl
        have grown := table.keys_insert_of_absent key ⊥ absent
        rw [List.foldl_cons, ih, grown, List.append_assoc, List.singleton_append]
        rwa [grown, List.append_assoc, List.singleton_append]
  exact fold keys .empty distinct

section Loop

variable [DecidableEq σ] [Bot σ] (update : κ → (κ → σ) → σ)

/-- A visit recomputes the value of one key and records whether it changed. -/
def visit (pass : OrderedDict κ σ × Bool) (key : κ) : OrderedDict κ σ × Bool :=
  let value := update key (read pass.1)
  if value = read pass.1 key then pass else (pass.1.insert key value, true)

def sweep (keys : List κ) (table : OrderedDict κ σ) : OrderedDict κ σ × Bool :=
  keys.foldl (visit update) (table, false)

/-- The sweeps go on until one of them changes nothing. -/
def iterate (keys : List κ) : Nat → OrderedDict κ σ → Option (OrderedDict κ σ)
  | 0, _ => none
  | fuel + 1, table =>
      let pass := sweep update keys table
      if pass.2 then iterate keys fuel pass.1 else some pass.1

theorem visit_cases (pass : OrderedDict κ σ × Bool) (key : κ) :
    (update key (read pass.1) = read pass.1 key ∧ visit update pass key = pass) ∨
      (update key (read pass.1) ≠ read pass.1 key ∧
        read (visit update pass key).1 =
          Function.update (read pass.1) key (update key (read pass.1)) ∧
        (visit update pass key).2 = true) := by
  by_cases same : update key (read pass.1) = read pass.1 key
  · exact .inl ⟨same, if_pos same⟩
  · refine .inr ⟨same, ?_, ?_⟩ <;> rw [visit, if_neg same]
    exact read_insert pass.1 key _

/-! ### Invariants and fixed points -/

section Invariants

variable {update}

/-- An update of a listed key keeps the invariant. -/
def Keeps (update : κ → (κ → σ) → σ) (keys : List κ) (good : (κ → σ) → Prop) : Prop :=
  ∀ values, ∀ key ∈ keys, good values → good (Function.update values key (update key values))

theorem foldl_keeps {good : (κ → σ) → Prop} {keys : List κ} (keeps : Keeps update keys good)
    (visited : List κ) (inside : ∀ key ∈ visited, key ∈ keys) (pass : OrderedDict κ σ × Bool)
    (start : good (read pass.1)) : good (read (visited.foldl (visit update) pass).1) := by
  induction visited generalizing pass with
  | nil => exact start
  | cons key rest ih =>
      apply ih fun other later => inside other (List.mem_cons_of_mem _ later)
      rcases visit_cases update pass key with ⟨_, same⟩ | ⟨_, changed, _⟩
      · rwa [same]
      · rw [changed]
        exact keeps _ key (inside key List.mem_cons_self) start

theorem iterate_keeps {good : (κ → σ) → Prop} {keys : List κ} (keeps : Keeps update keys good)
    {fuel : Nat} {table result : OrderedDict κ σ} (found : iterate update keys fuel table = some result)
    (start : good (read table)) : good (read result) := by
  induction fuel generalizing table with
  | zero => simp [iterate] at found
  | succ fuel ih =>
      have swept : good (read (sweep update keys table).1) := foldl_keeps keeps keys (fun _ inside => inside) (table, false) start
      simp only [iterate] at found
      split at found
      · exact ih found swept
      · cases found
        exact swept

end Invariants

theorem foldl_changed (keys : List κ) (pass : OrderedDict κ σ × Bool) (changed : pass.2 = true) :
    (keys.foldl (visit update) pass).2 = true := by
  induction keys generalizing pass with
  | nil => exact changed
  | cons key rest ih =>
      apply ih
      rcases visit_cases update pass key with ⟨_, same⟩ | ⟨_, _, flag⟩
      · rwa [same]
      · exact flag

/-- A sweep that changes nothing finds every key at its fixed point. -/
theorem foldl_unchanged (keys : List κ) (pass : OrderedDict κ σ × Bool)
    (unchanged : (keys.foldl (visit update) pass).2 = false) :
    keys.foldl (visit update) pass = pass ∧
      ∀ key ∈ keys, update key (read pass.1) = read pass.1 key := by
  induction keys generalizing pass with
  | nil => exact ⟨rfl, by simp⟩
  | cons key rest ih =>
      rcases visit_cases update pass key with ⟨fixed, same⟩ | ⟨_, _, flag⟩
      · rw [List.foldl_cons, same] at unchanged ⊢
        obtain ⟨stays, others⟩ := ih pass unchanged
        refine ⟨stays, fun other inside => ?_⟩
        rcases List.mem_cons.mp inside with rfl | later
        · exact fixed
        · exact others other later
      · have late := foldl_changed update rest _ flag
        rw [List.foldl_cons, late] at unchanged
        exact absurd unchanged (by simp)

variable {update}

/-- The result is a fixed point at every key. -/
theorem iterate_fixed (keys : List κ) {fuel : Nat} {table result : OrderedDict κ σ}
    (found : iterate update keys fuel table = some result) :
    ∀ key ∈ keys, update key (read result) = read result key := by
  induction fuel generalizing table with
  | zero => simp [iterate] at found
  | succ fuel ih =>
      simp only [iterate] at found
      split at found
      · exact ih found
      · rename_i unchanged
        obtain ⟨stays, fixed⟩ := foldl_unchanged update keys (table, false)
          (by simpa [sweep] using unchanged)
        cases found
        rw [sweep, stays]
        exact fixed

/-- The iteration writes to no key outside its list. -/
theorem iterate_keys {keys : List κ} {fuel : Nat} {table result : OrderedDict κ σ}
    (found : iterate update keys fuel table = some result)
    (listed : ∀ key ∈ keys, key ∈ table.keys) : result.keys = table.keys := by
  have step : ∀ (pass : OrderedDict κ σ × Bool), ∀ key ∈ keys, pass.1.keys = table.keys →
      (visit update pass key).1.keys = table.keys := by
    intro pass key inside same
    simp only [visit]
    split
    · exact same
    · rw [OrderedDict.insert, dif_pos (same ▸ listed key inside), OrderedDict.keys_modify, same]
  have swept : ∀ (some : List κ) (pass : OrderedDict κ σ × Bool), (∀ key ∈ some, key ∈ keys) →
      pass.1.keys = table.keys → (some.foldl (visit update) pass).1.keys = table.keys := by
    intro some
    induction some with
    | nil => exact fun pass _ same => same
    | cons key rest ih =>
        intro pass inside same
        exact ih _ (fun other later => inside other (List.mem_cons_of_mem _ later))
          (step pass key (inside key List.mem_cons_self) same)
  have rounds : ∀ (fuel : Nat) (start : OrderedDict κ σ), start.keys = table.keys →
      iterate update keys fuel start = some result → result.keys = table.keys := by
    intro fuel
    induction fuel with
    | zero => simp [iterate]
    | succ fuel ih =>
        intro start same reached
        have next : (sweep update keys start).1.keys = table.keys :=
          swept keys (start, false) (fun _ inside => inside) same
        simp only [iterate] at reached
        split at reached
        · exact ih _ next reached
        · cases reached
          exact next
  exact rounds fuel table rfl found

/-- The iteration from the least table returns a value for every key. -/
theorem iterate_initial_keys {keys : List κ} (distinct : keys.Nodup) {fuel : Nat}
    {result : OrderedDict κ σ} (found : iterate update keys fuel (initial keys) = some result) :
    result.keys = keys := by
  have start := keys_initial (σ := σ) keys distinct
  rw [iterate_keys found fun key inside => by rwa [start], start]

end Loop

/-! ### Termination -/

section Climb

variable [DecidableEq σ] [PartialOrder σ] [OrderBot σ] {update : κ → (κ → σ) → σ}

/-- The equations are monotone and stay below a value of finite rank. -/
structure Climbs (update : κ → (κ → σ) → σ) (keys : List κ) (rank : σ → Nat) (top : σ) : Prop where
  mono : ∀ low high : κ → σ, (∀ key, low key ≤ high key) → ∀ key, update key low ≤ update key high
  below : ∀ values : κ → σ, (∀ key, values key ≤ top) → ∀ key ∈ keys, update key values ≤ top
  strict : StrictMono rank

/-- No equation lowers the value of its key, and every value stays below the top. -/
def Rising (update : κ → (κ → σ) → σ) (top : σ) (values : κ → σ) : Prop :=
  (∀ key, values key ≤ update key values) ∧ ∀ key, values key ≤ top

variable {keys : List κ} {rank : σ → Nat} {top : σ} (climbs : Climbs update keys rank top)

include climbs

omit [DecidableEq σ] [OrderBot σ] in
theorem Climbs.keeps : Keeps update keys (Rising update top) := by
  intro values key inside rising
  have higher : ∀ query, values query ≤ Function.update values key (update key values) query := by
    intro query
    rw [Function.update_apply]
    split
    · rename_i same
      exact same ▸ rising.1 key
    · exact le_refl _
  refine ⟨fun query => ?_, fun query => ?_⟩
  · have later := climbs.mono values _ higher query
    rw [Function.update_apply]
    split
    · rename_i same
      exact same ▸ later
    · exact (rising.1 query).trans later
  · rw [Function.update_apply]
    split
    · exact climbs.below values rising.2 key inside
    · exact rising.2 query

theorem Climbs.start : Rising update top fun _ => ⊥ :=
  ⟨fun _ => bot_le, fun _ => bot_le⟩

/-- The ranks of the values of all keys are added up. -/
def total (keys : List κ) (rank : σ → Nat) (values : κ → σ) : Nat :=
  (keys.map fun key => rank (values key)).sum

omit [DecidableEq κ] [DecidableEq σ] [OrderBot σ] in
theorem Climbs.total_le {values : κ → σ} (rising : Rising update top values) :
    total keys rank values ≤ keys.length * rank top := by
  have bound := List.sum_le_card_nsmul (keys.map fun key => rank (values key)) (rank top) (by
    intro value inside
    obtain ⟨key, _, rfl⟩ := List.mem_map.mp inside
    exact climbs.strict.monotone (rising.2 key))
  simpa [total] using bound

omit [DecidableEq σ] [OrderBot σ] in
theorem Climbs.total_lt {key : κ} (inside : key ∈ keys) {values : κ → σ}
    (rising : Rising update top values) (changed : update key values ≠ values key) :
    total keys rank values < total keys rank (Function.update values key (update key values)) := by
  have rises : rank (values key) < rank (update key values) :=
    climbs.strict (lt_of_le_of_ne (rising.1 key) (Ne.symm changed))
  apply List.sum_lt_sum
  · intro query _
    rw [Function.update_apply]
    split
    · rename_i same
      exact same ▸ rises.le
    · exact le_refl _
  · exact ⟨key, inside, by rwa [Function.update_self]⟩

/-- A sweep that changes the table raises its total. -/
theorem Climbs.foldl_total (visited : List κ) (inside : ∀ key ∈ visited, key ∈ keys)
    (pass : OrderedDict κ σ × Bool) (rising : Rising update top (read pass.1)) :
    total keys rank (read pass.1) ≤ total keys rank (read (visited.foldl (visit update) pass).1) ∧
      (pass.2 = false → (visited.foldl (visit update) pass).2 = true →
        total keys rank (read pass.1) <
          total keys rank (read (visited.foldl (visit update) pass).1)) := by
  induction visited generalizing pass with
  | nil => exact ⟨le_refl _, fun unset set => absurd (unset.symm.trans set) (by simp)⟩
  | cons key rest ih =>
      have later : ∀ other ∈ rest, other ∈ keys := fun other listed =>
        inside other (List.mem_cons_of_mem _ listed)
      rcases visit_cases update pass key with ⟨_, same⟩ | ⟨moved, changed, _⟩
      · rw [List.foldl_cons, same]
        exact ih later pass rising
      · have rises := climbs.total_lt (inside key List.mem_cons_self) rising moved
        have next := (ih later (visit update pass key) (by
          rw [changed]
          exact climbs.keeps _ key (inside key List.mem_cons_self) rising)).1
        rw [changed] at next
        exact ⟨(rises.trans_le next).le, fun _ _ => rises.trans_le next⟩

/-- The total is bounded, so enough fuel ends the iteration. -/
theorem Climbs.iterate_isSome {fuel : Nat} {table : OrderedDict κ σ}
    (rising : Rising update top (read table))
    (enough : keys.length * rank top < fuel + total keys rank (read table)) :
    (iterate update keys fuel table).isSome := by
  induction fuel generalizing table with
  | zero =>
      have bound := climbs.total_le rising
      omega
  | succ fuel ih =>
      simp only [iterate]
      split
      · rename_i changed
        have rises := (climbs.foldl_total keys (fun _ inside => inside) (table, false) rising).2 rfl
          changed
        apply ih (foldl_keeps climbs.keeps keys (fun _ inside => inside) (table, false) rising)
        dsimp only at rises ⊢
        omega
      · rfl

/-- The iteration from the least table ends. -/
theorem Climbs.solves :
    ∃ result, iterate update keys (keys.length * rank top + 1) (initial keys) = some result := by
  apply Option.isSome_iff_exists.mp
  apply climbs.iterate_isSome
  · rw [read_initial]
    exact climbs.start
  · omega

end Climb

/-! ### Facts -/

/-- Facts are generated at a key or come over an edge from another fact. -/
structure Flow (κ α : Type) where
  edge : κ → κ → Prop
  gen : κ → α → Prop
  pass : κ → α → α → Prop

inductive Flow.Derives {α : Type} (flow : Flow κ α) : κ → α → Prop
  | gen {key : κ} {fact : α} (generated : flow.gen key fact) : flow.Derives key fact
  | pass {source key : κ} {before fact : α} (known : flow.Derives source before)
      (edge : flow.edge source key) (passes : flow.pass key before fact) : flow.Derives key fact

section Facts

variable {α : Type} [DecidableEq σ] [Bot σ] {update : κ → (κ → σ) → σ} {flow : Flow κ α}
  {facts : σ → Finset α}

/-- The equations compute the facts of a flow between the listed keys. -/
structure Computes (update : κ → (κ → σ) → σ) (facts : σ → Finset α) (flow : Flow κ α)
    (keys : List κ) : Prop where
  empty : facts ⊥ = ∅
  mem : ∀ values key fact, fact ∈ facts (update key values) ↔ flow.gen key fact ∨
    ∃ source before, flow.edge source key ∧ before ∈ facts (values source) ∧
      flow.pass key before fact
  listed : ∀ source key, flow.edge source key → source ∈ keys ∧ key ∈ keys

/-- The iteration ends with exactly the facts that the flow derives. -/
theorem Computes.mem_iff {keys : List κ} (computes : Computes update facts flow keys) {fuel : Nat}
    {result : OrderedDict κ σ} (found : iterate update keys fuel (initial keys) = some result) {key : κ}
    (inside : key ∈ keys) (fact : α) : fact ∈ facts (read result key) ↔ flow.Derives key fact := by
  constructor
  · intro known
    have keeps : Keeps update keys fun values =>
        ∀ key, ∀ fact ∈ facts (values key), flow.Derives key fact := by
      intro values key _ sound query fact listed
      rw [Function.update_apply] at listed
      split at listed
      · rename_i same
        subst same
        rcases (computes.mem values query fact).mp listed with generated |
          ⟨source, before, edge, old, passes⟩
        · exact .gen generated
        · exact .pass (sound source before old) edge passes
      · exact sound query fact listed
    apply iterate_keeps keeps found _ key fact known
    intro query fact listed
    rw [read_initial, computes.empty] at listed
    simp at listed
  · intro derives
    have fixed := iterate_fixed keys found
    induction derives with
    | @gen key fact generated =>
        rw [← fixed key inside]
        exact (computes.mem _ key fact).mpr (.inl generated)
    | @pass source key before fact _ edge passes ih =>
        rw [← fixed key inside]
        exact (computes.mem _ key fact).mpr
          (.inr ⟨source, before, edge, ih (computes.listed source key edge).1, passes⟩)

end Facts

/-! ### Distributive transfer functions -/

section Distributive

variable {α ι : Type}

/-- The function generates some facts and carries every other fact over on its own. -/
def Distributes (transfer : Finset α → Finset α) : Prop :=
  ∀ facts fact, fact ∈ transfer facts ↔ fact ∈ transfer ∅ ∨ ∃ before ∈ facts, fact ∈ transfer {before}

theorem distributes_id : Distributes (id : Finset α → Finset α) := by
  intro facts fact
  simp

theorem Distributes.comp {first second : Finset α → Finset α} (inner : Distributes first)
    (outer : Distributes second) : Distributes fun facts => second (first facts) := by
  intro facts fact
  rw [outer (first facts), outer (first ∅)]
  constructor
  · rintro (generated | ⟨middle, known, carried⟩)
    · exact .inl (.inl generated)
    · rcases (inner facts middle).mp known with old | ⟨before, inside, passed⟩
      · exact .inl (.inr ⟨middle, old, carried⟩)
      · exact .inr ⟨before, inside, (outer _ fact).mpr (.inr ⟨middle, passed, carried⟩)⟩
  · rintro ((generated | ⟨middle, old, carried⟩) | ⟨before, inside, known⟩)
    · exact .inl generated
    · exact .inr ⟨middle, (inner facts middle).mpr (.inl old), carried⟩
    · rcases (outer _ fact).mp known with generated | ⟨middle, passed, carried⟩
      · exact .inl generated
      · exact .inr ⟨middle, (inner facts middle).mpr (.inr ⟨before, inside, passed⟩), carried⟩

theorem distributes_foldl {transfer : ι → Finset α → Finset α} (each : ∀ item, Distributes (transfer item))
    (items : List ι) : Distributes fun facts => items.foldl (fun facts item => transfer item facts) facts := by
  induction items with
  | nil => exact distributes_id
  | cons item rest ih => exact (each item).comp ih

theorem Distributes.mono {transfer : Finset α → Finset α} (distributes : Distributes transfer)
    {low high : Finset α} (smaller : low ⊆ high) : transfer low ⊆ transfer high := by
  intro fact known
  refine (distributes high fact).mpr (((distributes low fact).mp known).imp id ?_)
  rintro ⟨before, inside, carried⟩
  exact ⟨before, smaller inside, carried⟩

variable {transfer : κ → Finset α → Finset α} {edge : κ → κ → Prop} {keys : List κ}

/-- The facts arrive at a key over a path that starts without any. -/
inductive Arrives (transfer : κ → Finset α → Finset α) (edge : κ → κ → Prop) (keys : List κ) :
    κ → Finset α → Prop
  | start {key : κ} (inside : key ∈ keys) : Arrives transfer edge keys key ∅
  | follow {source key : κ} {facts : Finset α} (before : Arrives transfer edge keys source facts)
      (step : edge source key) : Arrives transfer edge keys key (transfer source facts)

omit [DecidableEq κ] in
/-- Only the members of the list of keys matter. -/
theorem Arrives.widen {wider : List κ} (subset : ∀ key ∈ keys, key ∈ wider) {key : κ}
    {facts : Finset α} (arrives : Arrives transfer edge keys key facts) :
    Arrives transfer edge wider key facts := by
  induction arrives with
  | start inside => exact .start (subset _ inside)
  | follow _ step ih => exact ih.follow step

/-- This is the flow of the facts that the transfer functions carry over. -/
def transferFlow (transfer : κ → Finset α → Finset α) (edge : κ → κ → Prop) : Flow κ α where
  edge := edge
  gen key fact := fact ∈ transfer key ∅
  pass key before fact := fact ∈ transfer key {before}

omit [DecidableEq κ] in
/-- A fact is derived when some path carries it to the end of its key. -/
theorem transferFlow_derives (each : ∀ key, Distributes (transfer key))
    (listed : ∀ source key, edge source key → source ∈ keys ∧ key ∈ keys) {key : κ}
    (inside : key ∈ keys) (fact : α) : (transferFlow transfer edge).Derives key fact ↔
      ∃ facts, Arrives transfer edge keys key facts ∧ fact ∈ transfer key facts := by
  constructor
  · intro derives
    induction derives with
    | gen generated => exact ⟨∅, .start inside, generated⟩
    | @pass source key before fact _ step passes ih =>
        obtain ⟨facts, arrives, known⟩ := ih (listed source key step).1
        exact ⟨_, arrives.follow step, (each key _ fact).mpr (.inr ⟨before, known, passes⟩)⟩
  · rintro ⟨facts, arrives, known⟩
    clear inside
    induction arrives generalizing fact with
    | start _ => exact .gen known
    | @follow source key facts _ step ih =>
        rcases (each key _ fact).mp known with generated | ⟨before, carried, passes⟩
        · exact .gen generated
        · exact .pass (ih before carried) step passes

omit [DecidableEq κ] in
/-- A set that joins the facts of all sources gives a transfer the facts of all paths. -/
theorem mem_transfer_joined (listed : ∀ source key, edge source key → source ∈ keys ∧ key ∈ keys)
    {values : κ → Finset α} (solved : ∀ key ∈ keys, ∀ fact, fact ∈ values key ↔
      ∃ facts, Arrives transfer edge keys key facts ∧ fact ∈ transfer key facts)
    {key : κ} (inside : key ∈ keys) {joined : Finset α}
    (joins : ∀ fact, fact ∈ joined ↔ ∃ source, edge source key ∧ fact ∈ values source)
    {scan : Finset α → Finset α} (distributes : Distributes scan) (fact : α) :
    fact ∈ scan joined ↔ ∃ facts, Arrives transfer edge keys key facts ∧ fact ∈ scan facts := by
  constructor
  · intro known
    rcases (distributes joined fact).mp known with generated | ⟨before, old, carried⟩
    · exact ⟨∅, .start inside, generated⟩
    · obtain ⟨source, step, found⟩ := (joins before).mp old
      obtain ⟨facts, arrives, passed⟩ := (solved source (listed source key step).1 before).mp found
      exact ⟨_, arrives.follow step, (distributes _ fact).mpr (.inr ⟨before, passed, carried⟩)⟩
  · rintro ⟨facts, arrives, known⟩
    refine distributes.mono ?_ known
    cases arrives with
    | start _ => exact Finset.empty_subset _
    | @follow source _ facts before step =>
        intro old passed
        exact (joins old).mpr ⟨source, step,
          (solved source (listed source key step).1 old).mpr ⟨facts, before, passed⟩⟩

end Distributive

end MisraPlatform.RoundRobin
