import Mathlib.Data.Finset.Card
import Mathlib.Data.Finset.Lattice.Fold
import Mathlib.Data.Nat.Lattice
import Mathlib.Logic.Function.Iterate
import Mathlib.Order.Interval.Finset.Nat

/-
This file is the repeated sweep over a list of assignments that only add to the sets of variables.
-/

namespace MisraPlatform.Sweep

variable {α ν φ : Type} [DecidableEq ν] [DecidableEq φ]

/-- An assignment adds a value to one variable. The value depends on the sets so far. -/
structure Rules (α ν φ : Type) where
  target : α → ν
  value : α → (ν → Finset φ) → Finset φ

namespace Rules

variable (rules : Rules α ν φ)

def step (sets : ν → Finset φ) (assignment : α) : ν → Finset φ :=
  Function.update sets (rules.target assignment)
    (sets (rules.target assignment) ∪ rules.value assignment sets)

def sweep (assignments : List α) (sets : ν → Finset φ) : ν → Finset φ := assignments.foldl rules.step sets

/-- The sets stand before each turn. -/
def timeline (turn : ℕ → α) (start : ν → Finset φ) : ℕ → ν → Finset φ
  | 0 => start
  | time + 1 => rules.step (timeline turn start time) (turn time)

variable {rules}

theorem step_target (sets : ν → Finset φ) (assignment : α) :
    rules.step sets assignment (rules.target assignment) =
      sets (rules.target assignment) ∪ rules.value assignment sets := Function.update_self ..

theorem step_other (sets : ν → Finset φ) (assignment : α) {name : ν} (other : name ≠ rules.target assignment) :
    rules.step sets assignment name = sets name := Function.update_of_ne other _ _

theorem step_grows (sets : ν → Finset φ) (assignment : α) (name : ν) :
    sets name ⊆ rules.step sets assignment name := by
  by_cases same : name = rules.target assignment
  · rw [same, step_target]
    exact Finset.subset_union_left
  · rw [step_other sets assignment same]

theorem sweep_grows (assignments : List α) (sets : ν → Finset φ) (name : ν) :
    sets name ⊆ rules.sweep assignments sets name := by
  induction assignments generalizing sets with
  | nil => exact Finset.Subset.refl _
  | cons assignment rest ih => exact (step_grows sets assignment name).trans (ih _)

/-- A sweep that changes nothing changes nothing at any of its assignments. -/
theorem step_of_sweep {assignments : List α} {sets : ν → Finset φ}
    (closed : rules.sweep assignments sets = sets) : ∀ assignment ∈ assignments,
      rules.step sets assignment = sets := by
  induction assignments with
  | nil => exact fun _ inside => absurd inside List.not_mem_nil
  | cons first rest ih =>
      have fixed : rules.step sets first = sets := by
        funext name
        apply Finset.Subset.antisymm _ (step_grows sets first name)
        have remaining : rules.sweep rest (rules.step sets first) = sets := closed
        exact (sweep_grows rest (rules.step sets first) name).trans_eq (congrFun remaining name)
      intro assignment inside
      rcases List.mem_cons.mp inside with rfl | later
      · exact fixed
      · refine ih ?_ assignment later
        have remaining : rules.sweep rest (rules.step sets first) = sets := closed
        rwa [fixed] at remaining

/-- What every step keeps holds after a sweep. -/
theorem sweep_induct {invariant : (ν → Finset φ) → Prop} {assignments : List α}
    (kept : ∀ sets, invariant sets → ∀ assignment ∈ assignments, invariant (rules.step sets assignment))
    {sets : ν → Finset φ} (first : invariant sets) : invariant (rules.sweep assignments sets) := by
  induction assignments generalizing sets with
  | nil => exact first
  | cons assignment rest ih =>
      refine ih (fun sets holds other later => ?_) (kept sets first assignment List.mem_cons_self)
      exact kept sets holds other (List.mem_cons_of_mem _ later)

/-! ### Timelines -/

section Timeline

variable {turn : ℕ → α} {start : ν → Finset φ}

theorem timeline_mono {early late : ℕ} (order : early ≤ late) (name : ν) :
    rules.timeline turn start early name ⊆ rules.timeline turn start late name := by
  induction order with
  | refl => exact Finset.Subset.refl _
  | step _ ih => exact ih.trans (step_grows _ _ name)

variable (rules turn start) in
/-- The value of a turn is in the set of its target from then on. -/
theorem value_subset {time late : ℕ} (order : time < late) :
    rules.value (turn time) (rules.timeline turn start time) ⊆
      rules.timeline turn start late (rules.target (turn time)) := by
  have now : rules.value (turn time) (rules.timeline turn start time) ⊆
      rules.timeline turn start (time + 1) (rules.target (turn time)) := by
    rw [timeline, step_target]
    exact Finset.subset_union_right
  exact now.trans (timeline_mono order _)

variable (rules turn start) in
/-- The turn adds the fact to its target. -/
def Arrives (fact : φ) (time : ℕ) : Prop :=
  fact ∈ rules.value (turn time) (rules.timeline turn start time) ∧
    fact ∉ rules.timeline turn start time (rules.target (turn time))

/-- A fact that is in a set later has arrived in between. -/
theorem exists_arrives {fact : φ} {name : ν} {early late : ℕ} (order : early ≤ late)
    (absent : fact ∉ rules.timeline turn start early name)
    (present : fact ∈ rules.timeline turn start late name) :
    ∃ time, early ≤ time ∧ time < late ∧ rules.target (turn time) = name ∧
      rules.Arrives turn start fact time := by
  induction order with
  | refl => exact absurd present absent
  | @step late order ih =>
      by_cases before : fact ∈ rules.timeline turn start late name
      · obtain ⟨time, after, earlier, rest⟩ := ih before
        exact ⟨time, after, Nat.lt_succ_of_lt earlier, rest⟩
      · have same : name = rules.target (turn late) := by
          by_contra other
          rw [timeline, step_other _ _ other] at present
          exact before present
        subst same
        rw [timeline, step_target, Finset.mem_union] at present
        exact ⟨late, order, Nat.lt_succ_self late, rfl, present.resolve_left before, before⟩

/-- A fact arrives at a variable once. -/
theorem arrives_unique {fact : φ} {first second : ℕ} (here : rules.Arrives turn start fact first)
    (there : rules.Arrives turn start fact second)
    (same : rules.target (turn first) = rules.target (turn second)) : first = second := by
  rcases Nat.lt_trichotomy first second with earlier | equal | later
  · exact absurd (same ▸ value_subset rules turn start earlier here.1) there.2
  · exact equal
  · exact absurd (same ▸ value_subset rules turn start later there.1) here.2

/-- Without arrivals the sets stay as they are. -/
theorem timeline_eq {early late : ℕ} (order : early ≤ late)
    (quiet : ∀ fact time, early ≤ time → ¬ rules.Arrives turn start fact time) :
    rules.timeline turn start late = rules.timeline turn start early := by
  funext name
  apply Finset.Subset.antisymm _ (timeline_mono order name)
  intro fact present
  by_contra absent
  obtain ⟨time, after, _, _, arrives⟩ := exists_arrives order absent present
  exact quiet fact time after arrives

/-! ### Rounds -/

variable {period first : ℕ}

theorem periodic_mod (periodic : ∀ time, turn (time + period) = turn time) (time : ℕ) :
    turn (time % period) = turn time := by
  conv_rhs => rw [← Nat.mod_add_div time period]
  generalize time / period = count
  induction count with
  | zero => rw [Nat.mul_zero, Nat.add_zero]
  | succ count ih => rw [ih, Nat.mul_succ, ← Nat.add_assoc, periodic]

/-- A fact that arrives late and has always arrived within the last period arrives in every round. -/
theorem Arrives.every_round {fact : φ} (positive : 0 < period)
    (recent : ∀ time, (first + 1) * period ≤ time → rules.Arrives turn start fact time →
      ∃ earlier, earlier < time ∧ time ≤ earlier + period ∧ rules.Arrives turn start fact earlier)
    {time : ℕ} (arrives : rules.Arrives turn start fact time) {round : ℕ} (after : first ≤ round)
    (before : round ≤ time / period) :
    ∃ found, found / period = round ∧ rules.Arrives turn start fact found := by
  induction time using Nat.strongRecOn with
  | _ time ih =>
  rcases Nat.lt_or_eq_of_le before with later | same
  · have reached : (first + 1) * period ≤ time := by
      rw [← Nat.le_div_iff_mul_le positive]
      omega
    obtain ⟨earlier, order, close, there⟩ := recent time reached arrives
    have rounds : time / period ≤ earlier / period + 1 := by
      rw [← Nat.add_div_right _ positive]
      exact Nat.div_le_div_right close
    exact ih earlier order there (by omega)
  · exact ⟨time, same.symm, arrives⟩

/-- The rounds use different slots of the period, and one slot is idle. -/
theorem Arrives.round_le (first : ℕ) {fact : φ} (periodic : ∀ time, turn (time + period) = turn time)
    (recent : ∀ time, (first + 1) * period ≤ time → rules.Arrives turn start fact time →
      ∃ earlier, earlier < time ∧ time ≤ earlier + period ∧ rules.Arrives turn start fact earlier)
    {idle : ℕ} (slot : idle < period)
    (quiet : ∀ time, first * period ≤ time → time % period = idle → ¬ rules.Arrives turn start fact time)
    {time : ℕ} (arrives : rules.Arrives turn start fact time) :
    time / period + 2 ≤ first + period ∨ time / period < first := by
  by_contra exceeds
  obtain ⟨long, late⟩ := not_or.mp exceeds
  have positive : 0 < period := Nat.zero_lt_of_lt slot
  have rounds : ∀ round ∈ Finset.Icc first (time / period),
      ∃ found, found / period = round ∧ rules.Arrives turn start fact found := by
    intro round inside
    obtain ⟨after, before⟩ := Finset.mem_Icc.mp inside
    exact arrives.every_round positive recent after before
  choose! found at_ there using rounds
  have slots : (Finset.Icc first (time / period)).card ≤ ((Finset.range period).erase idle).card := by
    refine Finset.card_le_card_of_injOn (fun round => found round % period) (fun round inside => ?_) ?_
    · refine Finset.mem_coe.mpr (Finset.mem_erase.mpr
        ⟨fun same => ?_, Finset.mem_range.mpr (Nat.mod_lt _ positive)⟩)
      refine quiet (found round) ?_ same (there round inside)
      rw [← Nat.le_div_iff_mul_le positive, at_ round inside]
      exact (Finset.mem_Icc.mp inside).1
    · intro left here right other same
      have turns : turn (found left) = turn (found right) := by
        rw [← periodic_mod periodic (found left), ← periodic_mod periodic (found right)]
        exact congrArg turn same
      have equal := arrives_unique (there left here) (there right other) (congrArg rules.target turns)
      rw [← at_ left here, ← at_ right other, equal]
  rw [Nat.card_Icc, Finset.card_erase_of_mem (Finset.mem_range.mpr slot), Finset.card_range] at slots
  omega

end Timeline

/-! ### Sweeps as rounds -/

section Turns

variable (assignments : List α) (nonempty : assignments ≠ [])

/-- The assignments take turns. -/
def turns (time : ℕ) : α :=
  assignments.get ⟨time % assignments.length, Nat.mod_lt _ (List.length_pos_of_ne_nil nonempty)⟩

theorem turns_periodic (time : ℕ) :
    turns assignments nonempty (time + assignments.length) = turns assignments nonempty time := by
  simp [turns]

/-- A number of turns from the beginning of a round is a part of a sweep. -/
theorem timeline_take (start : ν → Finset φ) (round count : ℕ) (inside : count ≤ assignments.length) :
    rules.timeline (turns assignments nonempty) start (round * assignments.length + count) =
      rules.sweep (assignments.take count)
        (rules.timeline (turns assignments nonempty) start (round * assignments.length)) := by
  induction count with
  | zero => rfl
  | succ count ih =>
      have here : turns assignments nonempty (round * assignments.length + count) =
          assignments.get ⟨count, inside⟩ := by
        have slot : (round * assignments.length + count) % assignments.length = count := by
          rw [Nat.mul_comm, Nat.mul_add_mod, Nat.mod_eq_of_lt inside]
        simp only [turns, slot]
      rw [← Nat.add_assoc, timeline, ih (Nat.le_of_succ_le inside), here, sweep, sweep,
        List.take_succ_eq_append_getElem inside, List.foldl_append]
      rfl

theorem sweep_iterate (start : ν → Finset φ) (rounds : ℕ) :
    (rules.sweep assignments)^[rounds] start =
      rules.timeline (turns assignments nonempty) start (rounds * assignments.length) := by
  induction rounds with
  | zero => rw [Nat.zero_mul]; rfl
  | succ rounds ih =>
      rw [Function.iterate_succ_apply', ih, Nat.succ_mul,
        timeline_take assignments nonempty start rounds _ (Nat.le_refl _), List.take_length]

end Turns

end Rules

end MisraPlatform.Sweep
