import Mathlib.Algebra.Order.Group.Defs
import Mathlib.Data.List.Basic
import Mathlib.Data.List.Induction
import Mathlib.Data.List.Pairwise
import Mathlib.Data.List.TakeWhile
import Mathlib.Logic.Function.Basic
import Mathlib.Order.Interval.Basic

/-
This file is the admission of events by a limit on the number of those that a sliding window of time holds.
-/

namespace MisraPlatform.SlidingWindow

section Admissions

variable {κ τ : Type} [DecidableEq κ]

/-- These are the times at which events of the key were admitted. -/
def admitted (key : κ) (decisions : List ((κ × τ) × Bool)) : List τ :=
  (decisions.filter fun decision => decision.1.1 = key ∧ decision.2 = true).map fun decision => decision.1.2

theorem admitted_concat {key : κ} {event : κ × τ} {decisions : List ((κ × τ) × Bool)} (admission : Bool) :
    admitted key (decisions ++ [(event, admission)]) =
      admitted key decisions ++ if event.1 = key ∧ admission = true then [event.2] else [] := by
  unfold admitted
  rw [List.filter_append, List.map_append]
  congr 1
  by_cases counted : event.1 = key ∧ admission = true
  · rw [if_pos counted, List.filter_cons_of_pos (by simpa using counted)]
    rfl
  · rw [if_neg counted, List.filter_cons_of_neg (by simpa using counted)]
    rfl

end Admissions

variable {κ τ : Type} [DecidableEq κ] [AddCommGroup τ] [LinearOrder τ]

/-- The oldest times leave the queue until one is within the window. -/
def expire (window now : τ) (times : List τ) : List τ := times.dropWhile fun time => window < now - time

/-- An admitted event enters the queue. -/
def offer (window : τ) (limit : Int) (times : List τ) (now : τ) : Bool × List τ :=
  let kept := expire window now times
  if limit ≤ kept.length then (false, kept) else (true, kept ++ [now])

/-- Every key has a queue of its own, and the decisions are recorded in their order. -/
structure Limiter (κ τ : Type) where
  queue : κ → List τ
  decisions : List ((κ × τ) × Bool)

namespace Limiter

def initial : Limiter κ τ := ⟨fun _ => [], []⟩

def step (window : τ) (limit : Int) (limiter : Limiter κ τ) (event : κ × τ) : Limiter κ τ :=
  let outcome := offer window limit (limiter.queue event.1) event.2
  { queue := Function.update limiter.queue event.1 outcome.2
    decisions := limiter.decisions ++ [(event, outcome.1)] }

def run (window : τ) (limit : Int) (events : List (κ × τ)) : Limiter κ τ :=
  events.foldl (step window limit) initial

end Limiter

/-- An event is admitted exactly if the window before it holds fewer admitted events than the limit. -/
def Exact (window : τ) (limit : Int) (decisions : List ((κ × τ) × Bool)) : Prop :=
  ∀ before event admission after, decisions = before ++ (event, admission) :: after →
    (admission = true ↔
      (((admitted event.1 before).filter fun time => event.2 - time ≤ window).length : Int) < limit)

/-- No window of time holds more admitted events of a key than the limit. -/
def Bounded (window : τ) (limit : Int) (decisions : List ((κ × τ) × Bool)) : Prop :=
  ∀ key start, ((admitted key decisions).filter fun time => start ≤ time ∧ time ≤ start + window).length ≤ limit.toNat

section Queue

variable {window now : τ} {limit : Int} {times : List τ}

theorem admit_length (room : times.length ≤ limit.toNat) :
    (offer window limit times now).2.length ≤ limit.toNat := by
  have shorter : (expire window now times).length ≤ times.length := (List.dropWhile_sublist _).length_le
  unfold offer
  dsimp only
  split
  · exact shorter.trans room
  · rw [List.length_append, List.length_singleton]
    omega

variable [IsOrderedAddMonoid τ]

/-- In a sorted queue the old times stand in front. -/
theorem expire_eq_filter (sorted : times.Pairwise (· ≤ ·)) :
    expire window now times = times.filter fun time => now - time ≤ window := by
  induction times with
  | nil => rfl
  | cons time rest ih =>
      obtain ⟨least, sorted⟩ := List.pairwise_cons.mp sorted
      by_cases old : window < now - time
      · have gone : ¬ now - time ≤ window := not_le.mpr old
        rw [expire, List.dropWhile_cons, if_pos (decide_eq_true old), List.filter_cons,
          if_neg (by simpa only [decide_eq_true_eq] using gone)]
        exact ih sorted
      · rw [expire, List.dropWhile_cons, if_neg (by simpa only [decide_eq_true_eq] using old)]
        symm
        apply List.filter_eq_self.mpr
        intro later listed
        have bound : time ≤ later := by
          cases List.mem_cons.mp listed with
          | inl same => exact same.ge
          | inr inRest => exact least later inRest
        exact decide_eq_true ((sub_le_sub_left bound now).trans (not_lt.mp old))

end Queue

section Decisions

variable {window : τ} {limit : Int} {decisions : List ((κ × τ) × Bool)} {event : κ × τ}

theorem exact_concat {admission : Bool} (exact : Exact window limit decisions)
    (decided : admission = true ↔
      (((admitted event.1 decisions).filter fun time => event.2 - time ≤ window).length : Int) < limit) :
    Exact window limit (decisions ++ [(event, admission)]) := by
  intro before other outcome after split
  cases List.eq_nil_or_concat after with
  | inl none =>
      subst none
      obtain ⟨rfl, same⟩ := List.append_inj' split rfl
      cases same
      exact decided
  | inr more =>
      obtain ⟨front, last, rfl⟩ := more
      rw [List.concat_eq_append, ← List.cons_append, ← List.append_assoc] at split
      exact exact before other outcome front (List.append_inj' split rfl).1

variable [IsOrderedAddMonoid τ]

/-- The last admitted event of a window sees all the others behind it. -/
theorem bounded_concat {admission : Bool} (bounded : Bounded window limit decisions)
    (decided : admission = true ↔
      (((admitted event.1 decisions).filter fun time => event.2 - time ≤ window).length : Int) < limit) :
    Bounded window limit (decisions ++ [(event, admission)]) := by
  intro key start
  rw [admitted_concat]
  split
  · rename_i counted
    obtain ⟨rfl, taken⟩ := counted
    by_cases inside : start ≤ event.2 ∧ event.2 ≤ start + window
    · rw [List.filter_append, List.filter_cons_of_pos (by simpa using inside), List.filter_nil, List.length_append,
        List.length_singleton]
      have seen : ((admitted event.1 decisions).filter fun time => start ≤ time ∧ time ≤ start + window).length ≤
          ((admitted event.1 decisions).filter fun time => event.2 - time ≤ window).length := by
        apply List.Sublist.length_le
        apply List.monotone_filter_right
        intro time within
        have within : start ≤ time ∧ time ≤ start + window := by simpa using within
        have reach : event.2 - time ≤ window := by
          calc event.2 - time ≤ event.2 - start := sub_le_sub_left within.1 _
            _ ≤ window := sub_le_iff_le_add'.mpr inside.2
        simpa using reach
      have room := decided.mp taken
      omega
    · rw [List.filter_append, List.filter_cons_of_neg (by simpa using inside), List.filter_nil, List.append_nil]
      exact bounded event.1 start
  · rw [List.append_nil]
    exact bounded key start

end Decisions

section Runs

variable {window clock later : τ} {limit : Int} {limiter : Limiter κ τ} {event : κ × τ} {events : List (κ × τ)}

theorem run_concat : Limiter.run window limit (events ++ [event]) =
    (Limiter.run window limit events).step window limit event := by
  rw [Limiter.run, List.foldl_concat, ← Limiter.run]

theorem run_events : (Limiter.run window limit events).decisions.map Prod.fst = events := by
  induction events using List.reverseRecOn with
  | nil => rfl
  | append_singleton events event ih =>
      rw [run_concat, Limiter.step, List.map_append, ih]
      rfl

theorem run_queue_length (key : κ) : ((Limiter.run window limit events).queue key).length ≤ limit.toNat := by
  induction events using List.reverseRecOn with
  | nil => exact Nat.zero_le _
  | append_singleton events event ih =>
      rw [run_concat, Limiter.step]
      dsimp only
      by_cases same : key = event.1
      · rw [same, Function.update_self]
        exact admit_length (same ▸ ih)
      · rw [Function.update_of_ne same]
        exact ih

variable [IsOrderedAddMonoid τ]

/-- Up to the clock the queue of a key is what its admitted events have left of those out of the window. -/
structure Tracks (window clock : τ) (limiter : Limiter κ τ) : Prop where
  sorted : ∀ key, (admitted key limiter.decisions).Pairwise (· ≤ ·)
  past : ∀ key, ∀ time ∈ admitted key limiter.decisions, time ≤ clock
  queue : ∀ key, ∃ stale, admitted key limiter.decisions = stale ++ limiter.queue key ∧
    ∀ time ∈ stale, window < clock - time

theorem Tracks.mono (tracks : Tracks window clock limiter) (passes : clock ≤ later) : Tracks window later limiter where
  sorted := tracks.sorted
  past key time listed := (tracks.past key time listed).trans passes
  queue key := by
    obtain ⟨stale, split, old⟩ := tracks.queue key
    exact ⟨stale, split, fun time listed => (old time listed).trans_le (sub_le_sub_right passes time)⟩

/-- What stays in the queue are the admitted events within the window. -/
theorem Tracks.expire_eq (tracks : Tracks window clock limiter) (key : κ) :
    expire window clock (limiter.queue key) =
      (admitted key limiter.decisions).filter fun time => clock - time ≤ window := by
  obtain ⟨stale, split, old⟩ := tracks.queue key
  have sorted := tracks.sorted key
  rw [split] at sorted ⊢
  have gone : stale.filter (fun time => clock - time ≤ window) = [] := by
    rw [List.filter_eq_nil_iff]
    intro time listed
    simpa only [decide_eq_true_eq, not_le] using old time listed
  rw [List.filter_append, gone, List.nil_append]
  exact expire_eq_filter (List.pairwise_append.mp sorted).2.1

theorem Tracks.decided (tracks : Tracks window event.2 limiter) :
    (offer window limit (limiter.queue event.1) event.2).1 = true ↔
      (((admitted event.1 limiter.decisions).filter fun time => event.2 - time ≤ window).length : Int) < limit := by
  rw [← tracks.expire_eq event.1]
  unfold offer
  dsimp only
  split
  · rename_i full
    simpa using full
  · rename_i room
    simpa using room

omit [IsOrderedAddMonoid τ] in
theorem Tracks.step (tracks : Tracks window event.2 limiter) :
    Tracks window event.2 (limiter.step window limit event) where
  sorted key := by
    rw [Limiter.step, admitted_concat]
    split
    · apply List.pairwise_append.mpr
      refine ⟨tracks.sorted key, List.pairwise_singleton _ _, ?_⟩
      intro time listed last same
      rw [List.mem_singleton.mp same]
      exact tracks.past key time listed
    · rw [List.append_nil]
      exact tracks.sorted key
  past key time listed := by
    rw [Limiter.step, admitted_concat] at listed
    split at listed
    · cases List.mem_append.mp listed with
      | inl earlier => exact tracks.past key time earlier
      | inr last => exact (List.mem_singleton.mp last).le
    · rw [List.append_nil] at listed
      exact tracks.past key time listed
  queue key := by
    obtain ⟨stale, split, old⟩ := tracks.queue key
    rw [Limiter.step, admitted_concat]
    dsimp only
    by_cases same : key = event.1
    · subst same
      have kept := List.takeWhile_append_dropWhile
        (p := fun time => decide (window < event.2 - time)) (l := limiter.queue event.1)
      refine ⟨stale ++ (limiter.queue event.1).takeWhile fun time => window < event.2 - time, ?_, ?_⟩
      · rw [Function.update_self, split, offer]
        split
        · rw [if_neg (by simp), List.append_nil, List.append_assoc, expire, kept]
        · change _ = _ ++ (expire window event.2 (limiter.queue event.1) ++ [event.2])
          rw [if_pos ⟨rfl, rfl⟩, List.append_assoc, List.append_assoc, expire, ← List.append_assoc (List.takeWhile _ _),
            kept]
      · intro time listed
        cases List.mem_append.mp listed with
        | inl earlier => exact old time earlier
        | inr dropped => simpa using List.mem_takeWhile_imp dropped
    · rw [if_neg fun counted => same counted.1.symm, List.append_nil, Function.update_of_ne same]
      exact ⟨stale, split, old⟩

/-- If the clock does not go back, the limiter tracks the admitted events. -/
theorem tracks_run (sorted : events.Pairwise fun first second => first.2 ≤ second.2)
    (passed : ∀ event ∈ events, event.2 ≤ clock) : Tracks window clock (Limiter.run window limit events) := by
  induction events using List.reverseRecOn generalizing clock with
  | nil => exact ⟨fun _ => .nil, by simp [Limiter.run, Limiter.initial, admitted], fun _ => ⟨[], rfl, by simp⟩⟩
  | append_singleton events event ih =>
      obtain ⟨sorted, _, before⟩ := List.pairwise_append.mp sorted
      rw [run_concat]
      have tracks := ih sorted fun earlier listed => before earlier listed event (List.mem_singleton_self event)
      exact tracks.step.mono (passed event (by simp))

/-- A limiter admits exactly as many events in every window as the limit allows. -/
theorem run_exact (window : τ) (limit : Int)
    (sorted : events.Pairwise fun first second => first.2 ≤ second.2) :
    Exact window limit (Limiter.run window limit events).decisions ∧
      Bounded window limit (Limiter.run window limit events).decisions := by
  induction events using List.reverseRecOn with
  | nil =>
      constructor
      · intro before event admission after split
        simp [Limiter.run, Limiter.initial] at split
      · intro key start
        simp [Limiter.run, Limiter.initial, admitted]
  | append_singleton events event ih =>
      obtain ⟨sorted, _, before⟩ := List.pairwise_append.mp sorted
      have tracks : Tracks window event.2 (Limiter.run window limit events) :=
        tracks_run sorted fun earlier listed => before earlier listed event (List.mem_singleton_self event)
      rw [run_concat]
      exact ⟨exact_concat (ih sorted).1 tracks.decided, bounded_concat (ih sorted).2 tracks.decided⟩

end Runs

end MisraPlatform.SlidingWindow
