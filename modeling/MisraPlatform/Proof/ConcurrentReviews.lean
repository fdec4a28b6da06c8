import MisraPlatform.Proof.AuditTrail
import MisraPlatform.Semantics.ConcurrentReviews

/-
This file proves what every interleaving of reviews keeps, and that reviews which see each other are linear.
-/

namespace MisraPlatform.ConcurrentReviews
open ReviewHistory ReviewService

section Histories

/-- The status is open, or a review of the list has led to it. -/
def Known (reviews : List ViolationReviewRecord) (status : ViolationStatus) : Prop :=
  status = .open ∨ ∃ review ∈ reviews, review.newStatus = status

theorem Known.append {reviews : List ViolationReviewRecord} {status : ViolationStatus} (known : Known reviews status)
    (review : ViolationReviewRecord) : Known (reviews ++ [review]) status := by
  cases known with
  | inl start => exact .inl start
  | inr found =>
      obtain ⟨earlier, listed, same⟩ := found
      exact .inr ⟨earlier, List.mem_append_left _ listed, same⟩

theorem known_last {reviews : List ViolationReviewRecord} {status : ViolationStatus}
    (last : status = lastStatus (changing reviews)) : Known reviews status := by
  rw [last, lastStatus]
  cases ended : (changing reviews).getLast? with
  | none => exact .inl rfl
  | some review => exact .inr ⟨review, List.mem_of_mem_filter (List.mem_of_getLast? ended), rfl⟩

theorem Grounded.append {reviews : List ViolationReviewRecord} (grounded : Grounded reviews)
    {review : ViolationReviewRecord} (known : Known reviews review.previousStatus) :
    Grounded (reviews ++ [review]) := by
  intro before other after split
  cases after.eq_nil_or_concat with
  | inl last =>
      subst last
      obtain ⟨rfl, same⟩ := List.append_inj' split rfl
      cases same
      exact known
  | inr more =>
      obtain ⟨rest, final, rfl⟩ := more
      rw [List.concat_eq_append, ← List.cons_append, ← List.append_assoc] at split
      exact grounded before other rest (List.append_inj' split rfl).1

theorem changing_append (reviews : List ViolationReviewRecord) (review : ViolationReviewRecord) :
    changing (reviews ++ [review]) =
      if review.newStatus = review.previousStatus then changing reviews else changing reviews ++ [review] := by
  rw [changing, List.filter_append]
  by_cases same : review.newStatus = review.previousStatus <;> simp [same, changing]

end Histories

section Runs

variable {ι : Type} [DecidableEq ι] {requests : ι → ReviewEnvironment × ReviewArguments}

/-- A session has loaded a committed status, and its review starts from it. -/
def PhaseHolds (reviews : List ViolationReviewRecord) : Phase → Prop
  | .waiting | .aborted => True
  | .loaded violation => Known reviews violation.status
  | .inserted violation review | .flushed violation review =>
      Known reviews violation.status ∧ review.previousStatus = violation.status
  | .committed review => review ∈ reviews

theorem PhaseHolds.append {reviews : List ViolationReviewRecord} {phase : Phase} (holds : PhaseHolds reviews phase)
    (review : ViolationReviewRecord) : PhaseHolds (reviews ++ [review]) phase := by
  cases phase with
  | waiting | aborted => trivial
  | loaded violation => exact Known.append holds review
  | inserted violation other | flushed violation other => exact ⟨holds.1.append review, holds.2⟩
  | committed other => exact List.mem_append_left _ holds

/-- Every reachable state keeps this. -/
structure Invariant (state : State ι) : Prop where
  phases : ∀ request, PhaseHolds state.reviews (state.phases request)
  grounded : Grounded state.reviews
  decided : state.violation.status = lastStatus (changing state.reviews)

theorem Invariant.enter {state : State ι} (holds : Invariant state) {request : ι} {phase : Phase}
    (entered : PhaseHolds state.reviews phase) : Invariant (state.enter request phase) := by
  refine ⟨fun other => ?_, holds.grounded, holds.decided⟩
  change PhaseHolds state.reviews (Function.update state.phases request phase other)
  by_cases own : other = request
  · subst own
    rw [Function.update_self]
    exact entered
  · rw [Function.update_of_ne own]
    exact holds.phases other

theorem Invariant.commit {state : State ι} (holds : Invariant state) {request : ι} {violation : ViolationRecord}
    {review : ViolationReviewRecord} (ready : PhaseHolds state.reviews (.flushed violation review)) :
    Invariant (state.commit request violation review) := by
  obtain ⟨known, started⟩ := ready
  refine ⟨fun other => ?_, holds.grounded.append (started ▸ known), ?_⟩
  · change PhaseHolds (state.reviews ++ [review]) (Function.update state.phases request (.committed review) other)
    by_cases own : other = request
    · subst own
      rw [Function.update_self]
      exact List.mem_append_right _ List.mem_cons_self
    · rw [Function.update_of_ne own]
      exact (holds.phases other).append review
  · change statusAfter violation review state.violation.status = lastStatus (changing (state.reviews ++ [review]))
    rw [statusAfter, changing_append, started]
    split
    · exact holds.decided
    · exact (lastStatus_append _ _).symm

omit [DecidableEq ι] in
theorem invariant_initial (violation : ViolationRecord) : Invariant (initial violation : State ι) where
  phases := fun _ => trivial
  grounded := by
    intro before review after split
    cases before <;> cases split
  decided := rfl

/-- A step of a session keeps what holds of the reviews. -/
theorem invariant_step {before after : State ι} (step : Step requests before after) (holds : Invariant before) :
    Invariant after := by
  cases step with
  | load request waits => exact holds.enter (known_last holds.decided)
  | insert request violation drawn ready _ =>
      have loaded := holds.phases request
      rw [ready] at loaded
      exact holds.enter ⟨loaded, rfl⟩
  | flush request violation review ready _ =>
      have inserted := holds.phases request
      rw [ready] at inserted
      exact holds.enter inserted
  | commit request violation review ready =>
      have flushed := holds.phases request
      rw [ready] at flushed
      exact holds.commit flushed
  | abort request _ => exact holds.enter trivial

theorem invariant_reaches {violation : ViolationRecord} {state : State ι}
    (reached : Reaches requests violation state) : Invariant state := by
  induction reached with
  | refl => exact invariant_initial violation
  | tail _ step ih => exact invariant_step step ih

omit [DecidableEq ι] in
theorem Invariant.explained {state : State ι} (holds : Invariant state) : Explained state where
  kept := by
    intro request review ended
    have committed := holds.phases request
    rw [ended] at committed
    exact committed
  grounded := holds.grounded
  decided := holds.decided

/-- The reviews are a history in the order of their commits. -/
def Chained (state : State ι) : Prop :=
  Linked .open state.reviews ∧ state.violation.status = lastStatus state.reviews

theorem chained_step {before after : State ι} (step : Step requests before after) (fresh : Fresh before after)
    (holds : Invariant before) (chained : Chained before) : Chained after := by
  cases step with
  | load | insert | flush | abort => exact chained
  | commit request violation review ready =>
      have flushed := holds.phases request
      rw [ready] at flushed
      have current : before.violation.status = violation.status :=
        fresh request violation review ready (Function.update_self ..)
      refine ⟨linked_append chained.1 ?_, ?_⟩
      · rw [flushed.2, ← current, chained.2]
        rfl
      · change statusAfter violation review before.violation.status = lastStatus (before.reviews ++ [review])
        rw [lastStatus_append, statusAfter]
        split
        · rename_i same
          rw [current, same]
        · rfl

theorem chained_reaches {violation : ViolationRecord} {state : State ι}
    (reached : ReachesFresh requests violation state) : Invariant state ∧ Chained state := by
  induction reached with
  | refl => exact ⟨invariant_initial violation, trivial, rfl⟩
  | tail _ step ih => exact ⟨invariant_step step.1 ih.1, chained_step step.1 step.2 ih.1 ih.2⟩

end Runs

/-- A session that is not disturbed commits what a request writes to the tables. -/
theorem commit_alone {tables : ReviewTables} {violation : ViolationRecord} (listed : violation ∈ tables.violations)
    {review : ViolationReviewRecord} (own : review.violationId = violation.id) :
    ((tables.addReview review).setStatus violation.id review.newStatus).reviewsOf violation.id =
        tables.reviewsOf violation.id ++ [review] ∧
      { violation with status := statusAfter violation review violation.status } ∈
        ((tables.addReview review).setStatus violation.id review.newStatus).violations := by
  constructor
  · change (tables.addReview review).reviewsOf violation.id = _
    rw [reviewsOf_addReview, if_pos own]
  · refine List.mem_map.mpr ⟨violation, listed, ?_⟩
    rw [if_pos rfl, statusAfter]
    split
    · rename_i same
      rw [same]
    · rfl

section Sample

/-- One request rejects the violation, and the other one skips it. -/
def sampleRequests (rejects : Bool) : ReviewEnvironment × ReviewArguments :=
  if rejects then (sampleEnvironment "a" 0, sampleReview .reject none)
  else (sampleEnvironment "b" 0, sampleReview .skip none)

/-- The violation as a session loads it with this status. -/
def loadedAs (status : ViolationStatus) : ViolationRecord := { sampleViolation none with status := status }

def sampleRow (rejects : Bool) (status : ViolationStatus) : ViolationReviewRecord :=
  newReview (sampleRequests rejects).1 (loadedAs status) (sampleRequests rejects).2 0

theorem accepts_sample (rejects : Bool) (status : ViolationStatus) :
    Accepts (loadedAs status) (sampleRequests rejects).2 := by
  cases rejects <;> exact ⟨if_neg (fun required => absurd required.1 (by decide)), none, rfl⟩

theorem not_locks_of_started {state : State Bool} {request : Bool} {violation : ViolationRecord}
    {review : ViolationReviewRecord} (here : state.phases request = .inserted violation review)
    (there : ¬ (state.phases !request).Locks) (other : Bool) : ¬ (state.phases other).Locks := by
  by_cases own : other = request
  · rw [own, here]
    exact id
  · have apart : other = !request := by cases other <;> cases request <;> simp_all
    exact apart ▸ there

/-- A request that has loaded the violation is run to its commit. -/
def finish (state : State Bool) (rejects : Bool) (status : ViolationStatus) : State Bool :=
  State.commit
    (((state.enter rejects (.inserted (loadedAs status) (sampleRow rejects status))).enter rejects
      (.flushed (loadedAs status) (sampleRow rejects status)))) rejects (loadedAs status) (sampleRow rejects status)

theorem steps_finish {state : State Bool} {rejects : Bool} {status : ViolationStatus}
    (ready : state.phases rejects = .loaded (loadedAs status)) (free : ¬ (state.phases !rejects).Locks) :
    Relation.ReflTransGen (Step sampleRequests) state (finish state rejects status) := by
  refine Relation.ReflTransGen.head (.insert _ rejects _ 0 ready (accepts_sample rejects status)) ?_
  refine Relation.ReflTransGen.head (.flush _ rejects _ _ (Function.update_self ..) fun _ => ?_) ?_
  · have other : (!rejects) ≠ rejects := by cases rejects <;> exact Bool.noConfusion
    have kept := Function.update_of_ne other (Phase.inserted (loadedAs status) (sampleRow rejects status)) state.phases
    refine not_locks_of_started (Function.update_self ..) fun locks => free ?_
    change (Function.update state.phases rejects _ _).Locks at locks
    exact kept ▸ locks
  · exact .single (.commit _ rejects _ _ (Function.update_self ..))

theorem fresh_enter {ι : Type} [DecidableEq ι] {state : State ι} {request : ι} {phase : Phase}
    (running : ∀ review, phase ≠ .committed review) : Fresh state (state.enter request phase) := by
  intro other violation review ready ended
  change Function.update state.phases request phase other = _ at ended
  by_cases own : other = request
  · subst own
    rw [Function.update_self] at ended
    exact (running review ended).elim
  · rw [Function.update_of_ne own, ready] at ended
    cases ended

end Sample

end MisraPlatform.ConcurrentReviews
