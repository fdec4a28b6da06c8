import Mathlib.Logic.Function.Basic
import Mathlib.Logic.Relation
import MisraPlatform.Semantics.ReviewHistory

/-
This file is the reviews of one violation that are submitted at the same time, each in a session of its own.
-/

namespace MisraPlatform.ConcurrentReviews
open ReviewHistory ReviewService

/-- A session keeps the violation as it has loaded it. -/
inductive Phase where
  | waiting
  | loaded (violation : ViolationRecord)
  | inserted (violation : ViolationRecord) (review : ViolationReviewRecord)
  | flushed (violation : ViolationRecord) (review : ViolationReviewRecord)
  | committed (review : ViolationReviewRecord)
  | aborted

/-- An update of the status locks the row until the session ends, and an equal status is not written. -/
def Phase.Locks : Phase → Prop
  | flushed violation review => review.newStatus ≠ violation.status
  | _ => False

/-- The row and the reviews are those that have been committed. -/
structure State (ι : Type) where
  violation : ViolationRecord
  reviews : List ViolationReviewRecord
  phases : ι → Phase

/-- The service accepts the arguments. -/
def Accepts (violation : ViolationRecord) (arguments : ReviewArguments) : Prop :=
  validateJustification arguments.action arguments.justification = pure () ∧
    ∃ fixText, resolveFixText arguments.action violation arguments.editedFix = pure fixText

section Steps

variable {ι : Type} [DecidableEq ι]

def State.enter (state : State ι) (request : ι) (phase : Phase) : State ι :=
  { state with phases := Function.update state.phases request phase }

/-- This is the status that the row has after the commit. -/
def statusAfter (violation : ViolationRecord) (review : ViolationReviewRecord) (current : ViolationStatus) :
    ViolationStatus :=
  if review.newStatus = violation.status then current else review.newStatus

/-- A session commits its review and the status that it has written. -/
def State.commit (state : State ι) (request : ι) (violation : ViolationRecord) (review : ViolationReviewRecord) :
    State ι where
  violation := { state.violation with status := statusAfter violation review state.violation.status }
  reviews := state.reviews ++ [review]
  phases := Function.update state.phases request (.committed review)

/-- The sessions run one step at a time, and a read sees what has been committed. -/
inductive Step (requests : ι → ReviewEnvironment × ReviewArguments) : State ι → State ι → Prop
  | load (state : State ι) (request : ι) : state.phases request = .waiting →
      Step requests state (state.enter request (.loaded state.violation))
  | insert (state : State ι) (request : ι) (violation : ViolationRecord) (drawn : Nat) :
      state.phases request = .loaded violation → Accepts violation (requests request).2 →
      Step requests state (state.enter request
        (.inserted violation (newReview (requests request).1 violation (requests request).2 drawn)))
  | flush (state : State ι) (request : ι) (violation : ViolationRecord) (review : ViolationReviewRecord) :
      state.phases request = .inserted violation review →
      (review.newStatus ≠ violation.status → ∀ other, ¬ (state.phases other).Locks) →
      Step requests state (state.enter request (.flushed violation review))
  | commit (state : State ι) (request : ι) (violation : ViolationRecord) (review : ViolationReviewRecord) :
      state.phases request = .flushed violation review →
      Step requests state (state.commit request violation review)
  | abort (state : State ι) (request : ι) : (∀ review, state.phases request ≠ .committed review) →
      Step requests state (state.enter request .aborted)

/-- An open violation has no reviews, and no request has started. -/
def initial (violation : ViolationRecord) : State ι where
  violation := { violation with status := .open }
  reviews := []
  phases := fun _ => .waiting

/-- The interleavings of the requests reach these states. -/
def Reaches (requests : ι → ReviewEnvironment × ReviewArguments) (violation : ViolationRecord) (state : State ι) :
    Prop :=
  Relation.ReflTransGen (Step requests) (initial violation) state

/-- Only requests whose violation still has the status that they have loaded are committed. -/
def Fresh (before after : State ι) : Prop :=
  ∀ request violation review, before.phases request = .flushed violation review →
    after.phases request = .committed review → before.violation.status = violation.status

def ReachesFresh (requests : ι → ReviewEnvironment × ReviewArguments) (violation : ViolationRecord)
    (state : State ι) : Prop :=
  Relation.ReflTransGen (fun before after => Step requests before after ∧ Fresh before after) (initial violation) state

end Steps

/-- Some order of the reviews is a history that ends in the status of the violation. -/
def Linear (status : ViolationStatus) (reviews : List ViolationReviewRecord) : Prop :=
  ∃ order, order.Perm reviews ∧ Linked .open order ∧ status = lastStatus order

/-- A review starts from the open status or from the result of a review that was committed before it. -/
def Grounded (reviews : List ViolationReviewRecord) : Prop :=
  ∀ before review after, reviews = before ++ review :: after →
    review.previousStatus = .open ∨ ∃ earlier ∈ before, earlier.newStatus = review.previousStatus

/-- These are the reviews that have changed the status that they have seen. -/
def changing (reviews : List ViolationReviewRecord) : List ViolationReviewRecord :=
  reviews.filter fun review => review.newStatus ≠ review.previousStatus

/-- No committed review is lost, every one starts from a committed status, and the last one that has changed the
status decides it. -/
structure Explained {ι : Type} (state : State ι) : Prop where
  kept : ∀ request review, state.phases request = .committed review → review ∈ state.reviews
  grounded : Grounded state.reviews
  decided : state.violation.status = lastStatus (changing state.reviews)

end MisraPlatform.ConcurrentReviews
