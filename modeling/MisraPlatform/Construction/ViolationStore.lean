import MisraPlatform.Construction.RuleEngine

/-
This file is the store of the violations of all analysis runs.
-/

namespace MisraPlatform

inductive ViolationStatus where
  | «open» | accepted | rejected | edited | skipped | falsePositive | suppressed | resolved
  deriving DecidableEq, Repr

/-- The dispatcher sends the fields of a violation with its fingerprint and the metadata of its rule. -/
structure ViolationPayload where
  fingerprint : String
  severity : String
  category : String
  violation : RuleResult
  deriving DecidableEq

def ViolationPayload.of (sha256 : String → String) (severity category : String) (violation : RuleResult) :
    ViolationPayload where
  fingerprint := Fingerprint.generateFingerprint sha256 violation
  severity := severity
  category := category
  violation := violation

/-- The columns of the violation itself stand together. -/
structure ViolationRecord where
  id : Nat
  analysisRunId : String
  translationUnitId : Option String
  projectId : String
  fingerprint : String
  severity : String
  category : String
  violation : RuleResult
  status : ViolationStatus
  assignedReviewerId : Option String := none
  assignedReviewerName : Option String := none
  firstSeenAt : Nat
  lastSeenAt : Nat
  deriving DecidableEq

inductive StoreError where
  | multipleResultsFound
  deriving DecidableEq, Repr

namespace ViolationRepository

/-- This is the call of `upsert_violations` without its list. -/
structure Upsert where
  analysisRunId : String
  projectId : String
  translationUnitId : Option String
  now : Nat

/-- A new row has an id that no other row has. -/
def freshId (store : List ViolationRecord) : Nat := (store.map ViolationRecord.id).foldr max 0 + 1

/-- A known row takes the place and the score of the violation and keeps everything else. -/
def seenAgain (call : Upsert) (payload : ViolationPayload) (record : ViolationRecord) : ViolationRecord :=
  { record with
    analysisRunId := call.analysisRunId
    translationUnitId := call.translationUnitId
    violation := { record.violation with
      lineStart := payload.violation.lineStart
      lineEnd := payload.violation.lineEnd
      columnStart := payload.violation.columnStart
      columnEnd := payload.violation.columnEnd
      confidenceScore := payload.violation.confidenceScore }
    lastSeenAt := call.now }

def newRecord (call : Upsert) (payload : ViolationPayload) (store : List ViolationRecord) :
    ViolationRecord where
  id := freshId store
  analysisRunId := call.analysisRunId
  translationUnitId := call.translationUnitId
  projectId := call.projectId
  fingerprint := payload.fingerprint
  severity := payload.severity
  category := payload.category
  violation := payload.violation
  status := .open
  firstSeenAt := call.now
  lastSeenAt := call.now

def matching (call : Upsert) (payload : ViolationPayload) (store : List ViolationRecord) :
    List ViolationRecord :=
  store.filter fun record => record.projectId = call.projectId ∧ record.fingerprint = payload.fingerprint

/-- More than one match makes `scalar_one_or_none` raise. -/
def upsertViolation (call : Upsert) (payload : ViolationPayload) (store : List ViolationRecord) :
    Except StoreError (ViolationRecord × List ViolationRecord) :=
  match matching call payload store with
  | [] => .ok (newRecord call payload store, store ++ [newRecord call payload store])
  | [record] =>
      .ok (seenAgain call payload record, store.map fun other =>
        if other.id = record.id then seenAgain call payload record else other)
  | _ :: _ :: _ => .error .multipleResultsFound

/-- The rows are saved in the order of the violations. -/
def upsertViolations (call : Upsert) :
    List ViolationPayload → List ViolationRecord →
      Except StoreError (List ViolationRecord × List ViolationRecord)
  | [], store => .ok ([], store)
  | payload :: rest, store => do
      let (saved, store) ← upsertViolation call payload store
      let (others, store) ← upsertViolations call rest store
      pure (saved :: others, store)

end ViolationRepository
end MisraPlatform
