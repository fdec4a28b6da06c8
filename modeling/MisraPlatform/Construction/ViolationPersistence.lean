import MisraPlatform.Construction.RuleDispatcher
import MisraPlatform.Construction.ViolationStore

/-
This file is how the results of a run are stored in a session that does not flush on its own.
-/

namespace MisraPlatform

inductive PersistError where
  | multipleResultsFound
  | integrity (constraint : String)
  deriving DecidableEq, Repr

namespace ViolationRepository

/-- A select finds the rows, and it does not find the objects that have been added since the last flush. -/
structure Session where
  rows : List ViolationRecord
  pending : List ViolationRecord := []

namespace Session

/-- A known row is changed, and a new object is added. -/
def upsert (call : Upsert) (session : Session) (payload : ViolationPayload) : Except PersistError Session :=
  match matching call payload session.rows with
  | [] =>
      .ok { session with
        pending := session.pending ++ [newRecord call payload (session.rows ++ session.pending)] }
  | [record] =>
      .ok { session with
        rows := session.rows.map fun other =>
          if other.id = record.id then seenAgain call payload record else other }
  | _ :: _ :: _ => .error .multipleResultsFound

/-- The table has no two rows of a run with one fingerprint. -/
def flush (session : Session) : Except PersistError (List ViolationRecord) :=
  if ((session.rows ++ session.pending).map fun row => (row.analysisRunId, row.fingerprint)).Nodup then
    .ok (session.rows ++ session.pending)
  else .error (.integrity "uq_violation_run_fingerprint")

end Session

/-- This is `upsert_violations` in a session, without its result. -/
def upsertAndFlush (call : Upsert) (payloads : List ViolationPayload) (rows : List ViolationRecord) :
    Except PersistError (List ViolationRecord) := do
  let session ← payloads.foldlM (Session.upsert call) { rows := rows }
  session.flush

end ViolationRepository

namespace RuleDispatcher
open ViolationRepository

def StoredViolation.payload (violation : StoredViolation) : ViolationPayload where
  fingerprint := violation.fingerprint
  severity := violation.severity
  category := violation.category
  violation :=
    { ruleId := violation.ruleId
      filePath := violation.filePath
      lineStart := violation.lineStart
      lineEnd := violation.lineEnd
      columnStart := violation.columnStart
      columnEnd := violation.columnEnd
      offendingExpression := violation.offendingExpression
      explanation := violation.explanation
      riskDescription := violation.riskDescription
      sourceSnippet := violation.sourceSnippet
      astNodeId := violation.astNodeReference
      astNodePath := []
      macroExpansionChain := violation.macroExpansionChain
      confidenceScore := violation.confidenceScore
      suggestedFix := violation.suggestedFix
      confidenceFactors := violation.confidenceFactors }

/-- This is a call of `persist_results` with the violations of its results and the time of each upsert. -/
structure PersistCall where
  analysisRunId : String
  projectId : String
  violations : List StoredViolation
  now : String → Nat

def violationsByTu (violations : List StoredViolation) : OrderedDict String (List StoredViolation) :=
  violations.foldl (fun byTu violation => LinkageIndex.appendTo byTu violation.translationUnitId violation) .empty

def PersistCall.upsert (call : PersistCall) (tuKey : String) : Upsert where
  analysisRunId := call.analysisRunId
  projectId := call.projectId
  translationUnitId := if tuKey = "" then none else some tuKey
  now := call.now tuKey

/-- The units are stored one after the other, each with a flush. -/
def persistResults (rows : List ViolationRecord) (call : PersistCall) : Except PersistError (List ViolationRecord) :=
  (violationsByTu call.violations).entries.foldlM (fun rows entry =>
    upsertAndFlush (call.upsert entry.1) (entry.2.map StoredViolation.payload) rows) rows

def persistAll (calls : List PersistCall) (rows : List ViolationRecord) : Except PersistError (List ViolationRecord) :=
  calls.foldlM persistResults rows

end RuleDispatcher

end MisraPlatform
