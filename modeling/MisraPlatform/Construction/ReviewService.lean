import MisraPlatform.Construction.PatchEngine
import MisraPlatform.Construction.ViolationStore
import MisraPlatform.Library.OrderedDict
import MisraPlatform.Library.Rollback

/-
This file is the review of the violations by engineers, its tables, services and requests.
-/

namespace MisraPlatform
open UnifiedDiff

inductive ReviewAction where
  | accept | reject | edit | skip | falsePositive | suppress
  deriving DecidableEq, Repr

inductive PatchStatus where
  | generated | exported
  deriving DecidableEq, Repr

namespace ReviewAction

def value : ReviewAction → String
  | accept => "accept"
  | reject => "reject"
  | edit => "edit"
  | skip => "skip"
  | falsePositive => "false_positive"
  | suppress => "suppress"

/-- This is `ACTION_TO_STATUS`. -/
def toStatus : ReviewAction → ViolationStatus
  | accept => .accepted
  | reject => .rejected
  | edit => .edited
  | skip => .skipped
  | falsePositive => .falsePositive
  | suppress => .suppressed

def requiringJustification : List ReviewAction := [accept, suppress, falsePositive]

def generatingPatches : List ReviewAction := [accept, edit]

def minJustificationLength : Nat := 20

end ReviewAction

def ViolationStatus.value : ViolationStatus → String
  | .open => "open"
  | .accepted => "accepted"
  | .rejected => "rejected"
  | .edited => "edited"
  | .skipped => "skipped"
  | .falsePositive => "false_positive"
  | .suppressed => "suppressed"
  | .resolved => "resolved"

structure ViolationReviewRecord where
  id : String
  violationId : Nat
  action : ReviewAction
  previousStatus : ViolationStatus
  newStatus : ViolationStatus
  reviewerId : String
  reviewerName : Option String
  justification : Option String
  notes : Option String
  editedFix : Option SuggestedFix
  deriving DecidableEq

/-- The values in the states of an audit entry are texts, which may be missing, and lists of ids. -/
inductive StateValue where
  | text (value : Option String)
  | list (items : List String)
  deriving DecidableEq, Repr

abbrev EntityState := List (String × StateValue)

structure AuditEntryRecord where
  id : String
  entityType : String
  entityId : String
  action : String
  actorId : String
  actorName : Option String
  oldState : Option EntityState
  newState : Option EntityState
  justification : Option String
  notes : Option String
  deriving DecidableEq

structure PatchRecord where
  id : String
  violationId : Nat
  reviewId : String
  filePath : String
  unifiedDiff : String
  gitPatch : String
  sourceAvailable : Bool
  confidenceScore : Rat
  status : PatchStatus
  createdBy : String
  createdAt : Nat
  exportedAt : Option Nat := none
  exportedBy : Option String := none
  deriving DecidableEq

/-- A project is stored with its root path. -/
structure ReviewTables where
  projectRoots : List (String × String) := []
  violations : List ViolationRecord := []
  reviews : List ViolationReviewRecord := []
  auditEntries : List AuditEntryRecord := []
  patches : List PatchRecord := []
  deriving DecidableEq

/-- A rejection is raised by the service, a missing row by the endpoint, and a repeated id by the database. -/
inductive ReviewError where
  | reviewValidation (message : String)
  | notFound (detail : String)
  | integrity (table : String)
  deriving DecidableEq, Repr

/-- The ids and times that a request draws are numbered. -/
structure ReviewSession where
  tables : ReviewTables
  drawn : Nat := 0

/-- The database may refuse a flush or the commit of a request. -/
structure ReviewEnvironment where
  databaseFails : Bool
  uuid : Nat → String
  now : Nat → Nat
  files : FileSystem
  resolvePath : String → SourcePath
  diff : List String → List String → List (Hunk String)

abbrev Request (α : Type) := EStateM ReviewError ReviewSession α

namespace ReviewTables

def setStatus (violationId : Nat) (status : ViolationStatus) (tables : ReviewTables) : ReviewTables :=
  { tables with violations := tables.violations.map fun violation =>
      if violation.id = violationId then { violation with status := status } else violation }

def setReviewer (violationId : Nat) (reviewerId : String) (reviewerName : Option String) (tables : ReviewTables) :
    ReviewTables :=
  { tables with violations := tables.violations.map fun violation =>
      if violation.id = violationId then
        { violation with assignedReviewerId := some reviewerId, assignedReviewerName := reviewerName }
      else violation }

def addReview (review : ViolationReviewRecord) (tables : ReviewTables) : ReviewTables :=
  { tables with reviews := tables.reviews ++ [review] }

def addAuditEntry (entry : AuditEntryRecord) (tables : ReviewTables) : ReviewTables :=
  { tables with auditEntries := tables.auditEntries ++ [entry] }

def addPatch (patch : PatchRecord) (tables : ReviewTables) : ReviewTables :=
  { tables with patches := tables.patches ++ [patch] }

def exportPatch (patchId : String) (exportedBy : String) (exportedAt : Nat) (tables : ReviewTables) : ReviewTables :=
  { tables with patches := tables.patches.map fun patch =>
      if patch.id = patchId then
        { patch with status := .exported, exportedAt := some exportedAt, exportedBy := some exportedBy }
      else patch }

end ReviewTables

namespace ReviewRepository

def getViolation (violationId : Nat) : Request (Option ViolationRecord) := do
  return (← get).tables.violations.find? fun violation => violation.id = violationId

/-- A missing project has an empty root. -/
def getProjectRoot (projectId : String) : Request String := do
  return ((← get).tables.projectRoots.lookup projectId).getD ""

def change (update : ReviewTables → ReviewTables) : Request Unit :=
  modify fun session => { session with tables := update session.tables }

/-- The next id or time is drawn. -/
def draw : Request Nat :=
  modifyGet fun session => (session.drawn, { session with drawn := session.drawn + 1 })

/-- An id that the table already has is refused. -/
def insert (table : String) (known : ReviewTables → List String) (id : String)
    (add : ReviewTables → ReviewTables) : Request Unit := do
  if id ∈ known (← get).tables then throw (.integrity table)
  change add

def addReview (review : ViolationReviewRecord) : Request Unit :=
  insert "violation_reviews" (fun tables => tables.reviews.map ViolationReviewRecord.id) review.id
    (ReviewTables.addReview review)

def addAuditEntry (entry : AuditEntryRecord) : Request Unit :=
  insert "audit_entries" (fun tables => tables.auditEntries.map AuditEntryRecord.id) entry.id
    (ReviewTables.addAuditEntry entry)

def addPatch (patch : PatchRecord) : Request Unit :=
  insert "patches" (fun tables => tables.patches.map PatchRecord.id) patch.id (ReviewTables.addPatch patch)

def getPatch (patchId : String) : Request (Option PatchRecord) := do
  return (← get).tables.patches.find? fun patch => patch.id = patchId

/-- The patches of a violation follow each other from the newest to the oldest. -/
def patchesByIds (violationIds : List Nat) (tables : ReviewTables) : List PatchRecord :=
  (tables.patches.filter fun patch => patch.violationId ∈ violationIds).insertionSort fun first second =>
    first.violationId < second.violationId ∨
      first.violationId = second.violationId ∧ second.createdAt ≤ first.createdAt

def listPatchesByIds (violationIds : List Nat) : Request (List PatchRecord) := do
  return patchesByIds violationIds (← get).tables

def markPatchExported (env : ReviewEnvironment) (patch : PatchRecord) (exportedBy : String) : Request Unit := do
  let drawn ← draw
  change (ReviewTables.exportPatch patch.id exportedBy (env.now drawn))

end ReviewRepository

/-- These are the arguments of a review besides its violation. -/
structure ReviewArguments where
  action : ReviewAction
  reviewerId : String
  reviewerName : Option String
  justification : Option String
  notes : Option String
  editedFix : Option SuggestedFix

structure ReviewOutcome where
  review : ViolationReviewRecord
  auditEntry : AuditEntryRecord
  patch : Option PatchRecord

namespace ReviewService
open ReviewRepository

def isSpace (char : Char) : Bool :=
  char ∈ ['\t', '\n', '\x0b', '\x0c', '\r', '\x1c', '\x1d', '\x1e', '\x1f', ' ', '\u0085', '\u00a0', '\u1680',
    '\u2028', '\u2029', '\u202f', '\u205f', '\u3000'] || (0x2000 ≤ char.toNat && char.toNat ≤ 0x200a)

def strippedLength (text : String) : Nat :=
  ((text.toList.dropWhile isSpace).reverse.dropWhile isSpace).length

def justificationMessage (action : ReviewAction) : String :=
  "Action '" ++ action.value ++ "' requires a justification of at least " ++
    Nat.repr ReviewAction.minJustificationLength ++ " characters."

def validateJustification (action : ReviewAction) (justification : Option String) : Request Unit :=
  if action ∈ ReviewAction.requiringJustification ∧
      strippedLength (justification.getD "") < ReviewAction.minJustificationLength then
    throw (.reviewValidation (justificationMessage action))
  else pure ()

/-- An edit needs a fix, and an acceptance takes the suggested one. -/
def resolveFixText (action : ReviewAction) (violation : ViolationRecord) (editedFix : Option SuggestedFix) :
    Request (Option String) :=
  match action with
  | .edit =>
      if (editedFix.map SuggestedFix.suggestedCode).getD "" = "" then
        throw (.reviewValidation "Edit action requires 'edited_fix.suggested_code'.")
      else pure (editedFix.map SuggestedFix.suggestedCode)
  | .accept => pure (violation.violation.suggestedFix.map SuggestedFix.suggestedCode)
  | _ => pure none

section Submit

variable (env : ReviewEnvironment) (violation : ViolationRecord) (arguments : ReviewArguments)

def newReview (drawn : Nat) : ViolationReviewRecord where
  id := env.uuid drawn
  violationId := violation.id
  action := arguments.action
  previousStatus := violation.status
  newStatus := arguments.action.toStatus
  reviewerId := arguments.reviewerId
  reviewerName := arguments.reviewerName
  justification := arguments.justification
  notes := arguments.notes
  editedFix := if arguments.action = .edit then arguments.editedFix else none

def reviewAudit (review : ViolationReviewRecord) (drawn : Nat) : AuditEntryRecord where
  id := env.uuid drawn
  entityType := "violation"
  entityId := Nat.repr review.violationId
  action := "review." ++ review.action.value
  actorId := review.reviewerId
  actorName := review.reviewerName
  oldState := some [("status", .text (some review.previousStatus.value))]
  newState := some [("status", .text (some review.newStatus.value)), ("review_id", .text (some review.id))]
  justification := review.justification
  notes := review.notes

def newPatch (projectRoot : String) (review : ViolationReviewRecord) (fixText : String) (drawn : Nat) : PatchRecord :=
  let generated := PatchEngine.generate env.diff env.files (env.resolvePath projectRoot)
    (env.resolvePath violation.violation.filePath) violation.violation.lineStart violation.violation.lineEnd fixText
    violation.violation.offendingExpression
  { id := env.uuid drawn
    violationId := violation.id
    reviewId := review.id
    filePath := violation.violation.filePath
    unifiedDiff := generated.unifiedDiff
    gitPatch := generated.gitPatch
    sourceAvailable := generated.sourceAvailable
    confidenceScore := violation.violation.confidenceScore
    status := .generated
    createdBy := review.reviewerId
    createdAt := env.now drawn }

def patchAudit (review : ViolationReviewRecord) (patch : PatchRecord) (drawn : Nat) : AuditEntryRecord where
  id := env.uuid drawn
  entityType := "patch"
  entityId := patch.id
  action := "patch.generated"
  actorId := review.reviewerId
  actorName := review.reviewerName
  oldState := none
  newState := some [("violation_id", .text (some (Nat.repr review.violationId))),
    ("review_id", .text (some review.id))]
  justification := none
  notes := some "Patch generated for export. No automatic apply operation exists."

/-- A patch is made where the action has one and the fix is not empty. -/
def generatePatch (projectRoot : String) (review : ViolationReviewRecord) (fixText : Option String) :
    Request (Option PatchRecord) := do
  if review.action ∈ ReviewAction.generatingPatches ∧ fixText.getD "" ≠ "" then
    let patch := newPatch env violation projectRoot review (fixText.getD "") (← draw)
    addPatch patch
    addAuditEntry (patchAudit env review patch (← draw))
    return some patch
  else return none

def submitReview (projectRoot : String) : Request ReviewOutcome := do
  validateJustification arguments.action arguments.justification
  let fixText ← resolveFixText arguments.action violation arguments.editedFix
  let review := newReview env violation arguments (← draw)
  addReview review
  change (ReviewTables.setStatus violation.id review.newStatus)
  let auditEntry := reviewAudit env review (← draw)
  addAuditEntry auditEntry
  let patch ← generatePatch env violation projectRoot review fixText
  return { review := review, auditEntry := auditEntry, patch := patch }

end Submit

/-- The state of a violation has the reviewer that it is assigned to. -/
def reviewerState (reviewerId reviewerName : Option String) : EntityState :=
  [("assigned_reviewer_id", .text reviewerId), ("assigned_reviewer_name", .text reviewerName)]

def assignAudit (env : ReviewEnvironment) (violation : ViolationRecord) (reviewerId : String)
    (reviewerName : Option String) (assignedBy : String) (drawn : Nat) : AuditEntryRecord where
  id := env.uuid drawn
  entityType := "violation"
  entityId := Nat.repr violation.id
  action := "assign_reviewer"
  actorId := assignedBy
  actorName := none
  oldState := some (reviewerState violation.assignedReviewerId violation.assignedReviewerName)
  newState := some (reviewerState (some reviewerId) reviewerName)
  justification := none
  notes := none

def assignReviewer (env : ReviewEnvironment) (violation : ViolationRecord) (reviewerId : String)
    (reviewerName : Option String) (assignedBy : String) : Request AuditEntryRecord := do
  change (ReviewTables.setReviewer violation.id reviewerId reviewerName)
  let entry := assignAudit env violation reviewerId reviewerName assignedBy (← draw)
  addAuditEntry entry
  return entry

end ReviewService

namespace BulkReviewService
open ReviewRepository ReviewService

structure BulkSkipResult where
  outcomes : List ReviewOutcome := []
  skippedViolationIds : List Nat := []
  notFoundViolationIds : List Nat := []

structure BulkAssignResult where
  assignedViolationIds : List Nat := []
  notFoundViolationIds : List Nat := []

structure BulkExportResult where
  combinedPatch : String
  exportedPatchIds : List String
  skippedViolationIds : List Nat

section Bulk

variable (env : ReviewEnvironment)

/-- A bulk operation has one entry with the ids that it has handled. -/
def bulkAudit (marked drawn : Nat) (mark action actorId : String) (actorName : Option String)
    (newState : EntityState) (notes : Option String) : AuditEntryRecord where
  id := env.uuid drawn
  entityType := "bulk_operation"
  entityId := mark ++ env.uuid marked
  action := action
  actorId := actorId
  actorName := actorName
  oldState := none
  newState := some newState
  justification := none
  notes := notes

def skipArguments (reviewerId : String) (reviewerName notes : Option String) : ReviewArguments where
  action := .skip
  reviewerId := reviewerId
  reviewerName := reviewerName
  justification := none
  notes := notes
  editedFix := none

def skipEach (reviewerId : String) (reviewerName notes : Option String) :
    List Nat → BulkSkipResult → Request BulkSkipResult
  | [], result => return result
  | violationId :: rest, result => do
      match ← getViolation violationId with
      | none =>
          skipEach reviewerId reviewerName notes rest
            { result with notFoundViolationIds := result.notFoundViolationIds ++ [violationId] }
      | some violation =>
          let projectRoot ← getProjectRoot violation.projectId
          let outcome ← submitReview env violation (skipArguments reviewerId reviewerName notes) projectRoot
          skipEach reviewerId reviewerName notes rest
            { result with
              outcomes := result.outcomes ++ [outcome]
              skippedViolationIds := result.skippedViolationIds ++ [violationId] }

def bulkSkip (violationIds : List Nat) (reviewerId : String) (reviewerName notes : Option String) :
    Request BulkSkipResult := do
  let result ← skipEach env reviewerId reviewerName notes violationIds {}
  addAuditEntry (bulkAudit env (← draw) (← draw) "bulk-skip-" "bulk_skip" reviewerId reviewerName
    [("violation_ids", .list (result.skippedViolationIds.map Nat.repr))] notes)
  return result

def assignEach (reviewerId : String) (reviewerName : Option String) (assignedBy : String) :
    List Nat → BulkAssignResult → Request BulkAssignResult
  | [], result => return result
  | violationId :: rest, result => do
      match ← getViolation violationId with
      | none =>
          assignEach reviewerId reviewerName assignedBy rest
            { result with notFoundViolationIds := result.notFoundViolationIds ++ [violationId] }
      | some violation =>
          let _ ← assignReviewer env violation reviewerId reviewerName assignedBy
          assignEach reviewerId reviewerName assignedBy rest
            { result with assignedViolationIds := result.assignedViolationIds ++ [violationId] }

def bulkAssignReviewer (violationIds : List Nat) (reviewerId : String) (reviewerName : Option String)
    (assignedBy : String) : Request BulkAssignResult := do
  let result ← assignEach env reviewerId reviewerName assignedBy violationIds {}
  addAuditEntry (bulkAudit env (← draw) (← draw) "bulk-assign-" "bulk_assign_reviewer" assignedBy none
    [("violation_ids", .list (result.assignedViolationIds.map Nat.repr)), ("reviewer_id", .text (some reviewerId)),
      ("reviewer_name", .text reviewerName)] none)
  return result

def approvedStatuses : List ViolationStatus := [.accepted, .edited]

/-- The violations that are not approved or not found are skipped. -/
def selectEligible : List Nat → List Nat × List Nat → Request (List Nat × List Nat)
  | [], selected => return selected
  | violationId :: rest, (eligible, skipped) => do
      match ← getViolation violationId with
      | none => selectEligible rest (eligible, skipped ++ [violationId])
      | some violation =>
          if violation.status ∈ approvedStatuses then selectEligible rest (eligible ++ [violationId], skipped)
          else selectEligible rest (eligible, skipped ++ [violationId])

/-- The first patch of each violation is its latest. -/
def latestPatchByViolation (patches : List PatchRecord) : OrderedDict Nat PatchRecord :=
  patches.foldl (fun latest patch =>
    if patch.violationId ∈ latest.keys then latest else latest.insert patch.violationId patch) .empty

def exportEach (latest : OrderedDict Nat PatchRecord) (exportedBy : String) :
    List Nat → List PatchRecord × List Nat → Request (List PatchRecord × List Nat)
  | [], result => return result
  | violationId :: rest, (exported, skipped) => do
      match latest.get? violationId with
      | none => exportEach latest exportedBy rest (exported, skipped ++ [violationId])
      | some patch =>
          markPatchExported env patch exportedBy
          exportEach latest exportedBy rest (exported ++ [patch], skipped)

def bulkExportApprovedPatches (violationIds : List Nat) (exportedBy : String) : Request BulkExportResult := do
  let (eligible, skipped) ← selectEligible violationIds ([], [])
  let allPatches ← listPatchesByIds eligible
  let (exported, skipped) ← exportEach env (latestPatchByViolation allPatches) exportedBy eligible ([], skipped)
  addAuditEntry (bulkAudit env (← draw) (← draw) "bulk-export-" "bulk_export_patches" exportedBy none
    [("patch_ids", .list (exported.map PatchRecord.id))]
    (some "Export only. No patches were applied automatically."))
  return { combinedPatch := String.intercalate "\n" (exported.map PatchRecord.gitPatch)
           exportedPatchIds := exported.map PatchRecord.id
           skippedViolationIds := skipped }

end Bulk

end BulkReviewService

inductive PatchFormat where
  | git | unified
  deriving DecidableEq, Repr

inductive ReviewRequest where
  | submitReview (violationId : Nat) (arguments : ReviewArguments)
  | assignReviewer (violationId : Nat) (reviewerId : String) (reviewerName : Option String) (assignedBy : String)
  | bulkSkip (violationIds : List Nat) (reviewerId : String) (reviewerName notes : Option String)
  | bulkAssignReviewer (violationIds : List Nat) (reviewerId : String) (reviewerName : Option String)
      (assignedBy : String)
  | bulkExportApprovedPatches (violationIds : List Nat) (exportedBy : String)
  | exportPatch (violationId : Nat) (patchId exportedBy : String) (format : PatchFormat)

namespace ReviewRequest
open ReviewRepository

variable (env : ReviewEnvironment)

def loadViolation (violationId : Nat) : Request ViolationRecord := do
  match ← getViolation violationId with
  | none => throw (.notFound "Violation not found")
  | some violation => return violation

def loadProjectRoot (projectId : String) : Request String := do
  match (← get).tables.projectRoots.lookup projectId with
  | none => throw (.notFound "Project not found")
  | some rootPath => return rootPath

def submitReviewEndpoint (violationId : Nat) (arguments : ReviewArguments) : Request ReviewOutcome := do
  let violation ← loadViolation violationId
  let projectRoot ← loadProjectRoot violation.projectId
  ReviewService.submitReview env violation arguments projectRoot

/-- The response has a name and the text of the patch, which has to belong to the violation. -/
def exportPatchEndpoint (violationId : Nat) (patchId exportedBy : String) (format : PatchFormat) :
    Request (String × String) := do
  match ← getPatch patchId with
  | none => throw (.notFound "Patch not found")
  | some patch =>
      if patch.violationId ≠ violationId then throw (.notFound "Patch not found")
      else
        markPatchExported env patch exportedBy
        match format with
        | .git => return (Nat.repr violationId ++ ".patch", patch.gitPatch)
        | .unified => return (Nat.repr violationId ++ ".diff", patch.unifiedDiff)

def perform : ReviewRequest → Request Unit
  | submitReview violationId arguments => discard (submitReviewEndpoint env violationId arguments)
  | assignReviewer violationId reviewerId reviewerName assignedBy => do
      let violation ← loadViolation violationId
      discard (ReviewService.assignReviewer env violation reviewerId reviewerName assignedBy)
  | bulkSkip violationIds reviewerId reviewerName notes =>
      discard (BulkReviewService.bulkSkip env violationIds reviewerId reviewerName notes)
  | bulkAssignReviewer violationIds reviewerId reviewerName assignedBy =>
      discard (BulkReviewService.bulkAssignReviewer env violationIds reviewerId reviewerName assignedBy)
  | bulkExportApprovedPatches violationIds exportedBy =>
      discard (BulkReviewService.bulkExportApprovedPatches env violationIds exportedBy)
  | exportPatch violationId patchId exportedBy format =>
      discard (exportPatchEndpoint env violationId patchId exportedBy format)

/-- A request is committed as a whole, and where it raises or the database fails it is rolled back. -/
def handle (request : ReviewRequest) (tables : ReviewTables) : ReviewTables :=
  if env.databaseFails then tables else (Rollback.settle (perform env request) { tables := tables }).tables

/-- The requests are executed one after another. -/
def handleAll (calls : List (ReviewEnvironment × ReviewRequest)) (tables : ReviewTables) : ReviewTables :=
  calls.foldl (fun tables call => handle call.1 call.2 tables) tables

end ReviewRequest

structure TeamMemberRecord where
  teamId : String
  userId : String
  displayName : String
  deriving DecidableEq, Repr

/-- A user is a member of a team only once. -/
structure TeamMembers where
  rows : List TeamMemberRecord
  unique : (rows.map fun member => (member.teamId, member.userId)).Nodup

namespace EnterpriseRepository

def listTeamMembers (members : TeamMembers) (teamId : String) : List TeamMemberRecord :=
  (members.rows.filter fun member => member.teamId = teamId).insertionSort fun first second =>
    first.displayName ≤ second.displayName

def getTeamMember (members : TeamMembers) (teamId userId : String) : Option TeamMemberRecord :=
  members.rows.find? fun member => member.teamId = teamId ∧ member.userId = userId

end EnterpriseRepository

/-- These are the arguments of an assignment besides its violations. -/
structure AssignmentArguments where
  reviewerId : String
  reviewerName : String
  actorId : String
  actorName : Option String
  teamId : Option String

structure AssignmentOutcome where
  violation : ViolationRecord
  auditEntry : AuditEntryRecord

namespace ReviewerAssignmentService
open ReviewRepository EnterpriseRepository

variable (env : ReviewEnvironment) (members : TeamMembers)

def assignmentAudit (violation : ViolationRecord) (arguments : AssignmentArguments) (drawn : Nat) :
    AuditEntryRecord where
  id := env.uuid drawn
  entityType := "violation"
  entityId := Nat.repr violation.id
  action := "reviewer_assigned"
  actorId := arguments.actorId
  actorName := arguments.actorName
  oldState := none
  newState := some [("reviewer_id", .text (some arguments.reviewerId)),
    ("reviewer_name", .text (some arguments.reviewerName)), ("team_id", .text arguments.teamId),
    ("rule_id", .text (some violation.violation.ruleId)), ("file_path", .text (some violation.violation.filePath))]
  justification := none
  notes := none

/-- Both services refuse with an error that is answered with 422. -/
def reviewerAssignmentError (message : String) : ReviewError := .reviewValidation message

/-- Without a team everyone may be the reviewer. -/
def validateMember (reviewerId : String) : Option String → Request Unit
  | none => pure ()
  | some teamId =>
      if (getTeamMember members teamId reviewerId).isNone then
        throw (reviewerAssignmentError
          ("Reviewer '" ++ reviewerId ++ "' is not a member of team '" ++ teamId ++ "'."))
      else pure ()

def assignReviewer (violation : ViolationRecord) (arguments : AssignmentArguments) : Request AssignmentOutcome := do
  validateMember members arguments.reviewerId arguments.teamId
  change (ReviewTables.setReviewer violation.id arguments.reviewerId (some arguments.reviewerName))
  let entry := assignmentAudit env violation arguments (← draw)
  addAuditEntry entry
  return { violation := { violation with assignedReviewerId := some arguments.reviewerId
                                         assignedReviewerName := some arguments.reviewerName }
           auditEntry := entry }

def memberArguments (member : TeamMemberRecord) (teamId actorId : String) (actorName : Option String) :
    AssignmentArguments where
  reviewerId := member.userId
  reviewerName := member.displayName
  actorId := actorId
  actorName := actorName
  teamId := some teamId

/-- The violations from this index on are assigned to the members in turn. -/
def assignInTurn (team : List TeamMemberRecord) (teamId actorId : String) (actorName : Option String) :
    Nat → List ViolationRecord → Request (List AssignmentOutcome)
  | _, [] => return []
  | index, violation :: rest => do
      match team[index % team.length]? with
      | none => return []
      | some member =>
          let outcome ← assignReviewer env members violation (memberArguments member teamId actorId actorName)
          let outcomes ← assignInTurn team teamId actorId actorName (index + 1) rest
          return outcome :: outcomes

def noMembersMessage (teamId : String) : String := "Team '" ++ teamId ++ "' has no members."

def autoAssignRoundRobin (violations : List ViolationRecord) (teamId actorId : String) (actorName : Option String) :
    Request (List AssignmentOutcome) := do
  let team := listTeamMembers members teamId
  if team = [] then throw (reviewerAssignmentError (noMembersMessage teamId))
  assignInTurn env members team teamId actorId actorName 0 violations

def bulkAssign (arguments : AssignmentArguments) : List Nat → Request (List AssignmentOutcome)
  | [] => return []
  | violationId :: rest => do
      match ← getViolation violationId with
      | none => bulkAssign arguments rest
      | some violation =>
          let outcome ← assignReviewer env members violation arguments
          let outcomes ← bulkAssign arguments rest
          return outcome :: outcomes

end ReviewerAssignmentService

inductive AssignmentRequest where
  | assignReviewer (violationId : Nat) (arguments : AssignmentArguments)
  | bulkAssign (violationIds : List Nat) (arguments : AssignmentArguments)
  | roundRobin (runId teamId actorId : String) (actorName : Option String)

namespace AssignmentRequest
open ReviewRepository ReviewerAssignmentService

variable (env : ReviewEnvironment) (members : TeamMembers)

/-- The violations of a run follow each other by file and line. -/
def listByRun (runId : String) (tables : ReviewTables) : List ViolationRecord :=
  (tables.violations.filter fun violation => violation.analysisRunId = runId).insertionSort fun first second =>
    first.violation.filePath < second.violation.filePath ∨
      first.violation.filePath = second.violation.filePath ∧
        first.violation.lineStart ≤ second.violation.lineStart

def openViolations (runId : String) (tables : ReviewTables) : List ViolationRecord :=
  (listByRun runId tables).filter fun violation => violation.status = .open

def roundRobinEndpoint (runId teamId actorId : String) (actorName : Option String) :
    Request (List AssignmentOutcome) := do
  autoAssignRoundRobin env members (openViolations runId (← get).tables) teamId actorId actorName

def perform : AssignmentRequest → Request (List AssignmentOutcome)
  | assignReviewer violationId arguments => do
      let violation ← ReviewRequest.loadViolation violationId
      let outcome ← ReviewerAssignmentService.assignReviewer env members violation arguments
      return [outcome]
  | bulkAssign violationIds arguments => ReviewerAssignmentService.bulkAssign env members arguments violationIds
  | roundRobin runId teamId actorId actorName => roundRobinEndpoint env members runId teamId actorId actorName

def handle (request : AssignmentRequest) (tables : ReviewTables) : ReviewTables :=
  if env.databaseFails then tables else (Rollback.settle (perform env members request) { tables := tables }).tables

end AssignmentRequest

/-- The engineers and the teams use different endpoints on the same tables. -/
inductive WorkflowRequest where
  | review (env : ReviewEnvironment) (request : ReviewRequest)
  | assignment (env : ReviewEnvironment) (members : TeamMembers) (request : AssignmentRequest)

namespace WorkflowRequest

def handle (tables : ReviewTables) : WorkflowRequest → ReviewTables
  | review env request => request.handle env tables
  | assignment env members request => request.handle env members tables

def handleAll (requests : List WorkflowRequest) (tables : ReviewTables) : ReviewTables :=
  requests.foldl handle tables

end WorkflowRequest

end MisraPlatform
