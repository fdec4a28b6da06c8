import MisraPlatform.Construction.ReviewService

/-
This file is the history that the reviews of a violation make, the trail of their changes, and the shares of a team.
-/

namespace MisraPlatform

namespace ReviewTables

variable (tables : ReviewTables)

def reviewsOf (violationId : Nat) : List ViolationReviewRecord :=
  tables.reviews.filter fun review => review.violationId = violationId

end ReviewTables

namespace ReviewHistory

/-- A violation without reviews is open. -/
def lastStatus (reviews : List ViolationReviewRecord) : ViolationStatus :=
  (reviews.getLast?.map ViolationReviewRecord.newStatus).getD .open

/-- Each review starts from the status that the one before it has left. -/
def Linked : ViolationStatus → List ViolationReviewRecord → Prop
  | _, [] => True
  | status, review :: rest => review.previousStatus = status ∧ Linked review.newStatus rest

/-- The entry has this text under the key of its new state. -/
def Names (entry : AuditEntryRecord) (key text : String) : Prop :=
  ∃ state, entry.newState = some state ∧ (key, .text (some text)) ∈ state

/-- The entry names the review and has its statuses. -/
structure Records (review : ViolationReviewRecord) (entry : AuditEntryRecord) : Prop where
  entity : entry.entityType = "violation" ∧ entry.entityId = Nat.repr review.violationId
  oldStatus : ∃ state, entry.oldState = some state ∧ ("status", .text (some review.previousStatus.value)) ∈ state
  newStatus : Names entry "status" review.newStatus.value
  review : Names entry "review_id" review.id

/-- The reviews, the statuses, the audit entries and the patches are in step. -/
structure WorkflowInvariant (tables : ReviewTables) : Prop where
  status : ∀ violation ∈ tables.violations, violation.status = lastStatus (tables.reviewsOf violation.id)
  history : ∀ violationId, Linked .open (tables.reviewsOf violationId)
  recorded : ∀ review ∈ tables.reviews, ∃ before entry after, tables.auditEntries = before ++ entry :: after ∧
    Records review entry ∧ ∀ other ∈ before ++ after, ¬ Records review other
  patches : ∀ patch ∈ tables.patches, ∃ review ∈ tables.reviews, review.id = patch.reviewId ∧
    review.violationId = patch.violationId ∧ review.action ∈ ReviewAction.generatingPatches

/-- No violation has been reviewed. -/
structure Unreviewed (tables : ReviewTables) : Prop where
  statuses : ∀ violation ∈ tables.violations, violation.status = .open
  reviews : tables.reviews = []
  patches : tables.patches = []
  auditEntries : ∀ entry ∈ tables.auditEntries, ∀ text, ¬ Names entry "review_id" text

/-- A request that the service rejects has changed nothing, also before it is rolled back. -/
def RejectionsIntact (tables : ReviewTables) : Prop :=
  ∀ env request message session, ReviewRequest.perform env request { tables := tables } =
      .error (.reviewValidation message) session →
    session.tables = tables ∧ ReviewRequest.handle env request tables = tables

end ReviewHistory

namespace AuditTrail
open ReviewHistory

/-- The entry is about the violation, or its list of ids has it. -/
def NamesViolation (entry : AuditEntryRecord) (violationId : Nat) : Prop :=
  (entry.entityType = "violation" ∧ entry.entityId = Nat.repr violationId) ∨
    ∃ state ids, entry.newState = some state ∧ ("violation_ids", .list ids) ∈ state ∧ Nat.repr violationId ∈ ids

def NamesPatch (entry : AuditEntryRecord) (patchId : String) : Prop :=
  (entry.entityType = "patch" ∧ entry.entityId = patchId) ∨
    ∃ state ids, entry.newState = some state ∧ ("patch_ids", .list ids) ∈ state ∧ patchId ∈ ids

/-- The status or the reviewer of the violation has changed. -/
def ViolationChanged (before after : ReviewTables) (violationId : Nat) : Prop :=
  ∃ old ∈ before.violations, ∃ new ∈ after.violations, old.id = violationId ∧ new.id = violationId ∧
    (new.status ≠ old.status ∨ new.assignedReviewerId ≠ old.assignedReviewerId ∨
      new.assignedReviewerName ≠ old.assignedReviewerName)

/-- The patch is new or it has another status than before. -/
def PatchChanged (before after : ReviewTables) (patchId : String) : Prop :=
  ∃ new ∈ after.patches, new.id = patchId ∧ ∀ old ∈ before.patches, old.id = patchId → old.status ≠ new.status

/-- The entries that have been added name every change and its actor. -/
structure Recorded (actor : String) (before after : ReviewTables) (added : List AuditEntryRecord) : Prop where
  appended : after.auditEntries = before.auditEntries ++ added
  violations : ∀ violationId, ViolationChanged before after violationId →
    ∃ entry ∈ added, entry.actorId = actor ∧ NamesViolation entry violationId
  patches : ∀ patchId, PatchChanged before after patchId →
    ∃ entry ∈ added, entry.actorId = actor ∧ NamesPatch entry patchId

/-- One write of the services comes with the entry that names it. -/
inductive Logged (actor : String) (tables : ReviewTables) : ReviewTables → Prop
  | review (review : ViolationReviewRecord) (entry : AuditEntryRecord) :
      (∀ other ∈ tables.reviews, other.id ≠ review.id) →
      (∃ violation ∈ tables.violations, violation.id = review.violationId ∧
        violation.status = review.previousStatus) →
      Records review entry → (∀ text, Names entry "review_id" text → text = review.id) → entry.actorId = actor →
      Logged actor tables
        (((tables.addReview review).setStatus review.violationId review.newStatus).addAuditEntry entry)
  | patch (review : ViolationReviewRecord) (patch : PatchRecord) (entry : AuditEntryRecord) :
      review ∈ tables.reviews → patch.reviewId = review.id → patch.violationId = review.violationId →
      review.action ∈ ReviewAction.generatingPatches → (∀ other ∈ tables.patches, other.id ≠ patch.id) →
      (∀ text, ¬ Names entry "status" text) → (∀ text, Names entry "review_id" text → text = review.id) →
      entry.actorId = actor → NamesPatch entry patch.id →
      Logged actor tables ((tables.addPatch patch).addAuditEntry entry)
  | assign (violationId : Nat) (reviewerId : String) (reviewerName : Option String) (entry : AuditEntryRecord) :
      (∀ text, ¬ Names entry "review_id" text) → entry.actorId = actor → NamesViolation entry violationId →
      Logged actor tables ((tables.setReviewer violationId reviewerId reviewerName).addAuditEntry entry)
  | note (entry : AuditEntryRecord) : (∀ text, ¬ Names entry "review_id" text) →
      Logged actor tables (tables.addAuditEntry entry)

end AuditTrail

namespace ReviewRequest

/-- A request names the engineer who makes it. -/
def actor : ReviewRequest → String
  | submitReview _ arguments => arguments.reviewerId
  | assignReviewer _ _ _ assignedBy => assignedBy
  | bulkSkip _ reviewerId _ _ => reviewerId
  | bulkAssignReviewer _ _ _ assignedBy => assignedBy
  | bulkExportApprovedPatches _ exportedBy => exportedBy
  | exportPatch _ _ exportedBy _ => exportedBy

end ReviewRequest

namespace AuditTrail

/-- Every request of the sequence is recorded when it is committed. -/
def Complete : List (ReviewEnvironment × ReviewRequest) → ReviewTables → Prop
  | [], _ => True
  | (env, request) :: rest, tables =>
      (∃ added, Recorded request.actor tables (request.handle env tables) added) ∧
        Complete rest (request.handle env tables)

/-- The single export of a stored patch that has not been exported yet is committed. -/
def ExportsSilently (env : ReviewEnvironment) (tables : ReviewTables) : ReviewRequest → Prop
  | .exportPatch violationId patchId _ _ => env.databaseFails = false ∧
      ∃ patch ∈ tables.patches, patch.id = patchId ∧ patch.violationId = violationId ∧ patch.status = .generated
  | _ => False

/-- No request of the sequence exports a single patch silently. -/
def NeverSilent : List (ReviewEnvironment × ReviewRequest) → ReviewTables → Prop
  | [], _ => True
  | (env, request) :: rest, tables =>
      ¬ ExportsSilently env tables request ∧ NeverSilent rest (request.handle env tables)

/-- The entries of the two services have the reviewer under these keys. -/
def reviewerKeys (action : String) : Option (String × String) :=
  if action = "assign_reviewer" then some ("assigned_reviewer_id", "assigned_reviewer_name")
  else if action = "reviewer_assigned" then some ("reviewer_id", "reviewer_name")
  else none

def textAt (state : EntityState) (key : String) : Option String :=
  match state.lookup key with
  | some (.text value) => value
  | _ => none

/-- The id and the name of the reviewer that the entry assigns to the violation. -/
def assigned (violationId : Nat) (entry : AuditEntryRecord) : Option (Option String × Option String) :=
  if entry.entityType = "violation" ∧ entry.entityId = Nat.repr violationId then
    (reviewerKeys entry.action).map fun keys =>
      (textAt (entry.newState.getD []) keys.1, textAt (entry.newState.getD []) keys.2)
  else none

def lastAssigned (violationId : Nat) (entries : List AuditEntryRecord) : Option (Option String × Option String) :=
  (entries.filterMap (assigned violationId)).getLast?

/-- The violations stand with their reviewers. -/
def reviewers (tables : ReviewTables) : List (Nat × Option String × Option String) :=
  tables.violations.map fun violation =>
    (violation.id, violation.assignedReviewerId, violation.assignedReviewerName)

/-- Each reviewer is the last one that the added entries assign, or the one before them. -/
structure Reassigned (before after : ReviewTables) (added : List AuditEntryRecord) : Prop where
  appended : after.auditEntries = before.auditEntries ++ added
  reviewers : reviewers after = (reviewers before).map fun violation =>
    (violation.1, (lastAssigned violation.1 added).getD violation.2)

/-- The ids of the violations and of the patches are primary keys. -/
structure Keyed (tables : ReviewTables) : Prop where
  violations : (tables.violations.map ViolationRecord.id).Nodup
  patches : (tables.patches.map PatchRecord.id).Nodup

end AuditTrail

namespace BulkReviewService

/-- The violation is accepted or edited now. -/
def Approved (tables : ReviewTables) (violationId : Nat) : Prop :=
  ∃ violation ∈ tables.violations, violation.id = violationId ∧ violation.status ∈ approvedStatuses

/-- No other patch of the violation was created after this one. -/
structure Latest (tables : ReviewTables) (patch : PatchRecord) : Prop where
  stored : patch ∈ tables.patches
  newest : ∀ other ∈ tables.patches, other.violationId = patch.violationId → other.createdAt ≤ patch.createdAt

/-- The combined patch has the bodies of these patches. -/
structure Combines (tables : ReviewTables) (result : BulkExportResult) (patches : List PatchRecord) : Prop where
  stored : ∀ patch ∈ patches, patch ∈ tables.patches
  body : result.combinedPatch = String.intercalate "\n" (patches.map PatchRecord.gitPatch)
  ids : result.exportedPatchIds = patches.map PatchRecord.id

section Results

variable (tables : ReviewTables) (violationIds : List Nat) (result : BulkExportResult) (patches : List PatchRecord)

/-- Each approved violation has at most one body, which is the one of its last review. -/
structure ExportsRecent : Prop where
  combines : Combines tables result patches
  approved : ∀ patch ∈ patches, patch.violationId ∈ violationIds ∧ Approved tables patch.violationId
  once : (patches.map PatchRecord.violationId).Nodup
  recent : ∀ patch ∈ patches,
    (tables.reviewsOf patch.violationId).getLast?.map ViolationReviewRecord.id = some patch.reviewId
  skipped : ∀ violationId ∈ violationIds, (∀ review, (tables.reviewsOf violationId).getLast? = some review →
    ∀ patch ∈ tables.patches, patch.reviewId ≠ review.id) → violationId ∈ result.skippedViolationIds
  accounted : ∀ violationId ∈ violationIds,
    violationId ∈ patches.map PatchRecord.violationId ∨ violationId ∈ result.skippedViolationIds

/-- Each approved violation has the body of its latest patch, and a violation without one is skipped. -/
structure ExportsLatest : Prop where
  combines : Combines tables result patches
  latest : ∀ patch ∈ patches,
    patch.violationId ∈ violationIds ∧ Approved tables patch.violationId ∧ Latest tables patch
  single : ∀ first ∈ patches, ∀ second ∈ patches, first.violationId = second.violationId → first = second
  once : violationIds.Nodup → (patches.map PatchRecord.violationId).Nodup
  skipped : ∀ violationId, violationId ∈ result.skippedViolationIds ↔ violationId ∈ violationIds ∧
    ¬ (Approved tables violationId ∧ ∃ patch ∈ tables.patches, patch.violationId = violationId)
  accounted : ∀ violationId ∈ violationIds,
    violationId ∈ patches.map PatchRecord.violationId ↔ violationId ∉ result.skippedViolationIds

end Results

end BulkReviewService

namespace AssignmentRequest

section Shares

variable (members : TeamMembers) (runId teamId : String) (before after : ReviewTables)
  (outcomes : List AssignmentOutcome)

/-- The number of violations that the member at this position of the team has to review. -/
def share (violations team position : Nat) : Nat := violations / team + if position < violations % team then 1 else 0

/-- The open violations of the run are assigned to the members of the team in turn, and no other one changes. -/
structure SharesOut : Prop where
  violations : outcomes.map (fun outcome => outcome.violation.id) =
    (openViolations runId before).map ViolationRecord.id
  turns : ∀ (index : Nat) (outcome : AssignmentOutcome), outcomes[index]? = some outcome → ∃ member,
    (EnterpriseRepository.listTeamMembers members teamId)[
        index % (EnterpriseRepository.listTeamMembers members teamId).length]? = some member ∧
      outcome.violation.assignedReviewerId = some member.userId ∧
      outcome.violation.assignedReviewerName = some member.displayName
  fair : ∀ (position : Nat) (member : TeamMemberRecord),
    (EnterpriseRepository.listTeamMembers members teamId)[position]? = some member →
      outcomes.countP (fun outcome => outcome.violation.assignedReviewerId = some member.userId) =
        share outcomes.length (EnterpriseRepository.listTeamMembers members teamId).length position
  stored : ∀ outcome ∈ outcomes, outcome.violation ∈ after.violations
  others : ∀ violation ∈ before.violations, violation ∉ openViolations runId before → violation ∈ after.violations
  ids : after.violations.map ViolationRecord.id = before.violations.map ViolationRecord.id
  entries : after.auditEntries = before.auditEntries ++ outcomes.map AssignmentOutcome.auditEntry
  rest : after.projectRoots = before.projectRoots ∧ after.reviews = before.reviews ∧ after.patches = before.patches

end Shares

/-- The ids that a request draws are new and differ. -/
structure DrawsFresh (env : ReviewEnvironment) (tables : ReviewTables) : Prop where
  apart : Function.Injective env.uuid
  unused : ∀ drawn, env.uuid drawn ∉ tables.auditEntries.map AuditEntryRecord.id

end AssignmentRequest

end MisraPlatform
