import MisraPlatform.Proof.PatchEngine
import MisraPlatform.Proof.ReviewService

/-
This file proves that every sequence of requests keeps the reviews, the statuses, the entries and the patches in step.
-/

namespace MisraPlatform.ReviewHistory
open AuditTrail

section Lists

/-- Exactly one place of the list has the property. -/
def Single {α : Type} (property : α → Prop) (items : List α) : Prop :=
  ∃ before item after, items = before ++ item :: after ∧ property item ∧ ∀ other ∈ before ++ after, ¬ property other

theorem Single.append {α : Type} {property : α → Prop} {items : List α} (single : Single property items) {item : α}
    (outside : ¬ property item) : Single property (items ++ [item]) := by
  obtain ⟨before, found, after, rfl, holds, others⟩ := single
  refine ⟨before, found, after ++ [item], by simp, holds, ?_⟩
  intro other inside
  rw [← List.append_assoc] at inside
  cases List.mem_append.mp inside with
  | inl earlier => exact others other earlier
  | inr last => exact List.mem_singleton.mp last ▸ outside

theorem single_last {α : Type} {property : α → Prop} {items : List α} {item : α} (holds : property item)
    (others : ∀ other ∈ items, ¬ property other) : Single property (items ++ [item]) :=
  ⟨items, item, [], rfl, holds, fun other inside => others other (by simpa using inside)⟩

theorem lastStatus_append (reviews : List ViolationReviewRecord) (review : ViolationReviewRecord) :
    lastStatus (reviews ++ [review]) = review.newStatus := by
  simp [lastStatus]

theorem linked_append {status : ViolationStatus} {reviews : List ViolationReviewRecord}
    {review : ViolationReviewRecord} (linked : Linked status reviews)
    (next : review.previousStatus = (reviews.getLast?.map ViolationReviewRecord.newStatus).getD status) :
    Linked status (reviews ++ [review]) := by
  induction reviews generalizing status with
  | nil => exact ⟨next, trivial⟩
  | cons first rest ih =>
      refine ⟨linked.1, ih linked.2 ?_⟩
      rw [next]
      cases rest with
      | nil => rfl
      | cons second others => simp [List.getLast?_cons]

end Lists

section Steps

/-- Besides, an entry names stored reviews only. -/
structure Consistent (tables : ReviewTables) : Prop where
  workflow : WorkflowInvariant tables
  named : ∀ entry ∈ tables.auditEntries, ∀ text, Names entry "review_id" text →
    ∃ review ∈ tables.reviews, review.id = text

variable {tables : ReviewTables}

theorem reviewsOf_addReview (review : ViolationReviewRecord) (violationId : Nat) :
    (tables.addReview review).reviewsOf violationId =
      if review.violationId = violationId then tables.reviewsOf violationId ++ [review]
      else tables.reviewsOf violationId := by
  rw [ReviewTables.reviewsOf, ReviewTables.addReview, List.filter_append]
  split
  · rename_i own
    simp [own, ReviewTables.reviewsOf]
  · rename_i other
    simp [other, ReviewTables.reviewsOf]

theorem not_records_of_not_names {review : ViolationReviewRecord} {entry : AuditEntryRecord}
    (apart : ¬ Names entry "review_id" review.id) : ¬ Records review entry :=
  fun records => apart records.review

theorem consistent_review {review : ViolationReviewRecord} {entry : AuditEntryRecord} (consistent : Consistent tables)
    (fresh : ∀ other ∈ tables.reviews, other.id ≠ review.id)
    (found : ∃ violation ∈ tables.violations, violation.id = review.violationId ∧
      violation.status = review.previousStatus)
    (records : Records review entry) (only : ∀ text, Names entry "review_id" text → text = review.id) :
    Consistent
      (((tables.addReview review).setStatus review.violationId review.newStatus).addAuditEntry entry) := by
  obtain ⟨⟨status, history, recorded, patches⟩, named⟩ := consistent
  refine ⟨⟨?_, ?_, ?_, ?_⟩, ?_⟩
  · intro violation listed
    change violation ∈ tables.violations.map _ at listed
    change violation.status = lastStatus ((tables.addReview review).reviewsOf violation.id)
    obtain ⟨old, inside, rfl⟩ := List.mem_map.mp listed
    rw [reviewsOf_addReview]
    by_cases own : old.id = review.violationId
    · rw [if_pos own]
      simp only [own, if_true]
      rw [lastStatus_append]
    · rw [if_neg own, if_neg (Ne.symm own)]
      exact status old inside
  · intro violationId
    change Linked .open ((tables.addReview review).reviewsOf violationId)
    rw [reviewsOf_addReview]
    split
    · rename_i own
      obtain ⟨violation, inside, sameId, sameStatus⟩ := found
      refine linked_append (history violationId) ?_
      rw [← sameStatus, status violation inside, sameId, own]
      rfl
    · exact history violationId
  · intro stored listed
    change Single (Records stored) (tables.auditEntries ++ [entry])
    cases List.mem_append.mp listed with
    | inl old =>
        refine Single.append (recorded stored old) (not_records_of_not_names fun names => ?_)
        exact fresh stored old (only stored.id names)
    | inr new =>
        rw [List.mem_singleton.mp new]
        refine single_last records fun other inside => not_records_of_not_names fun names => ?_
        obtain ⟨earlier, present, same⟩ := named other inside review.id names
        exact fresh earlier present same
  · intro patch listed
    obtain ⟨owner, stored, rest⟩ := patches patch listed
    exact ⟨owner, List.mem_append_left _ stored, rest⟩
  · intro other listed text names
    cases List.mem_append.mp listed with
    | inl old =>
        obtain ⟨stored, inside, same⟩ := named other old text names
        exact ⟨stored, List.mem_append_left _ inside, same⟩
    | inr new =>
        rw [List.mem_singleton.mp new] at names
        exact ⟨review, List.mem_append_right _ List.mem_cons_self, (only text names).symm⟩

/-- An entry that records no review leaves the tables consistent. -/
theorem Consistent.addAuditEntry (consistent : Consistent tables) {entry : AuditEntryRecord}
    (apart : ∀ review ∈ tables.reviews, ¬ Records review entry)
    (named : ∀ text, Names entry "review_id" text → ∃ review ∈ tables.reviews, review.id = text) :
    Consistent (tables.addAuditEntry entry) := by
  obtain ⟨⟨status, history, recorded, patches⟩, before⟩ := consistent
  refine ⟨⟨status, history, ?_, patches⟩, ?_⟩
  · intro review listed
    exact Single.append (recorded review listed) (apart review listed)
  · intro other listed text names
    cases List.mem_append.mp listed with
    | inl old => exact before other old text names
    | inr new => exact named text (List.mem_singleton.mp new ▸ names)

theorem Consistent.of_violations (consistent : Consistent tables) {change : ViolationRecord → ViolationRecord}
    (sameId : ∀ violation, (change violation).id = violation.id)
    (sameStatus : ∀ violation, (change violation).status = violation.status) :
    Consistent { tables with violations := tables.violations.map change } := by
  obtain ⟨⟨status, history, recorded, patches⟩, named⟩ := consistent
  refine ⟨⟨?_, history, recorded, patches⟩, named⟩
  intro violation listed
  obtain ⟨old, inside, rfl⟩ := List.mem_map.mp listed
  rw [sameStatus, sameId]
  exact status old inside

theorem consistent_logged {actor : String} {after : ReviewTables} (logged : Logged actor tables after)
    (consistent : Consistent tables) : Consistent after := by
  cases logged with
  | review review entry fresh found records only _ => exact consistent_review consistent fresh found records only
  | patch review patch entry stored sameReview owner generates _ unstated only _ _ =>
      have patched : Consistent (tables.addPatch patch) := by
        obtain ⟨⟨status, history, recorded, patches⟩, named⟩ := consistent
        refine ⟨⟨status, history, recorded, ?_⟩, named⟩
        intro other listed
        cases List.mem_append.mp listed with
        | inl old => exact patches other old
        | inr new =>
            rw [List.mem_singleton.mp new]
            exact ⟨review, stored, sameReview.symm, owner.symm, generates⟩
      exact patched.addAuditEntry (fun other _ records => unstated _ records.newStatus)
        fun text names => ⟨review, stored, (only text names).symm⟩
  | assign violationId reviewerId reviewerName entry apart _ _ =>
      have assigned : Consistent (tables.setReviewer violationId reviewerId reviewerName) := by
        apply consistent.of_violations
        · intro violation
          split <;> rfl
        · intro violation
          split <;> rfl
      exact assigned.addAuditEntry (fun other _ => not_records_of_not_names (apart _))
        fun text names => (apart text names).elim
  | note entry apart =>
      exact consistent.addAuditEntry (fun other _ => not_records_of_not_names (apart _))
        fun text names => (apart text names).elim

theorem consistent_exports {patchIds : List String} {after : ReviewTables}
    (exports : BulkReviewService.ExportsOnly patchIds tables after) (consistent : Consistent tables) :
    Consistent after := by
  obtain ⟨⟨status, history, recorded, patches⟩, named⟩ := consistent
  obtain ⟨_, sameViolations, sameReviews, sameEntries, mark, marked, kept⟩ := exports
  have sameHistory : ∀ violationId, after.reviewsOf violationId = tables.reviewsOf violationId := by
    intro violationId
    rw [ReviewTables.reviewsOf, ReviewTables.reviewsOf, sameReviews]
  refine ⟨⟨?_, ?_, ?_, ?_⟩, ?_⟩
  · intro violation listed
    rw [sameHistory]
    exact status violation (sameViolations ▸ listed)
  · intro violationId
    rw [sameHistory]
    exact history violationId
  · rw [sameReviews, sameEntries]
    exact recorded
  · intro patch listed
    rw [marked] at listed
    obtain ⟨old, inside, rfl⟩ := List.mem_map.mp listed
    obtain ⟨_, sameViolation, sameReview, _⟩ := kept old
    rw [sameReviews, sameViolation, sameReview]
    exact patches old inside
  · rw [sameReviews, sameEntries]
    exact named

theorem consistent_writes {actor : String} {before after : ReviewTables}
    (writes : Relation.ReflTransGen (Logged actor) before after) (consistent : Consistent before) :
    Consistent after := by
  induction writes with
  | refl => exact consistent
  | tail _ logged ih => exact consistent_logged logged ih

theorem consistent_effect {request : ReviewRequest} {before after : ReviewSession}
    (effect : request.Effect before after) (consistent : Consistent before.tables) : Consistent after.tables := by
  cases request with
  | submitReview | assignReviewer | bulkSkip | bulkAssignReviewer => exact consistent_writes effect consistent
  | bulkExportApprovedPatches violationIds exportedBy =>
      obtain ⟨entry, middle, exports, entered, _, apart, _⟩ := effect.writes
      rw [entered]
      exact (consistent_exports exports consistent).addAuditEntry
        (fun other _ => not_records_of_not_names (apart _)) fun text names => (apart text names).elim
  | exportPatch violationId patchId exportedBy format =>
      obtain ⟨_, exportedAt, exported⟩ := effect
      rw [exported]
      exact consistent_exports (BulkReviewService.exportsOnly_exportPatch _ _ _ _) consistent

theorem consistent_handle (env : ReviewEnvironment) (request : ReviewRequest) (consistent : Consistent tables) :
    Consistent (request.handle env tables) := by
  rcases @ReviewRequest.handle_cases env request tables with ⟨_, after, effect, handled⟩ | same
  · rw [handled]
    exact consistent_effect effect consistent
  · rw [same]
    exact consistent

theorem consistent_handleAll (calls : List (ReviewEnvironment × ReviewRequest)) (consistent : Consistent tables) :
    Consistent (ReviewRequest.handleAll calls tables) := by
  induction calls generalizing tables with
  | nil => exact consistent
  | cons call rest ih => exact ih (consistent_handle call.1 call.2 consistent)

theorem consistent_unreviewed (unreviewed : Unreviewed tables) : Consistent tables := by
  have none_left : ∀ violationId, tables.reviewsOf violationId = [] := by
    intro violationId
    rw [ReviewTables.reviewsOf, unreviewed.reviews]
    rfl
  refine ⟨⟨?_, ?_, ?_, ?_⟩, ?_⟩
  · intro violation listed
    rw [none_left]
    exact unreviewed.statuses violation listed
  · intro violationId
    rw [none_left]
    exact trivial
  · rw [unreviewed.reviews]
    exact fun review listed => nomatch listed
  · rw [unreviewed.patches]
    exact fun patch listed => nomatch listed
  · exact fun entry listed text names => (unreviewed.auditEntries entry listed text names).elim

end Steps

section Rejections
open Rollback ReviewRepository ReviewService BulkReviewService ReviewRequest

variable {env : ReviewEnvironment} {α β : Type}

/-- The computation may raise, but it does not reject the review. -/
def NeverRejects (computation : Request α) : Prop :=
  Refuses computation fun _ error _ => ∀ message, error ≠ .reviewValidation message

/-- A rejection leaves the session as it was. -/
def RejectsIntact (computation : Request α) : Prop :=
  Refuses computation fun before error after => ∀ message, error = .reviewValidation message → after = before

theorem NeverRejects.intact {computation : Request α} (never : NeverRejects computation) :
    RejectsIntact computation :=
  never.weaken fun _ _ _ apart message same => (apart message same).elim

theorem NeverRejects.bind {computation : Request α} {next : α → Request β} (first : NeverRejects computation)
    (second : ∀ value, NeverRejects (next value)) : NeverRejects (computation >>= next) := by
  have started : Ensures computation fun _ _ _ => True := fun _ _ _ _ => trivial
  refine (Refuses.bind first started second).weaken ?_
  rintro before error after (here | ⟨_, _, _, later⟩)
  · exact here
  · exact later

theorem RejectsIntact.bind {computation : Request α} {next : α → Request β} (first : RejectsIntact computation)
    (started : Ensures computation fun before _ after => after = before)
    (second : ∀ value, RejectsIntact (next value)) : RejectsIntact (computation >>= next) := by
  refine (Refuses.bind first started second).weaken ?_
  rintro before error after (here | ⟨_, _, rfl, later⟩)
  · exact here
  · exact later

theorem intact_discard {computation : Request α} (intact : RejectsIntact computation) :
    RejectsIntact (discard computation) := by
  intro before error after raised
  cases ran : computation before with
  | ok value middle =>
      have same : discard computation before = .ok () middle := by
        simp [Functor.discard, Functor.mapConst, EStateM.map, ran, Function.comp]
      rw [same] at raised
      cases raised
  | error other middle =>
      have same : discard computation before = .error other middle := by
        simp [Functor.discard, Functor.mapConst, EStateM.map, ran, Function.comp]
      rw [same] at raised
      cases raised
      exact intact before _ _ ran

theorem never_pure (value : α) : NeverRejects (pure value) := refuses_pure value

theorem never_throw {error : ReviewError} (apart : ∀ message, error ≠ .reviewValidation message) :
    NeverRejects (throw error : Request α) :=
  (refuses_throw error).weaken fun _ _ _ same message => same.1 ▸ apart message

theorem never_draw : NeverRejects draw := by
  intro before error after raised
  cases raised

theorem never_change (update : ReviewTables → ReviewTables) : NeverRejects (change update) := by
  intro before error after raised
  cases raised

theorem never_get : NeverRejects (get : Request ReviewSession) := by
  intro before error after raised
  cases raised

theorem never_insert (table : String) (known : ReviewTables → List String) (id : String)
    (add : ReviewTables → ReviewTables) : NeverRejects (insert table known id add) := by
  refine never_get.bind fun session => ?_
  dsimp only
  split
  · exact (never_throw fun message => by simp).bind fun _ => never_change add
  · exact never_change add

theorem never_getViolation (violationId : Nat) : NeverRejects (getViolation violationId) :=
  never_get.bind fun _ => never_pure _

theorem never_generatePatch (violation : ViolationRecord) (projectRoot : String) (review : ViolationReviewRecord)
    (fixText : Option String) : NeverRejects (generatePatch env violation projectRoot review fixText) := by
  rw [generatePatch]
  split
  · exact never_draw.bind fun _ => (never_insert _ _ _ _).bind fun _ => never_draw.bind fun _ =>
      (never_insert _ _ _ _).bind fun _ => never_pure _
  · exact never_pure _

/-- The checks of a review come before its first write. -/
theorem intact_submitReview (violation : ViolationRecord) (arguments : ReviewArguments) (projectRoot : String) :
    RejectsIntact (submitReview env violation arguments projectRoot) := by
  have validate : RejectsIntact (validateJustification arguments.action arguments.justification) := by
    rw [validateJustification]
    split
    · exact (refuses_throw _).weaken fun _ _ _ same _ _ => same.2
    · exact refuses_pure _
  have resolve : RejectsIntact (resolveFixText arguments.action violation arguments.editedFix) := by
    cases arguments.action with
    | edit =>
        rw [resolveFixText]
        split
        · exact (refuses_throw _).weaken fun _ _ _ same _ _ => same.2
        · exact refuses_pure _
    | accept | reject | skip | falsePositive | suppress => exact refuses_pure _
  refine validate.bind (ensures_validateJustification _ _) fun _ =>
    resolve.bind (ensures_resolveFixText _ _ _) fun fixText => NeverRejects.intact ?_
  exact never_draw.bind fun _ => (never_insert _ _ _ _).bind fun _ => (never_change _).bind fun _ =>
    never_draw.bind fun _ => (never_insert _ _ _ _).bind fun _ =>
    (never_generatePatch _ _ _ _).bind fun _ => never_pure _

/-- A skip has nothing to check. -/
theorem never_skip (violation : ViolationRecord) (reviewerId : String) (reviewerName notes : Option String)
    (projectRoot : String) :
    NeverRejects (submitReview env violation (skipArguments reviewerId reviewerName notes) projectRoot) :=
  (never_pure ()).bind fun _ => (never_pure none).bind fun _ => never_draw.bind fun _ =>
    (never_insert _ _ _ _).bind fun _ => (never_change _).bind fun _ => never_draw.bind fun _ =>
    (never_insert _ _ _ _).bind fun _ => (never_generatePatch _ _ _ _).bind fun _ => never_pure _

theorem never_assignReviewer (violation : ViolationRecord) (reviewerId : String) (reviewerName : Option String)
    (assignedBy : String) : NeverRejects (assignReviewer env violation reviewerId reviewerName assignedBy) :=
  (never_change _).bind fun _ => never_draw.bind fun _ => (never_insert _ _ _ _).bind fun _ => never_pure _

theorem never_skipEach (reviewerId : String) (reviewerName notes : Option String) (violationIds : List Nat)
    (result : BulkSkipResult) :
    NeverRejects (skipEach env reviewerId reviewerName notes violationIds result) := by
  induction violationIds generalizing result with
  | nil => exact never_pure _
  | cons violationId rest ih =>
      refine (never_getViolation violationId).bind fun found => ?_
      cases found with
      | none => exact ih _
      | some violation =>
          exact (never_get.bind fun _ => never_pure _).bind fun _ => (never_skip _ _ _ _ _).bind fun _ => ih _

theorem never_assignEach (reviewerId : String) (reviewerName : Option String) (assignedBy : String)
    (violationIds : List Nat) (result : BulkAssignResult) :
    NeverRejects (assignEach env reviewerId reviewerName assignedBy violationIds result) := by
  induction violationIds generalizing result with
  | nil => exact never_pure _
  | cons violationId rest ih =>
      refine (never_getViolation violationId).bind fun found => ?_
      cases found with
      | none => exact ih _
      | some violation => exact (never_assignReviewer _ _ _ _).bind fun _ => ih _

theorem never_selectEligible (violationIds : List Nat) (selected : List Nat × List Nat) :
    NeverRejects (selectEligible violationIds selected) := by
  induction violationIds generalizing selected with
  | nil => exact never_pure _
  | cons violationId rest ih =>
      refine (never_getViolation violationId).bind fun found => ?_
      cases found with
      | none => exact ih _
      | some violation =>
          dsimp only
          split
          · exact ih _
          · exact ih _

theorem never_exportEach (latest : OrderedDict Nat PatchRecord) (exportedBy : String) (violationIds : List Nat)
    (result : List PatchRecord × List Nat) : NeverRejects (exportEach env latest exportedBy violationIds result) := by
  induction violationIds generalizing result with
  | nil => exact never_pure _
  | cons violationId rest ih =>
      rw [exportEach]
      split
      · exact ih _
      · exact (never_draw.bind fun _ => never_change _).bind fun _ => ih _

theorem intact_perform (request : ReviewRequest) : RejectsIntact (perform env request) := by
  have loading : ∀ violationId, NeverRejects (loadViolation violationId) := by
    intro violationId
    refine (never_getViolation violationId).bind fun found => ?_
    cases found with
    | none => exact never_throw (fun message => by simp)
    | some violation => exact never_pure _
  have loaded : ∀ violationId, Ensures (loadViolation violationId) fun before _ after => after = before :=
    fun violationId => (ensures_loadViolation violationId).weaken fun _ _ _ same => same.1
  cases request with
  | submitReview violationId arguments =>
      refine intact_discard ((loading _).intact.bind (loaded _) fun violation =>
        RejectsIntact.bind ?_ (ensures_loadProjectRoot _) fun _ => intact_submitReview _ _ _)
      refine NeverRejects.intact (never_get.bind fun session => ?_)
      cases session.tables.projectRoots.lookup violation.projectId with
      | none => exact never_throw (fun message => by simp)
      | some rootPath => exact never_pure _
  | assignReviewer violationId reviewerId reviewerName assignedBy =>
      exact (loading _).intact.bind (loaded _) fun violation => intact_discard (never_assignReviewer _ _ _ _).intact
  | bulkSkip violationIds reviewerId reviewerName notes =>
      exact intact_discard (NeverRejects.intact ((never_skipEach _ _ _ _ _).bind fun _ => never_draw.bind fun _ =>
        never_draw.bind fun _ => (never_insert _ _ _ _).bind fun _ => never_pure _))
  | bulkAssignReviewer violationIds reviewerId reviewerName assignedBy =>
      exact intact_discard (NeverRejects.intact ((never_assignEach _ _ _ _ _).bind fun _ => never_draw.bind fun _ =>
        never_draw.bind fun _ => (never_insert _ _ _ _).bind fun _ => never_pure _))
  | bulkExportApprovedPatches violationIds exportedBy =>
      exact intact_discard (NeverRejects.intact ((never_selectEligible _ _).bind fun _ =>
        (never_get.bind fun _ => never_pure _).bind fun _ => (never_exportEach _ _ _ _).bind fun _ =>
        never_draw.bind fun _ => never_draw.bind fun _ => (never_insert _ _ _ _).bind fun _ => never_pure _))
  | exportPatch violationId patchId exportedBy format =>
      refine intact_discard (NeverRejects.bind (never_get.bind fun _ => never_pure _) fun found => ?_).intact
      cases found with
      | none => exact never_throw (fun message => by simp)
      | some patch =>
          dsimp only
          split
          · exact never_throw (fun message => by simp)
          · refine (never_draw.bind fun _ => never_change _).bind fun _ => ?_
            cases format with
            | git | unified => exact never_pure _

theorem rejectionsIntact (tables : ReviewTables) : RejectionsIntact tables := by
  intro env request message session raised
  have intact : session.tables = tables :=
    congrArg ReviewSession.tables (intact_perform request _ _ _ raised message rfl)
  refine ⟨intact, ?_⟩
  rw [handle, settle, raised]
  split <;> rfl

end Rejections

/-- After every sequence of requests the history, the statuses, the entries and the patches are in step, and a
rejected request changes nothing. -/
theorem workflow_holds (tables : ReviewTables) (unreviewed : Unreviewed tables)
    (calls : List (ReviewEnvironment × ReviewRequest)) :
    WorkflowInvariant (ReviewRequest.handleAll calls tables) ∧
      RejectionsIntact (ReviewRequest.handleAll calls tables) :=
  ⟨(consistent_handleAll calls (consistent_unreviewed unreviewed)).workflow, rejectionsIntact _⟩

section Sample

def sampleViolation (suggestedFix : Option SuggestedFix) : ViolationRecord where
  id := 1
  analysisRunId := "run"
  translationUnitId := none
  projectId := "project"
  fingerprint := "fingerprint"
  severity := "major"
  category := "required"
  violation :=
    { ruleId := "9.1", filePath := "main.c", lineStart := 1, lineEnd := 1, columnStart := 1, columnEnd := 2
      offendingExpression := "x", explanation := "unset", riskDescription := "garbage", sourceSnippet := "x"
      astNodeId := "n1", astNodePath := [], confidenceScore := 1, suggestedFix := suggestedFix }
  status := .open
  firstSeenAt := 0
  lastSeenAt := 0

def sampleTables (suggestedFix : Option SuggestedFix) : ReviewTables where
  projectRoots := [("project", "repo")]
  violations := [sampleViolation suggestedFix]

/-- The ids of a request start with its mark, and its times with its own one. -/
def sampleEnvironment (mark : String) (started : Nat) : ReviewEnvironment where
  databaseFails := false
  uuid := fun drawn => mark ++ Nat.repr drawn
  now := fun drawn => started + drawn
  files := fun _ => none
  resolvePath := fun path => [path]
  diff := PatchEngine.replaceAll

def sampleReview (action : ReviewAction) (editedFix : Option SuggestedFix) : ReviewArguments where
  action := action
  reviewerId := "alice"
  reviewerName := none
  justification := some "This is accepted after a discussion."
  notes := none
  editedFix := editedFix

theorem unreviewed_sampleTables : Unreviewed (sampleTables none) where
  statuses := by simp [sampleTables, sampleViolation]
  reviews := rfl
  patches := rfl
  auditEntries := fun entry listed => nomatch listed

theorem workflow_after_reject : Unreviewed (sampleTables none) ∧
    WorkflowInvariant (ReviewRequest.handleAll
      [(sampleEnvironment "a" 0, .submitReview 1 (sampleReview .reject none)),
        (sampleEnvironment "b" 10, .bulkSkip [1, 2, 1] "bob" none none)] (sampleTables none)) :=
  ⟨unreviewed_sampleTables, (workflow_holds _ unreviewed_sampleTables _).1⟩

end Sample

end MisraPlatform.ReviewHistory
