import Mathlib.Data.Int.CardIntervalMod
import Mathlib.Logic.Relation
import MisraPlatform.Semantics.ReviewHistory

/-
This file proves what the requests of the review services write to the tables, and how a team shares out a run.
-/

namespace MisraPlatform
open Rollback ReviewHistory AuditTrail

namespace ReviewRepository

theorem ensures_draw : Ensures draw fun before _ after => after.tables = before.tables := by
  intro before value after done
  cases done
  rfl

theorem ensures_change (update : ReviewTables → ReviewTables) :
    Ensures (change update) fun before _ after => after.tables = update before.tables := by
  intro before value after done
  cases done
  rfl

theorem ensures_insert (table : String) (known : ReviewTables → List String) (id : String)
    (add : ReviewTables → ReviewTables) :
    Ensures (insert table known id add) fun before _ after =>
      id ∉ known before.tables ∧ after.tables = add before.tables := by
  intro before value after done
  unfold insert at done
  by_cases known_id : id ∈ known before.tables
  · simp [known_id, bind, EStateM.bind, get_apply, throw_apply] at done
  · simp [known_id, bind, EStateM.bind, get_apply] at done
    exact ⟨known_id, ensures_change add before value after done⟩

theorem insert_apply {table id : String} {known : ReviewTables → List String} {add : ReviewTables → ReviewTables}
    {session : ReviewSession} (fresh : id ∉ known session.tables) :
    insert table known id add session = .ok () { session with tables := add session.tables } := by
  unfold insert
  simp [fresh, bind, EStateM.bind, get_apply]
  rfl

theorem ensures_read {α : Type} (read : ReviewSession → α) :
    Ensures (do return read (← get) : Request α) fun before result after =>
      result = read before ∧ after = before := by
  intro before result after done
  cases done
  exact ⟨rfl, rfl⟩

theorem ensures_getViolation (violationId : Nat) :
    Ensures (getViolation violationId) fun before found after =>
      after = before ∧ ∀ violation, found = some violation →
        violation ∈ before.tables.violations ∧ violation.id = violationId := by
  refine (ensures_read _).weaken ?_
  rintro before found after ⟨rfl, rfl⟩
  refine ⟨rfl, fun violation same => ⟨List.mem_of_find?_eq_some same, ?_⟩⟩
  simpa using List.find?_some same

end ReviewRepository

namespace ReviewService
open ReviewRepository

variable {env : ReviewEnvironment}

theorem names_cons {entry : AuditEntryRecord} {state : EntityState} (news : entry.newState = some state)
    {key text : String} : Names entry key text ↔ (key, .text (some text)) ∈ state := by
  constructor
  · rintro ⟨other, same, listed⟩
    cases news.symm.trans same
    exact listed
  · exact fun listed => ⟨state, news, listed⟩

theorem records_reviewAudit (review : ViolationReviewRecord) (drawn : Nat) :
    Records review (reviewAudit env review drawn) where
  entity := ⟨rfl, rfl⟩
  oldStatus := ⟨_, rfl, List.mem_cons_self⟩
  newStatus := ⟨_, rfl, List.mem_cons_self⟩
  review := ⟨_, rfl, List.mem_cons_of_mem _ List.mem_cons_self⟩

theorem names_reviewAudit {review : ViolationReviewRecord} {drawn : Nat} {text : String}
    (names : Names (reviewAudit env review drawn) "review_id" text) : text = review.id := by
  rw [names_cons rfl] at names
  simpa using names

theorem names_patchAudit {review : ViolationReviewRecord} {patch : PatchRecord} {drawn : Nat} {text : String}
    (names : Names (patchAudit env review patch drawn) "review_id" text) : text = review.id := by
  rw [names_cons rfl] at names
  simpa using names

theorem not_names_patchAudit (review : ViolationReviewRecord) (patch : PatchRecord) (drawn : Nat) (text : String) :
    ¬ Names (patchAudit env review patch drawn) "status" text := by
  rw [names_cons rfl]
  simp

theorem not_names_assignAudit (violation : ViolationRecord) (reviewerId : String) (reviewerName : Option String)
    (assignedBy : String) (drawn : Nat) (text : String) :
    ¬ Names (assignAudit env violation reviewerId reviewerName assignedBy drawn) "review_id" text := by
  rw [names_cons rfl]
  simp [reviewerState]

/-- The writes of a request each come with their entry. -/
def Writes (actor : String) (before after : ReviewSession) : Prop :=
  Relation.ReflTransGen (Logged actor) before.tables after.tables

theorem Writes.trans {actor : String} {first second third : ReviewSession} (earlier : Writes actor first second)
    (later : Writes actor second third) : Writes actor first third :=
  Relation.ReflTransGen.trans earlier later

theorem ensures_writes {α β : Type} {actor : String} {computation : Request α} {next : α → Request β}
    (first : Ensures computation fun before _ after => Writes actor before after)
    (second : ∀ value, Ensures (next value) fun before _ after => Writes actor before after) :
    Ensures (computation >>= next) fun before _ after => Writes actor before after :=
  @Ensures.trans _ _ _ _ _ (Writes actor) (fun _ _ _ => Writes.trans) _ first second

theorem ensures_generatePatch (violation : ViolationRecord) (projectRoot : String) (review : ViolationReviewRecord)
    (fixText : Option String) (owner : review.violationId = violation.id) :
    Ensures (generatePatch env violation projectRoot review fixText) fun before _ after =>
      review ∈ before.tables.reviews → Writes review.reviewerId before after := by
  rw [generatePatch]
  split
  · rename_i made
    refine (ensures_draw.bind fun drawn => (ensures_insert _ _ _ _).bind fun _ => ensures_draw.bind fun second =>
      (ensures_insert _ _ _ _).bind fun _ => ensures_pure _).weaken ?_
    rintro before outcome after ⟨drawn, first, sameFirst, _, second, ⟨fresh, patched⟩, entryDrawn, third, sameThird,
      _, fourth, ⟨_, entered⟩, _, rfl⟩ stored
    have logged := @Logged.patch review.reviewerId before.tables review
      (newPatch env violation projectRoot review (fixText.getD "") drawn)
      (patchAudit env review (newPatch env violation projectRoot review (fixText.getD "") drawn) entryDrawn)
      stored rfl owner.symm made.1
      (fun other listed same => fresh (by
        rw [sameFirst]
        exact List.mem_map.mpr ⟨other, listed, same⟩))
      (not_names_patchAudit _ _ _) (fun _ names => names_patchAudit names) rfl (.inl ⟨rfl, rfl⟩)
    rw [Writes, entered, sameThird, patched, sameFirst]
    exact .single logged
  · refine (ensures_pure _).weaken ?_
    rintro before outcome after ⟨_, rfl⟩ _
    exact .refl

theorem ensures_validateJustification (action : ReviewAction) (justification : Option String) :
    Ensures (validateJustification action justification) fun before _ after => after = before := by
  rw [validateJustification]
  split
  · exact ensures_throw _
  · exact (ensures_pure _).weaken fun _ _ _ same => same.2

theorem ensures_resolveFixText (action : ReviewAction) (violation : ViolationRecord)
    (editedFix : Option SuggestedFix) :
    Ensures (resolveFixText action violation editedFix) fun before _ after => after = before := by
  cases action with
  | edit =>
      rw [resolveFixText]
      split
      · exact ensures_throw _
      · exact (ensures_pure _).weaken fun _ _ _ same => same.2
  | accept | reject | skip | falsePositive | suppress => exact (ensures_pure _).weaken fun _ _ _ same => same.2

/-- A review is written with its status and its entry, and then its patch. -/
theorem ensures_submitReview (violation : ViolationRecord) (arguments : ReviewArguments) (projectRoot : String) :
    Ensures (submitReview env violation arguments projectRoot) fun before _ after =>
      violation ∈ before.tables.violations → Writes arguments.reviewerId before after := by
  refine ((ensures_validateJustification _ _).bind fun _ => (ensures_resolveFixText _ _ _).bind fun fixText =>
    ensures_draw.bind fun drawn => (ensures_insert _ _ _ _).bind fun _ => (ensures_change _).bind fun _ =>
    ensures_draw.bind fun entryDrawn => (ensures_insert _ _ _ _).bind fun _ =>
    (ensures_generatePatch violation projectRoot (newReview env violation arguments drawn) fixText rfl).bind fun _ =>
    ensures_pure _).weaken ?_
  rintro _ outcome after ⟨_, _, rfl, fixText, before, rfl, drawn, first, sameFirst, _, second, ⟨fresh, added⟩, _,
    third, changed, entryDrawn, fourth, sameFourth, _, fifth, ⟨_, entered⟩, _, sixth, patched, _, rfl⟩ listed
  have written : fifth.tables = ((before.tables.addReview (newReview env violation arguments drawn)).setStatus
      violation.id arguments.action.toStatus).addAuditEntry
        (reviewAudit env (newReview env violation arguments drawn) entryDrawn) := by
    rw [entered, sameFourth, changed, added, sameFirst]
    rfl
  have logged := @Logged.review arguments.reviewerId before.tables
    (newReview env violation arguments drawn) (reviewAudit env (newReview env violation arguments drawn) entryDrawn)
    (fun other inside same => fresh (by
      rw [sameFirst]
      exact List.mem_map.mpr ⟨other, inside, same⟩))
    ⟨violation, listed, rfl, rfl⟩ (records_reviewAudit _ _) (fun _ names => names_reviewAudit names) rfl
  have stored : newReview env violation arguments drawn ∈ fifth.tables.reviews := by
    rw [written]
    exact List.mem_append_right _ List.mem_cons_self
  refine Relation.ReflTransGen.head ?_ (patched stored)
  rw [written]
  exact logged

theorem ensures_assignReviewer (violation : ViolationRecord) (reviewerId : String) (reviewerName : Option String)
    (assignedBy : String) :
    Ensures (assignReviewer env violation reviewerId reviewerName assignedBy) fun before _ after =>
      Writes assignedBy before after := by
  refine ((ensures_change _).bind fun _ => ensures_draw.bind fun drawn => (ensures_insert _ _ _ _).bind fun _ =>
    ensures_pure _).weaken ?_
  rintro before entry after ⟨_, first, changed, drawn, second, sameSecond, _, third, ⟨_, entered⟩, _, rfl⟩
  rw [Writes, entered, sameSecond, changed]
  exact .single (.assign _ _ _ _ (not_names_assignAudit _ _ _ _ _) rfl (.inl ⟨rfl, rfl⟩))

end ReviewService

namespace BulkReviewService
open ReviewRepository ReviewService

variable {env : ReviewEnvironment}

/-- A violation is looked up before it is handled, and one that is not found changes nothing. -/
theorem ensures_lookup {α : Type} {violationId : Nat} {missing : Request α} {found : ViolationRecord → Request α}
    {related : ReviewSession → α → ReviewSession → Prop} (otherwise : Ensures missing related)
    (handled : ∀ violation, Ensures (found violation) fun before value after =>
      violation ∈ before.tables.violations → violation.id = violationId → related before value after) :
    Ensures (do match ← getViolation violationId with
      | none => missing
      | some violation => found violation) related := by
  refine ((ensures_getViolation violationId).before (fun loaded before value after =>
    (∀ violation, loaded = some violation → violation ∈ before.tables.violations ∧ violation.id = violationId) →
      related before value after) ?_).weaken ?_
  · intro loaded
    cases loaded with
    | none => exact otherwise.weaken fun _ _ _ done _ => done
    | some violation =>
        exact (handled violation).weaken fun _ _ _ done listed =>
          done (listed violation rfl).1 (listed violation rfl).2
  · rintro before value after ⟨loaded, middle, ⟨rfl, listed⟩, done⟩
    exact done listed

theorem ensures_skipEach (reviewerId : String) (reviewerName notes : Option String) (violationIds : List Nat)
    (result : BulkSkipResult) :
    Ensures (skipEach env reviewerId reviewerName notes violationIds result) fun before _ after =>
      Writes reviewerId before after := by
  induction violationIds generalizing result with
  | nil =>
      refine (ensures_pure _).weaken ?_
      rintro before _ after ⟨_, rfl⟩
      exact .refl
  | cons violationId rest ih =>
      refine ensures_lookup (ih _) fun violation => ((ensures_read _).bind fun projectRoot =>
        (ensures_submitReview violation _ projectRoot).bind fun _ => ih _).weaken ?_
      rintro before _ after ⟨_, _, ⟨_, rfl⟩, _, middle, reviewed, later⟩ listed _
      exact (reviewed listed).trans later

theorem ensures_assignEach (reviewerId : String) (reviewerName : Option String) (assignedBy : String)
    (violationIds : List Nat) (result : BulkAssignResult) :
    Ensures (assignEach env reviewerId reviewerName assignedBy violationIds result) fun before _ after =>
      Writes assignedBy before after := by
  induction violationIds generalizing result with
  | nil =>
      refine (ensures_pure _).weaken ?_
      rintro before _ after ⟨_, rfl⟩
      exact .refl
  | cons violationId rest ih =>
      refine ensures_lookup (ih _) fun violation =>
        (ensures_writes (ensures_assignReviewer violation _ _ _) fun _ => ih _).weaken ?_
      exact fun before _ after done _ _ => done

/-- The entry of a bulk operation names no review. -/
theorem ensures_bulkAudit (actor : String) {mark action actorId : String} {actorName notes : Option String}
    {state : EntityState} (apart : ∀ text, ("review_id", .text (some text)) ∉ state) :
    Ensures (do addAuditEntry (bulkAudit env (← draw) (← draw) mark action actorId actorName state notes))
      fun before _ after => Writes actor before after := by
  refine (ensures_draw.bind fun marked => ensures_draw.bind fun drawn => ensures_insert _ _ _ _).weaken ?_
  rintro before _ after ⟨marked, first, sameFirst, drawn, second, sameSecond, _, entered⟩
  rw [Writes, entered, sameSecond, sameFirst]
  refine .single (.note _ fun text names => ?_)
  rw [names_cons rfl] at names
  exact apart text names

theorem ensures_bulkSkip (violationIds : List Nat) (reviewerId : String) (reviewerName notes : Option String) :
    Ensures (bulkSkip env violationIds reviewerId reviewerName notes) fun before _ after =>
      Writes reviewerId before after := by
  refine ensures_writes (ensures_skipEach _ _ _ _ _) fun result => ?_
  refine ((ensures_bulkAudit reviewerId (by simp)).bind fun _ => ensures_pure _).weaken ?_
  rintro before _ after ⟨_, _, written, _, rfl⟩
  exact written

theorem ensures_bulkAssignReviewer (violationIds : List Nat) (reviewerId : String) (reviewerName : Option String)
    (assignedBy : String) :
    Ensures (bulkAssignReviewer env violationIds reviewerId reviewerName assignedBy) fun before _ after =>
      Writes assignedBy before after := by
  refine ensures_writes (ensures_assignEach _ _ _ _ _) fun result => ?_
  refine ((ensures_bulkAudit assignedBy (by simp)).bind fun _ => ensures_pure _).weaken ?_
  rintro before _ after ⟨_, _, written, _, rfl⟩
  exact written

/-- An export marks patches of these ids and changes nothing else. -/
structure ExportsOnly (patchIds : List String) (before after : ReviewTables) : Prop where
  projectRoots : after.projectRoots = before.projectRoots
  violations : after.violations = before.violations
  reviews : after.reviews = before.reviews
  auditEntries : after.auditEntries = before.auditEntries
  patches : ∃ mark : PatchRecord → PatchRecord, after.patches = before.patches.map mark ∧
    ∀ patch, (mark patch).id = patch.id ∧ (mark patch).violationId = patch.violationId ∧
      (mark patch).reviewId = patch.reviewId ∧ (patch.id ∉ patchIds → mark patch = patch) ∧
        (mark patch = patch ∨ (mark patch).status = .exported)

theorem ExportsOnly.refl (tables : ReviewTables) : ExportsOnly [] tables tables :=
  ⟨rfl, rfl, rfl, rfl, id, (List.map_id _).symm, fun _ => ⟨rfl, rfl, rfl, fun _ => rfl, .inl rfl⟩⟩

theorem exportsOnly_exportPatch (tables : ReviewTables) (patchId exportedBy : String) (exportedAt : Nat) :
    ExportsOnly [patchId] tables (tables.exportPatch patchId exportedBy exportedAt) := by
  refine ⟨rfl, rfl, rfl, rfl, _, rfl, fun patch => ?_⟩
  by_cases own : patch.id = patchId
  · rw [if_pos own]
    exact ⟨rfl, rfl, rfl, fun other => (other (own ▸ List.mem_cons_self)).elim, .inr rfl⟩
  · rw [if_neg own]
    exact ⟨rfl, rfl, rfl, fun _ => rfl, .inl rfl⟩

theorem ExportsOnly.trans {first second : List String} {before middle after : ReviewTables}
    (earlier : ExportsOnly first before middle) (later : ExportsOnly second middle after) :
    ExportsOnly (first ++ second) before after := by
  obtain ⟨mark, marked, kept⟩ := earlier.patches
  obtain ⟨markAgain, markedAgain, keptAgain⟩ := later.patches
  refine ⟨later.projectRoots.trans earlier.projectRoots, later.violations.trans earlier.violations,
    later.reviews.trans earlier.reviews, later.auditEntries.trans earlier.auditEntries, markAgain ∘ mark, ?_, ?_⟩
  · rw [markedAgain, marked, List.map_map]
  · intro patch
    obtain ⟨sameId, sameViolation, sameReview, outside, status⟩ := kept patch
    obtain ⟨sameId', sameViolation', sameReview', outside', status'⟩ := keptAgain (mark patch)
    refine ⟨sameId'.trans sameId, sameViolation'.trans sameViolation, sameReview'.trans sameReview, ?_, ?_⟩
    · intro apart
      have firstKept := outside (fun inside => apart (List.mem_append_left _ inside))
      have secondKept := outside' (fun inside => apart (List.mem_append_right _ (sameId ▸ inside)))
      exact secondKept.trans firstKept
    · cases status' with
      | inl same => exact status.imp (same.trans ·) fun exported => (congrArg PatchRecord.status same).trans exported
      | inr exported => exact .inr exported

theorem ensures_markPatchExported (patch : PatchRecord) (exportedBy : String) :
    Ensures (markPatchExported env patch exportedBy) fun before _ after =>
      ExportsOnly [patch.id] before.tables after.tables := by
  refine (ensures_draw.bind fun drawn => ensures_change _).weaken ?_
  rintro before _ after ⟨drawn, middle, same, changed⟩
  rw [changed, same]
  exact exportsOnly_exportPatch _ _ _ _

/-- The violation is found and approved. -/
def approved (tables : ReviewTables) (violationId : Nat) : Bool :=
  (tables.violations.find? fun violation => violation.id = violationId).any fun violation =>
    violation.status ∈ approvedStatuses

theorem ensures_selectEligible (violationIds : List Nat) (eligible skipped : List Nat) :
    Ensures (selectEligible violationIds (eligible, skipped)) fun before result after => after = before ∧
      result = (eligible ++ violationIds.filter (approved before.tables),
        skipped ++ violationIds.filter fun violationId => !approved before.tables violationId) := by
  induction violationIds generalizing eligible skipped with
  | nil =>
      refine (ensures_pure _).weaken ?_
      rintro before result after ⟨rfl, rfl⟩
      simp
  | cons violationId rest ih =>
      intro before result after done
      cases found : before.tables.violations.find? (fun violation => violation.id = violationId) with
      | none =>
          have run : selectEligible rest (eligible, skipped ++ [violationId]) before = .ok result after := by
            rw [← done]
            simp only [selectEligible, getViolation, bind, EStateM.bind, get_apply,
              pure, EStateM.pure, found]
          obtain ⟨rfl, rfl⟩ := ih _ _ before result after run
          simp [approved, found]
      | some violation =>
          by_cases status : violation.status ∈ approvedStatuses
          · have run : selectEligible rest (eligible ++ [violationId], skipped) before = .ok result after := by
              rw [← done]
              simp only [selectEligible, getViolation, bind, EStateM.bind, get_apply,
                pure, EStateM.pure, found, if_pos status]
            obtain ⟨rfl, rfl⟩ := ih _ _ before result after run
            simp [approved, found, status]
          · have run : selectEligible rest (eligible, skipped ++ [violationId]) before = .ok result after := by
              rw [← done]
              simp only [selectEligible, getViolation, bind, EStateM.bind, get_apply,
                pure, EStateM.pure, found, if_neg status]
            obtain ⟨rfl, rfl⟩ := ih _ _ before result after run
            simp [approved, found, status]

theorem ensures_exportEach (latest : OrderedDict Nat PatchRecord) (exportedBy : String) (violationIds : List Nat)
    (exported : List PatchRecord) (skipped : List Nat) :
    Ensures (exportEach env latest exportedBy violationIds (exported, skipped)) fun before result after =>
      result = (exported ++ violationIds.filterMap latest.get?,
        skipped ++ violationIds.filter fun violationId => (latest.get? violationId).isNone) ∧
      ExportsOnly ((violationIds.filterMap latest.get?).map PatchRecord.id) before.tables after.tables := by
  induction violationIds generalizing exported skipped with
  | nil =>
      refine (ensures_pure _).weaken ?_
      rintro before result after ⟨rfl, rfl⟩
      exact ⟨by simp, .refl _⟩
  | cons violationId rest ih =>
      rw [exportEach]
      split
      · rename_i missing
        refine (ih _ _).weaken ?_
        rintro before result after ⟨rfl, exports⟩
        refine ⟨by simp [missing], ?_⟩
        rwa [List.filterMap_cons_none missing]
      · rename_i patch present
        refine ((ensures_markPatchExported patch exportedBy).bind fun _ => ih _ _).weaken ?_
        rintro before result after ⟨_, middle, marked, rfl, exports⟩
        refine ⟨by simp [present], ?_⟩
        rw [List.filterMap_cons_some present]
        exact marked.trans exports

/-- These are the patches that an export of the violations takes from the tables. -/
def chosenPatches (violationIds : List Nat) (tables : ReviewTables) : List PatchRecord :=
  (violationIds.filter (approved tables)).filterMap
    (latestPatchByViolation (patchesByIds (violationIds.filter (approved tables)) tables)).get?

/-- The chosen patches are marked, and one entry names them. -/
structure ExportsChosen (exportedBy : String) (patches : List PatchRecord) (before after : ReviewTables) : Prop where
  writes : ∃ entry middle, ExportsOnly (patches.map PatchRecord.id) before middle ∧
    after = middle.addAuditEntry entry ∧ entry.actorId = exportedBy ∧
    (∀ text, ¬ Names entry "review_id" text) ∧ ∀ patch ∈ patches, NamesPatch entry patch.id

theorem ensures_bulkExport (violationIds : List Nat) (exportedBy : String) :
    Ensures (bulkExportApprovedPatches env violationIds exportedBy) fun before result after =>
      ExportsChosen exportedBy (chosenPatches violationIds before.tables) before.tables after.tables ∧
      result.combinedPatch = String.intercalate "\n"
        ((chosenPatches violationIds before.tables).map PatchRecord.gitPatch) ∧
      result.exportedPatchIds = (chosenPatches violationIds before.tables).map PatchRecord.id ∧
      result.skippedViolationIds =
        (violationIds.filter fun violationId => !approved before.tables violationId) ++
          (violationIds.filter (approved before.tables)).filter fun violationId =>
            ((latestPatchByViolation (patchesByIds (violationIds.filter (approved before.tables))
              before.tables)).get? violationId).isNone := by
  refine ((ensures_selectEligible violationIds [] []).bind fun selected => (ensures_read _).bind fun allPatches =>
    (ensures_exportEach (latestPatchByViolation allPatches) exportedBy selected.1 [] selected.2).bind fun exported =>
    ensures_draw.bind fun marked => ensures_draw.bind fun drawn => (ensures_insert _ _ _ _).bind fun _ =>
    ensures_pure _).weaken ?_
  rintro _ result after ⟨_, _, ⟨rfl, rfl⟩, _, before, ⟨rfl, rfl⟩, _, first, ⟨rfl, exports⟩, marked, second, sameSecond,
    drawn, third, sameThird, _, fourth, ⟨_, entered⟩, rfl, rfl⟩
  refine ⟨⟨bulkAudit env marked drawn "bulk-export-" "bulk_export_patches" exportedBy none
    [("patch_ids", .list ((chosenPatches violationIds before.tables).map PatchRecord.id))]
    (some "Export only. No patches were applied automatically."), _, exports, ?_, ?_, ?_, ?_⟩, ?_, ?_, ?_⟩
  · rw [entered, sameThird, sameSecond]
    rfl
  · rfl
  · intro text names
    rw [names_cons rfl] at names
    simp at names
  · intro patch listed
    exact .inr ⟨_, _, rfl, List.mem_cons_self, List.mem_map.mpr ⟨patch, listed, rfl⟩⟩
  · rfl
  · rfl
  · rfl

end BulkReviewService

namespace ReviewRequest
open ReviewRepository ReviewService BulkReviewService

variable {env : ReviewEnvironment}

theorem ensures_discard {α : Type} {computation : Request α} {related : ReviewSession → ReviewSession → Prop}
    (ensures : Ensures computation fun before _ after => related before after) :
    Ensures (discard computation) fun before _ after => related before after := by
  intro before value after done
  cases ran : computation before with
  | ok result middle =>
      have same : discard computation before = .ok () middle := by
        simp [discard, Functor.mapConst, EStateM.map, ran, Function.comp]
      rw [same] at done
      cases done
      exact ensures before result _ ran
  | error error middle =>
      have same : discard computation before = .error error middle := by
        simp [discard, Functor.mapConst, EStateM.map, ran, Function.comp]
      rw [same] at done
      cases done

theorem ensures_loadViolation (violationId : Nat) :
    Ensures (loadViolation violationId) fun before violation after =>
      after = before ∧ violation ∈ before.tables.violations ∧ violation.id = violationId := by
  refine ensures_lookup (ensures_throw _) fun violation => (ensures_pure _).weaken ?_
  rintro before value after ⟨rfl, rfl⟩ listed same
  exact ⟨rfl, listed, same⟩

theorem ensures_loadProjectRoot (projectId : String) :
    Ensures (loadProjectRoot projectId) fun before _ after => after = before := by
  refine (ensures_get.before (fun session before _ after => after = before) ?_).weaken ?_
  · intro session
    cases session.tables.projectRoots.lookup projectId with
    | none => exact ensures_throw _
    | some rootPath => exact (ensures_pure _).weaken fun _ _ _ same => same.2
  · rintro before rootPath after ⟨session, middle, ⟨rfl, rfl⟩, same⟩
    exact same

theorem ensures_exportPatchEndpoint (violationId : Nat) (patchId exportedBy : String) (format : PatchFormat) :
    Ensures (exportPatchEndpoint env violationId patchId exportedBy format) fun before _ after =>
      (∃ patch ∈ before.tables.patches, patch.id = patchId ∧ patch.violationId = violationId) ∧
        ∃ exportedAt, after.tables = before.tables.exportPatch patchId exportedBy exportedAt := by
  refine ((ensures_read _).before (fun found before _ after =>
    (∀ patch, found = some patch → patch ∈ before.tables.patches ∧ patch.id = patchId) →
      (∃ patch ∈ before.tables.patches, patch.id = patchId ∧ patch.violationId = violationId) ∧
        ∃ exportedAt, after.tables = before.tables.exportPatch patchId exportedBy exportedAt) ?_).weaken ?_
  · intro found
    cases found with
    | none => exact ensures_throw _
    | some patch =>
        dsimp only
        split
        · exact ensures_throw _
        · rename_i owner
          refine ((ensures_draw.bind fun drawn => ensures_change _).before (fun _ before _ after =>
            after = before) fun _ => ?_).weaken ?_
          · cases format with
            | git | unified => exact (ensures_pure _).weaken fun _ _ _ same => same.2
          · rintro before _ after ⟨_, _, ⟨drawn, middle, same, changed⟩, rfl⟩ listed
            obtain ⟨stored, sameId⟩ := listed patch rfl
            refine ⟨⟨patch, stored, sameId, not_not.mp owner⟩, env.now drawn, ?_⟩
            rw [changed, same, sameId]
  · rintro before value after ⟨found, middle, ⟨rfl, rfl⟩, done⟩
    refine done fun patch same => ⟨List.mem_of_find?_eq_some same, ?_⟩
    simpa using List.find?_some same

/-- These are the changes that a request makes before it is committed. -/
def Effect (request : ReviewRequest) (before after : ReviewSession) : Prop :=
  match request with
  | bulkExportApprovedPatches violationIds exportedBy =>
      ExportsChosen exportedBy (chosenPatches violationIds before.tables) before.tables after.tables
  | exportPatch violationId patchId exportedBy _ =>
      (∃ patch ∈ before.tables.patches, patch.id = patchId ∧ patch.violationId = violationId) ∧
        ∃ exportedAt, after.tables = before.tables.exportPatch patchId exportedBy exportedAt
  | _ => Writes request.actor before after

theorem ensures_perform (request : ReviewRequest) :
    Ensures (perform env request) fun before _ after => Effect request before after := by
  cases request with
  | submitReview violationId arguments =>
      refine ensures_discard (((ensures_loadViolation _).bind fun violation => (ensures_loadProjectRoot _).bind
        fun projectRoot => ensures_submitReview violation arguments projectRoot).weaken ?_)
      rintro before outcome after ⟨violation, _, ⟨rfl, listed, _⟩, _, _, rfl, written⟩
      exact written listed
  | assignReviewer violationId reviewerId reviewerName assignedBy =>
      refine ((ensures_loadViolation _).bind fun violation => ensures_discard
        (ensures_assignReviewer violation reviewerId reviewerName assignedBy)).weaken ?_
      rintro before _ after ⟨violation, _, ⟨rfl, _, _⟩, written⟩
      exact written
  | bulkSkip violationIds reviewerId reviewerName notes => exact ensures_discard (ensures_bulkSkip _ _ _ _)
  | bulkAssignReviewer violationIds reviewerId reviewerName assignedBy =>
      exact ensures_discard (ensures_bulkAssignReviewer _ _ _ _)
  | bulkExportApprovedPatches violationIds exportedBy =>
      exact ensures_discard ((ensures_bulkExport _ _).weaken fun _ _ _ done => done.1)
  | exportPatch violationId patchId exportedBy format =>
      exact ensures_discard (ensures_exportPatchEndpoint _ _ _ _)

/-- A request is committed with its effect, or it leaves the tables as they are. -/
theorem handle_cases (request : ReviewRequest) (tables : ReviewTables) :
    (env.databaseFails = false ∧ ∃ after, Effect request { tables := tables } after ∧
        request.handle env tables = after.tables) ∨
      request.handle env tables = tables := by
  rw [handle]
  split
  · exact .inr rfl
  · rename_i works
    cases settle_cases (perform env request) { tables := tables } with
    | inl done =>
        obtain ⟨value, ran⟩ := done
        exact .inl ⟨Bool.not_eq_true _ ▸ works, _, ensures_perform request _ _ _ ran, rfl⟩
    | inr raised => exact .inr (congrArg ReviewSession.tables raised.2)

end ReviewRequest

namespace ReviewerAssignmentService
open ReviewRepository EnterpriseRepository

variable {env : ReviewEnvironment} {members : TeamMembers}

def assignedOutcome (env : ReviewEnvironment) (violation : ViolationRecord) (arguments : AssignmentArguments)
    (drawn : Nat) : AssignmentOutcome where
  violation := { violation with assignedReviewerId := some arguments.reviewerId
                                assignedReviewerName := some arguments.reviewerName }
  auditEntry := assignmentAudit env violation arguments drawn

/-- The outcome is written to the tables. -/
def store (tables : ReviewTables) (outcome : AssignmentOutcome) : ReviewTables :=
  (tables.setReviewer outcome.violation.id (outcome.violation.assignedReviewerId.getD "")
    outcome.violation.assignedReviewerName).addAuditEntry outcome.auditEntry

theorem ensures_validateMember (reviewerId : String) (teamId : Option String) :
    Ensures (validateMember members reviewerId teamId) fun before _ after => after = before := by
  cases teamId with
  | none => exact (ensures_pure _).weaken fun _ _ _ same => same.2
  | some team =>
      rw [validateMember]
      split
      · exact ensures_throw _
      · exact (ensures_pure _).weaken fun _ _ _ same => same.2

theorem ensures_assignReviewer (violation : ViolationRecord) (arguments : AssignmentArguments) :
    Ensures (assignReviewer env members violation arguments) fun before outcome after =>
      (∃ drawn, outcome = assignedOutcome env violation arguments drawn) ∧
        after.tables = store before.tables outcome := by
  refine ((ensures_validateMember _ _).bind fun _ => (ensures_change _).bind fun _ => ensures_draw.bind fun drawn =>
    (ensures_insert _ _ _ _).bind fun _ => ensures_pure _).weaken ?_
  rintro _ outcome after ⟨_, before, rfl, _, first, changed, drawn, second, sameSecond, _, third, ⟨_, entered⟩, rfl,
    rfl⟩
  refine ⟨⟨drawn, rfl⟩, ?_⟩
  rw [entered, sameSecond, changed]
  rfl

/-- A member is assigned when the id of the entry is new. -/
theorem assignReviewer_apply (violation : ViolationRecord) {arguments : AssignmentArguments}
    (member : validateMember members arguments.reviewerId arguments.teamId = pure ()) {session : ReviewSession}
    (fresh : env.uuid session.drawn ∉ session.tables.auditEntries.map AuditEntryRecord.id) :
    assignReviewer env members violation arguments session =
      .ok (assignedOutcome env violation arguments session.drawn)
        { tables := store session.tables (assignedOutcome env violation arguments session.drawn)
          drawn := session.drawn + 1 } := by
  have inserted : addAuditEntry (assignmentAudit env violation arguments session.drawn)
      { tables := session.tables.setReviewer violation.id arguments.reviewerId (some arguments.reviewerName)
        drawn := session.drawn + 1 } =
      .ok () { tables := store session.tables (assignedOutcome env violation arguments session.drawn)
               drawn := session.drawn + 1 } :=
    insert_apply fresh
  rw [assignReviewer, member]
  simp only [bind, EStateM.bind, pure, EStateM.pure, change, modify, modifyGet_apply, draw, inserted]
  rfl

/-- The outcomes from this index on have the members in turn. -/
def InTurn (env : ReviewEnvironment) (team : List TeamMemberRecord) (teamId actorId : String)
    (actorName : Option String) (index drawn : Nat) (violations : List ViolationRecord)
    (outcomes : List AssignmentOutcome) : Prop :=
  outcomes.length = violations.length ∧ ∀ (offset : Nat) (violation : ViolationRecord),
    violations[offset]? = some violation → ∃ member, team[(index + offset) % team.length]? = some member ∧
      outcomes[offset]? = some (assignedOutcome env violation (memberArguments member teamId actorId actorName)
        (drawn + offset))

theorem assignInTurn_apply {team : List TeamMemberRecord} (inhabited : team ≠ []) {teamId : String}
    (known : ∀ member ∈ team, validateMember members member.userId (some teamId) = pure ()) (actorId : String)
    (actorName : Option String) (apart : Function.Injective env.uuid) (index : Nat) (violations : List ViolationRecord)
    (session : ReviewSession)
    (fresh : ∀ drawn, session.drawn ≤ drawn →
      env.uuid drawn ∉ session.tables.auditEntries.map AuditEntryRecord.id) :
    ∃ outcomes, InTurn env team teamId actorId actorName index session.drawn violations outcomes ∧
      assignInTurn env members team teamId actorId actorName index violations session =
        .ok outcomes { tables := outcomes.foldl store session.tables
                       drawn := session.drawn + violations.length } := by
  induction violations generalizing index session with
  | nil => exact ⟨[], ⟨rfl, fun _ _ none => nomatch none⟩, rfl⟩
  | cons violation rest ih =>
      have inside : index % team.length < team.length := Nat.mod_lt _ (List.length_pos_iff.mpr inhabited)
      obtain ⟨member, present⟩ : ∃ member, team[index % team.length]? = some member :=
        ⟨_, List.getElem?_eq_getElem inside⟩
      have first := @assignReviewer_apply env members violation (memberArguments member teamId actorId actorName)
        (known member (List.mem_of_getElem? present)) session (fresh _ le_rfl)
      have later : ∀ drawn, session.drawn + 1 ≤ drawn → env.uuid drawn ∉ (store session.tables
          (assignedOutcome env violation (memberArguments member teamId actorId actorName)
            session.drawn)).auditEntries.map AuditEntryRecord.id := by
        intro drawn behind listed
        rw [store, ReviewTables.addAuditEntry, List.map_append, List.mem_append] at listed
        cases listed with
        | inl old => exact fresh drawn (Nat.le_of_succ_le behind) old
        | inr new =>
            have same : drawn = session.drawn := apart (List.mem_singleton.mp new)
            omega
      obtain ⟨outcomes, ⟨length, turns⟩, ran⟩ := ih (index + 1)
        { tables := store session.tables
            (assignedOutcome env violation (memberArguments member teamId actorId actorName) session.drawn)
          drawn := session.drawn + 1 } later
      refine ⟨assignedOutcome env violation (memberArguments member teamId actorId actorName) session.drawn ::
        outcomes, ⟨congrArg (· + 1) length, ?_⟩, ?_⟩
      · intro offset other listed
        cases offset with
        | zero =>
            cases listed
            exact ⟨member, present, rfl⟩
        | succ offset =>
            obtain ⟨next, inTurn, outcome⟩ := turns offset other listed
            refine ⟨next, ?_, ?_⟩
            · rw [← inTurn, Nat.add_right_comm, Nat.add_assoc]
            · rw [List.getElem?_cons_succ, outcome, Nat.add_right_comm, Nat.add_assoc]
      · rw [assignInTurn, present]
        dsimp only
        rw [bind_apply first, bind_apply ran, List.foldl_cons, List.length_cons, Nat.add_comm rest.length,
          ← Nat.add_assoc]
        rfl

section Stored

variable (outcomes : List AssignmentOutcome) (tables : ReviewTables)

theorem auditEntries_store : (outcomes.foldl store tables).auditEntries =
    tables.auditEntries ++ outcomes.map AssignmentOutcome.auditEntry := by
  induction outcomes generalizing tables with
  | nil => exact (List.append_nil _).symm
  | cons outcome rest ih =>
      rw [List.foldl_cons, ih, List.map_cons]
      exact List.append_assoc _ _ _

theorem rest_store : (outcomes.foldl store tables).projectRoots = tables.projectRoots ∧
    (outcomes.foldl store tables).reviews = tables.reviews ∧
    (outcomes.foldl store tables).patches = tables.patches := by
  induction outcomes generalizing tables with
  | nil => exact ⟨rfl, rfl, rfl⟩
  | cons outcome rest ih => exact ih (store tables outcome)

/-- The violation gets the reviewer of the outcome that is about it. -/
def assignTo (violation : ViolationRecord) (outcome : AssignmentOutcome) : ViolationRecord :=
  if violation.id = outcome.violation.id then
    { violation with assignedReviewerId := some (outcome.violation.assignedReviewerId.getD "")
                     assignedReviewerName := outcome.violation.assignedReviewerName }
  else violation

theorem violations_store : (outcomes.foldl store tables).violations =
    tables.violations.map fun violation => outcomes.foldl assignTo violation := by
  induction outcomes generalizing tables with
  | nil => exact (List.map_id _).symm
  | cons outcome rest ih =>
      rw [List.foldl_cons, ih]
      exact List.map_map

theorem id_assignTo (violation : ViolationRecord) : (outcomes.foldl assignTo violation).id = violation.id := by
  induction outcomes generalizing violation with
  | nil => rfl
  | cons outcome rest ih =>
      rw [List.foldl_cons, ih, assignTo]
      split <;> rfl

variable {outcomes}

theorem foldl_assignTo_of_not_mem {violation : ViolationRecord}
    (apart : violation.id ∉ outcomes.map fun outcome => outcome.violation.id) :
    outcomes.foldl assignTo violation = violation := by
  induction outcomes with
  | nil => rfl
  | cons outcome rest ih =>
      rw [List.map_cons, List.mem_cons, not_or] at apart
      rw [List.foldl_cons, assignTo, if_neg apart.1, ih apart.2]

/-- Where the violations of the outcomes differ, each one keeps the reviewer that it gets. -/
theorem foldl_assignTo_of_mem (distinct : (outcomes.map fun outcome => outcome.violation.id).Nodup)
    {violation : ViolationRecord} {outcome : AssignmentOutcome} (listed : outcome ∈ outcomes)
    (gets : assignTo violation outcome = outcome.violation) (own : violation.id = outcome.violation.id) :
    outcomes.foldl assignTo violation = outcome.violation := by
  obtain ⟨earlier, later, rfl⟩ := List.append_of_mem listed
  rw [List.map_append, List.map_cons, List.nodup_append, List.nodup_cons] at distinct
  obtain ⟨_, ⟨notLater, _⟩, disjoint⟩ := distinct
  have notEarlier : violation.id ∉ earlier.map fun outcome => outcome.violation.id := by
    intro inside
    exact disjoint _ inside _ List.mem_cons_self own
  rw [List.foldl_append, foldl_assignTo_of_not_mem notEarlier, List.foldl_cons, gets,
    foldl_assignTo_of_not_mem notLater]

end Stored

section Teams

theorem mem_listTeamMembers {teamId : String} {member : TeamMemberRecord} :
    member ∈ listTeamMembers members teamId ↔ member ∈ members.rows ∧ member.teamId = teamId := by
  rw [listTeamMembers, List.mem_insertionSort, List.mem_filter, decide_eq_true_eq]

theorem validateMember_listed {teamId : String} {member : TeamMemberRecord}
    (listed : member ∈ listTeamMembers members teamId) :
    validateMember members member.userId (some teamId) = pure () := by
  obtain ⟨stored, own⟩ := mem_listTeamMembers.mp listed
  have found : (getTeamMember members teamId member.userId).isSome := by
    rw [getTeamMember, List.find?_isSome]
    exact ⟨member, stored, by simp [own]⟩
  rw [validateMember, if_neg]
  simp [Option.isSome_iff_ne_none.mp found]

theorem nodup_userIds (members : TeamMembers) (teamId : String) :
    ((listTeamMembers members teamId).map TeamMemberRecord.userId).Nodup := by
  have rows : (listTeamMembers members teamId).Nodup :=
    (List.perm_insertionSort _ _).nodup_iff.mpr ((List.Nodup.of_map _ members.unique).filter _)
  refine List.Nodup.map_on (fun first inside second present same => ?_) rows
  obtain ⟨storedFirst, ownFirst⟩ := mem_listTeamMembers.mp inside
  obtain ⟨storedSecond, ownSecond⟩ := mem_listTeamMembers.mp present
  exact List.inj_on_of_nodup_map members.unique storedFirst storedSecond
    (Prod.ext (ownFirst.trans ownSecond.symm) same)

/-- What holds of the elements at some indices is counted by the indices. -/
theorem countP_eq_count {α : Type} {holds : α → Bool} {index : Nat → Prop} [DecidablePred index] (list : List α)
    (pointwise : ∀ i value, list[i]? = some value → (holds value = true ↔ index i)) :
    list.countP holds = Nat.count index list.length := by
  induction list using List.reverseRecOn with
  | nil => rfl
  | append_singleton list value ih =>
      have last := pointwise list.length value (by simp)
      rw [List.countP_append, List.length_append, List.length_singleton, Nat.count_succ, ih]
      · rw [List.countP_singleton]
        simp only [last]
      · intro i other listed
        exact pointwise i other (List.getElem?_append_left (List.getElem?_eq_some_iff.mp listed).1 ▸ listed)

end Teams

end ReviewerAssignmentService

namespace AssignmentRequest
open EnterpriseRepository ReviewerAssignmentService

section RoundRobin

variable {env : ReviewEnvironment} {members : TeamMembers} {runId teamId actorId : String} {actorName : Option String}
  {tables : ReviewTables} {outcomes : List AssignmentOutcome}

theorem mem_openViolations {violation : ViolationRecord} : violation ∈ openViolations runId tables ↔
    violation ∈ tables.violations ∧ violation.analysisRunId = runId ∧ violation.status = .open := by
  rw [openViolations, listByRun, List.mem_filter, List.mem_insertionSort, List.mem_filter, decide_eq_true_eq,
    decide_eq_true_eq, and_assoc]

theorem nodup_openViolations (keyed : (tables.violations.map ViolationRecord.id).Nodup) :
    ((openViolations runId tables).map ViolationRecord.id).Nodup := by
  have distinct : (openViolations runId tables).Nodup :=
    ((List.perm_insertionSort _ _).nodup_iff.mpr ((List.Nodup.of_map _ keyed).filter _)).filter _
  refine List.Nodup.map_on (fun first inside second present same => ?_) distinct
  exact List.inj_on_of_nodup_map keyed (mem_openViolations.mp inside).1 (mem_openViolations.mp present).1 same

theorem InTurn.outcome {team : List TeamMemberRecord} {violations : List ViolationRecord}
    (inTurn : InTurn env team teamId actorId actorName 0 0 violations outcomes) {index : Nat}
    {outcome : AssignmentOutcome} (listed : outcomes[index]? = some outcome) : ∃ violation member,
      violations[index]? = some violation ∧ team[index % team.length]? = some member ∧
        outcome = assignedOutcome env violation (memberArguments member teamId actorId actorName) index := by
  have inside : index < violations.length := inTurn.1 ▸ (List.getElem?_eq_some_iff.mp listed).1
  obtain ⟨member, present, same⟩ := inTurn.2 index _ (List.getElem?_eq_getElem inside)
  rw [Nat.zero_add] at present same
  exact ⟨_, member, List.getElem?_eq_getElem inside, present, Option.some.inj (listed.symm.trans same)⟩

theorem InTurn.ids {team : List TeamMemberRecord} {violations : List ViolationRecord}
    (inTurn : InTurn env team teamId actorId actorName 0 0 violations outcomes) :
    outcomes.map (fun outcome => outcome.violation.id) = violations.map ViolationRecord.id := by
  refine List.ext_getElem (by simp [inTurn.1]) fun index inside present => ?_
  rw [List.length_map] at inside present
  obtain ⟨violation, member, listed, _, same⟩ := InTurn.outcome inTurn (List.getElem?_eq_getElem inside)
  rw [List.getElem_map, List.getElem_map, same]
  rw [List.getElem?_eq_getElem present] at listed
  rw [Option.some.inj listed]
  rfl

/-- A member has the outcomes at the indices that leave its position. -/
theorem countP_inTurn {violations : List ViolationRecord} (inhabited : listTeamMembers members teamId ≠ [])
    (inTurn : InTurn env (listTeamMembers members teamId) teamId actorId actorName 0 0 violations outcomes)
    {position : Nat} {member : TeamMemberRecord} (listed : (listTeamMembers members teamId)[position]? = some member) :
    outcomes.countP (fun outcome => outcome.violation.assignedReviewerId = some member.userId) =
      share outcomes.length (listTeamMembers members teamId).length position := by
  have positive := List.length_pos_iff.mpr inhabited
  have inside : position < (listTeamMembers members teamId).length := (List.getElem?_eq_some_iff.mp listed).1
  have turns : ∀ (index : Nat) (outcome : AssignmentOutcome), outcomes[index]? = some outcome →
      (decide (outcome.violation.assignedReviewerId = some member.userId) = true ↔
        index ≡ position [MOD (listTeamMembers members teamId).length]) := by
    intro index outcome present
    obtain ⟨violation, other, _, turn, same⟩ := InTurn.outcome inTurn present
    have reviewer : outcome.violation.assignedReviewerId = some other.userId := by rw [same]; rfl
    rw [decide_eq_true_eq, reviewer, Option.some_inj, Nat.ModEq, Nat.mod_eq_of_lt inside]
    constructor
    · intro sameUser
      have bound : index % (listTeamMembers members teamId).length <
          ((listTeamMembers members teamId).map TeamMemberRecord.userId).length := by
        rw [List.length_map]
        exact Nat.mod_lt _ positive
      apply (List.getElem?_inj bound (nodup_userIds members teamId)).mp
      rw [List.getElem?_map, List.getElem?_map, turn, listed]
      exact congrArg some sameUser
    · intro samePosition
      rw [samePosition, listed] at turn
      rw [Option.some.inj turn]
  rw [countP_eq_count outcomes turns, Nat.count_modEq_card _ positive, Nat.mod_eq_of_lt inside]
  rfl

theorem sharesOut_store (keyed : (tables.violations.map ViolationRecord.id).Nodup)
    (inhabited : listTeamMembers members teamId ≠ [])
    (inTurn : InTurn env (listTeamMembers members teamId) teamId actorId actorName 0 0
      (openViolations runId tables) outcomes) :
    SharesOut members runId teamId tables (outcomes.foldl store tables) outcomes where
  violations := InTurn.ids inTurn
  turns := by
    intro index outcome listed
    obtain ⟨violation, member, _, turn, same⟩ := InTurn.outcome inTurn listed
    exact ⟨member, turn, by rw [same]; rfl, by rw [same]; rfl⟩
  fair := fun position member listed => countP_inTurn inhabited inTurn listed
  stored := by
    intro outcome listed
    obtain ⟨index, present⟩ := List.mem_iff_getElem?.mp listed
    obtain ⟨violation, member, source, _, same⟩ := InTurn.outcome inTurn present
    have inside := (mem_openViolations.mp (List.mem_of_getElem? source)).1
    have distinct : (outcomes.map fun outcome => outcome.violation.id).Nodup :=
      (InTurn.ids inTurn) ▸ nodup_openViolations keyed
    rw [violations_store]
    refine List.mem_map.mpr ⟨violation, inside, foldl_assignTo_of_mem distinct listed ?_ ?_⟩
    · rw [same]
      exact if_pos rfl
    · rw [same]
      rfl
  others := by
    intro violation inside closed
    rw [violations_store]
    refine List.mem_map.mpr ⟨violation, inside, foldl_assignTo_of_not_mem ?_⟩
    rw [InTurn.ids inTurn]
    intro listed
    obtain ⟨other, opened, same⟩ := List.mem_map.mp listed
    have equal := List.inj_on_of_nodup_map keyed (mem_openViolations.mp opened).1 inside same
    exact closed (equal ▸ opened)
  ids := by
    rw [violations_store, List.map_map]
    exact List.map_congr_left fun violation _ => id_assignTo outcomes violation
  entries := auditEntries_store outcomes tables
  rest := rest_store outcomes tables

end RoundRobin

end AssignmentRequest

end MisraPlatform
