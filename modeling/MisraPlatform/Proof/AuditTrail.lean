import MisraPlatform.Proof.ReviewHistory
import Std.Data.String.ToNat

/-
This file proves that the audit trail of a sequence of requests is complete when no patch is exported on its own, and
that it always determines the reviewers.
-/

namespace MisraPlatform.AuditTrail
open ReviewHistory BulkReviewService

section Changes

variable {before after : ReviewTables}

/-- A violation that has changed is one that the update has changed. -/
theorem ViolationChanged.updated (change : ViolationRecord → ViolationRecord) (keyed : Keyed before)
    (sameId : ∀ violation, (change violation).id = violation.id)
    (updated : after.violations = before.violations.map change) {violationId : Nat}
    (changed : ViolationChanged before after violationId) :
    ∃ violation ∈ before.violations, violation.id = violationId ∧ change violation ≠ violation := by
  obtain ⟨old, inside, new, listed, rfl, sameNew, different⟩ := changed
  rw [updated] at listed
  obtain ⟨source, present, rfl⟩ := List.mem_map.mp listed
  have same : source = old :=
    List.inj_on_of_nodup_map keyed.violations present inside ((sameId source).symm.trans sameNew)
  subst same
  refine ⟨source, inside, rfl, fun kept => ?_⟩
  rw [kept] at different
  simp at different

theorem not_violationChanged (keyed : Keyed before) (same : after.violations = before.violations)
    (violationId : Nat) : ¬ ViolationChanged before after violationId := by
  intro changed
  obtain ⟨violation, _, _, different⟩ :=
    changed.updated id keyed (fun _ => rfl) (same.trans (List.map_id _).symm)
  exact different rfl

theorem not_patchChanged (same : after.patches = before.patches) (patchId : String) :
    ¬ PatchChanged before after patchId := by
  rintro ⟨new, listed, own, different⟩
  exact different new (same ▸ listed) own rfl

/-- A change of a violation over two steps is a change in one of them. -/
theorem ViolationChanged.split {middle : ReviewTables}
    (sameIds : middle.violations.map ViolationRecord.id = before.violations.map ViolationRecord.id) {violationId : Nat}
    (changed : ViolationChanged before after violationId) :
    ViolationChanged before middle violationId ∨ ViolationChanged middle after violationId := by
  obtain ⟨old, inside, new, listed, own, sameNew, different⟩ := changed
  have known : violationId ∈ middle.violations.map ViolationRecord.id := by
    rw [sameIds]
    exact List.mem_map.mpr ⟨old, inside, own⟩
  obtain ⟨between, present, sameBetween⟩ := List.mem_map.mp known
  by_cases kept : between.status = old.status ∧ between.assignedReviewerId = old.assignedReviewerId ∧
      between.assignedReviewerName = old.assignedReviewerName
  · right
    refine ⟨between, present, new, listed, sameBetween, sameNew, ?_⟩
    rw [kept.1, kept.2.1, kept.2.2]
    exact different
  · left
    refine ⟨old, inside, between, present, own, sameBetween, ?_⟩
    rw [not_and_or, not_and_or] at kept
    exact kept

theorem PatchChanged.split (middle : ReviewTables) {patchId : String} (changed : PatchChanged before after patchId) :
    PatchChanged before middle patchId ∨ PatchChanged middle after patchId := by
  obtain ⟨new, listed, own, different⟩ := changed
  by_cases kept : ∃ between ∈ middle.patches, between.id = patchId ∧ between.status = new.status
  · obtain ⟨between, present, sameBetween, sameStatus⟩ := kept
    left
    refine ⟨between, present, sameBetween, fun old inside sameOld => ?_⟩
    rw [sameStatus]
    exact different old inside sameOld
  · right
    exact ⟨new, listed, own, fun old inside sameOld same => kept ⟨old, inside, sameOld, same⟩⟩

end Changes

section Steps

/-- The step records its changes and keeps the keys. -/
structure Trails (actor : String) (before after : ReviewTables) : Prop where
  violationIds : after.violations.map ViolationRecord.id = before.violations.map ViolationRecord.id
  keyed : Keyed after
  recorded : ∃ added, Recorded actor before after added

variable {actor : String} {before middle after : ReviewTables}

theorem Trails.refl (keyed : Keyed before) : Trails actor before before where
  violationIds := rfl
  keyed := keyed
  recorded := ⟨[], (List.append_nil _).symm, fun _ changed => (not_violationChanged keyed rfl _ changed).elim,
    fun _ changed => (not_patchChanged rfl _ changed).elim⟩

theorem Trails.trans (earlier : Trails actor before middle) (later : Trails actor middle after) :
    Trails actor before after := by
  obtain ⟨first, appendedFirst, violationsFirst, patchesFirst⟩ := earlier.recorded
  obtain ⟨second, appendedSecond, violationsSecond, patchesSecond⟩ := later.recorded
  refine ⟨later.violationIds.trans earlier.violationIds, later.keyed, first ++ second, ?_, ?_, ?_⟩
  · rw [appendedSecond, appendedFirst, List.append_assoc]
  · intro violationId changed
    cases changed.split earlier.violationIds with
    | inl here =>
        obtain ⟨entry, listed, names⟩ := violationsFirst violationId here
        exact ⟨entry, List.mem_append_left _ listed, names⟩
    | inr there =>
        obtain ⟨entry, listed, names⟩ := violationsSecond violationId there
        exact ⟨entry, List.mem_append_right _ listed, names⟩
  · intro patchId changed
    cases changed.split middle with
    | inl here =>
        obtain ⟨entry, listed, names⟩ := patchesFirst patchId here
        exact ⟨entry, List.mem_append_left _ listed, names⟩
    | inr there =>
        obtain ⟨entry, listed, names⟩ := patchesSecond patchId there
        exact ⟨entry, List.mem_append_right _ listed, names⟩

/-- An update of one violation that comes with its entry is recorded. -/
theorem trails_update (keyed : Keyed before) {change : ViolationRecord → ViolationRecord}
    (sameId : ∀ violation, (change violation).id = violation.id)
    (updated : after.violations = before.violations.map change) (patches : after.patches = before.patches)
    {entry : AuditEntryRecord} (appended : after.auditEntries = before.auditEntries ++ [entry])
    (own : entry.actorId = actor)
    (named : ∀ violation, change violation ≠ violation → NamesViolation entry violation.id) :
    Trails actor before after := by
  have sameIds : after.violations.map ViolationRecord.id = before.violations.map ViolationRecord.id := by
    rw [updated, List.map_map]
    exact List.map_congr_left fun violation _ => sameId violation
  refine ⟨sameIds, ⟨sameIds ▸ keyed.violations, patches ▸ keyed.patches⟩, [entry], appended, ?_, ?_⟩
  · intro violationId changed
    obtain ⟨violation, _, rfl, different⟩ := changed.updated _ keyed sameId updated
    exact ⟨entry, List.mem_cons_self, own, named violation different⟩
  · exact fun patchId changed => (not_patchChanged patches patchId changed).elim

theorem trails_logged (keyed : Keyed before) (logged : Logged actor before after) : Trails actor before after := by
  cases logged with
  | review review entry _ _ records _ own =>
      refine trails_update keyed ?_ rfl rfl rfl own ?_
      · intro violation
        split <;> rfl
      · intro violation different
        rw [ne_eq, ite_eq_right_iff, Classical.not_imp] at different
        exact .inl ⟨records.entity.1, records.entity.2.trans (congrArg Nat.repr different.1.symm)⟩
  | patch review patch entry _ _ _ _ fresh _ _ own names =>
      refine ⟨rfl, ⟨keyed.violations, ?_⟩, [entry], rfl, ?_, ?_⟩
      · change ((before.patches ++ [patch]).map PatchRecord.id).Nodup
        rw [List.map_append, List.nodup_append]
        refine ⟨keyed.patches, List.nodup_singleton _, ?_⟩
        intro known listed other added same
        obtain ⟨earlier, inside, rfl⟩ := List.mem_map.mp listed
        exact fresh earlier inside (same.trans (List.mem_singleton.mp added))
      · exact fun violationId changed => (not_violationChanged keyed rfl _ changed).elim
      · rintro patchId ⟨new, listed, rfl, different⟩
        cases List.mem_append.mp listed with
        | inl old => exact (different new old rfl rfl).elim
        | inr added =>
            rw [List.mem_singleton.mp added]
            exact ⟨entry, List.mem_cons_self, own, names⟩
  | assign violationId reviewerId reviewerName entry _ own names =>
      refine trails_update keyed ?_ rfl rfl rfl own ?_
      · intro violation
        split <;> rfl
      · intro violation different
        rw [ne_eq, ite_eq_right_iff, Classical.not_imp] at different
        exact different.1 ▸ names
  | note entry _ =>
      refine ⟨rfl, ⟨keyed.violations, keyed.patches⟩, [entry], rfl, ?_, ?_⟩
      · exact fun violationId changed => (not_violationChanged keyed rfl _ changed).elim
      · exact fun patchId changed => (not_patchChanged rfl patchId changed).elim

theorem trails_writes (keyed : Keyed before) (writes : Relation.ReflTransGen (Logged actor) before after) :
    Trails actor before after := by
  induction writes with
  | refl => exact .refl keyed
  | tail _ logged ih => exact ih.trans (trails_logged ih.keyed logged)

/-- A patch that an export has changed is one of those that it exports. -/
theorem PatchChanged.exported {patchIds : List String} (exports : ExportsOnly patchIds before after) {patchId : String}
    (changed : PatchChanged before after patchId) :
    patchId ∈ patchIds ∧ ∃ patch ∈ before.patches, patch.id = patchId ∧ patch.status ≠ .exported := by
  obtain ⟨new, listed, own, different⟩ := changed
  obtain ⟨mark, marked, kept⟩ := exports.patches
  rw [marked] at listed
  obtain ⟨old, inside, rfl⟩ := List.mem_map.mp listed
  obtain ⟨sameId, _, _, outside, status⟩ := kept old
  have apart := different old inside (sameId.symm.trans own)
  refine ⟨?_, old, inside, sameId.symm.trans own, ?_⟩
  · by_contra missing
    rw [outside (sameId.symm.trans own ▸ missing)] at apart
    exact apart rfl
  · cases status with
    | inl same => exact (apart (congrArg PatchRecord.status same).symm).elim
    | inr exported => exact fun already => apart (already.trans exported.symm)

theorem ExportsOnly.keyed {patchIds : List String} (exports : ExportsOnly patchIds before after)
    (keyed : Keyed before) : Keyed after := by
  obtain ⟨mark, marked, kept⟩ := exports.patches
  refine ⟨exports.violations ▸ keyed.violations, ?_⟩
  have sameIds : after.patches.map PatchRecord.id = before.patches.map PatchRecord.id := by
    rw [marked, List.map_map]
    exact List.map_congr_left fun patch _ => (kept patch).1
  rw [sameIds]
  exact keyed.patches

theorem trails_chosen {patches : List PatchRecord} (keyed : Keyed before)
    (exports : ExportsChosen actor patches before after) : Trails actor before after := by
  obtain ⟨entry, middle, only, rfl, own, _, names⟩ := exports.writes
  have kept := ExportsOnly.keyed only keyed
  refine ⟨congrArg _ only.violations, ⟨kept.violations, kept.patches⟩, [entry], ?_, ?_, ?_⟩
  · change middle.auditEntries ++ [entry] = _
    rw [only.auditEntries]
  · intro violationId changed
    exact (not_violationChanged keyed only.violations _ changed).elim
  · intro patchId changed
    obtain ⟨chosen, _⟩ := PatchChanged.exported only changed
    obtain ⟨patch, listed, rfl⟩ := List.mem_map.mp chosen
    exact ⟨entry, List.mem_cons_self, own, names patch listed⟩

end Steps

section Requests

variable {env : ReviewEnvironment} {tables : ReviewTables}

theorem keyed_unique (keyed : Keyed tables) {first second : PatchRecord} (here : first ∈ tables.patches)
    (there : second ∈ tables.patches) (same : first.id = second.id) : first = second :=
  List.inj_on_of_nodup_map keyed.patches here there same

/-- A request that does not export a single patch silently is recorded. -/
theorem trails_handle (keyed : Keyed tables) {request : ReviewRequest}
    (loud : ¬ ExportsSilently env tables request) : Trails request.actor tables (request.handle env tables) := by
  rcases @ReviewRequest.handle_cases env request tables with ⟨works, after, effect, handled⟩ | same
  · rw [handled]
    cases request with
    | submitReview | assignReviewer | bulkSkip | bulkAssignReviewer => exact trails_writes keyed effect
    | bulkExportApprovedPatches violationIds exportedBy => exact trails_chosen keyed effect
    | exportPatch violationId patchId exportedBy format =>
        obtain ⟨⟨patch, listed, samePatch, sameViolation⟩, exportedAt, exported⟩ := effect
        have exports := exportsOnly_exportPatch tables patchId exportedBy exportedAt
        rw [exported]
        refine ⟨rfl, ExportsOnly.keyed exports keyed, [], (List.append_nil _).symm, ?_, ?_⟩
        · exact fun number changed => (not_violationChanged keyed rfl _ changed).elim
        · intro id changed
          obtain ⟨chosen, old, inside, own, pending⟩ := PatchChanged.exported exports changed
          have only : id = patchId := List.mem_singleton.mp chosen
          have same : old = patch := keyed_unique keyed inside listed (own.trans (only.trans samePatch.symm))
          subst same
          refine (loud ⟨works, old, inside, samePatch, sameViolation, ?_⟩).elim
          cases status : old.status with
          | generated => rfl
          | exported => exact (pending status).elim
  · rw [same]
    exact .refl keyed

theorem handle_silent (keyed : Keyed tables) {violationId : Nat} {patchId exportedBy : String} {format : PatchFormat}
    (works : env.databaseFails = false) {patch : PatchRecord} (listed : patch ∈ tables.patches)
    (own : patch.id = patchId) (owner : patch.violationId = violationId) :
    ∃ exportedAt, ReviewRequest.handle env (.exportPatch violationId patchId exportedBy format) tables =
      tables.exportPatch patchId exportedBy exportedAt := by
  have found : tables.patches.find? (fun other => other.id = patchId) = some patch := by
    cases search : tables.patches.find? (fun other => other.id = patchId) with
    | none =>
        have missing := List.find?_eq_none.mp search patch listed
        simp [own] at missing
    | some other =>
        have same : other.id = patchId := by simpa using List.find?_some search
        rw [keyed_unique keyed (List.mem_of_find?_eq_some search) listed (same.trans own.symm)]
  refine ⟨env.now 0, ?_⟩
  rw [ReviewRequest.handle, if_neg (by simp [works])]
  cases format <;>
  · simp only [ReviewRequest.perform, ReviewRequest.exportPatchEndpoint, ReviewRepository.getPatch, Rollback.settle,
      discard, Functor.mapConst, Function.comp, EStateM.map, bind, EStateM.bind,
      Rollback.get_apply, pure, EStateM.pure, found, owner, ne_eq, not_true_eq_false, if_false,
      ReviewRepository.markPatchExported, ReviewRepository.draw, ReviewRepository.change, modify,
      Rollback.modifyGet_apply, own]

theorem not_recorded_silent (keyed : Keyed tables) {request : ReviewRequest}
    (silent : ExportsSilently env tables request) (added : List AuditEntryRecord) :
    ¬ Recorded request.actor tables (request.handle env tables) added := by
  intro recorded
  cases request with
  | submitReview | assignReviewer | bulkSkip | bulkAssignReviewer | bulkExportApprovedPatches => exact silent
  | exportPatch violationId patchId exportedBy format =>
      obtain ⟨works, patch, listed, own, owner, pending⟩ := silent
      obtain ⟨exportedAt, handled⟩ := @handle_silent env tables keyed violationId patchId exportedBy format works patch
        listed own owner
      rw [handled] at recorded
      have nothing : added = [] := by
        have appended : tables.auditEntries = tables.auditEntries ++ added := recorded.appended
        simpa using appended
      have changed : PatchChanged tables (tables.exportPatch patchId exportedBy exportedAt) patchId := by
        refine ⟨_, List.mem_map_of_mem listed, ?_, ?_⟩
        · rw [if_pos own]
          exact own
        · intro old inside same
          rw [keyed_unique keyed inside listed (same.trans own.symm), if_pos own, pending]
          exact PatchStatus.noConfusion
      obtain ⟨entry, inside, _⟩ := recorded.patches patchId changed
      rw [nothing] at inside
      cases inside

/-- The trail of a sequence of requests is complete exactly when none of them exports a single patch silently. -/
theorem complete_iff (tables : ReviewTables) (keyed : Keyed tables)
    (calls : List (ReviewEnvironment × ReviewRequest)) : Complete calls tables ↔ NeverSilent calls tables := by
  induction calls generalizing tables with
  | nil => exact Iff.rfl
  | cons call rest ih =>
      obtain ⟨env, request⟩ := call
      constructor
      · rintro ⟨⟨added, recorded⟩, later⟩
        have loud : ¬ ExportsSilently env tables request :=
          fun silent => not_recorded_silent keyed silent added recorded
        exact ⟨loud, (ih _ (trails_handle keyed loud).keyed).mp later⟩
      · rintro ⟨loud, later⟩
        have trails := trails_handle keyed loud
        exact ⟨trails.recorded, (ih _ trails.keyed).mpr later⟩

end Requests

section Reviewers
open Rollback ReviewRepository ReviewService BulkReviewService

/-- The entries that are added assign the reviewers that have changed. -/
def Reassigns (before after : ReviewTables) : Prop := ∃ added, Reassigned before after added

section Steps

variable {before after : ReviewTables}

theorem lastAssigned_append (violationId : Nat) (earlier later : List AuditEntryRecord) :
    lastAssigned violationId (earlier ++ later) =
      (lastAssigned violationId later).or (lastAssigned violationId earlier) := by
  rw [lastAssigned, List.filterMap_append, List.getLast?_append]
  rfl

theorem Reassigns.trans {middle : ReviewTables} (earlier : Reassigns before middle) (later : Reassigns middle after) :
    Reassigns before after := by
  obtain ⟨first, ⟨appendedFirst, reviewersFirst⟩⟩ := earlier
  obtain ⟨second, ⟨appendedSecond, reviewersSecond⟩⟩ := later
  refine ⟨first ++ second, ?_, ?_⟩
  · rw [appendedSecond, appendedFirst, List.append_assoc]
  · rw [reviewersSecond, reviewersFirst, List.map_map]
    refine List.map_congr_left fun violation _ => ?_
    rw [lastAssigned_append, Function.comp_apply]
    cases lastAssigned violation.1 second <;> rfl

/-- An entry that assigns nobody may come with any change that keeps the reviewers. -/
theorem Reassigns.kept (sameReviewers : reviewers after = reviewers before) {added : List AuditEntryRecord}
    (appended : after.auditEntries = before.auditEntries ++ added)
    (nobody : ∀ violationId, ∀ entry ∈ added, assigned violationId entry = none) : Reassigns before after := by
  refine ⟨added, appended, ?_⟩
  have nothing : ∀ violationId, lastAssigned violationId added = none := by
    intro violationId
    rw [lastAssigned, List.filterMap_eq_nil_iff.mpr (nobody violationId)]
    rfl
  rw [sameReviewers]
  conv_lhs => rw [← List.map_id (reviewers before)]
  refine List.map_congr_left fun violation _ => ?_
  rw [nothing]
  rfl

theorem Reassigns.unchanged (sameReviewers : reviewers after = reviewers before)
    (sameEntries : after.auditEntries = before.auditEntries) : Reassigns before after :=
  .kept sameReviewers (sameEntries.trans (List.append_nil _).symm) fun _ _ listed => nomatch listed

theorem Reassigns.refl (tables : ReviewTables) : Reassigns tables tables := .unchanged rfl rfl

theorem reassigns_addAuditEntry (tables : ReviewTables) {entry : AuditEntryRecord}
    (nobody : ∀ violationId, assigned violationId entry = none) : Reassigns tables (tables.addAuditEntry entry) := by
  refine .kept rfl rfl fun violationId other listed => ?_
  rw [List.mem_singleton.mp listed]
  exact nobody violationId

theorem reassigns_setStatus (tables : ReviewTables) (violationId : Nat) (status : ViolationStatus) :
    Reassigns tables (tables.setStatus violationId status) := by
  refine .unchanged ?_ rfl
  rw [reviewers, ReviewTables.setStatus, List.map_map]
  refine List.map_congr_left fun violation _ => ?_
  rw [Function.comp_apply]
  split
  · rfl
  · rfl

/-- The assignment of a violation comes with the entry that names its reviewer. -/
theorem reassigns_setReviewer (tables : ReviewTables) (violationId : Nat) (reviewerId : String)
    (reviewerName : Option String) {entry : AuditEntryRecord}
    (named : ∀ other, assigned other entry =
      if other = violationId then some (some reviewerId, reviewerName) else none) :
    Reassigns tables ((tables.setReviewer violationId reviewerId reviewerName).addAuditEntry entry) := by
  have last : ∀ other, lastAssigned other [entry] = assigned other entry := by
    intro other
    rw [lastAssigned, List.filterMap_cons, List.filterMap_nil]
    cases assigned other entry <;> rfl
  refine ⟨[entry], rfl, ?_⟩
  simp only [reviewers, ReviewTables.setReviewer, ReviewTables.addAuditEntry, List.map_map, last, named]
  refine List.map_congr_left fun violation _ => ?_
  by_cases own : violation.id = violationId
  · simp [own]
  · simp [own]

end Steps

variable {env : ReviewEnvironment}

theorem assigned_of_type {entry : AuditEntryRecord} (other : entry.entityType ≠ "violation") (violationId : Nat) :
    assigned violationId entry = none :=
  if_neg fun violation => other violation.1

theorem assigned_reviewAudit (review : ViolationReviewRecord) (drawn violationId : Nat) :
    assigned violationId (reviewAudit env review drawn) = none := by
  have apart : reviewerKeys ("review." ++ review.action.value) = none := by
    cases review.action <;> rfl
  rw [assigned]
  split
  · exact congrArg (Option.map _) apart
  · rfl

/-- An entry about a violation is about no other one. -/
theorem assigned_of_keys {entry : AuditEntryRecord} {violationId : Nat} {keys : String × String} {state : EntityState}
    (entityType : entry.entityType = "violation") (entityId : entry.entityId = Nat.repr violationId)
    (action : reviewerKeys entry.action = some keys) (news : entry.newState = some state) (other : Nat) :
    assigned other entry =
      if other = violationId then some (textAt state keys.1, textAt state keys.2) else none := by
  rw [assigned, action, news]
  by_cases own : other = violationId
  · rw [if_pos own, if_pos ⟨entityType, entityId.trans (congrArg Nat.repr own.symm)⟩]
    rfl
  · rw [if_neg own, if_neg]
    rintro ⟨_, same⟩
    exact own (Nat.repr_injective (same.symm.trans entityId))

section Services

theorem ensures_reassigns {α β : Type} {computation : Request α} {next : α → Request β}
    (first : Ensures computation fun before _ after => Reassigns before.tables after.tables)
    (second : ∀ value, Ensures (next value) fun before _ after => Reassigns before.tables after.tables) :
    Ensures (computation >>= next) fun before _ after => Reassigns before.tables after.tables :=
  @Ensures.trans _ _ _ _ _ (fun before after : ReviewSession => Reassigns before.tables after.tables)
    (fun _ _ _ => Reassigns.trans) _ first second

/-- A computation that keeps the tables reassigns nothing. -/
theorem reassigns_same {α : Type} {computation : Request α}
    (same : Ensures computation fun before _ after => after.tables = before.tables) :
    Ensures computation fun before _ after => Reassigns before.tables after.tables :=
  same.weaken fun before _ after kept => kept ▸ Reassigns.refl before.tables

theorem reassigns_pure {α : Type} (value : α) :
    Ensures (pure value : Request α) fun before _ after => Reassigns before.tables after.tables :=
  reassigns_same ((ensures_pure value).weaken fun _ _ _ same => congrArg ReviewSession.tables same.2)

theorem reassigns_read {α : Type} (read : ReviewSession → α) :
    Ensures (do return read (← get) : Request α) fun before _ after => Reassigns before.tables after.tables :=
  reassigns_same ((ensures_read read).weaken fun _ _ _ same => congrArg ReviewSession.tables same.2)

theorem reassigns_insert (table : String) (known : ReviewTables → List String) (id : String)
    {add : ReviewTables → ReviewTables} (adds : ∀ tables, Reassigns tables (add tables)) :
    Ensures (insert table known id add) fun before _ after => Reassigns before.tables after.tables :=
  (ensures_insert table known id add).weaken fun before _ _ written => written.2 ▸ adds before.tables

theorem reassigns_change {update : ReviewTables → ReviewTables} (updates : ∀ tables, Reassigns tables (update tables)) :
    Ensures (change update) fun before _ after => Reassigns before.tables after.tables :=
  (ensures_change update).weaken fun before _ _ written => written ▸ updates before.tables

theorem reassigns_generatePatch (violation : ViolationRecord) (projectRoot : String) (review : ViolationReviewRecord)
    (fixText : Option String) :
    Ensures (generatePatch env violation projectRoot review fixText) fun before _ after =>
      Reassigns before.tables after.tables := by
  rw [generatePatch]
  split
  · refine ensures_reassigns (reassigns_same ensures_draw) fun drawn =>
      ensures_reassigns (reassigns_insert _ _ _ fun _ => .unchanged rfl rfl) fun _ =>
      ensures_reassigns (reassigns_same ensures_draw) fun entryDrawn =>
      ensures_reassigns (reassigns_insert _ _ _ fun tables => ?_) fun _ => reassigns_pure _
    apply reassigns_addAuditEntry
    apply assigned_of_type
    show "patch" ≠ "violation"
    decide
  · exact reassigns_pure _

theorem reassigns_submitReview (violation : ViolationRecord) (arguments : ReviewArguments) (projectRoot : String) :
    Ensures (submitReview env violation arguments projectRoot) fun before _ after =>
      Reassigns before.tables after.tables := by
  refine ensures_reassigns (reassigns_same ?_) fun _ => ensures_reassigns (reassigns_same ?_) fun fixText =>
    ensures_reassigns (reassigns_same ensures_draw) fun drawn =>
    ensures_reassigns (reassigns_insert _ _ _ fun _ => .unchanged rfl rfl) fun _ =>
    ensures_reassigns (reassigns_change fun tables => reassigns_setStatus tables _ _) fun _ =>
    ensures_reassigns (reassigns_same ensures_draw) fun entryDrawn =>
    ensures_reassigns (reassigns_insert _ _ _ fun tables => reassigns_addAuditEntry tables ?_) fun _ =>
    ensures_reassigns (reassigns_generatePatch violation projectRoot _ fixText) fun _ => reassigns_pure _
  · exact (ensures_validateJustification _ _).weaken fun _ _ _ same => congrArg ReviewSession.tables same
  · exact (ensures_resolveFixText _ _ _).weaken fun _ _ _ same => congrArg ReviewSession.tables same
  · exact assigned_reviewAudit _ entryDrawn

theorem reassigns_assignReviewer (violation : ViolationRecord) (reviewerId : String) (reviewerName : Option String)
    (assignedBy : String) :
    Ensures (ReviewService.assignReviewer env violation reviewerId reviewerName assignedBy) fun before _ after =>
      Reassigns before.tables after.tables := by
  refine ((ensures_change _).bind fun _ => ensures_draw.bind fun drawn => (ensures_insert _ _ _ _).bind fun _ =>
    ensures_pure _).weaken ?_
  rintro before entry after ⟨_, first, changed, drawn, second, sameSecond, _, third, ⟨_, entered⟩, _, rfl⟩
  rw [entered, sameSecond, changed]
  have named := @assigned_of_keys (assignAudit env violation reviewerId reviewerName assignedBy drawn) violation.id
    _ _ rfl rfl rfl rfl
  exact reassigns_setReviewer _ _ _ _ named

/-- A violation that is looked up is handled, or nothing is done for it. -/
theorem reassigns_lookup {α : Type} {violationId : Nat} {missing : Request α} {found : ViolationRecord → Request α}
    (otherwise : Ensures missing fun before _ after => Reassigns before.tables after.tables)
    (handled : ∀ violation, Ensures (found violation) fun before _ after => Reassigns before.tables after.tables) :
    Ensures (do match ← getViolation violationId with
      | none => missing
      | some violation => found violation) fun before _ after => Reassigns before.tables after.tables :=
  ensures_lookup otherwise fun violation => (handled violation).weaken fun _ _ _ done _ _ => done

theorem reassigns_skipEach (reviewerId : String) (reviewerName notes : Option String) (violationIds : List Nat)
    (result : BulkSkipResult) :
    Ensures (skipEach env reviewerId reviewerName notes violationIds result) fun before _ after =>
      Reassigns before.tables after.tables := by
  induction violationIds generalizing result with
  | nil => exact reassigns_pure _
  | cons violationId rest ih =>
      refine reassigns_lookup (ih _) fun violation => ?_
      exact ensures_reassigns (reassigns_read _) fun projectRoot =>
        ensures_reassigns (reassigns_submitReview violation _ projectRoot) fun _ => ih _

theorem reassigns_assignEach (reviewerId : String) (reviewerName : Option String) (assignedBy : String)
    (violationIds : List Nat) (result : BulkAssignResult) :
    Ensures (assignEach env reviewerId reviewerName assignedBy violationIds result) fun before _ after =>
      Reassigns before.tables after.tables := by
  induction violationIds generalizing result with
  | nil => exact reassigns_pure _
  | cons violationId rest ih =>
      refine reassigns_lookup (ih _) fun violation => ?_
      exact ensures_reassigns (reassigns_assignReviewer violation _ _ _) fun _ => ih _

/-- The entry of a bulk operation is about no violation of its own. -/
theorem reassigns_bulkAudit {α : Type} (result : α) (mark action actorId : String) (actorName : Option String)
    (newState : EntityState) (notes : Option String) :
    Ensures (do
      addAuditEntry (bulkAudit env (← draw) (← draw) mark action actorId actorName newState notes)
      return result) fun before _ after => Reassigns before.tables after.tables := by
  refine ensures_reassigns (reassigns_same ensures_draw) fun marked =>
    ensures_reassigns (reassigns_same ensures_draw) fun drawn =>
    ensures_reassigns (reassigns_insert _ _ _ fun tables => ?_) fun _ => reassigns_pure _
  apply reassigns_addAuditEntry
  apply assigned_of_type
  show "bulk_operation" ≠ "violation"
  decide

theorem reassigns_bulkExport (violationIds : List Nat) (exportedBy : String) :
    Ensures (bulkExportApprovedPatches env violationIds exportedBy) fun before _ after =>
      Reassigns before.tables after.tables := by
  refine ensures_reassigns (reassigns_same ?_) fun selected => ensures_reassigns (reassigns_read _) fun allPatches =>
    ensures_reassigns ?_ fun exported => reassigns_bulkAudit _ _ _ _ _ _ _
  · exact (ensures_selectEligible violationIds [] []).weaken fun _ _ _ kept => congrArg ReviewSession.tables kept.1
  · refine (ensures_exportEach (latestPatchByViolation allPatches) exportedBy selected.1 [] selected.2).weaken ?_
    rintro before result after ⟨_, exports⟩
    exact .unchanged (congrArg (List.map _) exports.violations) exports.auditEntries

theorem reassigns_perform (request : ReviewRequest) :
    Ensures (request.perform env) fun before _ after => Reassigns before.tables after.tables := by
  cases request with
  | submitReview violationId arguments =>
      apply ReviewRequest.ensures_discard
      refine ensures_reassigns (reassigns_same ?_) fun violation => ensures_reassigns (reassigns_same ?_)
        fun projectRoot => reassigns_submitReview violation arguments projectRoot
      · exact (ReviewRequest.ensures_loadViolation _).weaken fun _ _ _ loaded => congrArg ReviewSession.tables loaded.1
      · exact (ReviewRequest.ensures_loadProjectRoot _).weaken fun _ _ _ same => congrArg ReviewSession.tables same
  | assignReviewer violationId reviewerId reviewerName assignedBy =>
      refine ensures_reassigns (reassigns_same ?_) fun violation =>
        ReviewRequest.ensures_discard (reassigns_assignReviewer violation _ _ _)
      exact (ReviewRequest.ensures_loadViolation _).weaken fun _ _ _ loaded => congrArg ReviewSession.tables loaded.1
  | bulkSkip violationIds reviewerId reviewerName notes =>
      apply ReviewRequest.ensures_discard
      exact ensures_reassigns (reassigns_skipEach _ _ _ _ _) fun result => reassigns_bulkAudit _ _ _ _ _ _ _
  | bulkAssignReviewer violationIds reviewerId reviewerName assignedBy =>
      apply ReviewRequest.ensures_discard
      exact ensures_reassigns (reassigns_assignEach _ _ _ _ _) fun result => reassigns_bulkAudit _ _ _ _ _ _ _
  | bulkExportApprovedPatches violationIds exportedBy =>
      apply ReviewRequest.ensures_discard
      exact reassigns_bulkExport _ _
  | exportPatch violationId patchId exportedBy format =>
      apply ReviewRequest.ensures_discard
      refine (ReviewRequest.ensures_exportPatchEndpoint _ _ _ _).weaken ?_
      rintro before _ after ⟨_, exportedAt, exported⟩
      rw [exported]
      exact .unchanged rfl rfl

theorem reassigns_assignMember {members : TeamMembers} (violation : ViolationRecord)
    (arguments : AssignmentArguments) :
    Ensures (ReviewerAssignmentService.assignReviewer env members violation arguments) fun before _ after =>
      Reassigns before.tables after.tables := by
  refine (ReviewerAssignmentService.ensures_assignReviewer violation arguments).weaken ?_
  rintro before _ after ⟨⟨drawn, rfl⟩, stored⟩
  have named := @assigned_of_keys (ReviewerAssignmentService.assignmentAudit env violation arguments drawn)
    violation.id _ _ rfl rfl rfl rfl
  rw [stored]
  exact reassigns_setReviewer _ _ _ _ named

theorem reassigns_bulkAssign {members : TeamMembers} (arguments : AssignmentArguments) (violationIds : List Nat) :
    Ensures (ReviewerAssignmentService.bulkAssign env members arguments violationIds) fun before _ after =>
      Reassigns before.tables after.tables := by
  induction violationIds with
  | nil => exact reassigns_pure _
  | cons violationId rest ih =>
      refine reassigns_lookup ih fun violation => ?_
      exact ensures_reassigns (reassigns_assignMember violation arguments) fun outcome =>
        ensures_reassigns ih fun outcomes => reassigns_pure _

theorem reassigns_assignInTurn {members : TeamMembers} (team : List TeamMemberRecord) (teamId actorId : String)
    (actorName : Option String) (index : Nat) (violations : List ViolationRecord) :
    Ensures (ReviewerAssignmentService.assignInTurn env members team teamId actorId actorName index violations)
      fun before _ after => Reassigns before.tables after.tables := by
  induction violations generalizing index with
  | nil => exact reassigns_pure _
  | cons violation rest ih =>
      rw [ReviewerAssignmentService.assignInTurn]
      split
      · exact reassigns_pure _
      · exact ensures_reassigns (reassigns_assignMember violation _) fun outcome =>
          ensures_reassigns (ih _) fun outcomes => reassigns_pure _

theorem reassigns_assignment {members : TeamMembers} (request : AssignmentRequest) :
    Ensures (request.perform env members) fun before _ after => Reassigns before.tables after.tables := by
  cases request with
  | assignReviewer violationId arguments =>
      refine ensures_reassigns (reassigns_same ?_) fun violation =>
        ensures_reassigns (reassigns_assignMember violation arguments) fun outcome => reassigns_pure _
      exact (ReviewRequest.ensures_loadViolation _).weaken fun _ _ _ loaded => congrArg ReviewSession.tables loaded.1
  | bulkAssign violationIds arguments => exact reassigns_bulkAssign arguments violationIds
  | roundRobin runId teamId actorId actorName =>
      refine ensures_reassigns (reassigns_same ?_) fun session => ?_
      · exact ensures_get.weaken fun _ _ _ same => congrArg ReviewSession.tables same.2
      · rw [ReviewerAssignmentService.autoAssignRoundRobin]
        dsimp only
        split
        · exact ensures_throw _
        · exact reassigns_assignInTurn _ _ _ _ _ _

theorem reassigns_settle {α : Type} {computation : Request α}
    (reassigns : Ensures computation fun before _ after => Reassigns before.tables after.tables)
    (tables : ReviewTables) : Reassigns tables (settle computation { tables := tables }).tables := by
  cases settle_cases computation { tables := tables } with
  | inl done =>
      obtain ⟨value, ran⟩ := done
      exact reassigns _ _ _ ran
  | inr raised =>
      rw [raised.2]
      exact .refl tables

theorem reassigns_handle (tables : ReviewTables) (request : WorkflowRequest) :
    Reassigns tables (request.handle tables) := by
  cases request with
  | review env request =>
      rw [WorkflowRequest.handle, ReviewRequest.handle]
      split
      · exact .refl tables
      · exact reassigns_settle (reassigns_perform request) tables
  | assignment env members request =>
      rw [WorkflowRequest.handle, AssignmentRequest.handle]
      split
      · exact .refl tables
      · exact reassigns_settle (reassigns_assignment request) tables

end Services

/-- Whatever the engineers and the teams request, the added entries give the reviewer of every violation. -/
theorem reviewers_replayed (requests : List WorkflowRequest) (tables : ReviewTables) :
    ∃ added, Reassigned tables (WorkflowRequest.handleAll requests tables) added := by
  induction requests generalizing tables with
  | nil => exact Reassigns.refl tables
  | cons request rest ih => exact (reassigns_handle tables request).trans (ih _)

end Reviewers

section Sample

def sampleFix : SuggestedFix where
  originalCode := "x"
  suggestedCode := "x = 0"
  rationale := "set"
  confidenceScore := 1

/-- The violation is accepted, and then its patch is exported on its own. -/
def singleExport : List (ReviewEnvironment × ReviewRequest) :=
  [(sampleEnvironment "a" 0, .submitReview 1 (sampleReview .accept none)),
    (sampleEnvironment "b" 10, .exportPatch 1 "a2" "bob" .git)]

theorem keyed_sampleTables (suggestedFix : Option SuggestedFix) : Keyed (sampleTables suggestedFix) :=
  ⟨List.nodup_singleton _, List.nodup_nil⟩

theorem singleExport_unrecorded : Keyed (sampleTables (some sampleFix)) ∧
    ¬ Complete singleExport (sampleTables (some sampleFix)) := by
  refine ⟨keyed_sampleTables _, ?_⟩
  rintro ⟨_, ⟨added, recorded⟩, _⟩
  have keyed := (@trails_handle (sampleEnvironment "a" 0) _ (keyed_sampleTables (some sampleFix))
    (.submitReview 1 (sampleReview .accept none)) id).keyed
  have silent : ExportsSilently (sampleEnvironment "b" 10)
      (ReviewRequest.handle (sampleEnvironment "a" 0) (.submitReview 1 (sampleReview .accept none))
        (sampleTables (some sampleFix))) (.exportPatch 1 "a2" "bob" .git) :=
    ⟨rfl, _, List.mem_cons_self, rfl, rfl, rfl⟩
  exact not_recorded_silent keyed silent added recorded

theorem complete_after_reject : Keyed (sampleTables none) ∧
    (Complete [(sampleEnvironment "a" 0, .submitReview 1 (sampleReview .reject none))] (sampleTables none) ↔
      NeverSilent [(sampleEnvironment "a" 0, .submitReview 1 (sampleReview .reject none))] (sampleTables none)) :=
  ⟨keyed_sampleTables none, complete_iff _ (keyed_sampleTables none) _⟩

end Sample

end MisraPlatform.AuditTrail

namespace MisraPlatform.AssignmentRequest
open Rollback AuditTrail ReviewHistory EnterpriseRepository ReviewerAssignmentService

/-- A team without members is refused, and every other one shares out the open violations of the run in turn. -/
theorem roundRobin_shared (env : ReviewEnvironment) (members : TeamMembers) (runId teamId actorId : String)
    (actorName : Option String) (tables : ReviewTables) (keyed : (tables.violations.map ViolationRecord.id).Nodup)
    (fresh : DrawsFresh env tables) :
    (listTeamMembers members teamId = [] ∧
      perform env members (.roundRobin runId teamId actorId actorName) { tables := tables } =
        .error (reviewerAssignmentError (noMembersMessage teamId)) { tables := tables }) ∨
    (listTeamMembers members teamId ≠ [] ∧ ∃ outcomes after,
      perform env members (.roundRobin runId teamId actorId actorName) { tables := tables } = .ok outcomes after ∧
        SharesOut members runId teamId tables after.tables outcomes) := by
  by_cases empty : listTeamMembers members teamId = []
  · refine .inl ⟨empty, ?_⟩
    rw [perform, roundRobinEndpoint, bind_apply (get_apply _), autoAssignRoundRobin]
    dsimp only
    rw [if_pos empty]
    rfl
  · obtain ⟨outcomes, inTurn, ran⟩ := @assignInTurn_apply env members _ empty teamId
      (fun member listed => validateMember_listed listed) actorId actorName fresh.apart 0
      (openViolations runId tables) { tables := tables } fun drawn _ => fresh.unused drawn
    refine .inr ⟨empty, outcomes,
      { tables := outcomes.foldl store tables, drawn := 0 + (openViolations runId tables).length }, ?_,
      sharesOut_store keyed empty inTurn⟩
    rw [perform, roundRobinEndpoint, bind_apply (get_apply _), autoAssignRoundRobin]
    dsimp only
    rw [if_neg empty]
    exact ran

section Sample

def sampleMembers : TeamMembers where
  rows := [{ teamId := "core", userId := "bob", displayName := "Bob" },
    { teamId := "core", userId := "ann", displayName := "Ann" }]
  unique := by decide

theorem drawsFresh_sample (suggestedFix : Option SuggestedFix) :
    DrawsFresh (sampleEnvironment "a" 0) (sampleTables suggestedFix) where
  apart := fun _ _ same => Nat.repr_injective ((String.append_right_inj "a").mp same)
  unused := fun _ listed => nomatch listed

theorem roundRobin_shared_sample : ∃ outcomes after,
    perform (sampleEnvironment "a" 0) sampleMembers (.roundRobin "run" "core" "lead" none)
      { tables := sampleTables none } = .ok outcomes after ∧
    SharesOut sampleMembers "run" "core" (sampleTables none) after.tables outcomes :=
  ((roundRobin_shared (sampleEnvironment "a" 0) sampleMembers "run" "core" "lead" none (sampleTables none)
    (List.nodup_singleton _) (drawsFresh_sample none)).resolve_left fun empty => absurd empty.1 (by decide)).2

end Sample

end MisraPlatform.AssignmentRequest
