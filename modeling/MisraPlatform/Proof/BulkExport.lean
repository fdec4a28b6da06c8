import MisraPlatform.Proof.AuditTrail

/-
This file proves which patches a bulk export of approved violations combines.
-/

namespace MisraPlatform.BulkReviewService
open ReviewRepository ReviewHistory AuditTrail

section Selection

theorem get?_foldl_latest (patches : List PatchRecord) (latest : OrderedDict Nat PatchRecord) (violationId : Nat) :
    (patches.foldl (fun latest patch =>
      if patch.violationId ∈ latest.keys then latest else latest.insert patch.violationId patch) latest).get?
        violationId =
      (latest.get? violationId).or (patches.find? fun patch => patch.violationId = violationId) := by
  induction patches generalizing latest with
  | nil => simp
  | cons patch rest ih =>
      rw [List.foldl_cons, ih]
      by_cases known : patch.violationId ∈ latest.keys
      · rw [if_pos known]
        by_cases own : patch.violationId = violationId
        · obtain ⟨earlier, found⟩ := (latest.mem_keys_iff violationId).mp (own ▸ known)
          simp [found]
        · simp [own]
      · rw [if_neg known, OrderedDict.get?_insert]
        by_cases own : patch.violationId = violationId
        · have missing := (latest.get?_eq_none violationId).mpr (own ▸ known)
          simp [own, missing]
        · simp [own, Ne.symm own]

/-- The dictionary has the first patch of each violation. -/
theorem get?_latestPatchByViolation (patches : List PatchRecord) (violationId : Nat) :
    (latestPatchByViolation patches).get? violationId =
      patches.find? fun patch => patch.violationId = violationId := by
  rw [latestPatchByViolation, get?_foldl_latest]
  rfl

theorem mem_patchesByIds {violationIds : List Nat} {tables : ReviewTables} {patch : PatchRecord} :
    patch ∈ patchesByIds violationIds tables ↔ patch ∈ tables.patches ∧ patch.violationId ∈ violationIds := by
  rw [patchesByIds, List.mem_insertionSort]
  simp

/-- Among the patches of one violation the newer ones come first. -/
theorem sorted_patchesByIds (violationIds : List Nat) (tables : ReviewTables) :
    (patchesByIds violationIds tables).Pairwise fun first second =>
      first.violationId = second.violationId → second.createdAt ≤ first.createdAt := by
  let precedes (first second : PatchRecord) : Prop := first.violationId < second.violationId ∨
    first.violationId = second.violationId ∧ second.createdAt ≤ first.createdAt
  have total : Std.Total precedes := ⟨fun first second => by
    change (_ ∨ _) ∨ (_ ∨ _)
    omega⟩
  have transitive : IsTrans PatchRecord precedes := ⟨fun first second third earlier later => by
    change _ ∨ _ at earlier later ⊢
    omega⟩
  have sorted : (patchesByIds violationIds tables).Pairwise precedes := List.pairwise_insertionSort precedes _
  refine sorted.imp ?_
  intro first second order same
  cases order with
  | inl less => exact absurd same (Nat.ne_of_lt less)
  | inr newer => exact newer.2

theorem latest_of_find? {violationIds : List Nat} {tables : ReviewTables} {violationId : Nat} {patch : PatchRecord}
    (found : (patchesByIds violationIds tables).find? (fun patch => patch.violationId = violationId) = some patch) :
    patch.violationId = violationId ∧ Latest tables patch := by
  have own : patch.violationId = violationId := by simpa using List.find?_some found
  have listed := mem_patchesByIds.mp (List.mem_of_find?_eq_some found)
  refine ⟨own, listed.1, fun other stored same => ?_⟩
  obtain ⟨_, before, after, split, earlier⟩ := List.find?_eq_some_iff_append.mp found
  have present : other ∈ patchesByIds violationIds tables := mem_patchesByIds.mpr ⟨stored, same ▸ listed.2⟩
  have sorted := sorted_patchesByIds violationIds tables
  rw [split] at present sorted
  cases List.mem_append.mp present with
  | inl first =>
      have apart := earlier other first
      simp [same, own] at apart
  | inr rest =>
      cases List.mem_cons.mp rest with
      | inl here => rw [here]
      | inr later =>
          have order := (List.pairwise_cons.mp (List.pairwise_append.mp sorted).2.1).1 other later
          exact order same.symm

end Selection

section Export

variable {tables : ReviewTables}

theorem approval_iff (keyed : Keyed tables) (violationId : Nat) :
    approved tables violationId = true ↔ Approved tables violationId := by
  rw [approved, Option.any_eq_true]
  constructor
  · rintro ⟨violation, found, status⟩
    exact ⟨violation, List.mem_of_find?_eq_some found, by simpa using List.find?_some found, by simpa using status⟩
  · rintro ⟨violation, listed, own, status⟩
    cases search : tables.violations.find? (fun other => other.id = violationId) with
    | none =>
        have missing := List.find?_eq_none.mp search violation listed
        simp [own] at missing
    | some other =>
        have same : other.id = violationId := by simpa using List.find?_some search
        have only : other = violation := List.inj_on_of_nodup_map keyed.violations
          (List.mem_of_find?_eq_some search) listed (same.trans own.symm)
        exact ⟨other, rfl, by simpa [only] using status⟩

/-- This is the patch that an export takes for an approved violation of the list. -/
def latestOf (violationIds : List Nat) (tables : ReviewTables) (violationId : Nat) : Option PatchRecord :=
  (patchesByIds (violationIds.filter (approved tables)) tables).find? fun patch => patch.violationId = violationId

theorem chosenPatches_eq (violationIds : List Nat) (tables : ReviewTables) :
    chosenPatches violationIds tables =
      (violationIds.filter (approved tables)).filterMap (latestOf violationIds tables) := by
  rw [chosenPatches]
  congr 1
  funext violationId
  exact get?_latestPatchByViolation _ _

theorem latestOf_isSome {violationIds : List Nat} {violationId : Nat} (listed : violationId ∈ violationIds)
    (current : approved tables violationId = true) : (latestOf violationIds tables violationId).isSome ↔
      ∃ patch ∈ tables.patches, patch.violationId = violationId := by
  rw [latestOf, List.find?_isSome]
  constructor
  · rintro ⟨patch, inside, own⟩
    exact ⟨patch, (mem_patchesByIds.mp inside).1, by simpa using own⟩
  · rintro ⟨patch, stored, rfl⟩
    exact ⟨patch, mem_patchesByIds.mpr ⟨stored, List.mem_filter.mpr ⟨listed, current⟩⟩, by simp⟩

theorem mem_chosenPatches {violationIds : List Nat} {patch : PatchRecord} :
    patch ∈ chosenPatches violationIds tables ↔ patch.violationId ∈ violationIds ∧
      approved tables patch.violationId = true ∧ latestOf violationIds tables patch.violationId = some patch := by
  rw [chosenPatches_eq, List.mem_filterMap]
  constructor
  · rintro ⟨violationId, listed, chosen⟩
    obtain ⟨rfl, _⟩ := latest_of_find? chosen
    exact ⟨(List.mem_filter.mp listed).1, (List.mem_filter.mp listed).2, chosen⟩
  · rintro ⟨listed, current, chosen⟩
    exact ⟨patch.violationId, List.mem_filter.mpr ⟨listed, current⟩, chosen⟩

theorem chosenPatches_once {violationIds : List Nat} (distinct : violationIds.Nodup) :
    ((chosenPatches violationIds tables).map PatchRecord.violationId).Nodup := by
  rw [chosenPatches_eq, List.map_filterMap]
  refine (distinct.filter _).filterMap ?_
  intro first second violationId here there
  obtain ⟨patch, chosen, rfl⟩ := Option.map_eq_some_iff.mp here
  obtain ⟨other, chosenToo, same⟩ := Option.map_eq_some_iff.mp there
  rw [← (latest_of_find? chosen).1, ← (latest_of_find? chosenToo).1, same]

end Export

/-- For each approved violation of the list the export combines its latest patch, and it skips the others. -/
theorem exports_latest (env : ReviewEnvironment) (session after : ReviewSession) (keyed : Keyed session.tables)
    (violationIds : List Nat) (exportedBy : String) (result : BulkExportResult)
    (done : bulkExportApprovedPatches env violationIds exportedBy session = .ok result after) :
    ∃ patches, ExportsLatest session.tables violationIds result patches := by
  obtain ⟨_, body, ids, left⟩ := ensures_bulkExport violationIds exportedBy _ _ _ done
  have skipped : ∀ violationId, violationId ∈ result.skippedViolationIds ↔ violationId ∈ violationIds ∧
      ¬ (Approved session.tables violationId ∧
        ∃ patch ∈ session.tables.patches, patch.violationId = violationId) := by
    intro violationId
    have absent : violationId ∈ violationIds → approved session.tables violationId = true →
        (((latestPatchByViolation (patchesByIds (violationIds.filter (approved session.tables))
          session.tables)).get? violationId).isNone ↔
        ¬ ∃ patch ∈ session.tables.patches, patch.violationId = violationId) := by
      intro listed current
      rw [get?_latestPatchByViolation, ← latestOf_isSome listed current]
      rw [Option.not_isSome_iff_eq_none, Option.isNone_iff_eq_none]
      rfl
    rw [left, List.mem_append, List.mem_filter, List.mem_filter, List.mem_filter, ← approval_iff keyed]
    cases current : approved session.tables violationId with
    | false => simp
    | true =>
        by_cases listed : violationId ∈ violationIds
        · have none_left := absent listed current
          simp only [listed, Bool.not_true, Bool.false_eq_true, and_false, and_true, false_or, true_and]
          exact none_left
        · simp [listed]
  refine ⟨chosenPatches violationIds session.tables, ⟨?_, body, ids⟩, ?_, ?_, chosenPatches_once, skipped, ?_⟩
  · exact fun patch chosen => (latest_of_find? (mem_chosenPatches.mp chosen).2.2).2.stored
  · intro patch chosen
    obtain ⟨listed, current, found⟩ := mem_chosenPatches.mp chosen
    exact ⟨listed, (approval_iff keyed _).mp current, (latest_of_find? found).2⟩
  · intro first chosen second chosenToo same
    have found := (mem_chosenPatches.mp chosen).2.2
    have foundToo := (mem_chosenPatches.mp chosenToo).2.2
    rw [same, foundToo] at found
    exact (Option.some.inj found).symm
  · intro violationId listed
    rw [skipped violationId, List.mem_map]
    constructor
    · rintro ⟨patch, chosen, rfl⟩ ⟨_, apart⟩
      obtain ⟨_, current, found⟩ := mem_chosenPatches.mp chosen
      exact apart ⟨(approval_iff keyed _).mp current, patch, (latest_of_find? found).2.stored, rfl⟩
    · intro kept
      obtain ⟨current, some_patch⟩ := not_not.mp (not_and.mp kept listed)
      have approval := (approval_iff keyed violationId).mpr current
      obtain ⟨patch, found⟩ := Option.isSome_iff_exists.mp ((latestOf_isSome listed approval).mpr some_patch)
      have own := (latest_of_find? found).1
      subst own
      exact ⟨patch, mem_chosenPatches.mpr ⟨listed, approval, found⟩, rfl⟩

section Sample

/-- The violation is edited, and then it is accepted without a suggested fix. -/
def editThenAccept : List (ReviewEnvironment × ReviewRequest) :=
  [(sampleEnvironment "a" 0, .submitReview 1 (sampleReview .edit (some sampleFix))),
    (sampleEnvironment "b" 10, .submitReview 1 (sampleReview .accept none))]

def editedThenAccepted : ReviewTables := ReviewRequest.handleAll editThenAccept (sampleTables none)

/-- The patch of the edit is exported, although the last review has none. -/
theorem editedThenAccepted_stale : Unreviewed (sampleTables none) ∧ ∃ result after,
    bulkExportApprovedPatches (sampleEnvironment "c" 20) [1] "bob" { tables := editedThenAccepted } =
        .ok result after ∧
      ¬ ∃ patches, ExportsRecent editedThenAccepted [1] result patches := by
  refine ⟨unreviewed_sampleTables, _, _, rfl, ?_⟩
  rintro ⟨patches, combines, _, _, recent, _, _⟩
  have ids : ["a2"] = patches.map PatchRecord.id := combines.ids
  cases patches with
  | nil => cases ids
  | cons patch rest =>
      have old : patch.violationId = 1 ∧ patch.reviewId = "a0" := by
        cases List.mem_singleton.mp (combines.stored patch List.mem_cons_self)
        exact ⟨rfl, rfl⟩
      have last := recent patch List.mem_cons_self
      rw [old.1, old.2] at last
      revert last
      decide

theorem exports_after_accept : Keyed editedThenAccepted ∧ ∃ result after,
    bulkExportApprovedPatches (sampleEnvironment "c" 20) [1, 2, 1] "bob" { tables := editedThenAccepted } =
        .ok result after ∧
      ∃ patches, ExportsLatest editedThenAccepted [1, 2, 1] result patches := by
  have keyed : Keyed editedThenAccepted := ⟨by decide, by decide⟩
  exact ⟨keyed, _, _, rfl, exports_latest (sampleEnvironment "c" 20) { tables := editedThenAccepted } _ keyed
    [1, 2, 1] "bob" _ rfl⟩

end Sample

end MisraPlatform.BulkReviewService
