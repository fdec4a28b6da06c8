import MisraPlatform.Construction.ViolationPersistence
import MisraPlatform.Proof.Definitions
import MisraPlatform.Proof.RuleEngine
import MisraPlatform.Proof.ViolationStore

/-
This file proves that the stored results of any sequence of runs have one row for each finding.
-/

namespace MisraPlatform

namespace ViolationRepository

section Rows

/-- The store goes on with rows for these fingerprints of a run, and it has no other new rows. -/
structure Follows (projectId analysisRunId : String) (fingerprints : List String)
    (before after : List ViolationRecord) : Prop where
  keyed : Keyed after
  continued : ∀ row ∈ before, ∃ kept ∈ after, Continues kept row
  present : ∀ fingerprint ∈ fingerprints, ∃ row ∈ after, row.projectId = projectId ∧ row.fingerprint = fingerprint
  rows : ∀ row ∈ after, row ∈ before ∨
    row.projectId = projectId ∧ row.analysisRunId = analysisRunId ∧ row.fingerprint ∈ fingerprints

variable {projectId analysisRunId : String} {before middle after : List ViolationRecord}

theorem Follows.refl (keyed : Keyed before) : Follows projectId analysisRunId [] before before where
  keyed := keyed
  continued := fun row inside => ⟨row, inside, Continues.refl row⟩
  present := fun _ inside => (List.not_mem_nil inside).elim
  rows := fun _ inside => .inl inside

theorem Follows.trans {first second : List String} (earlier : Follows projectId analysisRunId first before middle)
    (later : Follows projectId analysisRunId second middle after) :
    Follows projectId analysisRunId (first ++ second) before after where
  keyed := later.keyed
  continued := by
    intro row inside
    obtain ⟨kept, found, continues⟩ := earlier.continued row inside
    obtain ⟨last, present, goes⟩ := later.continued kept found
    exact ⟨last, present, goes.trans continues⟩
  present := by
    intro fingerprint listed
    cases List.mem_append.mp listed with
    | inl old =>
        obtain ⟨row, found, project, own⟩ := earlier.present fingerprint old
        obtain ⟨kept, present, goes⟩ := later.continued row found
        exact ⟨kept, present, goes.projectId.trans project, goes.fingerprint.trans own⟩
    | inr new => exact later.present fingerprint new
  rows := by
    intro row inside
    cases later.rows row inside with
    | inl old => exact (earlier.rows row old).imp_right fun ⟨project, run, own⟩ =>
        ⟨project, run, List.mem_append_left _ own⟩
    | inr new => exact .inr ⟨new.1, new.2.1, List.mem_append_right _ new.2.2⟩

theorem upsertViolation_rows {call : Upsert} {payload : ViolationPayload} {saved : ViolationRecord}
    (done : upsertViolation call payload before = .ok (saved, after)) : ∀ row ∈ after, row ∈ before ∨
      row.projectId = call.projectId ∧ row.analysisRunId = call.analysisRunId ∧
        row.fingerprint = payload.fingerprint := by
  intro row inside
  rw [upsertViolation] at done
  split at done
  · cases done
    cases List.mem_append.mp inside with
    | inl old => exact .inl old
    | inr new =>
        rw [List.mem_singleton.mp new]
        exact .inr ⟨rfl, rfl, rfl⟩
  · rename_i record found
    cases done
    obtain ⟨_, project, own⟩ := mem_matching.mp (found ▸ List.mem_cons_self : record ∈ matching call payload before)
    obtain ⟨other, listed, rfl⟩ := List.mem_map.mp inside
    split
    · exact .inr ⟨project, rfl, own⟩
    · exact .inl listed
  · cases done

theorem upsertViolation_follows {call : Upsert} {payload : ViolationPayload} {saved : ViolationRecord}
    (keyed : Keyed before) (done : upsertViolation call payload before = .ok (saved, after)) :
    Follows call.projectId call.analysisRunId [payload.fingerprint] before after := by
  obtain ⟨other, result, stored, saves⟩ := upsertViolation_saves call payload keyed
  rw [done] at stored
  cases stored
  refine ⟨saves.keyed, saves.continued, ?_, ?_⟩
  · intro fingerprint listed
    rw [List.mem_singleton.mp listed]
    exact ⟨saved, saves.member, saves.projectId, saves.fingerprint⟩
  · intro row inside
    refine (upsertViolation_rows done row inside).imp_right fun ⟨project, run, own⟩ => ⟨project, run, ?_⟩
    rw [own]
    exact List.mem_cons_self

end Rows

section Sessions

variable {call : Upsert} {payload : ViolationPayload} {session : Session}

/-- While no pending object has the fingerprint, the session stores what a store without pending objects does. -/
theorem upsert_agrees (call : Upsert) (keyed : Keyed (session.rows ++ session.pending))
    (apart : ∀ row ∈ session.pending, row.fingerprint ≠ payload.fingerprint) : ∃ next saved,
      session.upsert call payload = .ok next ∧
      upsertViolation call payload (session.rows ++ session.pending) = .ok (saved, next.rows ++ next.pending) ∧
      ∀ row ∈ next.pending, row ∈ session.pending ∨ row.fingerprint = payload.fingerprint := by
  have unseen : matching call payload (session.rows ++ session.pending) = matching call payload session.rows := by
    have none_pending : matching call payload session.pending = [] := by
      refine List.filter_eq_nil_iff.mpr fun row inside matches_row => ?_
      rw [decide_eq_true_eq] at matches_row
      exact apart row inside matches_row.2
    rw [matching, List.filter_append]
    exact (congrArg _ none_pending).trans (List.append_nil _)
  cases found : matching call payload session.rows with
  | nil =>
      refine ⟨_, _, by rw [Session.upsert, found], by rw [upsertViolation, unseen, found, List.append_assoc], ?_⟩
      intro row inside
      refine (List.mem_append.mp inside).imp_right fun new => ?_
      rw [List.mem_singleton.mp new]
      rfl
  | cons record rest =>
      cases rest with
      | cons second others => exact (matching_unique keyed (unseen.trans found)).elim
      | nil =>
          have listed := (mem_matching.mp (found ▸ List.mem_cons_self : record ∈ matching call payload session.rows)).1
          have untouched : (session.pending.map fun other =>
              if other.id = record.id then seenAgain call payload record else other) = session.pending := by
            have ids := keyed.ids
            rw [List.map_append, List.nodup_append] at ids
            refine (List.map_congr_left fun other inside => if_neg fun same => ?_).trans (List.map_id _)
            exact ids.2.2 _ (List.mem_map_of_mem listed) _ (List.mem_map_of_mem inside) same.symm
          refine ⟨{ session with rows := session.rows.map fun other =>
              if other.id = record.id then seenAgain call payload record else other }, seenAgain call payload record,
            by rw [Session.upsert, found], ?_, fun row inside => .inl inside⟩
          rw [upsertViolation, unseen, found]
          dsimp only
          rw [List.map_append, untouched]

/-- The upserts of a list without repeated fingerprints do not raise, and they agree on what is stored. -/
theorem foldlM_upsert (call : Upsert) (session : Session) (payloads : List ViolationPayload)
    (keyed : Keyed (session.rows ++ session.pending))
    (distinct : (payloads.map ViolationPayload.fingerprint).Nodup)
    (apart : ∀ row ∈ session.pending, ∀ payload ∈ payloads, row.fingerprint ≠ payload.fingerprint) :
    ∃ next, payloads.foldlM (Session.upsert call) session = .ok next ∧
      Follows call.projectId call.analysisRunId (payloads.map ViolationPayload.fingerprint)
        (session.rows ++ session.pending) (next.rows ++ next.pending) := by
  induction payloads generalizing session with
  | nil => exact ⟨session, rfl, .refl keyed⟩
  | cons first rest ih =>
      obtain ⟨fresh, later⟩ := List.nodup_cons.mp distinct
      obtain ⟨next, saved, stored, agrees, pending⟩ :=
        upsert_agrees call keyed fun row inside => apart row inside first List.mem_cons_self
      have step := upsertViolation_follows keyed agrees
      have separate : ∀ row ∈ next.pending, ∀ payload ∈ rest, row.fingerprint ≠ payload.fingerprint := by
        intro row inside payload listed same
        cases pending row inside with
        | inl old => exact apart row old payload (List.mem_cons_of_mem _ listed) same
        | inr new => exact fresh (List.mem_map.mpr ⟨payload, listed, same.symm.trans new⟩)
      obtain ⟨last, done, follows⟩ := ih _ step.keyed later separate
      refine ⟨last, ?_, step.trans follows⟩
      rw [List.foldlM_cons, stored]
      exact done

/-- A row belongs to the project of its run. -/
def Owned (projectOf : String → String) (rows : List ViolationRecord) : Prop :=
  ∀ row ∈ rows, row.projectId = projectOf row.analysisRunId

theorem Follows.owned {projectOf : String → String} {projectId analysisRunId : String} {fingerprints : List String}
    {before after : List ViolationRecord} (follows : Follows projectId analysisRunId fingerprints before after)
    (owned : Owned projectOf before) (run : projectId = projectOf analysisRunId) : Owned projectOf after := by
  intro row inside
  cases follows.rows row inside with
  | inl old => exact owned row old
  | inr new => rw [new.1, new.2.1, run]

/-- Rows of one run and fingerprint are rows of one project, so a flush is not refused. -/
theorem flush_ok {projectOf : String → String} (keyed : Keyed (session.rows ++ session.pending))
    (owned : Owned projectOf (session.rows ++ session.pending)) :
    session.flush = .ok (session.rows ++ session.pending) := by
  refine if_pos (List.Nodup.map_on ?_ (List.Nodup.of_map _ keyed.ids))
  intro first here second there same
  obtain ⟨run, own⟩ := Prod.mk.inj same
  refine List.inj_on_of_nodup_map keyed.keys here there (Prod.ext ?_ own)
  exact (owned first here).trans ((congrArg projectOf run).trans (owned second there).symm)

theorem upsertAndFlush_follows (call : Upsert) {projectOf : String → String} {rows : List ViolationRecord}
    (keyed : Keyed rows)
    (owned : Owned projectOf rows) (run : call.projectId = projectOf call.analysisRunId)
    (payloads : List ViolationPayload) (distinct : (payloads.map ViolationPayload.fingerprint).Nodup) :
    ∃ after, upsertAndFlush call payloads rows = .ok after ∧
      Follows call.projectId call.analysisRunId (payloads.map ViolationPayload.fingerprint) rows after := by
  have whole : rows ++ [] = rows := List.append_nil rows
  obtain ⟨next, done, follows⟩ := foldlM_upsert call { rows := rows } payloads
    (whole.symm ▸ keyed) distinct fun row inside => (List.not_mem_nil inside).elim
  change Follows _ _ _ (rows ++ []) _ at follows
  rw [whole] at follows
  refine ⟨next.rows ++ next.pending, ?_, follows⟩
  rw [upsertAndFlush, done]
  exact flush_ok follows.keyed (follows.owned owned run)

end Sessions

end ViolationRepository

namespace RuleDispatcher
open ViolationRepository

/-- The violations of each unit are those that the deduplication of its findings has left. -/
def Deduplicated (sha256 : String → String) (violations : List StoredViolation) : Prop :=
  ∀ translationUnitId, ∃ findings : List RuleResult,
    (violations.filter fun violation => violation.translationUnitId = translationUnitId).map
        StoredViolation.fingerprint =
      (RuleExecutionEngine.deduplicate sha256 findings).1.map (Fingerprint.generateFingerprint sha256)

theorem Deduplicated.distinct {sha256 : String → String} {violations : List StoredViolation}
    (deduplicated : Deduplicated sha256 violations) (translationUnitId : String) :
    ((violations.filter fun violation => violation.translationUnitId = translationUnitId).map
      StoredViolation.fingerprint).Nodup := by
  obtain ⟨findings, same⟩ := deduplicated translationUnitId
  rw [same, RuleExecutionEngine.deduplicate_eq]
  exact keepFirst_nodup _ _

section Units

variable (violations : List StoredViolation)

theorem get?_violationsByTu (tuKey : String) : ((violationsByTu violations).get? tuKey).getD [] =
    violations.filter fun violation => violation.translationUnitId = tuKey := by
  have folded := LinkageIndex.get?_foldl_appendTo
    (violations.map fun violation => (violation.translationUnitId, violation)) .empty tuKey
  rw [List.foldl_map, OrderedDict.get?_empty, Option.getD_none, List.nil_append, List.filter_map, List.map_map] at folded
  exact folded.trans (List.map_id _)

theorem entry_violationsByTu {entry : String × List StoredViolation}
    (listed : entry ∈ (violationsByTu violations).entries) :
    entry.2 = violations.filter fun violation => violation.translationUnitId = entry.1 := by
  rw [← get?_violationsByTu, (OrderedDict.mem_entries_iff _ _ _).mp listed]
  rfl

/-- Every violation is in the list of its unit. -/
theorem mem_violationsByTu (fingerprint : String) :
    fingerprint ∈ ((violationsByTu violations).entries.flatMap fun entry =>
        (entry.2.map StoredViolation.payload).map ViolationPayload.fingerprint) ↔
      fingerprint ∈ violations.map StoredViolation.fingerprint := by
  rw [List.mem_flatMap, List.mem_map]
  constructor
  · rintro ⟨entry, listed, inside⟩
    rw [List.map_map, entry_violationsByTu violations listed] at inside
    obtain ⟨violation, member, own⟩ := List.mem_map.mp inside
    exact ⟨violation, List.mem_of_mem_filter member, own⟩
  · rintro ⟨violation, inside, rfl⟩
    have member : violation ∈ ((violationsByTu violations).get? violation.translationUnitId).getD [] := by
      rw [get?_violationsByTu]
      exact List.mem_filter.mpr ⟨inside, decide_eq_true rfl⟩
    cases found : (violationsByTu violations).get? violation.translationUnitId with
    | none =>
        rw [found] at member
        cases member
    | some unit =>
        rw [found] at member
        refine ⟨(violation.translationUnitId, unit), (OrderedDict.mem_entries_iff _ _ _).mpr found, ?_⟩
        rw [List.map_map]
        exact List.mem_map_of_mem (f := ViolationPayload.fingerprint ∘ StoredViolation.payload) member

end Units

section Calls

variable {projectOf : String → String} {rows : List ViolationRecord}

theorem foldlM_units (call : PersistCall) (run : call.projectId = projectOf call.analysisRunId)
    (entries : List (String × List StoredViolation)) (keyed : Keyed rows) (owned : Owned projectOf rows)
    (distinct : ∀ entry ∈ entries, (entry.2.map StoredViolation.fingerprint).Nodup) :
    ∃ after, entries.foldlM (fun rows entry =>
        upsertAndFlush (call.upsert entry.1) (entry.2.map StoredViolation.payload) rows) rows = .ok after ∧
      Follows call.projectId call.analysisRunId (entries.flatMap fun entry =>
        (entry.2.map StoredViolation.payload).map ViolationPayload.fingerprint) rows after := by
  induction entries generalizing rows with
  | nil => exact ⟨rows, rfl, .refl keyed⟩
  | cons entry rest ih =>
      have here : ((entry.2.map StoredViolation.payload).map ViolationPayload.fingerprint).Nodup := by
        rw [List.map_map]
        exact distinct entry List.mem_cons_self
      obtain ⟨middle, stored, first⟩ := upsertAndFlush_follows (call.upsert entry.1) keyed owned run _ here
      obtain ⟨after, done, later⟩ := ih first.keyed (first.owned owned run)
        fun other inside => distinct other (List.mem_cons_of_mem _ inside)
      refine ⟨after, ?_, first.trans later⟩
      rw [List.foldlM_cons, stored]
      exact done

theorem persistResults_follows {sha256 : String → String} (call : PersistCall)
    (run : call.projectId = projectOf call.analysisRunId) (deduplicated : Deduplicated sha256 call.violations)
    (keyed : Keyed rows) (owned : Owned projectOf rows) :
    ∃ after, persistResults rows call = .ok after ∧
      Follows call.projectId call.analysisRunId (call.violations.map StoredViolation.fingerprint) rows after := by
  obtain ⟨after, done, follows⟩ := foldlM_units call run (violationsByTu call.violations).entries keyed owned
    fun entry listed => by
      rw [entry_violationsByTu call.violations listed]
      exact deduplicated.distinct entry.1
  refine ⟨after, done, follows.keyed, follows.continued, fun fingerprint listed => ?_, fun row inside => ?_⟩
  · exact follows.present fingerprint ((mem_violationsByTu call.violations fingerprint).mpr listed)
  · exact (follows.rows row inside).imp_right fun ⟨project, own, listed⟩ =>
      ⟨project, own, (mem_violationsByTu call.violations _).mp listed⟩

end Calls

/-- Every sequence of calls is stored, and the store has one row for each stored or upserted fingerprint of a project,
where the rows that were there before go on. -/
theorem one_row_per_finding (sha256 projectOf : String → String) (calls : List PersistCall)
    (runs : ∀ call ∈ calls, call.projectId = projectOf call.analysisRunId)
    (deduplicated : ∀ call ∈ calls, Deduplicated sha256 call.violations) (rows : List ViolationRecord)
    (keyed : Keyed rows) (owned : Owned projectOf rows) :
    ∃ after, persistAll calls rows = .ok after ∧ Keyed after ∧ Owned projectOf after ∧
      (∀ projectId fingerprint, (∃ row ∈ after, row.projectId = projectId ∧ row.fingerprint = fingerprint) ↔
        (∃ row ∈ rows, row.projectId = projectId ∧ row.fingerprint = fingerprint) ∨
          ∃ call ∈ calls, call.projectId = projectId ∧
            fingerprint ∈ call.violations.map StoredViolation.fingerprint) ∧
      ∀ row ∈ rows, ∃ kept ∈ after, Continues kept row := by
  induction calls generalizing rows with
  | nil =>
      refine ⟨rows, rfl, keyed, owned, fun projectId fingerprint => ?_, fun row inside => ⟨row, inside, .refl row⟩⟩
      simp
  | cons call rest ih =>
      have run := runs call List.mem_cons_self
      obtain ⟨middle, stored, follows⟩ :=
        persistResults_follows call run (deduplicated call List.mem_cons_self) keyed owned
      obtain ⟨after, done, keyedAfter, ownedAfter, present, continued⟩ := ih
        (fun other inside => runs other (List.mem_cons_of_mem _ inside))
        (fun other inside => deduplicated other (List.mem_cons_of_mem _ inside)) middle follows.keyed
        (follows.owned owned run)
      refine ⟨after, ?_, keyedAfter, ownedAfter, fun projectId fingerprint => ?_, fun row inside => ?_⟩
      · rw [persistAll, List.foldlM_cons, stored]
        exact done
      · rw [present]
        constructor
        · rintro (⟨row, inside, project, own⟩ | ⟨other, inside, later⟩)
          · cases follows.rows row inside with
            | inl old => exact .inl ⟨row, old, project, own⟩
            | inr new =>
                exact .inr ⟨call, List.mem_cons_self, new.1.symm.trans project, own ▸ new.2.2⟩
          · exact .inr ⟨other, List.mem_cons_of_mem _ inside, later⟩
        · rintro (⟨row, inside, project, own⟩ | ⟨other, inside, project, listed⟩)
          · obtain ⟨kept, found, goes⟩ := follows.continued row inside
            exact .inl ⟨kept, found, goes.projectId.trans project, goes.fingerprint.trans own⟩
          · cases List.mem_cons.mp inside with
            | inl here =>
                subst here
                obtain ⟨row, found, owner, own⟩ := follows.present fingerprint listed
                exact .inl ⟨row, found, owner.trans project, own⟩
            | inr later => exact .inr ⟨other, later, project, listed⟩
      · obtain ⟨kept, found, goes⟩ := follows.continued row inside
        obtain ⟨last, inside, continues⟩ := continued kept found
        exact ⟨last, inside, continues.trans goes⟩

section Sample

def headerFinding : RuleResult where
  ruleId := "2.1"
  filePath := "main.h"
  lineStart := 1
  lineEnd := 1
  columnStart := 1
  columnEnd := 2
  offendingExpression := "x"
  explanation := "unreachable"
  riskDescription := "dead code"
  sourceSnippet := "x"
  astNodeId := "n1"
  astNodePath := []
  confidenceScore := 1

def headerViolation (translationUnitId : String) : StoredViolation :=
  storedViolation id translationUnitId ⟨"required", "mandatory"⟩ headerFinding

/-- Two units find the same in a common header. -/
def headerCall : PersistCall where
  analysisRunId := "run"
  projectId := "project"
  violations := [headerViolation "tu-1", headerViolation "tu-2"]
  now := fun _ => 0

theorem deduplicated_headerCall : Deduplicated id headerCall.violations := by
  intro translationUnitId
  by_cases first : translationUnitId = "tu-1"
  · refine ⟨[headerFinding], ?_⟩
    rw [first, RuleExecutionEngine.deduplicate_eq]
    rfl
  · by_cases second : translationUnitId = "tu-2"
    · refine ⟨[headerFinding], ?_⟩
      rw [second, RuleExecutionEngine.deduplicate_eq]
      rfl
    · refine ⟨[], ?_⟩
      rw [RuleExecutionEngine.deduplicate_eq, List.filter_eq_nil_iff.mpr]
      · rfl
      · simp [headerCall, headerViolation, storedViolation, Ne.symm first, Ne.symm second]

theorem headerFinding_stored_once : ∃ after, persistAll [headerCall, headerCall] [] = .ok after ∧ Keyed after := by
  have single : ∀ call ∈ [headerCall, headerCall], call = headerCall := by simp
  obtain ⟨after, done, keyed, _⟩ := one_row_per_finding id (fun _ => "project") [headerCall, headerCall]
    (fun call listed => single call listed ▸ rfl) (fun call listed => single call listed ▸ deduplicated_headerCall) []
    ⟨List.nodup_nil, List.nodup_nil⟩ (fun row listed => nomatch listed)
  exact ⟨after, done, keyed⟩

end Sample

end RuleDispatcher

end MisraPlatform
