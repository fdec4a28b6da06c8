import MisraPlatform.Construction.Exports
import MisraPlatform.Proof.ViolationPersistence

/-
This file proves that a SARIF log describes each violation once, and that over all runs each finding is exported once.
-/

namespace MisraPlatform

namespace SarifExporter

/-- The rules of a log are the first violations of the rules. -/
structure Describes (sha256 : String → String) (violations : List ExportedViolation) (log : SarifLog) : Prop where
  ids : (log.rules.map SarifRule.id).Nodup
  first : ∀ rule ∈ log.rules, ∃ before violation after, violations = before ++ violation :: after ∧
    rule = ruleOf violation ∧ ∀ earlier ∈ before, earlier.ruleId ≠ violation.ruleId
  results : log.results.length = violations.length
  placed : ∀ (index : Nat) (violation : ExportedViolation), violations[index]? = some violation →
    ∃ ruleIndex rule, log.results[index]? = some (resultOf sha256 ruleIndex violation) ∧
      log.rules[ruleIndex]? = some rule ∧ rule.id = violation.ruleId

section Fold

variable (sha256 : String → String) (violations : List ExportedViolation)

def ruleIds (violations : List ExportedViolation) : List String :=
  (keepFirst ExportedViolation.ruleId [] violations).map ExportedViolation.ruleId

theorem entries_addRule : (violations.foldl addRule .empty).entries =
    (keepFirst ExportedViolation.ruleId [] violations).map fun violation => (violation.ruleId, ruleOf violation) :=
  entries_foldl_setDefault ruleOf violations

theorem keys_addRule : (violations.foldl addRule .empty).keys = ruleIds violations := by
  rw [OrderedDict.keys, entries_addRule, List.map_map]
  rfl

theorem values_addRule : (violations.foldl addRule .empty).values =
    (keepFirst ExportedViolation.ruleId [] violations).map ruleOf := by
  rw [OrderedDict.values, entries_addRule, List.map_map]
  rfl

variable {violations}

theorem mem_ruleIds {violation : ExportedViolation} (inside : violation ∈ violations) :
    violation.ruleId ∈ ruleIds violations := by
  obtain ⟨kept, listed, same⟩ := @exists_keepFirst _ _ _ ExportedViolation.ruleId _ _ inside
  exact List.mem_map.mpr ⟨kept, listed, same⟩

/-- A later violation adds its rule behind the others, so the indices stay. -/
theorem idxOf_ruleIds_append (later : List ExportedViolation) {violation : ExportedViolation}
    (inside : violation ∈ violations) :
    (ruleIds (violations ++ later)).idxOf violation.ruleId = (ruleIds violations).idxOf violation.ruleId := by
  rw [ruleIds, keepFirst_append, List.map_append]
  exact List.idxOf_append_of_mem (mem_ruleIds inside)

variable (violations)

theorem foldl_exportStep : violations.foldl (exportStep sha256) (.empty, []) =
    (violations.foldl addRule .empty, violations.map fun violation =>
      resultOf sha256 ((ruleIds violations).idxOf violation.ruleId) violation) := by
  induction violations using List.reverseRecOn with
  | nil => rfl
  | append_singleton before last ih =>
      have earlier : (before.map fun violation =>
            resultOf sha256 ((ruleIds (before ++ [last])).idxOf violation.ruleId) violation) =
          before.map fun violation => resultOf sha256 ((ruleIds before).idxOf violation.ruleId) violation := by
        apply List.map_congr_left
        intro violation inside
        rw [idxOf_ruleIds_append [last] inside]
      have rules : addRule (before.foldl addRule .empty) last = (before ++ [last]).foldl addRule .empty := by
        rw [List.foldl_append]
        rfl
      rw [List.foldl_append, ih, List.map_append, earlier, ← keys_addRule (before ++ [last]), ← rules]
      rfl

theorem exportLog_rules (startTimeUtc runId projectName : String) :
    (exportLog sha256 startTimeUtc runId projectName violations).rules =
      (keepFirst ExportedViolation.ruleId [] violations).map ruleOf := by
  rw [exportLog, foldl_exportStep]
  exact values_addRule violations

theorem exportLog_results (startTimeUtc runId projectName : String) :
    (exportLog sha256 startTimeUtc runId projectName violations).results = violations.map fun violation =>
      resultOf sha256 ((ruleIds violations).idxOf violation.ruleId) violation := by
  rw [exportLog, foldl_exportStep]

/-- The log describes all violations: each rule once, by its first violation, and each violation by a result that
points to its rule. -/
theorem exportLog_describes (startTimeUtc runId projectName : String) :
    Describes sha256 violations (exportLog sha256 startTimeUtc runId projectName violations) where
  ids := by
    rw [exportLog_rules, List.map_map]
    exact keepFirst_nodup [] violations
  first := by
    intro rule listed
    rw [exportLog_rules] at listed
    obtain ⟨violation, kept, rfl⟩ := List.mem_map.mp listed
    obtain ⟨before, after, split, fresh⟩ := split_of_keepFirst kept
    exact ⟨before, violation, after, split, rfl, fresh⟩
  results := by
    rw [exportLog_results, List.length_map]
  placed := by
    intro index violation found
    have known := mem_ruleIds (List.mem_of_getElem? found)
    have place := List.getElem?_idxOf known
    rw [ruleIds, List.getElem?_map] at place
    obtain ⟨first, kept, same⟩ := Option.map_eq_some_iff.mp place
    refine ⟨(ruleIds violations).idxOf violation.ruleId, ruleOf first, ?_, ?_, same⟩
    · rw [exportLog_results, List.getElem?_map, found]
      rfl
    · rw [exportLog_rules, List.getElem?_map]
      exact congrArg _ kept

end Fold

end SarifExporter

namespace ViolationRepository

/-- The run that the row of a finding stands in. -/
def runOf (rows : List ViolationRecord) (projectId fingerprint : String) : Option String :=
  (rows.find? fun row => row.projectId = projectId ∧ row.fingerprint = fingerprint).map ViolationRecord.analysisRunId

theorem runOf_eq_some {rows : List ViolationRecord} (keyed : Keyed rows) {projectId fingerprint runId : String} :
    runOf rows projectId fingerprint = some runId ↔
      ∃ row ∈ rows, row.projectId = projectId ∧ row.fingerprint = fingerprint ∧ row.analysisRunId = runId := by
  rw [runOf, Option.map_eq_some_iff]
  constructor
  · rintro ⟨row, found, run⟩
    have own := List.find?_some found
    rw [decide_eq_true_eq] at own
    exact ⟨row, List.mem_of_find?_eq_some found, own.1, own.2, run⟩
  · rintro ⟨row, inside, project, own, run⟩
    have some_row : (rows.find? fun row => row.projectId = projectId ∧ row.fingerprint = fingerprint).isSome := by
      rw [List.find?_isSome]
      exact ⟨row, inside, decide_eq_true ⟨project, own⟩⟩
    obtain ⟨other, found⟩ := Option.isSome_iff_exists.mp some_row
    have matched := List.find?_some found
    rw [decide_eq_true_eq] at matched
    have same : other = row := List.inj_on_of_nodup_map keyed.keys (List.mem_of_find?_eq_some found) inside
      (Prod.ext (matched.1.trans project.symm) (matched.2.trans own.symm))
    exact ⟨other, found, same ▸ run⟩

theorem runOf_eq_none {rows : List ViolationRecord} {projectId fingerprint : String} :
    runOf rows projectId fingerprint = none ↔
      ∀ row ∈ rows, row.projectId = projectId → row.fingerprint ≠ fingerprint := by
  rw [runOf, Option.map_eq_none_iff, List.find?_eq_none]
  simp only [decide_eq_true_eq, not_and]

section Runs

variable {call : Upsert} {before middle after : List ViolationRecord}

/-- The rows of these fingerprints stand in the run. -/
def Moved (projectId analysisRunId : String) (fingerprints : List String) (after : List ViolationRecord) : Prop :=
  ∀ row ∈ after, row.projectId = projectId → row.fingerprint ∈ fingerprints → row.analysisRunId = analysisRunId

theorem Moved.trans {projectId analysisRunId : String} {first second : List String}
    (earlier : Moved projectId analysisRunId first middle) (later : Moved projectId analysisRunId second after)
    (follows : Follows projectId analysisRunId second middle after) :
    Moved projectId analysisRunId (first ++ second) after := by
  intro row inside project listed
  cases follows.rows row inside with
  | inr new => exact new.2.1
  | inl old =>
      cases List.mem_append.mp listed with
      | inl here => exact earlier row old project here
      | inr there => exact later row inside project there

theorem upsertViolation_moved {payload : ViolationPayload} {saved : ViolationRecord} (keyed : Keyed before)
    (done : upsertViolation call payload before = .ok (saved, after)) :
    Moved call.projectId call.analysisRunId [payload.fingerprint] after := by
  obtain ⟨other, result, stored, saves⟩ := upsertViolation_saves call payload keyed
  rw [done] at stored
  cases stored
  have run : saved.analysisRunId = call.analysisRunId := by
    rw [upsertViolation] at done
    split at done
    · cases done
      rfl
    · cases done
      rfl
    · cases done
  intro row inside project listed
  have same : row = saved := List.inj_on_of_nodup_map saves.keyed.keys inside saves.member
    (Prod.ext (project.trans saves.projectId.symm) ((List.mem_singleton.mp listed).trans saves.fingerprint.symm))
  rw [same, run]

theorem foldlM_upsert_moved {session next : Session} {payloads : List ViolationPayload}
    (keyed : Keyed (session.rows ++ session.pending)) (distinct : (payloads.map ViolationPayload.fingerprint).Nodup)
    (apart : ∀ row ∈ session.pending, ∀ payload ∈ payloads, row.fingerprint ≠ payload.fingerprint)
    (done : payloads.foldlM (Session.upsert call) session = .ok next) :
    Moved call.projectId call.analysisRunId (payloads.map ViolationPayload.fingerprint)
      (next.rows ++ next.pending) := by
  induction payloads generalizing session with
  | nil => exact fun _ _ _ listed => (List.not_mem_nil listed).elim
  | cons first rest ih =>
      obtain ⟨fresh, later⟩ := List.nodup_cons.mp distinct
      obtain ⟨middle, saved, stored, agrees, pending⟩ :=
        upsert_agrees call keyed fun row inside => apart row inside first List.mem_cons_self
      have separate : ∀ row ∈ middle.pending, ∀ payload ∈ rest, row.fingerprint ≠ payload.fingerprint := by
        intro row inside payload listed same
        cases pending row inside with
        | inl old => exact apart row old payload (List.mem_cons_of_mem _ listed) same
        | inr new => exact fresh (List.mem_map.mpr ⟨payload, listed, same.symm.trans new⟩)
      have step := (upsertViolation_follows keyed agrees).keyed
      obtain ⟨last, finished, follows⟩ := foldlM_upsert call middle rest step later separate
      rw [List.foldlM_cons, stored] at done
      cases done.symm.trans finished
      exact (upsertViolation_moved keyed agrees).trans (ih step later separate finished) follows

/-- A call moves the rows of its fingerprints to its run. -/
theorem upsertAndFlush_moved {payloads : List ViolationPayload} (keyed : Keyed before)
    (distinct : (payloads.map ViolationPayload.fingerprint).Nodup)
    (done : upsertAndFlush call payloads before = .ok after) :
    Moved call.projectId call.analysisRunId (payloads.map ViolationPayload.fingerprint) after := by
  have whole : Keyed (before ++ []) := (List.append_nil before).symm ▸ keyed
  obtain ⟨next, finished, _⟩ := foldlM_upsert call { rows := before } payloads whole distinct
    fun row inside => (List.not_mem_nil inside).elim
  rw [upsertAndFlush, finished] at done
  have stored : next.rows ++ next.pending = after := by
    change next.flush = _ at done
    rw [Session.flush] at done
    split at done
    · cases done
      rfl
    · cases done
  rw [← stored]
  exact foldlM_upsert_moved whole distinct (fun row inside => (List.not_mem_nil inside).elim) finished

end Runs

end ViolationRepository

namespace RuleDispatcher
open ViolationRepository

section Calls

variable {projectOf : String → String} {rows : List ViolationRecord}

theorem foldlM_units_moved {call : PersistCall} (run : call.projectId = projectOf call.analysisRunId)
    {entries : List (String × List StoredViolation)} (keyed : Keyed rows) (owned : Owned projectOf rows)
    (distinct : ∀ entry ∈ entries, (entry.2.map StoredViolation.fingerprint).Nodup) {after : List ViolationRecord}
    (done : entries.foldlM (fun rows entry =>
      upsertAndFlush (call.upsert entry.1) (entry.2.map StoredViolation.payload) rows) rows = .ok after) :
    Moved call.projectId call.analysisRunId (entries.flatMap fun entry =>
      (entry.2.map StoredViolation.payload).map ViolationPayload.fingerprint) after := by
  induction entries generalizing rows with
  | nil => exact fun _ _ _ listed => (List.not_mem_nil listed).elim
  | cons entry rest ih =>
      have here : ((entry.2.map StoredViolation.payload).map ViolationPayload.fingerprint).Nodup := by
        rw [List.map_map]
        exact distinct entry List.mem_cons_self
      have others : ∀ other ∈ rest, (other.2.map StoredViolation.fingerprint).Nodup :=
        fun other inside => distinct other (List.mem_cons_of_mem _ inside)
      obtain ⟨middle, stored, first⟩ := upsertAndFlush_follows (call.upsert entry.1) keyed owned run _ here
      obtain ⟨last, finished, later⟩ := foldlM_units call run rest first.keyed (first.owned owned run) others
      rw [List.foldlM_cons, stored] at done
      cases done.symm.trans finished
      exact (upsertAndFlush_moved keyed here stored).trans
        (ih first.keyed (first.owned owned run) others finished) later

theorem persistResults_runOf {sha256 : String → String} (call : PersistCall)
    (run : call.projectId = projectOf call.analysisRunId) (deduplicated : Deduplicated sha256 call.violations)
    (keyed : Keyed rows) (owned : Owned projectOf rows) :
    ∃ after, persistResults rows call = .ok after ∧
      Follows call.projectId call.analysisRunId (call.violations.map StoredViolation.fingerprint) rows after ∧
      ∀ projectId fingerprint, runOf after projectId fingerprint =
        if call.projectId = projectId ∧ fingerprint ∈ call.violations.map StoredViolation.fingerprint then
          some call.analysisRunId
        else runOf rows projectId fingerprint := by
  obtain ⟨after, done, follows⟩ := persistResults_follows call run deduplicated keyed owned
  have moved := foldlM_units_moved run keyed owned (fun entry listed => by
    rw [entry_violationsByTu call.violations listed]
    exact deduplicated.distinct entry.1) done
  refine ⟨after, done, follows, fun projectId fingerprint => ?_⟩
  split
  · rename_i found
    obtain ⟨row, inside, project, own⟩ := follows.present fingerprint found.2
    refine (runOf_eq_some follows.keyed).mpr ⟨row, inside, project.trans found.1, own, ?_⟩
    exact moved row inside project ((mem_violationsByTu call.violations _).mpr (own.symm ▸ found.2))
  · rename_i other
    apply Option.ext
    intro runId
    rw [runOf_eq_some follows.keyed, runOf_eq_some keyed]
    constructor
    · rintro ⟨row, inside, project, own, same⟩
      cases follows.rows row inside with
      | inl old => exact ⟨row, old, project, own, same⟩
      | inr new => exact (other ⟨new.1.symm.trans project, own ▸ new.2.2⟩).elim
    · rintro ⟨row, inside, project, own, same⟩
      obtain ⟨kept, found, continues⟩ := follows.continued row inside
      cases follows.rows kept found with
      | inr new => exact (other ⟨new.1.symm.trans (continues.projectId.trans project),
          own ▸ continues.fingerprint ▸ new.2.2⟩).elim
      | inl old =>
          have whole : kept = row := List.inj_on_of_nodup_map keyed.ids old inside continues.id
          exact ⟨row, whole ▸ found, project, own, same⟩

/-- The last of the calls that stores the finding names its run. -/
def lastRun (calls : List PersistCall) (projectId fingerprint : String) : Option String :=
  (calls.filter fun call => call.projectId = projectId ∧
    fingerprint ∈ call.violations.map StoredViolation.fingerprint).getLast?.map PersistCall.analysisRunId

theorem lastRun_cons (call : PersistCall) (rest : List PersistCall) (projectId fingerprint : String) :
    lastRun (call :: rest) projectId fingerprint = (lastRun rest projectId fingerprint).or
      (if call.projectId = projectId ∧ fingerprint ∈ call.violations.map StoredViolation.fingerprint then
        some call.analysisRunId
      else none) := by
  rw [lastRun, List.filter_cons]
  simp only [decide_eq_true_eq]
  split
  · rw [List.getLast?_cons, Option.map_some, lastRun]
    cases (rest.filter _).getLast? <;> rfl
  · rw [Option.or_none, lastRun]

/-- The store after any calls has each finding in the run that stored it last. -/
theorem persistAll_runOf {sha256 : String → String} (calls : List PersistCall)
    (runs : ∀ call ∈ calls, call.projectId = projectOf call.analysisRunId)
    (deduplicated : ∀ call ∈ calls, Deduplicated sha256 call.violations)
    (keyed : Keyed rows) (owned : Owned projectOf rows) :
    ∃ after, persistAll calls rows = .ok after ∧ Keyed after ∧ Owned projectOf after ∧
      (∀ row ∈ after, row ∈ rows ∨ ∃ call ∈ calls, row.fingerprint ∈ call.violations.map StoredViolation.fingerprint) ∧
      ∀ projectId fingerprint, runOf after projectId fingerprint =
        (lastRun calls projectId fingerprint).or (runOf rows projectId fingerprint) := by
  induction calls generalizing rows with
  | nil => exact ⟨rows, rfl, keyed, owned, fun row inside => .inl inside, fun _ _ => rfl⟩
  | cons call rest ih =>
      have run := runs call List.mem_cons_self
      obtain ⟨middle, stored, follows, step⟩ :=
        persistResults_runOf call run (deduplicated call List.mem_cons_self) keyed owned
      obtain ⟨after, done, keyedAfter, ownedAfter, origin, later⟩ := ih
        (fun other inside => runs other (List.mem_cons_of_mem _ inside))
        (fun other inside => deduplicated other (List.mem_cons_of_mem _ inside)) follows.keyed
        (follows.owned owned run)
      refine ⟨after, ?_, keyedAfter, ownedAfter, fun row inside => ?_, fun projectId fingerprint => ?_⟩
      · rw [persistAll, List.foldlM_cons, stored]
        exact done
      · cases origin row inside with
        | inr new => exact .inr (new.imp fun other found => ⟨List.mem_cons_of_mem _ found.1, found.2⟩)
        | inl old => exact (follows.rows row old).imp_right fun new => ⟨call, List.mem_cons_self, new.2.2⟩
      · rw [later, step, lastRun_cons, Option.or_assoc]
        congr 1
        split <;> rfl

end Calls

theorem Deduplicated.digest {sha256 : String → String} {violations : List StoredViolation}
    (deduplicated : Deduplicated sha256 violations) {fingerprint : String}
    (inside : fingerprint ∈ violations.map StoredViolation.fingerprint) : ∃ text, fingerprint = sha256 text := by
  obtain ⟨violation, member, rfl⟩ := List.mem_map.mp inside
  obtain ⟨findings, same⟩ := deduplicated violation.translationUnitId
  have listed : violation.fingerprint ∈ (violations.filter fun other =>
      other.translationUnitId = violation.translationUnitId).map StoredViolation.fingerprint :=
    List.mem_map_of_mem (List.mem_filter.mpr ⟨member, decide_eq_true rfl⟩)
  rw [same] at listed
  obtain ⟨finding, _, own⟩ := List.mem_map.mp listed
  exact ⟨Fingerprint.encoded finding, own.symm⟩

end RuleDispatcher

namespace ExportService
open ViolationRepository RuleDispatcher

/-- A run has at most one row of a finding, and it has one if the finding stands in it. -/
theorem countP_run {projectOf : String → String} {rows : List ViolationRecord} (keyed : Keyed rows)
    (owned : Owned projectOf rows) (runId fingerprint : String) :
    rows.countP (fun row => row.analysisRunId = runId ∧ row.fingerprint = fingerprint) =
      if runOf rows (projectOf runId) fingerprint = some runId then 1 else 0 := by
  split
  · rename_i found
    obtain ⟨row, inside, project, own, run⟩ := (runOf_eq_some keyed).mp found
    obtain ⟨before, after, rfl⟩ := List.mem_iff_append.mp inside
    have alone : ∀ other ∈ before ++ after, ¬ (other.analysisRunId = runId ∧ other.fingerprint = fingerprint) := by
      rintro other listed ⟨same, equal⟩
      have member : other ∈ before ++ row :: after := by
        rw [List.mem_append, List.mem_cons]
        exact (List.mem_append.mp listed).imp_right .inr
      have key : (other.projectId, other.fingerprint) = (row.projectId, row.fingerprint) :=
        Prod.ext ((owned other member).trans (same ▸ project.symm)) (equal.trans own.symm)
      have distinct := List.perm_middle.map (fun row : ViolationRecord => (row.projectId, row.fingerprint))
        |>.nodup_iff.mp keyed.keys
      exact (List.nodup_cons.mp distinct).1 (List.mem_map.mpr ⟨other, listed, key⟩)
    rw [List.perm_middle.countP_eq, List.countP_cons, if_pos (decide_eq_true ⟨run, own⟩), List.countP_eq_zero.mpr]
    intro other listed
    rw [decide_eq_true_eq]
    exact alone other listed
  · rename_i absent
    rw [List.countP_eq_zero]
    intro row inside
    rw [decide_eq_true_eq]
    rintro ⟨run, own⟩
    exact absent ((runOf_eq_some keyed).mpr ⟨row, inside, (owned row inside).trans (congrArg projectOf run), own, run⟩)

/-- The results of a run are its rows, whatever order the query lists them in. -/
theorem countP_results {sha256 : String → String} {rows listed : List ViolationRecord} {runId : String}
    (query : listed.Perm (rows.filter fun row => row.analysisRunId = runId))
    (digests : ∀ row ∈ rows, row.fingerprint ≠ "") (startTimeUtc runText projectName fingerprint : String) :
    (exportSarif sha256 startTimeUtc runText projectName listed).results.countP
        (fun result => result.primaryLocationLineHash = fingerprint) =
      rows.countP fun row => row.analysisRunId = runId ∧ row.fingerprint = fingerprint := by
  rw [exportSarif, SarifExporter.exportLog_results, List.countP_map, List.countP_map, query.countP_eq, List.countP_filter]
  apply List.countP_congr
  intro row inside
  have own : SarifExporter.fingerprint sha256 (violationToDict row) = row.fingerprint := if_neg (digests row inside)
  simp [SarifExporter.resultOf, own, and_comm]

/-- Over all runs of a project a finding is exported by the run that stored it last, once, and by no other run. -/
theorem finding_exported_once (sha256 projectOf : String → String) (digests : ∀ text, sha256 text ≠ "")
    (calls : List PersistCall) (runs : ∀ call ∈ calls, call.projectId = projectOf call.analysisRunId)
    (deduplicated : ∀ call ∈ calls, Deduplicated sha256 call.violations) (rows : List ViolationRecord)
    (keyed : Keyed rows) (owned : Owned projectOf rows) (stored : ∀ row ∈ rows, row.fingerprint ≠ "") :
    ∃ after, persistAll calls rows = .ok after ∧
      ∀ runId listed, listed.Perm (after.filter fun row => row.analysisRunId = runId) →
        ∀ startTimeUtc projectName fingerprint,
          (exportSarif sha256 startTimeUtc runId projectName listed).results.countP
              (fun result => result.primaryLocationLineHash = fingerprint) =
            if (lastRun calls (projectOf runId) fingerprint).or (runOf rows (projectOf runId) fingerprint) =
              some runId then 1 else 0 := by
  obtain ⟨after, done, keyedAfter, ownedAfter, origin, last⟩ := persistAll_runOf calls runs deduplicated keyed owned
  refine ⟨after, done, fun runId listed query startTimeUtc projectName fingerprint => ?_⟩
  have nonempty : ∀ row ∈ after, row.fingerprint ≠ "" := by
    intro row inside
    cases origin row inside with
    | inl old => exact stored row old
    | inr new =>
        obtain ⟨call, called, found⟩ := new
        obtain ⟨text, own⟩ := (deduplicated call called).digest found
        exact own ▸ digests text
  rw [countP_results query nonempty, countP_run keyedAfter ownedAfter, last]

section Sample

def tagged (text : String) : String := "digest of " ++ text

theorem tagged_ne (text : String) : tagged text ≠ "" := by
  intro empty
  have length := congrArg String.length empty
  simp [tagged] at length

/-- Each run finds the same in the same unit. -/
def repeatedCall (runId : String) : PersistCall where
  analysisRunId := runId
  projectId := "project"
  violations := [storedViolation tagged "tu-1" ⟨"required", "mandatory"⟩ headerFinding]
  now := fun _ => 0

theorem deduplicated_repeatedCall (runId : String) : Deduplicated tagged (repeatedCall runId).violations := by
  intro translationUnitId
  by_cases same : translationUnitId = "tu-1"
  · refine ⟨[headerFinding], ?_⟩
    rw [same, RuleExecutionEngine.deduplicate_eq]
    rfl
  · refine ⟨[], ?_⟩
    rw [RuleExecutionEngine.deduplicate_eq, List.filter_eq_nil_iff.mpr]
    · rfl
    · simp [repeatedCall, storedViolation, Ne.symm same]

theorem finding_exported_once_sample : ∃ after, persistAll [repeatedCall "run-1", repeatedCall "run-2"] [] = .ok after ∧
    ∀ listed, listed.Perm (after.filter fun row => row.analysisRunId = "run-1") →
      (exportSarif tagged "now" "run-1" "name" listed).results.countP
        (fun result => result.primaryLocationLineHash = Fingerprint.generateFingerprint tagged headerFinding) = 0 := by
  obtain ⟨after, done, exported⟩ := finding_exported_once tagged (fun _ => "project") tagged_ne
    [repeatedCall "run-1", repeatedCall "run-2"] (by simp [repeatedCall])
    (fun call listed => by
      simp only [List.mem_cons, List.not_mem_nil, or_false] at listed
      cases listed with
      | inl first => exact first ▸ deduplicated_repeatedCall "run-1"
      | inr second => exact second ▸ deduplicated_repeatedCall "run-2")
    [] ⟨List.nodup_nil, List.nodup_nil⟩ (fun row listed => nomatch listed) (fun row listed => nomatch listed)
  refine ⟨after, done, fun listed query => (exported "run-1" listed query "now" "name" _).trans (if_neg ?_)⟩
  simp [lastRun, repeatedCall, storedViolation]

end Sample

end ExportService

end MisraPlatform
