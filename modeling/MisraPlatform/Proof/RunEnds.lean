import MisraPlatform.Proof.Fingerprint
import MisraPlatform.Semantics.RunHistory

/-
This file shows when an analysis run ends in a terminal status.
-/

namespace MisraPlatform.AnalysisOrchestrator
open Transaction

variable {project : Project} {request : RunRequest} {env : Environment}

section Writes

/-- These writes come before those that end a run. -/
inductive OrdinaryWrite (project : Project) (request : RunRequest) (env : Environment) :
    (Database → Database) → Prop
  | start : OrdinaryWrite project request env (Database.updateRun request.runId (startRun env))
  | total (number) : OrdinaryWrite project request env
      (Database.updateRun request.runId fun run => { run with filesTotal := number })
  | record (position entry) : OrdinaryWrite project request env (addRecord (newRecord request env position entry))
  | parse (position counts) : OrdinaryWrite project request env (storeParse project request env position counts)
  | violations (store) : OrdinaryWrite project request env (setViolations store)
  | statistics (results) : OrdinaryWrite project request env (storeStatistics request results)
  | delete (relativePath) : OrdinaryWrite project request env (deleteRows project relativePath)
  | node (node) : OrdinaryWrite project request env (storeNode project node)

theorem unitLoop_writes {affected : List SourcePath} {position : Nat} {counts : Counts}
    {entries : List CompileCommandEntry} {change : Database → Database}
    (inside : .write change ∈ unitLoop project request env affected position counts entries) :
    (∃ position entry, change = addRecord (newRecord request env position entry)) ∨
      ∃ position counts, change = storeParse project request env position counts := by
  induction entries generalizing position counts with
  | nil => cases inside
  | cons entry rest ih =>
      rw [unitLoop] at inside
      split at inside
      · cases List.mem_append.mp inside with
        | inl here =>
            simp only [unitActions, List.mem_cons, Operation.write.injEq, reduceCtorEq, List.not_mem_nil, or_false,
              false_or] at here
            exact here.imp (fun same => ⟨_, _, same⟩) (fun same => ⟨_, _, same⟩)
        | inr later => exact ih later
      · exact ih inside

theorem upsertUnit_writes {call : ViolationRepository.Upsert} {payloads : List ViolationPayload}
    {store : List ViolationRecord} {change : Database → Database}
    (inside : .write change ∈ (upsertUnit call payloads store).1) : ∃ saved, change = setViolations saved := by
  induction payloads generalizing store with
  | nil =>
      simp only [upsertUnit, List.mem_cons, Operation.write.injEq, reduceCtorEq, List.not_mem_nil, or_false] at inside
      exact ⟨store, inside⟩
  | cons payload rest ih =>
      rw [upsertUnit] at inside
      split at inside
      · simp at inside
      · simp only [List.mem_cons, reduceCtorEq, false_or] at inside
        exact ih inside

theorem upsertActions_writes {results : RuleResults} {translationUnitIds : List String}
    {store : List ViolationRecord} {change : Database → Database}
    (inside : .write change ∈ upsertActions project request env results translationUnitIds store) :
    ∃ saved, change = setViolations saved := by
  induction translationUnitIds generalizing store with
  | nil => cases inside
  | cons translationUnitId rest ih =>
      rw [upsertActions] at inside
      split at inside
      · exact upsertUnit_writes inside
      · cases List.mem_append.mp inside with
        | inl here => exact upsertUnit_writes here
        | inr later => exact ih later

theorem ruleActions_writes {affected : List SourcePath} {database : Database} {change : Database → Database}
    (inside : .write change ∈ ruleActions project request env affected database) :
    (∃ saved, change = setViolations saved) ∨ ∃ results, change = storeStatistics request results := by
  rw [ruleActions] at inside
  split at inside
  · simp only [List.mem_cons, reduceCtorEq, false_or] at inside
    split at inside
    · simp at inside
    · simp only [List.mem_append, List.mem_cons, Operation.write.injEq, reduceCtorEq, List.not_mem_nil, or_false,
        List.mem_map, and_false, exists_false] at inside
      cases inside with
      | inl upserts => exact .inl (upsertActions_writes upserts)
      | inr same => exact .inr ⟨_, same⟩
  · cases inside

theorem indexActions_writes {currentIndex : IncrementalIndex.FileIndex} {change : Database → Database}
    (inside : .write change ∈ indexActions project currentIndex) :
    ∃ entry ∈ currentIndex.entries, change = deleteRows project entry.1 ∨ change = storeNode project entry.2 := by
  obtain ⟨entry, member, here⟩ := List.mem_flatMap.mp inside
  simp only [List.mem_cons, Operation.write.injEq, reduceCtorEq, List.not_mem_nil, or_false, false_or] at here
  exact ⟨entry, member, here⟩

theorem startActions_writes {change : Database → Database} (inside : .write change ∈ startActions request env) :
    change = Database.updateRun request.runId (startRun env) := by
  simpa [startActions] using inside

theorem selectedActions_writes {currentIndex : IncrementalIndex.FileIndex} {affected : List SourcePath}
    {database : Database} {change : Database → Database}
    (inside : .write change ∈ selectedActions project request env currentIndex affected database) :
    OrdinaryWrite project request env change := by
  simp only [selectedActions, List.mem_append] at inside
  rcases inside with ((((opening | engine) | fingerprints) | units) | rules) | index
  · simp only [List.mem_cons, Operation.write.injEq, reduceCtorEq, List.not_mem_nil, or_false] at opening
    exact opening ▸ .total _
  · split at engine <;> simp at engine
  · simp at fingerprints
  · rcases unitLoop_writes units with ⟨_, _, rfl⟩ | ⟨_, _, rfl⟩
    · exact .record _ _
    · exact .parse _ _
  · rcases ruleActions_writes rules with ⟨_, rfl⟩ | ⟨_, rfl⟩
    · exact .violations _
    · exact .statistics _
  · rcases indexActions_writes index with ⟨_, _, rfl | rfl⟩
    · exact .delete _
    · exact .node _

end Writes

section Pending

/-- The run of the request is stored and has not ended, and the stored manifests are serializable. -/
def Pending (request : RunRequest) (database : Database) : Prop :=
  database.serializable = true ∧ ∃ run ∈ database.analysisRuns, run.id = request.runId ∧
    run.status ≠ .completed ∧ run.status ≠ .failed

theorem not_endedIn_of_pending {database : Database} (pending : Pending request database) :
    ¬ EndedIn request database := by
  obtain ⟨_, run, member, same, notCompleted, notFailed⟩ := pending
  intro ended
  cases (ended run member same).1 with
  | inl completed => exact notCompleted completed
  | inr failed => exact notFailed failed

/-- A change of the run that does not end it leaves it pending. -/
theorem pending_updateRun {runId : String} {change : AnalysisRun → AnalysisRun}
    (sameId : ∀ run, (change run).id = run.id)
    (unended : ∀ run, (change run).status = run.status ∨ (change run).status = .running) {database : Database}
    (pending : Pending request database) : Pending request (Database.updateRun runId change database) := by
  obtain ⟨serializable, run, member, same, notCompleted, notFailed⟩ := pending
  refine ⟨serializable, if run.id = runId then change run else run, List.mem_map_of_mem member, ?_⟩
  split
  · rw [sameId]
    cases unended run with
    | inl kept => exact ⟨same, kept ▸ notCompleted, kept ▸ notFailed⟩
    | inr running => exact ⟨same, by simp [running], by simp [running]⟩
  · exact ⟨same, notCompleted, notFailed⟩

theorem pending_ordinary {change : Database → Database} (ordinary : OrdinaryWrite project request env change)
    {database : Database} (pending : Pending request database) : Pending request (change database) := by
  cases ordinary with
  | start =>
      refine pending_updateRun ?_ ?_ pending
      · exact fun _ => rfl
      · exact fun _ => .inr rfl
  | total number =>
      refine pending_updateRun ?_ ?_ pending
      · exact fun _ => rfl
      · exact fun _ => .inl rfl
  | record position entry => exact pending
  | parse position counts =>
      have stored : Pending request
          { database with translationUnits := database.translationUnits.map fun record =>
              if record.id = env.uuid position then parsedRecord project request env position record else record } :=
        pending
      refine pending_updateRun ?_ ?_ stored
      · exact fun _ => rfl
      · exact fun _ => .inl rfl
  | violations store => exact pending
  | statistics results => exact pending
  | delete relativePath => exact pending
  | node node => exact pending

theorem pending_newRun {database : Database} (newRun : NewRun request database) : Pending request database := by
  obtain ⟨run, member, same⟩ := newRun.stored
  have queued := (newRun.queued run member same).1
  exact ⟨newRun.serializable, run, member, same, by simp [queued], by simp [queued]⟩

theorem endedIn_updateRun {change : AnalysisRun → AnalysisRun} (ends : ∀ run, RunEnded (change run))
    (database : Database) :
    EndedIn request (Database.updateRun request.runId change database) := by
  intro run member same
  obtain ⟨before, _, rfl⟩ := List.mem_map.mp member
  by_cases this_run : before.id = request.runId
  · rw [if_pos this_run]
    exact ends before
  · rw [if_neg this_run] at same
    exact absurd same this_run

end Pending

section Shape

theorem mem_finalWrites {affected : List SourcePath} {action : Operation Database}
    (inside : action ∈ finalWrites project request env affected) : ∃ change, action = .write change := by
  rw [finalWrites] at inside
  cases List.mem_append.mp inside with
  | inl manifest =>
      split at manifest
      · exact ⟨_, List.mem_singleton.mp manifest⟩
      · cases manifest
  | inr completed => exact ⟨_, List.mem_singleton.mp completed⟩

/-- The script raises at its end, or its last writes end the run. -/
theorem script_cases (project : Project) (request : RunRequest) (env : Environment) (database : Database) :
    (∃ first text, script project request env database = (first ++ [.raise text], []) ∧
      ∀ change, .write change ∈ first → OrdinaryWrite project request env change) ∨
    ∃ first writes tail, script project request env database = (first ++ writes ++ [.commit], tail) ∧
      (∀ change, .write change ∈ first → OrdinaryWrite project request env change) ∧
      (∀ action ∈ writes, ∃ change, action = .write change) ∧ (∀ action ∈ tail, ∃ name, action = .call name) ∧
      ∀ stored, EndedIn request (written writes stored) := by
  rw [script]
  by_cases valid : env.validation.isValid = true
  · rw [if_pos valid]
    have opening : ∀ change, .write change ∈ startActions request env ++
        [.call "get_profile", .call "build_file_index"] → OrdinaryWrite project request env change := by
      intro change inside
      cases List.mem_append.mp inside with
      | inl start => exact startActions_writes start ▸ .start
      | inr calls => simp at calls
    cases IncrementalIndex.buildFileIndex env.sha256 env.files project.rootPath
        (env.validation.entries.map CompileCommandEntry.absoluteFile) with
    | error text => exact .inl ⟨_, text, rfl, opening⟩
    | ok currentIndex =>
        have selecting : ∀ change, .write change ∈ startActions request env ++
            [.call "get_profile", .call "build_file_index"] ++
            (if request.runType = .incremental ∧ request.baseRunId.isSome then [.call "session.execute"] else []) →
            OrdinaryWrite project request env change := by
          intro change inside
          cases List.mem_append.mp inside with
          | inl before => exact opening change before
          | inr query => split at query <;> simp at query
        dsimp only
        cases affectedFiles project request env currentIndex database with
        | error text => exact .inl ⟨_, text, rfl, selecting⟩
        | ok affected =>
            refine .inr ⟨_, finalWrites project request env affected, _, rfl, ?_, ?_, ?_, ?_⟩
            · intro change inside
              cases List.mem_append.mp inside with
              | inl before => exact selecting change before
              | inr selected => exact selectedActions_writes selected
            · exact fun action inside => mem_finalWrites inside
            · simp
            · intro stored
              rw [finalWrites, written_append]
              apply endedIn_updateRun
              exact fun _ => ⟨.inl rfl, rfl⟩
  · rw [if_neg valid]
    refine .inr ⟨startActions request env, [.write _], _, rfl, ?_, ?_, ?_, ?_⟩
    · exact fun change inside => startActions_writes inside ▸ .start
    · simp
    · simp
    · intro stored
      apply endedIn_updateRun
      exact fun _ => ⟨.inr rfl, rfl⟩

end Shape

section Ends

variable {database : Database}

/-- Before the last writes of a script the run is pending. -/
theorem pending_written {first : List (Operation Database)} (newRun : NewRun request database)
    (ordinary : ∀ change, .write change ∈ first → OrdinaryWrite project request env change)
    {done : List (Operation Database)} (part : done <+: first) : Pending request (written done database) := by
  have keep : WritesKeep (Pending request) first :=
    fun change inside stored pending => pending_ordinary (ordinary change inside) pending
  exact (keep.part part).written (pending_newRun newRun)

/-- The run ends exactly where its session is intact when it stops. -/
theorem endedIn_iff (newRun : NewRun request database) :
    EndedIn request (runAnalysis project request env database) ↔
      StopsIntact project request env database := by
  have failed : ∀ text stored, EndedIn request (Database.updateRun request.runId (failRun env text) stored) := by
    intro text stored
    apply endedIn_updateRun
    exact fun _ => ⟨.inr rfl, rfl⟩
  have start := not_endedIn_of_pending (pending_newRun newRun)
  rw [runAnalysis, if_pos newRun.stored, StopsIntact, body]
  rcases script_cases project request env database with ⟨first, text, shape, ordinary⟩ |
    ⟨first, writes, tail, shape, ordinary, onlyWrites, onlyCalls, ends⟩
  · rw [shape, List.append_nil]
    have raising : ∀ change, .write change ∈ first ++ [.raise text] → OrdinaryWrite project request env change := by
      intro change inside
      cases List.mem_append.mp inside with
      | inl before => exact ordinary change before
      | inr last => simp at last
    apply settled_raised_iff (surroundings env) start
    · exact fun done before => not_endedIn_of_pending
        (pending_written newRun raising ((List.prefix_append done [.commit]).trans before))
    · exact failed
    · exact fun done part text => (pending_written newRun raising part).1
  · rw [shape, List.append_assoc, List.singleton_append]
    apply settled_handled_iff
    refine ⟨start, ?_, ?_, onlyWrites, onlyCalls, failed, ?_⟩
    · exact fun done before => not_endedIn_of_pending
        (pending_written newRun ordinary ((List.prefix_append done [.commit]).trans before))
    · rw [written_append]
      exact ends _
    · exact fun done part text => (pending_written newRun ordinary part).1

/-- The manifest of an incremental run is not serializable. -/
theorem finalWrites_refused (affected : List SourcePath) (incremental : request.runType = .incremental)
    (stored : Database) :
    (written (finalWrites project request env affected) stored).serializable = false := by
  rw [finalWrites, if_pos incremental]
  change (Database.updateRun _ _ (addManifest request env affected stored)).serializable = false
  simp [Database.updateRun, addManifest, Database.serializable, manifest, JsonColumn.serializable]

/-- An incremental run whose calls succeed breaks its session. -/
theorem not_stopsIntact_of_incremental (incremental : request.runType = .incremental)
    (succeed : CallsSucceed project request env database) : ¬ StopsIntact project request env database := by
  intro intact
  have unraised : ∀ text, .raise text ∉ (script project request env database).1 :=
    fun text inside => succeed.unraised text (List.mem_append_left _ inside)
  have failing : firstFailure (surroundings env) 0 (script project request env database).1 database ≠ none := by
    rw [script, if_pos succeed.valid] at unraised ⊢
    cases built : IncrementalIndex.buildFileIndex env.sha256 env.files project.rootPath
        (env.validation.entries.map CompileCommandEntry.absoluteFile) with
    | error text =>
        simp only [built] at unraised
        exact absurd (List.mem_append_right _ List.mem_cons_self) (unraised text)
    | ok currentIndex =>
        simp only [built] at unraised ⊢
        cases selected : affectedFiles project request env currentIndex database with
        | error text =>
            simp only [selected] at unraised
            exact absurd (List.mem_append_right _ List.mem_cons_self) (unraised text)
        | ok affected =>
            apply firstFailure_refused
            rw [written_append]
            exact finalWrites_refused affected incremental _
  cases found : firstFailure (surroundings env) 0 (script project request env database).1 database with
  | none => exact failing found
  | some failure =>
      have stores := firstFailure_stores (surroundings env) succeed.faultless unraised found
      rw [(intact failure found).1] at stores
      cases stores

/-- A run ends exactly where its session is intact when it stops, so no incremental run that succeeds ends. -/
theorem runEnds_iff (project : Project) (request : RunRequest) (env : Environment) (database : Database)
    (newRun : NewRun request database) :
    RunEnds project request env database ↔ StopsIntact project request env database := by
  constructor
  · exact fun ends => (endedIn_iff newRun).mp ends.ended
  · intro intact
    refine ⟨(endedIn_iff newRun).mpr intact, ?_⟩
    intro incremental succeed
    exact absurd intact (not_stopsIntact_of_incremental incremental succeed)

end Ends

section Sample

def sampleProject : Project where
  id := "project-1"
  rootPath := ["repo"]
  toolchainProfileId := "clang-host"
  compileCommandsPath := some "/repo/compile_commands.json"

def sampleText : String := "int main(void) { return 0; }\n"

def sampleFiles : FileSystem := fun path => if path = ["repo", "main.c"] then some sampleText else none

def sampleEntry (name : String) : CompileCommandEntry where
  absoluteFile := ["repo", name]
  directory := "/repo"
  arguments := ["cc", "-c", name]

def sampleParse : ParseResult where
  success := true
  translationUnitHash := "hash"
  nodes := []
  diagnostics := []
  preprocessor := .dict []
  statusMessage := ""

/-- Every call succeeds, and the rule engine is disabled. The digest is that of the sample text. -/
def sampleEnvironment : Environment where
  sha256 := Fingerprint.tableDigest
    [(sampleText, "2ad75d95660563887d8d3f1d0ae1dcf18c2379cbd83a5c72f5ab276351ee6949")]
  files := sampleFiles
  validation := { entries := [sampleEntry "main.c"] }
  parse := fun _ => sampleParse
  uuid := fun position => "tu-" ++ Nat.repr position
  ruleEngineEnabled := false
  dispatch := fun _ _ => .error "the rule engine is disabled"
  now := 0
  faults := fun _ => none

def sampleRequest (runType : AnalysisRunType) : RunRequest := ⟨"run-1", runType, none⟩

def queuedRun (request : RunRequest) : AnalysisRun where
  id := request.runId
  projectId := "project-1"
  runType := request.runType
  status := .queued
  baseRunId := request.baseRunId

theorem newRun_sample (runType : AnalysisRunType) :
    NewRun (sampleRequest runType) { analysisRuns := [queuedRun (sampleRequest runType)] } where
  stored := ⟨_, List.mem_singleton_self _, rfl⟩
  queued := by simp [queuedRun]
  serializable := rfl

/-- An incremental run all of whose calls succeed stays in its first status. -/
theorem incremental_running : ¬ RunEnds sampleProject (sampleRequest .incremental) sampleEnvironment
    { analysisRuns := [queuedRun (sampleRequest .incremental)] } := by
  intro ends
  have left : (runAnalysis sampleProject (sampleRequest .incremental) sampleEnvironment
      { analysisRuns := [queuedRun (sampleRequest .incremental)] }).analysisRuns.map
        (fun run => (run.id, run.status)) = [("run-1", .running)] := by
    rfl
  have stored : ("run-1", AnalysisStatus.running) ∈ (runAnalysis sampleProject (sampleRequest .incremental)
      sampleEnvironment { analysisRuns := [queuedRun (sampleRequest .incremental)] }).analysisRuns.map
        (fun run => (run.id, run.status)) := by
    rw [left]
    exact List.mem_cons_self
  obtain ⟨run, member, same⟩ := List.mem_map.mp stored
  obtain ⟨sameId, running⟩ := Prod.mk.inj same
  have ended := (ends.ended run member sameId).1
  rw [running] at ended
  exact absurd ended (by decide)

theorem runEnds_iff_full : RunEnds sampleProject (sampleRequest .full) sampleEnvironment
      { analysisRuns := [queuedRun (sampleRequest .full)] } ↔
    StopsIntact sampleProject (sampleRequest .full) sampleEnvironment
      { analysisRuns := [queuedRun (sampleRequest .full)] } :=
  runEnds_iff sampleProject (sampleRequest .full) sampleEnvironment _ (newRun_sample .full)

end Sample

end MisraPlatform.AnalysisOrchestrator
