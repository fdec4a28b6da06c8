import Mathlib.Logic.Function.Basic
import Mathlib.Logic.Relation
import MisraPlatform.Construction.AnalysisOrchestrator

/-
This file is the history of a project, its edits and its analysis runs, and the end of a run.
-/

namespace MisraPlatform.AnalysisOrchestrator
open Transaction

variable (project : Project) (request : RunRequest) (env : Environment)

def RunEnded (run : AnalysisRun) : Prop :=
  (run.status = .completed ∨ run.status = .failed) ∧ run.completedAt.isSome = true

/-- The request stores a run of this id before it starts one. -/
structure NewRun (database : Database) : Prop where
  stored : ∃ run ∈ database.analysisRuns, run.id = request.runId
  queued : ∀ run ∈ database.analysisRuns, run.id = request.runId → run.status = .queued ∧ run.completedAt = none
  serializable : database.serializable = true

def EndedIn (database : Database) : Prop :=
  ∀ run ∈ database.analysisRuns, run.id = request.runId → RunEnded run

/-- No call fails, the compile database is valid and nothing else raises. -/
structure CallsSucceed (database : Database) : Prop where
  faultless : ∀ number, env.faults number = none
  valid : env.validation.isValid = true
  unraised : ∀ text, .raise text ∉ body project request env database

structure RunEnds (database : Database) : Prop where
  ended : EndedIn request (runAnalysis project request env database)
  completes : request.runType = .incremental → CallsSucceed project request env database →
    ∀ run ∈ (runAnalysis project request env database).analysisRuns, run.id = request.runId →
      run.status = .completed

/-- The first failure before the end of the run, if there is one, is that of a call, and the commit of the
handler, which is the next call, succeeds. -/
def StopsIntact (database : Database) : Prop :=
  ∀ failure, firstFailure (surroundings env) 0 (script project request env database).1 database = some failure →
    failure.stores = false ∧ env.faults failure.calls = none

end MisraPlatform.AnalysisOrchestrator

namespace MisraPlatform.AnalysisOrchestrator
open IncrementalIndex

/-- An attempt met the files as they were, and it succeeded where the unit was parsed and its results stored. -/
structure Attempt where
  files : FileSystem
  succeeded : Bool

/-- The last attempt of a unit is remembered beside the database. -/
structure History where
  database : Database
  files : FileSystem
  validation : CompileCommandsValidation
  attempts : SourcePath → Option Attempt

/-- An edit gives a file other contents or removes it. -/
inductive Event
  | edit (path : SourcePath) (contents : Option String)
  | compile (validation : CompileCommandsValidation)
  | run (request : RunRequest) (env : Environment)

section Steps

variable (project : Project) (sha256 : String → String)

/-- A run meets the files and the compile database of its time. -/
def History.environment (state : History) (env : Environment) : Environment :=
  { env with sha256 := sha256, files := state.files, validation := state.validation }

def startAnalysisRun (request : RunRequest) : AnalysisRun where
  id := request.runId
  projectId := project.id
  runType := request.runType
  status := .queued
  baseRunId := request.baseRunId

/-- The endpoint stores the run before it starts it. -/
def queue (request : RunRequest) (database : Database) : Database :=
  { database with analysisRuns := database.analysisRuns ++ [startAnalysisRun project request] }

def recordsOf (runId : String) (database : Database) (path : SourcePath) : List TranslationUnitRecord :=
  database.translationUnits.filter fun record => record.analysisRunId = runId ∧ record.filePath = path

/-- The run has a record of the unit for every entry of its file, each is completed, and so are the rules. -/
def succeeds (runId : String) (env : Environment) (database : Database) (path : SourcePath) : Bool :=
  (recordsOf runId database path).length =
      (env.validation.entries.filter fun entry => entry.absoluteFile = path).length &&
    ((recordsOf runId database path).all fun record => record.status = .completed) &&
    (!env.ruleEngineEnabled || database.runStatistics.any fun statistics => statistics.1 = runId)

def attempt (runId : String) (env : Environment) (database : Database) (path : SourcePath) : Option Attempt :=
  if recordsOf runId database path = [] then none else some ⟨env.files, succeeds runId env database path⟩

def History.ran (state : History) (request : RunRequest) (env : Environment) : Database :=
  runAnalysis project request (state.environment sha256 env) (queue project request state.database)

def History.after (state : History) : Event → History
  | .edit path contents => { state with files := Function.update state.files path contents }
  | .compile validation => { state with validation := validation }
  | .run request env =>
      { state with
        database := state.ran project sha256 request env
        attempts := fun path => (attempt request.runId (state.environment sha256 env)
          (state.ran project sha256 request env) path).or (state.attempts path) }

/-- A history starts with an empty database. -/
inductive Reached (condition : History → Event → Prop) : History → Prop
  | start (files validation) : Reached condition ⟨{}, files, validation, fun _ => none⟩
  | step (state event) : Reached condition state → condition state event →
      Reached condition (state.after project sha256 event)

def History.index (state : History) : Except String FileIndex :=
  buildFileIndex sha256 state.files project.rootPath
    (state.validation.entries.map CompileCommandEntry.absoluteFile)

/-- These are the files that a run selects in the state. -/
def History.selects (state : History) (request : RunRequest) (env : Environment) :
    Except String (List SourcePath) := do
  let currentIndex ← state.index project sha256
  affectedFiles project request (state.environment sha256 env) currentIndex state.database

/-- The file index has this hash for the path. -/
def History.storedHash (state : History) (path : SourcePath) : Option String :=
  match relativeTo path project.rootPath with
  | .ok relativePath => (previousIndex project.id state.database).get? relativePath
  | .error _ => none

/-- The path has the contents that its stored hash is of. -/
def History.Unchanged (state : History) (path : SourcePath) : Prop :=
  ∃ text, state.files path = some text ∧ state.storedHash project path = some (sha256 text)

end Steps

section Closures

variable (includes : SourcePath → String → List SourcePath)

/-- A text names the files that it includes. -/
def IncludesDirectly (files : FileSystem) (path included : SourcePath) : Prop :=
  ∃ text, files path = some text ∧ included ∈ includes path text

/-- The transitive include closure of a unit has its own file. -/
def InClosure (files : FileSystem) : SourcePath → SourcePath → Prop :=
  Relation.ReflTransGen (IncludesDirectly includes files)

def SameClosure (before after : FileSystem) (path : SourcePath) : Prop :=
  ∀ included, InClosure includes before path included → before included = after included

/-- The findings of a unit depend on the contents of its closure only. -/
def ClosureDetermined {Findings : Type} (analyse : FileSystem → SourcePath → Findings) : Prop :=
  ∀ before after path, SameClosure includes before after path → analyse before path = analyse after path

/-- An incremental run selects every unit whose closure has changed since it was last analysed, and the findings
that a unit keeps are those of a full run. -/
structure MissesNothing (state : History) (affected : List SourcePath) : Prop where
  selected : ∀ entry ∈ state.validation.entries, ∀ last, state.attempts entry.absoluteFile = some last →
    ¬ SameClosure includes last.files state.files entry.absoluteFile → entry.absoluteFile ∈ affected
  findings : ∀ (Findings : Type) (analyse : FileSystem → SourcePath → Findings),
    ClosureDetermined includes analyse → ∀ entry ∈ state.validation.entries, ∀ last,
      state.attempts entry.absoluteFile = some last → entry.absoluteFile ∉ affected →
        analyse last.files entry.absoluteFile = analyse state.files entry.absoluteFile

/-- A unit is skipped only after its last attempt has succeeded on the same contents. -/
def RetriesFailures (state : History) (affected : List SourcePath) : Prop :=
  ∀ entry ∈ state.validation.entries, entry.absoluteFile ∉ affected →
    ∃ last, state.attempts entry.absoluteFile = some last ∧ last.succeeded = true ∧
      SameClosure includes last.files state.files entry.absoluteFile

variable (project : Project) (sha256 : String → String)

/-- An edit leaves no unit unchanged in the index whose closure it changes. -/
def Noticed (state : History) (path : SourcePath) (contents : Option String) : Prop :=
  contents = state.files path ∨
    ((∀ text, contents = some text → state.storedHash project path ≠ some (sha256 text)) ∧
      ∀ unit, unit ≠ path → state.Unchanged project sha256 unit → ¬ InClosure includes state.files unit path)

/-- Every file of the compile database exists or has a stored hash. -/
def Known (state : History) : Prop :=
  ∀ entry ∈ state.validation.entries,
    state.files entry.absoluteFile ≠ none ∨ state.storedHash project entry.absoluteFile ≠ none

/-- A run that attempts a unit without success leaves the index alone, where the unit is not unchanged. -/
def LeavesIndex (state : History) (request : RunRequest) (env : Environment) : Prop :=
  ∀ path last, attempt request.runId (state.environment sha256 env) (state.ran project sha256 request env) path =
    some last → last.succeeded = false →
      (state.ran project sha256 request env).fileIndex = state.database.fileIndex ∧
        ¬ state.Unchanged project sha256 path

/-- The edits are noticed, and an incremental run knows its files. -/
def EditsNoticed (state : History) : Event → Prop
  | .edit path contents => Noticed includes project sha256 state path contents
  | .compile _ => True
  | .run request _ => request.runType = .incremental → Known project state

/-- The edits are noticed, and the runs leave the index alone where they fail. -/
def FailuresLeaveIndex (state : History) (event : Event) : Prop :=
  EditsNoticed includes project sha256 state event ∧
    match event with
    | .run request env => LeavesIndex project sha256 state request env
    | _ => True

end Closures

section Settled

variable (project : Project) (sha256 : String → String)

def Completes (state : History) (request : RunRequest) (env : Environment) : Prop :=
  ∃ run ∈ (state.ran project sha256 request env).analysisRuns, run.id = request.runId ∧ run.status = .completed

/-- The stored rows are the files of the index, and a comparison finds no changed file. -/
structure IndexSettled (database : Database) (currentIndex : FileIndex) : Prop where
  unchanged : computeChangedFiles (previousIndex project.id database) currentIndex = []
  rows : ∀ relativePath, (previousIndex project.id database).get? relativePath =
    (currentIndex.get? relativePath).map FileIndexNode.contentHash

/-- The index still has every file that has a row. -/
def NoneRemoved (state : History) (currentIndex : FileIndex) : Prop :=
  ∀ relativePath ∈ (previousIndex project.id state.database).keys, relativePath ∈ currentIndex.keys

end Settled

end MisraPlatform.AnalysisOrchestrator
