import MisraPlatform.Construction.IncrementalIndex
import MisraPlatform.Construction.RuleDispatcher
import MisraPlatform.Construction.ViolationStore
import MisraPlatform.Library.KeepFirst
import MisraPlatform.Library.Transaction

/-
This file is the orchestrator that runs an analysis of a project in a session of the database.
-/

namespace MisraPlatform

inductive AnalysisStatus
  | queued
  | running
  | completed
  | failed
  | cancelled
  deriving DecidableEq

inductive AnalysisRunType
  | full
  | incremental
  deriving DecidableEq

inductive TranslationUnitStatus
  | pending
  | parsing
  | completed
  | failed
  | skipped
  deriving DecidableEq

structure Project where
  id : String
  rootPath : SourcePath
  toolchainProfileId : String
  compileCommandsPath : Option String

structure RunManifest where
  compileCommands : String
  toolchainProfileId : String
  validationDiagnostics : List String
  duplicateTranslationUnitsRemoved : Nat
  deriving DecidableEq

structure AnalysisRun where
  id : String
  projectId : String
  runType : AnalysisRunType
  status : AnalysisStatus
  baseRunId : Option String
  filesTotal : Nat := 0
  filesParsed : Nat := 0
  filesFailed : Nat := 0
  errorMessage : Option String := none
  manifest : Option RunManifest := none
  startedAt : Option Nat := none
  completedAt : Option Nat := none
  deriving DecidableEq

structure FileIndexEntry where
  projectId : String
  relativePath : SourcePath
  absolutePath : SourcePath
  contentHash : String
  includeEdges : List SourcePath
  deriving DecidableEq

structure TranslationUnitRecord where
  id : String
  analysisRunId : String
  filePath : SourcePath
  workingDirectory : String
  compileFlags : List String
  status : TranslationUnitStatus
  translationUnitHash : Option String := none
  astCachePath : Option String := none
  nodeCount : Nat := 0
  diagnostics : Option (List Value) := none
  preprocessor : Option Value := none
  errorMessage : Option String := none

/-- A JSON column takes a list, and the serializer rejects a set. -/
inductive JsonColumn
  | list (items : List SourcePath)
  | set (items : List SourcePath)

def JsonColumn.serializable : JsonColumn → Bool
  | list _ => true
  | set _ => false

structure IncrementalManifest where
  analysisRunId : String
  changedFiles : JsonColumn
  affectedTranslationUnits : JsonColumn
  cacheHits : Nat
  cacheMisses : Nat

/-- The metrics and the statistics of the rules are stored for their run. -/
structure Database where
  analysisRuns : List AnalysisRun := []
  fileIndex : List FileIndexEntry := []
  translationUnits : List TranslationUnitRecord := []
  violations : List ViolationRecord := []
  executionMetrics : List (String × RuleDispatcher.Metric) := []
  runStatistics : List (String × RuleDispatcher.Statistics) := []
  incrementalManifests : List IncrementalManifest := []

namespace Database

def updateRun (runId : String) (change : AnalysisRun → AnalysisRun) (database : Database) : Database :=
  { database with analysisRuns := database.analysisRuns.map fun run => if run.id = runId then change run else run }

def serializable (database : Database) : Bool :=
  database.incrementalManifests.all fun manifest =>
    manifest.changedFiles.serializable && manifest.affectedTranslationUnits.serializable

end Database

structure CompileCommandEntry where
  absoluteFile : SourcePath
  directory : String
  arguments : List String
  deriving DecidableEq

/-- A compile database is valid when it has an entry. -/
structure CompileCommandsValidation where
  entries : List CompileCommandEntry
  diagnostics : List String := []
  duplicateCount : Nat := 0

def CompileCommandsValidation.isValid (validation : CompileCommandsValidation) : Bool :=
  !validation.entries.isEmpty

structure ParseResult where
  success : Bool
  translationUnitHash : String
  nodes : List AstNode
  diagnostics : List Value
  preprocessor : Value
  statusMessage : String

structure RuleResults where
  violations : List (String × ViolationPayload)
  metrics : List RuleDispatcher.Metric
  statistics : RuleDispatcher.Statistics

structure RunRequest where
  runId : String
  runType : AnalysisRunType
  baseRunId : Option String

namespace AnalysisOrchestrator
open Transaction IncrementalIndex

/-- A run meets these outside its session. The units and their records are counted by their place among the
entries, and the calls of a run by their order. -/
structure Environment where
  sha256 : String → String
  files : FileSystem
  validation : CompileCommandsValidation
  parse : Nat → ParseResult
  uuid : Nat → String
  ruleEngineEnabled : Bool
  dispatch : List AstArtifact → List String → Except String RuleResults
  now : Nat
  faults : Nat → Option String

/-- The rows of the project are read as a dictionary. -/
def previousIndex (projectId : String) (database : Database) : OrderedDict SourcePath String :=
  (database.fileIndex.filter fun row => row.projectId = projectId).foldl
    (fun index row => index.insert row.relativePath row.contentHash) .empty

variable (project : Project) (request : RunRequest) (env : Environment)

/-- A run without a base run selects every file of the compile database. -/
def affectedFiles (currentIndex : FileIndex) (database : Database) : Except String (List SourcePath) :=
  if request.runType = .incremental ∧ request.baseRunId.isSome then do
    let changed := computeChangedFiles (previousIndex project.id database) currentIndex
    let tuRelativePaths ← env.validation.entries.mapM fun entry => relativeTo entry.absoluteFile project.rootPath
    pure ((computeAffectedTranslationUnits changed (includeGraph currentIndex) tuRelativePaths).map
      fun relativePath => project.rootPath ++ relativePath)
  else .ok (env.validation.entries.map CompileCommandEntry.absoluteFile).dedup

structure Counts where
  parsed : Nat := 0
  failed : Nat := 0

def newRecord (position : Nat) (entry : CompileCommandEntry) : TranslationUnitRecord where
  id := env.uuid position
  analysisRunId := request.runId
  filePath := entry.absoluteFile
  workingDirectory := entry.directory
  compileFlags := entry.arguments
  status := .parsing

def parsedRecord (position : Nat) (record : TranslationUnitRecord) : TranslationUnitRecord :=
  let parseResult := env.parse position
  { record with
    translationUnitHash := some parseResult.translationUnitHash
    astCachePath := some ("ast_cache/" ++ project.id ++ "/" ++ request.runId ++ "/" ++ record.id ++ ".json")
    nodeCount := parseResult.nodes.length
    diagnostics := some parseResult.diagnostics
    preprocessor := some parseResult.preprocessor
    status := if parseResult.success then .completed else .failed
    errorMessage := if parseResult.success then record.errorMessage else some parseResult.statusMessage }

def addRecord (record : TranslationUnitRecord) (database : Database) : Database :=
  { database with translationUnits := database.translationUnits ++ [record] }

/-- The record of the unit is the one of this id. -/
def storeParse (position : Nat) (counts : Counts) (database : Database) : Database :=
  Database.updateRun request.runId
    (fun run => { run with filesParsed := counts.parsed, filesFailed := counts.failed })
    { database with translationUnits := database.translationUnits.map fun record =>
        if record.id = env.uuid position then parsedRecord project request env position record else record }

def count (counts : Counts) (position : Nat) : Counts :=
  if (env.parse position).success then { counts with parsed := counts.parsed + 1 }
  else { counts with failed := counts.failed + 1 }

/-- One unit is stored before and after it is parsed. -/
def unitActions (position : Nat) (counts : Counts) (entry : CompileCommandEntry) : List (Operation Database) :=
  [.write (addRecord (newRecord request env position entry)), .commit, .call "session.refresh",
    .call "translation_unit.started", .call "parse_translation_unit", .call "ast_cache_path",
    .call "write_ast_artifact", .write (storeParse project request env position counts), .commit,
    .call "translation_unit.completed"]

/-- The counts are those of the units before this position. -/
def unitLoop (affected : List SourcePath) : Nat → Counts → List CompileCommandEntry → List (Operation Database)
  | _, _, [] => []
  | position, counts, entry :: rest =>
      if affected.contains entry.absoluteFile then
        unitActions project request env position (count env counts position) entry ++
          unitLoop affected (position + 1) (count env counts position) rest
      else unitLoop affected (position + 1) counts rest

def parsedCount (affected : List SourcePath) : Nat :=
  env.validation.entries.zipIdx.countP fun entry =>
    affected.contains entry.1.absoluteFile && (env.parse entry.2).success

/-- The rules run on the selected units that were parsed. -/
def pendingUnits (affected : List SourcePath) : List (CompileCommandEntry × Nat) :=
  env.validation.entries.zipIdx.filter fun entry =>
    affected.contains entry.1.absoluteFile && (env.parse entry.2).success

def artifact (entry : CompileCommandEntry × Nat) : AstArtifact where
  filePath := "/" ++ pathText entry.1.absoluteFile
  nodes := (env.parse entry.2).nodes
  diagnostics := (env.parse entry.2).diagnostics
  preprocessor := (env.parse entry.2).preprocessor

def setViolations (violations : List ViolationRecord) (database : Database) : Database :=
  { database with violations := violations }

/-- The records of the unit are flushed together, unless a fingerprint has more than one of them. -/
def upsertUnit (call : ViolationRepository.Upsert) :
    List ViolationPayload → List ViolationRecord → List (Operation Database) × Option (List ViolationRecord)
  | [], store => ([.write (setViolations store), .flush], some store)
  | payload :: rest, store =>
      match ViolationRepository.upsertViolation call payload store with
      | .error .multipleResultsFound =>
          ([.call "session.execute", .raise "Multiple rows were found when one or none was required"], none)
      | .ok saved => (.call "session.execute" :: (upsertUnit call rest saved.2).1, (upsertUnit call rest saved.2).2)

def upsertCall (translationUnitId : String) : ViolationRepository.Upsert where
  analysisRunId := request.runId
  projectId := project.id
  translationUnitId := some translationUnitId
  now := env.now

def payloadsOf (results : RuleResults) (translationUnitId : String) : List ViolationPayload :=
  (results.violations.filter fun violation => violation.1 = translationUnitId).map Prod.snd

def upsertActions (results : RuleResults) : List String → List ViolationRecord → List (Operation Database)
  | [], _ => []
  | translationUnitId :: rest, store =>
      let unit := upsertUnit (upsertCall project request env translationUnitId)
        (payloadsOf results translationUnitId) store
      match unit.2 with
      | none => unit.1
      | some saved => unit.1 ++ upsertActions results rest saved

def storeStatistics (results : RuleResults) (database : Database) : Database :=
  { database with
    executionMetrics := database.executionMetrics ++ results.metrics.map fun metric => (request.runId, metric)
    runStatistics := database.runStatistics ++ [(request.runId, results.statistics)] }

def ruleActions (affected : List SourcePath) (database : Database) : List (Operation Database) :=
  if env.ruleEngineEnabled && !(pendingUnits env affected).isEmpty then
    .call "rules.started" ::
      match env.dispatch ((pendingUnits env affected).map (artifact env))
          ((pendingUnits env affected).map fun entry => env.uuid entry.2) with
      | .error text => [.raise text]
      | .ok results =>
          upsertActions project request env results (keepFirst id [] (results.violations.map Prod.fst))
              database.violations ++
            [.write (storeStatistics request results), .commit, .call "rules.completed"] ++
              results.violations.map fun _ => .call "violation.detected"
  else []

/-- The new row of a file takes the place of its old ones. -/
def storeNode (node : FileIndexNode) (database : Database) : Database :=
  { database with fileIndex := database.fileIndex ++
      [⟨project.id, node.relativePath, node.absolutePath, node.contentHash, node.includeEdges⟩] }

def deleteRows (relativePath : SourcePath) (database : Database) : Database :=
  { database with fileIndex := database.fileIndex.filter fun row =>
      ¬ (row.projectId = project.id ∧ row.relativePath = relativePath) }

def indexActions (currentIndex : FileIndex) : List (Operation Database) :=
  currentIndex.entries.flatMap fun entry =>
    [.call "session.execute", .write (deleteRows project entry.1), .write (storeNode project entry.2)]

/-- The affected files are stored as the set that they are. -/
def manifest (affected : List SourcePath) : IncrementalManifest where
  analysisRunId := request.runId
  changedFiles := .list []
  affectedTranslationUnits := .set affected
  cacheHits := 0
  cacheMisses := parsedCount env affected

def addManifest (affected : List SourcePath) (database : Database) : Database :=
  { database with incrementalManifests := database.incrementalManifests ++ [manifest request env affected] }

def completeRun (run : AnalysisRun) : AnalysisRun :=
  { run with
    status := .completed
    completedAt := some env.now
    manifest := some
      { compileCommands := project.compileCommandsPath.getD ""
        toolchainProfileId := project.toolchainProfileId
        validationDiagnostics := env.validation.diagnostics
        duplicateTranslationUnitsRemoved := env.validation.duplicateCount } }

def failRun (text : String) (run : AnalysisRun) : AnalysisRun :=
  { run with status := .failed, errorMessage := some text, completedAt := some env.now }

def startRun (run : AnalysisRun) : AnalysisRun := { run with status := .running, startedAt := some env.now }

def finalWrites (affected : List SourcePath) : List (Operation Database) :=
  (if request.runType = .incremental then [.write (addManifest request env affected)] else []) ++
    [.write (Database.updateRun request.runId (completeRun project env))]

/-- These actions follow the selection of the files. -/
def selectedActions (currentIndex : FileIndex) (affected : List SourcePath) (database : Database) :
    List (Operation Database) :=
  [.write (Database.updateRun request.runId fun run => { run with filesTotal := affected.length }), .commit,
    .call "ClangAstClient"] ++ (if env.ruleEngineEnabled then [.call "RuleDispatcher"] else []) ++
    [.call "get_previous_fingerprints"] ++
    unitLoop project request env affected 0 {} env.validation.entries ++
    ruleActions project request env affected database ++ indexActions project currentIndex

def startActions : List (Operation Database) :=
  [.write (Database.updateRun request.runId (startRun env)), .commit, .call "analysis.started",
    .call "load_compile_commands"]

def diagnosticsText : String := String.intercalate "; " env.validation.diagnostics

/-- The second list follows the commit that ends the run. The first ends early where the compile database is
not valid, and where a path is not in the project. -/
def script (database : Database) : List (Operation Database) × List (Operation Database) :=
  if env.validation.isValid then
    let opening := startActions request env ++ [.call "get_profile", .call "build_file_index"]
    match buildFileIndex env.sha256 env.files project.rootPath
        (env.validation.entries.map CompileCommandEntry.absoluteFile) with
    | .error text => (opening ++ [.raise text], [])
    | .ok currentIndex =>
        let selecting := opening ++
          if request.runType = .incremental ∧ request.baseRunId.isSome then [.call "session.execute"] else []
        match affectedFiles project request env currentIndex database with
        | .error text => (selecting ++ [.raise text], [])
        | .ok affected =>
            (selecting ++ selectedActions project request env currentIndex affected database ++
              finalWrites project request env affected ++ [.commit],
              [.call "clang_client.close", .call "analysis.completed"])
  else
    (startActions request env ++
      [.write (Database.updateRun request.runId (failRun env (diagnosticsText env))), .commit],
      [.call "analysis.failed"])

def body (database : Database) : List (Operation Database) :=
  (script project request env database).1 ++ (script project request env database).2

/-- This is the `except` branch. -/
def handler (text : String) : List (Operation Database) :=
  [.write (Database.updateRun request.runId (failRun env text)), .commit, .call "analysis.failed"]

def surroundings : Surroundings Database := ⟨Database.serializable, env.faults⟩

/-- The result is what the database has stored when the session is closed. -/
def runAnalysis (database : Database) : Database :=
  if ∃ run ∈ database.analysisRuns, run.id = request.runId then
    handled (surroundings env) (body project request env database) (handler request env) database
  else database

end AnalysisOrchestrator
end MisraPlatform
