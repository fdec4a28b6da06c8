import MisraPlatform.Construction.LinkageIndex
import MisraPlatform.Construction.WorkerPool
import MisraPlatform.Library.Value

/-
This file is the dispatcher that turns the reports of a project into stored results.
-/

namespace MisraPlatform

/-- These are the declarations of a rule that are stored with its findings. -/
structure StoredMetadata where
  severity : String
  category : String
  deriving DecidableEq

/-- The two dictionaries are filled together, each rule under the id of its metadata. -/
structure RuleRegistry (Context : Type) where
  plugins : OrderedDict String (RulePlugin Context)
  metadata : OrderedDict String StoredMetadata
  keyed : ∀ entry ∈ plugins.entries, entry.2.metadata.ruleId = entry.1
  sameKeys : metadata.keys = plugins.keys

structure PreviousViolation where
  fingerprint : String
  ruleId : String
  filePath : String
  status : String
  deriving DecidableEq

structure AstArtifact where
  filePath : String
  nodes : List AstNode
  diagnostics : List Value := []
  preprocessor : Value := .dict []

/-- These fields of `RuleContext` come from the artifact and from the request. -/
structure ArtifactContext where
  translationUnitId : String
  filePath : String
  astNodes : List AstNode
  includeGraph : List (String × List String)
  previousViolations : List PreviousViolation
  toolchainProfile : Value
  diagnostics : List Value
  preprocessor : Value
  crossTuLinkage : LinkageIndex.Data

structure RuleDispatcher where
  registry : RuleRegistry ArtifactContext
  workerPool : WorkerPool

structure DispatchRequest where
  artifacts : List AstArtifact
  translationUnitIds : List String
  toolchainProfile : Option Value := none
  includeGraph : Option (List (String × List String)) := none
  previousViolations : Option (List PreviousViolation) := none
  enabledRules : Option (List String) := none

inductive DispatchError
  | valueError (text : String)
  | ruleRegistryError (text : String)
  | attributeError (text : String)
  | typeError (text : String)
  deriving DecidableEq

namespace RuleRegistry

variable {Context : Type}

def getMetadata (registry : RuleRegistry Context) (ruleId : String) : Except DispatchError StoredMetadata :=
  match registry.metadata.get? ruleId with
  | some metadata => .ok metadata
  | none => .error (.ruleRegistryError ("Rule metadata not found: " ++ ruleId))

/-- An empty list of enabled rules enables all of them. -/
def selectRules (registry : RuleRegistry Context) (enabledRules : Option (List String)) :
    List (RulePlugin Context) :=
  if enabledRules.getD [] = [] then registry.plugins.values
  else (enabledRules.getD []).filterMap registry.plugins.get?

end RuleRegistry

namespace RuleDispatcher

structure StoredViolation where
  translationUnitId : String
  ruleId : String
  fingerprint : String
  filePath : String
  lineStart : Nat
  lineEnd : Nat
  columnStart : Nat
  columnEnd : Nat
  severity : String
  confidenceScore : Rat
  category : String
  offendingExpression : String
  explanation : String
  riskDescription : String
  sourceSnippet : String
  astNodeReference : String
  macroExpansionChain : List String
  suggestedFix : Option SuggestedFix
  confidenceFactors : List (String × Rat)
  deriving DecidableEq

structure MetricEntry where
  translationUnitId : String
  ruleId : String
  durationMs : Rat
  violationCount : Nat
  success : Bool
  errorMessage : Option String
  deriving DecidableEq

/-- The engine returns the metrics as objects, and the dispatcher stores them as dictionaries. -/
inductive Metric
  | object (metrics : RuleExecutionMetrics) (durationMs : Rat)
  | dict (entry : MetricEntry)
  deriving DecidableEq

namespace Metric

variable {α : Type}

/-- This is `metric.name`, which a dictionary does not have. -/
def getAttribute (metric : Metric) (name : String) (read : RuleExecutionMetrics → Rat → α) :
    Except DispatchError α :=
  match metric with
  | object metrics durationMs => .ok (read metrics durationMs)
  | dict _ => .error (.attributeError ("'dict' object has no attribute '" ++ name ++ "'"))

/-- This is `metric[name]`, which an object does not have. -/
def getItem (metric : Metric) (read : MetricEntry → α) : Except DispatchError α :=
  match metric with
  | object _ _ => .error (.typeError "'RuleExecutionMetrics' object is not subscriptable")
  | dict entry => .ok (read entry)

end Metric

structure PerRuleEntry where
  ruleId : String
  durationMs : Rat
  violationCount : Nat
  success : Bool
  deriving DecidableEq

structure TimingSummary where
  totalMs : Rat
  avgMs : Rat
  maxMs : Rat
  invocations : Nat
  deriving DecidableEq

structure MetricsJson where
  perRule : List PerRuleEntry
  ruleTimingSummary : OrderedDict String TimingSummary
  confidenceDistribution : OrderedDict String Nat
  falsePositiveCandidates : Nat

structure Statistics where
  rulesExecuted : Nat
  violationsTotal : Nat
  violationsDeduplicated : Nat
  translationUnitsAnalyzed : Nat
  metricsJson : MetricsJson

structure Results where
  violations : List StoredViolation
  metrics : List Metric
  statistics : Statistics

/-- Each bucket has a label and its bounds. -/
def CONFIDENCE_BUCKETS : List (String × Rat × Rat) :=
  [("0.0-0.2", 0, 2 / 10), ("0.2-0.4", 2 / 10, 4 / 10), ("0.4-0.6", 4 / 10, 6 / 10),
    ("0.6-0.8", 6 / 10, 8 / 10), ("0.8-1.0", 8 / 10, 10001 / 10000)]

def bucket (score : Rat) : Option String :=
  (CONFIDENCE_BUCKETS.find? fun entry => !score.blt entry.2.1 && score.blt entry.2.2).map Prod.fst

/-- A score outside the buckets is not counted. -/
def countScore (distribution : OrderedDict String Nat) (score : Rat) : OrderedDict String Nat :=
  match bucket score with
  | some label => distribution.modify label (· + 1)
  | none => distribution

def confidenceDistribution (scores : List Rat) : OrderedDict String Nat :=
  scores.foldl countScore
    (CONFIDENCE_BUCKETS.foldl (fun distribution entry => distribution.insert entry.1 0) .empty)

def context (request : DispatchRequest) (linkage : LinkageIndex.Data) (artifact : AstArtifact)
    (translationUnitId : String) : ArtifactContext where
  translationUnitId := translationUnitId
  filePath := artifact.filePath
  astNodes := artifact.nodes
  includeGraph := request.includeGraph.getD []
  previousViolations := request.previousViolations.getD []
  toolchainProfile := request.toolchainProfile.getD (.dict [])
  diagnostics := artifact.diagnostics
  preprocessor := artifact.preprocessor
  crossTuLinkage := linkage

def linkedUnits (request : DispatchRequest) : List LinkageIndex.Unit :=
  List.zipWith (fun artifact translationUnitId => ⟨translationUnitId, artifact.filePath, ⟨artifact.nodes⟩⟩)
    request.artifacts request.translationUnitIds

/-- The strict `zip` raises on lists of different lengths. -/
def jobs (dispatcher : RuleDispatcher) (request : DispatchRequest) :
    Except DispatchError (List (TranslationUnitJob ArtifactContext)) :=
  let linkage := LinkageIndex.build (linkedUnits request)
  let rules := dispatcher.registry.selectRules request.enabledRules
  if request.artifacts.length < request.translationUnitIds.length then
    .error (.valueError "zip() argument 2 is longer than argument 1")
  else if request.translationUnitIds.length < request.artifacts.length then
    .error (.valueError "zip() argument 2 is shorter than argument 1")
  else .ok (List.zipWith (fun artifact translationUnitId =>
    ⟨translationUnitId, context request linkage artifact translationUnitId, rules⟩)
      request.artifacts request.translationUnitIds)

def storedViolation (sha256 : String → String) (translationUnitId : String) (metadata : StoredMetadata)
    (violation : RuleResult) : StoredViolation where
  translationUnitId := translationUnitId
  ruleId := violation.ruleId
  fingerprint := Fingerprint.generateFingerprint sha256 violation
  filePath := violation.filePath
  lineStart := violation.lineStart
  lineEnd := violation.lineEnd
  columnStart := violation.columnStart
  columnEnd := violation.columnEnd
  severity := metadata.severity
  confidenceScore := violation.confidenceScore
  category := metadata.category
  offendingExpression := violation.offendingExpression
  explanation := violation.explanation
  riskDescription := violation.riskDescription
  sourceSnippet := violation.sourceSnippet
  astNodeReference := violation.astNodeId
  macroExpansionChain := violation.macroExpansionChain
  suggestedFix := violation.suggestedFix
  confidenceFactors := violation.confidenceFactors

def storeViolation (dispatcher : RuleDispatcher) (translationUnitId : String) (violation : RuleResult) :
    Except DispatchError StoredViolation := do
  let metadata ← dispatcher.registry.getMetadata violation.ruleId
  pure (storedViolation dispatcher.workerPool.sha256 translationUnitId metadata violation)

/-- The metrics of a unit are objects with the durations that the clock measured. -/
def unitMetrics (durationMs : String → Nat → Rat) (translationUnitId : String) (tuReport : ExecutionReport) :
    List Metric :=
  tuReport.metrics.mapIdx fun index metrics => .object metrics (durationMs translationUnitId index)

def storeMetric (translationUnitId : String) (metric : Metric) : Except DispatchError Metric := do
  let ruleId ← metric.getAttribute "rule_id" fun metrics _ => metrics.ruleId
  let durationMs ← metric.getAttribute "duration_ms" fun _ durationMs => durationMs
  let violationCount ← metric.getAttribute "violation_count" fun metrics _ => metrics.violationCount
  let success ← metric.getAttribute "success" fun metrics _ => metrics.success
  let errorMessage ← metric.getAttribute "error_message" fun metrics _ => metrics.errorMessage
  pure (.dict ⟨translationUnitId, ruleId, durationMs, violationCount, success, errorMessage⟩)

structure Gathered where
  violations : List StoredViolation := []
  metrics : List Metric := []
  deduplicatedTotal : Nat := 0

def gatherUnit (dispatcher : RuleDispatcher) (durationMs : String → Nat → Rat) (gathered : Gathered)
    (entry : String × ExecutionReport) : Except DispatchError Gathered := do
  let violations ← entry.2.violations.mapM (storeViolation dispatcher entry.1)
  let metrics ← (unitMetrics durationMs entry.1 entry.2).mapM (storeMetric entry.1)
  pure
    { violations := gathered.violations ++ violations
      metrics := gathered.metrics ++ metrics
      deduplicatedTotal := gathered.deduplicatedTotal + entry.2.deduplicatedCount }

def gather (dispatcher : RuleDispatcher) (durationMs : String → Nat → Rat)
    (projectReport : ProjectExecutionReport) : Except DispatchError Gathered :=
  projectReport.translationUnitReports.entries.foldlM (gatherUnit dispatcher durationMs) {}

def addTiming (timings : OrderedDict String (List Rat)) (metric : Metric) :
    Except DispatchError (OrderedDict String (List Rat)) := do
  let ruleId ← metric.getItem MetricEntry.ruleId
  let durationMs ← metric.getItem MetricEntry.durationMs
  pure (LinkageIndex.appendTo timings ruleId durationMs)

/-- This is `max` of a list that is not empty. -/
def longest (durations : List Rat) : Rat :=
  durations.tail.foldl (fun longest duration => if longest.blt duration then duration else longest)
    (durations.headD 0)

def timingSummary (durations : List Rat) : TimingSummary :=
  let totalMs := durations.foldl (fun total duration => total + duration) 0
  { totalMs := totalMs
    avgMs := totalMs / (durations.length : Rat)
    maxMs := longest durations
    invocations := durations.length }

/-- The metrics are read as objects here. -/
def perRuleEntry (metric : Metric) : Except DispatchError PerRuleEntry := do
  let ruleId ← metric.getAttribute "rule_id" fun metrics _ => metrics.ruleId
  let durationMs ← metric.getAttribute "duration_ms" fun _ durationMs => durationMs
  let violationCount ← metric.getAttribute "violation_count" fun metrics _ => metrics.violationCount
  let success ← metric.getAttribute "success" fun metrics _ => metrics.success
  pure ⟨ruleId, durationMs, violationCount, success⟩

/-- The function returns the results for the report of the pool. -/
def results (dispatcher : RuleDispatcher) (request : DispatchRequest) (durationMs : String → Nat → Rat)
    (projectReport : ProjectExecutionReport) : Except DispatchError Results := do
  let gathered ← gather dispatcher durationMs projectReport
  let confidenceScores := gathered.violations.map StoredViolation.confidenceScore
  let perRuleTiming ← gathered.metrics.foldlM addTiming .empty
  let perRule ← gathered.metrics.mapM perRuleEntry
  pure
    { violations := gathered.violations
      metrics := gathered.metrics
      statistics :=
        { rulesExecuted :=
            (dispatcher.registry.selectRules request.enabledRules).length * request.artifacts.length
          violationsTotal := gathered.violations.length
          violationsDeduplicated := gathered.deduplicatedTotal
          translationUnitsAnalyzed := request.artifacts.length
          metricsJson :=
            { perRule := perRule
              ruleTimingSummary := perRuleTiming.mapValues timingSummary
              confidenceDistribution := confidenceDistribution confidenceScores
              falsePositiveCandidates := confidenceScores.countP fun score => score.blt (6 / 10) } } }

/-- A call runs the pool to its end, and nothing cancels the pool of a dispatcher. -/
inductive ExecuteForTranslationUnits (dispatcher : RuleDispatcher) (request : DispatchRequest) :
    ProjectExecutionReport → Except DispatchError Results → Prop
  | unmatched (error) : dispatcher.jobs request = .error error →
      ExecuteForTranslationUnits dispatcher request {} (.error error)
  | finished (durationMs jobs state) : dispatcher.jobs request = .ok jobs →
      dispatcher.workerPool.Runs jobs state → state.main = .finished →
      state.report.progress.cancelled = false →
      ExecuteForTranslationUnits dispatcher request state.report
        (dispatcher.results request durationMs state.report)

end RuleDispatcher
end MisraPlatform
