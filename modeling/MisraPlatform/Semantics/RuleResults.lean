import MisraPlatform.Construction.DirectiveRules
import MisraPlatform.Construction.RuleDispatcher
import MisraPlatform.Construction.RuleEngine

/-
This file is the occurrences that the reports of a rule stand for and the results that a dispatcher returns.
-/

namespace MisraPlatform

/-- These are the lines and the columns of the directive. -/
def DirectiveReport.place (report : DirectiveReport) : Nat × Nat × Nat × Nat :=
  (report.sourceRange.getNumber "line_start" 0, report.sourceRange.getNumber "line_end" 0,
    report.sourceRange.getNumber "column_start" 0, report.sourceRange.getNumber "column_end" 0)

/-- The reports are on different nodes, or on directives at different ranges of one file. -/
def RuleReport.Apart (artifact : Artifact) : RuleReport → RuleReport → Prop
  | .node first, .node second => first.node ≠ second.node
  | .directive first, .directive second =>
      first.filePath artifact = second.filePath artifact ∧ first.place ≠ second.place
  | _, _ => False

/-- The reports are on directives that the rule quotes with the same text. -/
def RuleReport.WrittenAlike : RuleReport → RuleReport → Prop
  | .directive first, .directive second => first.offendingExpression = second.offendingExpression
  | _, _ => False

/-- The engine runs the rule on every attempt in the same way. -/
def ReportingRule.plugin (rule : ReportingRule) (implementationCategory : String)
    (ruleDependencies : List String) : RulePlugin Artifact where
  metadata := ⟨rule.ruleId, implementationCategory, ruleDependencies⟩
  detect artifact _ := .ok (rule.detect artifact)

/-- The two findings have entries of their own among the violations. -/
def ExecutionReport.KeepsBoth (sha256 : String → String) (report : ExecutionReport)
    (first second : RuleResult) : Prop :=
  ∃ kept ∈ report.violations, ∃ other ∈ report.violations, kept ≠ other ∧
    Fingerprint.generateFingerprint sha256 kept = Fingerprint.generateFingerprint sha256 first ∧
    Fingerprint.generateFingerprint sha256 other = Fingerprint.generateFingerprint sha256 second

end MisraPlatform

namespace MisraPlatform

/-- The batch has one unit id for each artifact, and no id twice. -/
structure DispatchRequest.WellFormed (request : DispatchRequest) : Prop where
  matched : request.artifacts.length = request.translationUnitIds.length
  distinct : request.translationUnitIds.Nodup

namespace RuleDispatcher

/-- The pairs of a unit and a rule that the batch executes. -/
def executions (dispatcher : RuleDispatcher) (request : DispatchRequest) : List (String × String) :=
  request.translationUnitIds.flatMap fun translationUnitId =>
    (dispatcher.registry.selectRules request.enabledRules).map fun rule => (translationUnitId, rule.metadata.ruleId)

def deduplicatedSum (projectReport : ProjectExecutionReport) : Nat :=
  (projectReport.translationUnitReports.values.map ExecutionReport.deduplicatedCount).foldr (· + ·) 0

/-- A stored entry has the values of a metric that the engine reported for its unit. -/
def Reflects (projectReport : ProjectExecutionReport) (entry : MetricEntry) : Prop :=
  ∃ tuReport, projectReport.translationUnitReports.get? entry.translationUnitId = some tuReport ∧
    ∃ metrics ∈ tuReport.metrics, metrics.ruleId = entry.ruleId ∧ metrics.violationCount = entry.violationCount ∧
      metrics.success = entry.success ∧ metrics.errorMessage = entry.errorMessage

def MetricEntry.perRule (entry : MetricEntry) : PerRuleEntry where
  ruleId := entry.ruleId
  durationMs := entry.durationMs
  violationCount := entry.violationCount
  success := entry.success

/-- The number of invocations that the summary has for a rule. -/
def invocations (json : MetricsJson) (ruleId : String) : Nat :=
  ((json.ruleTimingSummary.get? ruleId).map TimingSummary.invocations).getD 0

/-- The unit of the violation found it. -/
def Produced (dispatcher : RuleDispatcher) (projectReport : ProjectExecutionReport)
    (violation : StoredViolation) : Prop :=
  ∃ tuReport, projectReport.translationUnitReports.get? violation.translationUnitId = some tuReport ∧
    ∃ finding ∈ tuReport.violations, ∃ metadata, violation =
      storedViolation dispatcher.workerPool.sha256 violation.translationUnitId metadata finding

structure Consistent (dispatcher : RuleDispatcher) (request : DispatchRequest)
    (projectReport : ProjectExecutionReport) (entries : List MetricEntry) (results : Results) : Prop where
  total : results.statistics.violationsTotal = results.violations.length
  deduplicated : results.statistics.violationsDeduplicated = deduplicatedSum projectReport
  metrics : results.metrics = entries.map .dict
  complete : (entries.map fun entry => (entry.translationUnitId, entry.ruleId)).Perm
    (executions dispatcher request)
  reflected : ∀ entry ∈ entries, Reflects projectReport entry
  perRule : results.statistics.metricsJson.perRule = entries.map MetricEntry.perRule
  timed : ∀ ruleId, invocations results.statistics.metricsJson ruleId =
    entries.countP fun entry => entry.ruleId = ruleId
  produced : ∀ violation ∈ results.violations, Produced dispatcher projectReport violation

/-- Every call for the batch returns, and its results are consistent. -/
def ConsistentResults (dispatcher : RuleDispatcher) (request : DispatchRequest) : Prop :=
  ∀ projectReport outcome, ExecuteForTranslationUnits dispatcher request projectReport outcome →
    ∃ results entries, outcome = .ok results ∧ Consistent dispatcher request projectReport entries results

end RuleDispatcher
end MisraPlatform
