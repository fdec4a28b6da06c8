import MisraPlatform.Construction.ReviewService

/-
This file is the export of the violations of a run as a SARIF log and as a summary of their rules.
-/

namespace MisraPlatform

/-- The exporters read the dictionary of a stored violation. -/
structure ExportedViolation where
  ruleId : String
  fingerprint : String
  filePath : String
  lineStart : Nat
  lineEnd : Nat
  columnStart : Nat
  columnEnd : Nat
  severity : String
  confidenceScore : Rat
  category : String
  explanation : String
  riskDescription : String
  status : String
  assignedReviewerId : Option String

def violationToDict (violation : ViolationRecord) : ExportedViolation where
  ruleId := violation.violation.ruleId
  fingerprint := violation.fingerprint
  filePath := violation.violation.filePath
  lineStart := violation.violation.lineStart
  lineEnd := violation.violation.lineEnd
  columnStart := violation.violation.columnStart
  columnEnd := violation.violation.columnEnd
  severity := violation.severity
  confidenceScore := violation.violation.confidenceScore
  category := violation.category
  explanation := violation.violation.explanation
  riskDescription := violation.violation.riskDescription
  status := violation.status.value
  assignedReviewerId := violation.assignedReviewerId

namespace SarifExporter

inductive Level
  | error | warning | note
  deriving DecidableEq

/-- No other characters than the ASCII ones have a lower case that occurs in these words. -/
def sarifLevel (severity : String) : Level :=
  match String.ofList (severity.toList.map Char.toLower) with
  | "critical" => .error
  | "major" => .error
  | "minor" => .warning
  | "info" => .note
  | _ => .warning

structure SarifRule where
  id : String
  name : String
  shortDescription : String
  fullDescription : String
  level : Level
  category : String
  confidence : Rat
  deriving DecidableEq

structure Region where
  startLine : Nat
  endLine : Nat
  startColumn : Nat
  endColumn : Nat
  deriving DecidableEq

structure SarifResult where
  ruleId : String
  ruleIndex : Nat
  level : Level
  message : String
  uri : String
  uriBaseId : String := "%SRCROOT%"
  region : Region
  primaryLocationLineHash : String
  status : String
  riskDescription : String
  reviewRequired : Bool := true
  patchExportOnly : Bool := true
  deriving DecidableEq

structure SarifLog where
  schema : String := "https://json.schemastore.org/sarif-2.1.0.json"
  version : String := "2.1.0"
  toolName : String := "misra-compliance-platform"
  toolVersion : String := "1.0.0"
  informationUri : String := "https://misra-compliance-platform.local"
  rules : List SarifRule
  executionSuccessful : Bool := true
  startTimeUtc : String
  runId : String
  projectName : String
  results : List SarifResult

/-- The dictionary of a violation has no offending expression. -/
def fallbackFingerprint (sha256 : String → String) (violation : ExportedViolation) : String :=
  String.ofList ((sha256 (violation.ruleId ++ ":" ++ violation.filePath ++ ":" ++ toString violation.lineStart ++
    ":None")).toList.take 16)

def fingerprint (sha256 : String → String) (violation : ExportedViolation) : String :=
  if violation.fingerprint = "" then fallbackFingerprint sha256 violation else violation.fingerprint

def ruleOf (violation : ExportedViolation) : SarifRule where
  id := violation.ruleId
  name := violation.ruleId
  shortDescription := violation.ruleId
  fullDescription := violation.explanation
  level := sarifLevel violation.severity
  category := violation.category
  confidence := violation.confidenceScore

def resultOf (sha256 : String → String) (ruleIndex : Nat) (violation : ExportedViolation) : SarifResult where
  ruleId := violation.ruleId
  ruleIndex := ruleIndex
  level := sarifLevel violation.severity
  message := violation.explanation
  uri := violation.filePath
  region := ⟨violation.lineStart, violation.lineEnd, violation.columnStart, violation.columnEnd⟩
  primaryLocationLineHash := fingerprint sha256 violation
  status := violation.status
  riskDescription := violation.riskDescription

/-- The first violation of a rule describes the rule. -/
def addRule (rules : OrderedDict String SarifRule) (violation : ExportedViolation) : OrderedDict String SarifRule :=
  rules.setDefault violation.ruleId (ruleOf violation)

/-- The index of a rule is the one among the rules so far. -/
def exportStep (sha256 : String → String) (state : OrderedDict String SarifRule × List SarifResult)
    (violation : ExportedViolation) : OrderedDict String SarifRule × List SarifResult :=
  let rules := addRule state.1 violation
  (rules, state.2 ++ [resultOf sha256 (rules.keys.idxOf violation.ruleId) violation])

def exportLog (sha256 : String → String) (startTimeUtc runId projectName : String)
    (violations : List ExportedViolation) : SarifLog :=
  let state := violations.foldl (exportStep sha256) (.empty, [])
  { rules := state.1.values
    startTimeUtc := startTimeUtc
    runId := runId
    projectName := projectName
    results := state.2 }

end SarifExporter

namespace ExportService

def exportSarif (sha256 : String → String) (startTimeUtc runId projectName : String)
    (violations : List ViolationRecord) : SarifExporter.SarifLog :=
  SarifExporter.exportLog sha256 startTimeUtc runId projectName (violations.map violationToDict)

end ExportService

end MisraPlatform
