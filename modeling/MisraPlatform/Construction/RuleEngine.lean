import MisraPlatform.Construction.ControlFlowRules
import MisraPlatform.Construction.ExecutionPlanner
import MisraPlatform.Library.Json

/-
This file is the fingerprint of a finding and the engine that runs the rules over one translation unit.
-/

namespace MisraPlatform.Fingerprint

def texts (items : List String) : Json := .array (items.map .string)

def buildSemanticContext (result : RuleResult) : Json :=
  .object [("ast_node_id", .string result.astNodeId), ("ast_node_path", texts result.astNodePath),
    ("offending_expression", .string result.offendingExpression),
    ("macro_chain", texts result.macroExpansionChain)]

def payload (result : RuleResult) : Json :=
  .object [("rule_id", .string result.ruleId), ("file_path", .string result.filePath),
    ("ast_node_path", texts result.astNodePath), ("offending_expression", .string result.offendingExpression),
    ("semantic_context", buildSemanticContext result)]

/-- This is `json.dumps(payload, sort_keys=True, separators=(",", ":"))`. -/
def encoded (result : RuleResult) : String := String.ofList (Json.dumps (Json.sortKeys (payload result)))

/-- The first argument is the hexadecimal SHA-256 digest of a text in UTF-8. -/
def generateFingerprint (sha256 : String → String) (result : RuleResult) : String := sha256 (encoded result)

end MisraPlatform.Fingerprint

namespace MisraPlatform

/-- The weights of the factors are listed in the order of the source. -/
def confidenceWeights : List (String × Rat) :=
  [("ast_match_specificity", 30 / 100), ("type_information_complete", 25 / 100), ("macro_clarity", 15 / 100),
    ("historical_false_positive_rate", 15 / 100), ("fix_generator_certainty", 15 / 100)]

/-- The loop adds the weighted factor and the weight of every factor that the finding has. -/
def weightedSums (result : RuleResult) : Rat × Rat :=
  confidenceWeights.foldl (fun sums entry =>
    match result.confidenceFactors.lookup entry.1 with
    | some factor => (sums.1 + factor * entry.2, sums.2 + entry.2)
    | none => sums) (0, 0)

/-- This is `min(1.0, max(0.0, score))`. -/
def clamp (score : Rat) : Rat := if score.blt 0 then 0 else if Rat.blt 1 score then 1 else score

def scoreConfidence (result : RuleResult) : Rat :=
  let sums := weightedSums result
  if sums.2 = 0 then result.confidenceScore else clamp (sums.1 / sums.2)

/-- The attempts of a rule are counted from 1, and an error is the text of the raised exception. -/
structure RulePlugin (Context : Type) where
  metadata : RuleMetadata
  detect : Context → Nat → Except String (List RuleResult)

structure RuleExecutionMetrics where
  ruleId : String
  violationCount : Nat
  success : Bool
  errorMessage : Option String := none
  deriving DecidableEq

structure ExecutionReport where
  violations : List RuleResult := []
  fingerprints : List String := []
  metrics : List RuleExecutionMetrics := []
  deduplicatedCount : Nat := 0

/-- A pool has at least one worker. A rule is tried again after a failure up to the number of retries. -/
structure RuleExecutionEngine where
  maxWorkers : Nat
  maxRetries : Int
  positive : 0 < maxWorkers

/-- The futures of a wave complete in some order, which the index of the wave may decide. -/
structure CompletionOrder (Rule : Type) where
  order : Nat → List Rule → List Rule
  complete : ∀ index wave, (order index wave).Perm wave

namespace RuleExecutionEngine

variable {Context : Type}

def score (violation : RuleResult) : RuleResult :=
  { violation with confidenceScore := scoreConfidence violation }

def failure (ruleId : String) (lastError : Option String) : RuleExecutionMetrics where
  ruleId := ruleId
  violationCount := 0
  success := false
  errorMessage :=
    match lastError with
    | some text => if text = "" then some "unknown rule failure" else some text
    | none => some "unknown rule failure"

/-- The first number is that of the attempts left, the second that of the attempts made. -/
def attempt (rule : RulePlugin Context) (context : Context) :
    Nat → Nat → Option String → RuleExecutionMetrics × List RuleResult
  | 0, _, lastError => (failure rule.metadata.ruleId lastError, [])
  | left + 1, attempts, lastError =>
      match rule.detect context (attempts + 1) with
      | .ok violations =>
          ({ ruleId := rule.metadata.ruleId, violationCount := violations.length, success := true },
            violations.map score)
      | .error text => attempt rule context left (attempts + 1) (some text)

def executeRuleSafe (engine : RuleExecutionEngine) (rule : RulePlugin Context) (context : Context) :
    RuleExecutionMetrics × List RuleResult :=
  attempt rule context (engine.maxRetries + 1).toNat 0 none

/-- The state of the loop is the seen fingerprints, the unique violations and the number of removed ones. -/
def deduplicateStep (sha256 : String → String) (state : List String × List RuleResult × Nat)
    (violation : RuleResult) : List String × List RuleResult × Nat :=
  let fingerprint := Fingerprint.generateFingerprint sha256 violation
  if fingerprint ∈ state.1 then (state.1, state.2.1, state.2.2 + 1)
  else (fingerprint :: state.1, state.2.1 ++ [violation], state.2.2)

def deduplicate (sha256 : String → String) (violations : List RuleResult) : List RuleResult × Nat :=
  (violations.foldl (deduplicateStep sha256) ([], [], 0)).2

/-- The executions are collected as they complete, one wave after the other. -/
def collect (engine : RuleExecutionEngine) (completion : CompletionOrder (RulePlugin Context))
    (context : Context) (waves : List (List (RulePlugin Context))) :
    List (RuleExecutionMetrics × List RuleResult) :=
  (waves.mapIdx completion.order).flatMap fun completed =>
    completed.map fun rule => engine.executeRuleSafe rule context

def report (sha256 : String → String) (collected : List (RuleExecutionMetrics × List RuleResult)) :
    ExecutionReport :=
  let deduplicated := deduplicate sha256 (collected.flatMap Prod.snd)
  { violations := deduplicated.1
    fingerprints := deduplicated.1.map (Fingerprint.generateFingerprint sha256)
    metrics := collected.map Prod.fst
    deduplicatedCount := deduplicated.2 }

def waves (rules : List (RulePlugin Context)) (grouped : Bool) :
    Except ExecutionPlanner.PlanError (List (List (RulePlugin Context))) :=
  if grouped then ExecutionPlanner.resolveExecutionGroups RulePlugin.metadata rules else .ok [rules]

def execute (engine : RuleExecutionEngine) (sha256 : String → String)
    (completion : CompletionOrder (RulePlugin Context)) (context : Context)
    (rules : List (RulePlugin Context)) (grouped : Bool) :
    Except ExecutionPlanner.PlanError ExecutionReport := do
  let waves ← waves rules grouped
  pure (report sha256 (engine.collect completion context waves))

end RuleExecutionEngine
end MisraPlatform
