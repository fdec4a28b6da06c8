import MisraPlatform.Proof.RuleEngine
import MisraPlatform.Semantics.RuleResults

/-
This file proves which findings of a rule the deduplication of a run keeps apart.
-/

namespace MisraPlatform
open Fingerprint RuleExecutionEngine

/-! ### The fingerprints of the reports -/

theorem Rule20_5.detect_rule (artifact : Artifact) : rule.detect artifact = detect artifact := by
  rw [ReportingRule.detect, rule, ReportingRule.ofDirectives, detect, List.map_map, List.map_map]
  rfl

theorem Rule20_10.detect_rule (artifact : Artifact) : rule.detect artifact = detect artifact := by
  rw [ReportingRule.detect, rule, ReportingRule.ofDirectives, detect, List.map_map, List.map_map]
  rfl

/-- The place of a directive is no part of its identity. -/
theorem identity_directiveResult (ruleId : String) (artifact : Artifact) (report : DirectiveReport) :
    identity (directiveResult ruleId artifact report) =
      ⟨ruleId, report.filePath artifact, "", [], report.offendingExpression, []⟩ := rfl

/-- Reports on different occurrences have one identity when they are directives that are quoted alike. -/
theorem RuleReport.identity_eq_iff {artifact : Artifact}
    (ids : (artifact.context.astNodes.map AstNode.nodeId).Nodup) {rule : ReportingRule} {first second : RuleReport}
    (here : first ∈ rule.reports artifact) (there : second ∈ rule.reports artifact)
    (apart : first.Apart artifact second) :
    identity (first.result rule.ruleId artifact) = identity (second.result rule.ruleId artifact) ↔
      first.WrittenAlike second := by
  cases first with
  | node first =>
      cases second with
      | node second =>
          constructor
          · intro same
            have sameId : first.node.nodeId = second.node.nodeId := congrArg Identity.astNodeId same
            exact absurd (List.inj_on_of_nodup_map ids (rule.placed _ _ here) (rule.placed _ _ there) sameId) apart
          · exact False.elim
      | directive second => exact apart.elim
  | directive first =>
      cases second with
      | node second => exact apart.elim
      | directive second =>
          obtain ⟨sameFile, _⟩ := apart
          change identity (directiveResult rule.ruleId artifact first) =
            identity (directiveResult rule.ruleId artifact second) ↔
              first.offendingExpression = second.offendingExpression
          rw [identity_directiveResult, identity_directiveResult, sameFile]
          simp

/-! ### The findings of a run -/

variable {engine : RuleExecutionEngine} {sha256 : String → String} {artifact : Artifact} {rule : ReportingRule}

theorem generateFingerprint_score (violation : RuleResult) :
    generateFingerprint sha256 (score violation) = generateFingerprint sha256 violation := rfl

/-- A rule that is called once has all of its findings. -/
theorem findings_plugin (called : 0 ≤ engine.maxRetries) (category : String) (dependencies : List String) :
    engine.findings artifact (rule.plugin category dependencies) = (rule.detect artifact).map score := by
  have attempts : (engine.maxRetries + 1).toNat = engine.maxRetries.toNat + 1 := by omega
  rw [findings, executeRuleSafe, attempts, attempt]
  rfl

/-- The violations of a run are what the filter keeps of the findings of its rules. -/
theorem execute_violations {Context : Type} {context : Context} {rules : List (RulePlugin Context)}
    {completion : CompletionOrder (RulePlugin Context)} {grouped : Bool} {report : ExecutionReport}
    (distinct : (rules.map fun rule => rule.metadata.ruleId).Nodup)
    (answered : engine.execute sha256 completion context rules grouped = .ok report) :
    ∃ found : List RuleResult, report.violations = keepFirst (generateFingerprint sha256) [] found ∧
      ∀ rule ∈ rules, ∀ finding ∈ engine.findings context rule, finding ∈ found := by
  cases waves_outcome distinct grouped with
  | inl raised =>
      obtain ⟨message, failed, _⟩ := raised
      rw [execute, failed] at answered
      cases answered
  | inr planned =>
      obtain ⟨_, groups, planned, partition⟩ := planned
      obtain ⟨order, rearranged, collected⟩ := @collect_eq Context engine context completion groups
      rw [execute, planned] at answered
      cases answered
      refine ⟨_, by rw [RuleExecutionEngine.report, deduplicate_eq], ?_⟩
      intro rule listed finding inside
      rw [collected, List.flatMap_map]
      exact List.mem_flatMap.mpr ⟨rule, (rearranged.trans partition).mem_iff.mpr listed, inside⟩

/-- A run keeps two findings on different occurrences apart unless they are directives that are quoted alike. -/
theorem keepsBoth_iff (engine : RuleExecutionEngine) (called : 0 ≤ engine.maxRetries)
    (sha256 : String → String) (injective : Function.Injective sha256) (artifact : Artifact)
    (ids : (artifact.context.astNodes.map AstNode.nodeId).Nodup) (rule : ReportingRule) (first second : RuleReport)
    (here : first ∈ rule.reports artifact) (there : second ∈ rule.reports artifact)
    (apart : first.Apart artifact second) :
    (generateFingerprint sha256 (first.result rule.ruleId artifact) ≠
        generateFingerprint sha256 (second.result rule.ruleId artifact) ↔ ¬ first.WrittenAlike second) ∧
    ∀ (completion : CompletionOrder (RulePlugin Artifact)) (rules : List (RulePlugin Artifact)) (grouped : Bool)
      (category : String) (dependencies : List String) (report : ExecutionReport),
      (rules.map fun rule => rule.metadata.ruleId).Nodup → rule.plugin category dependencies ∈ rules →
      engine.execute sha256 completion artifact rules grouped = .ok report →
      (report.KeepsBoth sha256 (first.result rule.ruleId artifact) (second.result rule.ruleId artifact) ↔
        ¬ first.WrittenAlike second) := by
  have fingerprints : generateFingerprint sha256 (first.result rule.ruleId artifact) ≠
      generateFingerprint sha256 (second.result rule.ruleId artifact) ↔ ¬ first.WrittenAlike second := by
    rw [Ne, generateFingerprint_eq_iff injective, RuleReport.identity_eq_iff ids here there apart]
  refine ⟨fingerprints, ?_⟩
  intro completion rules grouped category dependencies report distinct listed answered
  obtain ⟨found, kept, collected⟩ := execute_violations distinct answered
  have finding : ∀ one ∈ rule.reports artifact, score (one.result rule.ruleId artifact) ∈ found := by
    intro one inside
    apply collected _ listed
    rw [findings_plugin called]
    exact List.mem_map_of_mem (List.mem_map_of_mem inside)
  rw [ExecutionReport.KeepsBoth, kept, ← fingerprints]
  have separated := @keepFirst_separates _ _ _ (generateFingerprint sha256) found _ _ (finding first here)
    (finding second there)
  rwa [generateFingerprint_score, generateFingerprint_score] at separated

/-! ### Two definitions of a macro -/

section Sample
open ClangAnalysis

def limitDefinition (value : String) (line : Nat) : MacroDefinition where
  name := "LIMIT"
  value := value
  range := { filePath := "demo.c", lineStart := line, lineEnd := line, columnStart := 9, columnEnd := 9 }
  filePath := "demo.c"

def depthDefinition : MacroDefinition where
  name := "DEPTH"
  value := "4"
  range := { filePath := "demo.c", lineStart := 4, lineEnd := 4, columnStart := 9, columnEnd := 9 }
  filePath := "demo.c"

/-- The file defines `LIMIT` in its first and in its third line and `DEPTH` in its fourth, and uses neither. -/
def redefinedArtifact : Artifact := AstClient.artifact "demo.c"
  { preprocessor :=
      { macroDefinitions := [limitDefinition "10" 1, limitDefinition "20" 3, depthDefinition]
        undefDirectives := [{ macroName := "LIMIT" }] } }

def unusedReport (definition : MacroDefinition) : RuleReport :=
  .directive (Rule2_5.report (AstClient.macroToDict definition))

theorem reports_redefined : Rule2_5.rule.reports redefinedArtifact =
    [unusedReport (limitDefinition "10" 1), unusedReport (limitDefinition "20" 3),
      unusedReport depthDefinition] := by
  rfl

/-- The executions complete as they were submitted. -/
def submittedOrder : CompletionOrder (RulePlugin Artifact) := ⟨fun _ wave => wave, fun _ => List.Perm.refl⟩

/-- The unused definitions of `LIMIT` at two places have one fingerprint, and a run drops the second. -/
theorem redefined_lost :
    unusedReport (limitDefinition "10" 1) ∈ Rule2_5.rule.reports redefinedArtifact ∧
    unusedReport (limitDefinition "20" 3) ∈ Rule2_5.rule.reports redefinedArtifact ∧
    (unusedReport (limitDefinition "10" 1)).Apart redefinedArtifact (unusedReport (limitDefinition "20" 3)) ∧
    ∀ sha256 : String → String,
      generateFingerprint sha256 ((unusedReport (limitDefinition "10" 1)).result Rule2_5.rule.ruleId
          redefinedArtifact) =
        generateFingerprint sha256 ((unusedReport (limitDefinition "20" 3)).result Rule2_5.rule.ruleId
          redefinedArtifact) ∧
      ∃ report, sampleEngine.execute sha256 submittedOrder redefinedArtifact
          [Rule2_5.rule.plugin "F_preprocessor" []] false = .ok report ∧
        ¬ report.KeepsBoth sha256 ((unusedReport (limitDefinition "10" 1)).result Rule2_5.rule.ruleId
            redefinedArtifact)
          ((unusedReport (limitDefinition "20" 3)).result Rule2_5.rule.ruleId redefinedArtifact) := by
  refine ⟨by simp [reports_redefined], by simp [reports_redefined], ⟨rfl, by decide⟩, ?_⟩
  intro sha256
  have same : generateFingerprint sha256 ((unusedReport (limitDefinition "10" 1)).result Rule2_5.rule.ruleId
      redefinedArtifact) = generateFingerprint sha256 ((unusedReport (limitDefinition "20" 3)).result
        Rule2_5.rule.ruleId redefinedArtifact) :=
    congrArg sha256 ((encoded_eq_iff _ _).mpr rfl)
  refine ⟨same, _, rfl, ?_⟩
  rintro ⟨kept, keptInside, other, otherInside, different, keptKey, otherKey⟩
  have answered : sampleEngine.execute sha256 submittedOrder redefinedArtifact
      [Rule2_5.rule.plugin "F_preprocessor" []] false = .ok _ := rfl
  obtain ⟨found, filtered, _⟩ := execute_violations (by simp) answered
  rw [filtered] at keptInside otherInside
  apply different
  exact List.inj_on_of_nodup_map (keepFirst_nodup [] found) keptInside otherInside
    (keptKey.trans (same.trans otherKey.symm))

/-- These are the SHA-256 digests of the two payloads. -/
def unusedDigest : String → String :=
  tableDigest
    [(encoded ((unusedReport (limitDefinition "10" 1)).result Rule2_5.rule.ruleId redefinedArtifact),
        "f2e740a3100f4aeb5855c692f739ac1e97538653c76b1b93493d3eae68a8331a"),
      (encoded ((unusedReport depthDefinition).result Rule2_5.rule.ruleId redefinedArtifact),
        "0d5f1c4782a72421ee867a6af159986be375e8b95768c009892b981ea3f47d83")]

theorem unusedDigest_injective : Function.Injective unusedDigest := by
  apply tableDigest_injective
  · decide
  · decide

theorem keepsBoth_iff_unused :
    (generateFingerprint unusedDigest ((unusedReport (limitDefinition "10" 1)).result Rule2_5.rule.ruleId
          redefinedArtifact) ≠
        generateFingerprint unusedDigest ((unusedReport depthDefinition).result Rule2_5.rule.ruleId
          redefinedArtifact) ↔
      ¬ (unusedReport (limitDefinition "10" 1)).WrittenAlike (unusedReport depthDefinition)) ∧
    ∃ report, sampleEngine.execute unusedDigest submittedOrder redefinedArtifact
        [Rule2_5.rule.plugin "F_preprocessor" []] false = .ok report ∧
      (report.KeepsBoth unusedDigest
          ((unusedReport (limitDefinition "10" 1)).result Rule2_5.rule.ruleId redefinedArtifact)
          ((unusedReport depthDefinition).result Rule2_5.rule.ruleId redefinedArtifact) ↔
        ¬ (unusedReport (limitDefinition "10" 1)).WrittenAlike (unusedReport depthDefinition)) := by
  have settled := keepsBoth_iff sampleEngine (by decide) unusedDigest unusedDigest_injective redefinedArtifact
    List.nodup_nil Rule2_5.rule (unusedReport (limitDefinition "10" 1)) (unusedReport depthDefinition)
    (by simp [reports_redefined]) (by simp [reports_redefined]) ⟨rfl, by decide⟩
  exact ⟨settled.1, _, rfl,
    settled.2 submittedOrder [Rule2_5.rule.plugin "F_preprocessor" []] false "F_preprocessor" [] _
      (by simp) (by simp) rfl⟩

end Sample

end MisraPlatform
