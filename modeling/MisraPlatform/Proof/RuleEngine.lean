import MisraPlatform.Construction.RuleEngine
import MisraPlatform.Library.KeepFirst
import MisraPlatform.Proof.ExecutionGroups
import MisraPlatform.Proof.Fingerprint

/-
This file proves that the results of the engine do not depend on the schedule.
-/

namespace MisraPlatform.RuleExecutionEngine
open Fingerprint

section Deduplication

variable (sha256 : String → String)

/-- The loop keeps the first violation of each fingerprint and counts the others. -/
theorem deduplicate_eq (violations : List RuleResult) :
    deduplicate sha256 violations = (keepFirst (generateFingerprint sha256) [] violations,
      violations.length - (keepFirst (generateFingerprint sha256) [] violations).length) := by
  have general : ∀ (seen : List String) (unique : List RuleResult) (removed : Nat),
      (violations.foldl (deduplicateStep sha256) (seen, unique, removed)).2 =
        (unique ++ keepFirst (generateFingerprint sha256) seen violations,
          removed + (violations.length - (keepFirst (generateFingerprint sha256) seen violations).length)) := by
    induction violations with
    | nil => simp [keepFirst]
    | cons violation rest ih =>
        intro seen unique removed
        rw [List.foldl_cons, deduplicateStep]
        dsimp only
        by_cases known : generateFingerprint sha256 violation ∈ seen
        · have shorter : (keepFirst (generateFingerprint sha256) seen rest).Sublist rest :=
            keepFirst_sublist seen rest
          have bound := shorter.length_le
          rw [if_pos known, ih, keepFirst, if_pos known, List.length_cons]
          congr 1
          omega
        · rw [if_neg known, ih, keepFirst, if_neg known, List.append_assoc, List.length_cons, List.length_cons]
          congr 1
          omega
  rw [deduplicate, general]
  simp

/-- Different payloads among the findings have different digests. -/
def CollisionFree (findings : List RuleResult) : Prop :=
  ∀ first ∈ findings, ∀ second ∈ findings,
    generateFingerprint sha256 first = generateFingerprint sha256 second → encoded first = encoded second

end Deduplication

section Rules

variable {Context : Type} (engine : RuleExecutionEngine) (sha256 : String → String) (context : Context)
  (rules : List (RulePlugin Context))

/-- These are the findings of the rule's first attempt that does not raise. -/
def findings (rule : RulePlugin Context) : List RuleResult := (engine.executeRuleSafe rule context).2

def survivors (rule : RulePlugin Context) : List RuleResult :=
  keepFirst (generateFingerprint sha256) [] (engine.findings context rule)

/-- This part of the metrics does not depend on texts and times. -/
def outcome (metrics : RuleExecutionMetrics) : String × Nat × Bool :=
  (metrics.ruleId, metrics.violationCount, metrics.success)

def RaisesAlways (rule : RulePlugin Context) : Prop :=
  ∀ attempt : Nat, 1 ≤ attempt → (attempt : Int) ≤ engine.maxRetries + 1 →
    ∃ text, rule.detect context attempt = .error text

def Owned : Prop :=
  ∀ rule ∈ rules, ∀ attempt found, rule.detect context attempt = .ok found →
    ∀ finding ∈ found, finding.ruleId = rule.metadata.ruleId

/-- The report is the one that the rules determine, up to the order of its entries. -/
structure Settles (report : ExecutionReport) : Prop where
  violations : report.violations.Perm (rules.flatMap (engine.survivors sha256 context))
  fingerprints : report.fingerprints.Perm
    ((rules.flatMap (engine.survivors sha256 context)).map (generateFingerprint sha256))
  distinct : report.fingerprints.Nodup
  deduplicatedCount : report.deduplicatedCount =
    (rules.flatMap (engine.findings context)).length - (rules.flatMap (engine.survivors sha256 context)).length
  metrics : (report.metrics.map outcome).Perm
    (rules.map fun rule => outcome (engine.executeRuleSafe rule context).1)
  ruleIds : (report.metrics.map RuleExecutionMetrics.ruleId).Perm (rules.map fun rule => rule.metadata.ruleId)
  failed : ∀ rule ∈ rules, engine.RaisesAlways context rule →
    (∀ violation ∈ report.violations, violation.ruleId ≠ rule.metadata.ruleId) ∧
    (report.metrics.map outcome).Perm ((rule.metadata.ruleId, 0, false) ::
      ((rules.filter fun other => other.metadata.ruleId ≠ rule.metadata.ruleId).map fun other =>
        outcome (engine.executeRuleSafe other context).1)) ∧
    report.violations.Perm ((rules.filter fun other => other.metadata.ruleId ≠ rule.metadata.ruleId).flatMap
      (engine.survivors sha256 context))

end Rules

section Attempts

variable {Context : Type} {engine : RuleExecutionEngine} {sha256 : String → String} {context : Context}
  {rules : List (RulePlugin Context)}

theorem generateFingerprint_identity {first second : RuleResult} (same : encoded first = encoded second) :
    first.ruleId = second.ruleId := congrArg Identity.ruleId ((encoded_eq_iff first second).mp same)

/-- The attempts end in an answer of the rule or without findings. -/
theorem attempt_cases (rule : RulePlugin Context) (left attempts : Nat) (lastError : Option String) :
    (∃ number found, rule.detect context number = .ok found ∧
      (attempt rule context left attempts lastError).2 = found.map score) ∨
    (attempt rule context left attempts lastError).2 = [] := by
  induction left generalizing attempts lastError with
  | zero => exact .inr rfl
  | succ left ih =>
      rw [attempt]
      cases answered : rule.detect context (attempts + 1) with
      | ok found => exact .inl ⟨attempts + 1, found, answered, rfl⟩
      | error text => exact ih (attempts + 1) (some text)

theorem attempt_ruleId (rule : RulePlugin Context) (left attempts : Nat) (lastError : Option String) :
    (attempt rule context left attempts lastError).1.ruleId = rule.metadata.ruleId := by
  induction left generalizing attempts lastError with
  | zero => rfl
  | succ left ih =>
      rw [attempt]
      cases rule.detect context (attempts + 1) with
      | ok found => rfl
      | error text => exact ih (attempts + 1) (some text)

/-- A rule that raises on the attempts left ends without findings. -/
theorem attempt_raises (rule : RulePlugin Context) (left attempts : Nat) (lastError : Option String)
    (raises : ∀ number, attempts < number → number ≤ attempts + left →
      ∃ text, rule.detect context number = .error text) :
    (attempt rule context left attempts lastError).2 = [] ∧
      outcome (attempt rule context left attempts lastError).1 = (rule.metadata.ruleId, 0, false) := by
  induction left generalizing attempts lastError with
  | zero => exact ⟨rfl, rfl⟩
  | succ left ih =>
      obtain ⟨text, raised⟩ := raises (attempts + 1) (by omega) (by omega)
      rw [attempt, raised]
      exact ih (attempts + 1) (some text) fun number more less => raises number (by omega) (by omega)

theorem findings_owned (owned : Owned context rules) {rule : RulePlugin Context} (listed : rule ∈ rules) :
    ∀ finding ∈ engine.findings context rule, finding.ruleId = rule.metadata.ruleId := by
  intro finding inside
  rw [findings, executeRuleSafe] at inside
  cases attempt_cases rule (engine.maxRetries + 1).toNat 0 none with
  | inl answered =>
      obtain ⟨number, found, detected, same⟩ := answered
      rw [same] at inside
      obtain ⟨original, member, rfl⟩ := List.mem_map.mp inside
      exact owned rule listed number found detected original member
  | inr nothing =>
      rw [nothing] at inside
      cases inside

theorem executeRuleSafe_raises {rule : RulePlugin Context} (raises : engine.RaisesAlways context rule) :
    engine.findings context rule = [] ∧
      outcome (engine.executeRuleSafe rule context).1 = (rule.metadata.ruleId, 0, false) := by
  apply attempt_raises
  intro number more less
  apply raises number (by omega)
  omega

end Attempts

section Schedule

variable {Context : Type} {engine : RuleExecutionEngine} {sha256 : String → String} {context : Context}
  {rules : List (RulePlugin Context)}

/-- The rules are collected in some order of all the waves. -/
theorem collect_eq (completion : CompletionOrder (RulePlugin Context)) (waves : List (List (RulePlugin Context))) :
    ∃ order : List (RulePlugin Context), order.Perm waves.flatten ∧
      engine.collect completion context waves = order.map fun rule => engine.executeRuleSafe rule context := by
  refine ⟨(waves.mapIdx completion.order).flatten, ?_, ?_⟩
  · have shifted : ∀ offset, ((waves.mapIdx fun index => completion.order (index + offset)).flatten).Perm
        waves.flatten := by
      induction waves with
      | nil => exact fun _ => List.Perm.refl _
      | cons wave rest ih =>
          intro offset
          rw [List.mapIdx_cons, List.flatten_cons, List.flatten_cons]
          apply List.Perm.append (completion.complete _ wave)
          have later := ih (offset + 1)
          simpa only [Nat.add_assoc, Nat.add_comm 1] using later
    exact shifted 0
  · rw [collect, List.map_flatten, List.flatMap_def]

/-- Different rules share no fingerprint. -/
theorem findings_apart (distinct : (rules.map fun rule => rule.metadata.ruleId).Nodup)
    (owned : Owned context rules)
    (collisionFree : CollisionFree sha256 (rules.flatMap (engine.findings context)))
    {order : List (RulePlugin Context)} (rearranged : order.Perm rules) :
    order.Pairwise fun first second => ∀ finding ∈ engine.findings context first,
      ∀ other ∈ engine.findings context second,
        generateFingerprint sha256 finding ≠ generateFingerprint sha256 other := by
  have ids : (order.map fun rule => rule.metadata.ruleId).Nodup :=
    (rearranged.map _).nodup_iff.mpr distinct
  have apart : order.Pairwise fun first second => first.metadata.ruleId ≠ second.metadata.ruleId :=
    List.pairwise_map.mp ids
  apply List.Pairwise.imp_of_mem _ apart
  intro first second firstInside secondInside differs finding found other otherFound same
  have firstListed := rearranged.mem_iff.mp firstInside
  have secondListed := rearranged.mem_iff.mp secondInside
  have encodings := collisionFree finding (List.mem_flatMap.mpr ⟨first, firstListed, found⟩)
    other (List.mem_flatMap.mpr ⟨second, secondListed, otherFound⟩) same
  have owners := generateFingerprint_identity encodings
  rw [findings_owned owned firstListed finding found, findings_owned owned secondListed other otherFound]
    at owners
  exact differs owners

theorem survivors_flatMap (distinct : (rules.map fun rule => rule.metadata.ruleId).Nodup)
    (owned : Owned context rules)
    (collisionFree : CollisionFree sha256 (rules.flatMap (engine.findings context)))
    {order : List (RulePlugin Context)} (rearranged : order.Perm rules) :
    keepFirst (generateFingerprint sha256) [] (order.flatMap (engine.findings context)) =
      order.flatMap (engine.survivors sha256 context) :=
  keepFirst_flatMap order _ (findings_apart distinct owned collisionFree rearranged)

theorem ruleId_of_survivors (owned : Owned context rules) {violation : RuleResult}
    (inside : violation ∈ rules.flatMap (engine.survivors sha256 context)) :
    ∃ rule ∈ rules, violation ∈ engine.survivors sha256 context rule ∧
      violation.ruleId = rule.metadata.ruleId := by
  obtain ⟨rule, listed, kept⟩ := List.mem_flatMap.mp inside
  have found := (keepFirst_sublist [] (engine.findings context rule)).subset kept
  exact ⟨rule, listed, kept, findings_owned owned listed violation found⟩

/-- The others are the rules without the one of the given id. -/
theorem split_rule (distinct : (rules.map fun rule => rule.metadata.ruleId).Nodup)
    {rule : RulePlugin Context} (listed : rule ∈ rules) :
    rules.Perm (rule :: rules.filter fun other => other.metadata.ruleId ≠ rule.metadata.ruleId) := by
  obtain ⟨before, after, rfl⟩ := List.append_of_mem listed
  have others : ∀ other ∈ before ++ after, other.metadata.ruleId ≠ rule.metadata.ruleId := by
    have moved : ((rule :: (before ++ after)).map fun rule => rule.metadata.ruleId).Nodup :=
      ((List.perm_middle.map _).nodup_iff).mp distinct
    rw [List.map_cons, List.nodup_cons] at moved
    intro other inside same
    exact moved.1 (List.mem_map.mpr ⟨other, inside, same⟩)
  have kept : (before ++ rule :: after).filter
      (fun other => other.metadata.ruleId ≠ rule.metadata.ruleId) = before ++ after := by
    rw [List.filter_append, List.filter_cons_of_neg (by simp), ← List.filter_append,
      List.filter_eq_self.mpr]
    intro other inside
    simpa using others other inside
  rw [kept]
  exact List.perm_middle

/-- A report collected in any order of the rules is the one that the rules determine. -/
theorem report_settles (distinct : (rules.map fun rule => rule.metadata.ruleId).Nodup)
    (owned : Owned context rules)
    (collisionFree : CollisionFree sha256 (rules.flatMap (engine.findings context)))
    {order : List (RulePlugin Context)} (rearranged : order.Perm rules) :
    engine.Settles sha256 context rules
      (report sha256 (order.map fun rule => engine.executeRuleSafe rule context)) := by
  have collected : (order.map fun rule => engine.executeRuleSafe rule context).flatMap Prod.snd =
      order.flatMap (engine.findings context) := by
    rw [List.flatMap_map]
    rfl
  have kept := survivors_flatMap distinct owned collisionFree rearranged
  have violations : (order.flatMap (engine.survivors sha256 context)).Perm
      (rules.flatMap (engine.survivors sha256 context)) := rearranged.flatMap_right _
  have found : (order.flatMap (engine.findings context)).Perm (rules.flatMap (engine.findings context)) :=
    rearranged.flatMap_right _
  have metrics : (((order.map fun rule => engine.executeRuleSafe rule context).map Prod.fst).map outcome).Perm
      (rules.map fun rule => outcome (engine.executeRuleSafe rule context).1) := by
    rw [List.map_map, List.map_map]
    exact rearranged.map _
  rw [report, collected, deduplicate_eq, kept]
  constructor
  · exact violations
  · exact violations.map _
  · rw [← kept]
    exact keepFirst_nodup _ _
  · change (order.flatMap (engine.findings context)).length - _ = _
    rw [found.length_eq, violations.length_eq]
  · exact metrics
  · change (((order.map fun rule => engine.executeRuleSafe rule context).map Prod.fst).map _).Perm _
    rw [List.map_map, List.map_map]
    have ids : (RuleExecutionMetrics.ruleId ∘ Prod.fst) ∘ (fun rule => engine.executeRuleSafe rule context) =
        fun rule : RulePlugin Context => rule.metadata.ruleId := by
      funext rule
      exact attempt_ruleId rule _ _ _
    rw [ids]
    exact rearranged.map _
  · intro rule listed raises
    obtain ⟨nothing, failure⟩ := executeRuleSafe_raises raises
    have split := split_rule distinct listed
    have without : engine.survivors sha256 context rule = [] := by
      rw [survivors, nothing]
      rfl
    constructor
    · intro violation inside same
      obtain ⟨owner, ownerListed, kept, ownerId⟩ := ruleId_of_survivors owned (violations.mem_iff.mp inside)
      have joined : owner = rule :=
        List.inj_on_of_nodup_map distinct ownerListed listed (ownerId.symm.trans same)
      rw [joined, without] at kept
      cases kept
    · constructor
      · have moved := split.map fun rule => outcome (engine.executeRuleSafe rule context).1
        rw [List.map_cons, failure] at moved
        exact metrics.trans moved
      · have moved := split.flatMap_right (engine.survivors sha256 context)
        rw [List.flatMap_cons, without, List.nil_append] at moved
        exact violations.trans moved

/-- The waves list every rule once, unless the dependencies of a grouped run have a cycle. -/
theorem waves_outcome (distinct : (rules.map fun rule => rule.metadata.ruleId).Nodup) (grouped : Bool) :
    (∃ message, waves rules grouped = .error (.cyclicRuleDependency message) ∧ grouped = true ∧
      ∃ rule, Relation.TransGen (ExecutionPlanner.DependsOn RulePlugin.metadata rules) rule rule) ∨
    ((¬ (grouped = true ∧
        ∃ rule, Relation.TransGen (ExecutionPlanner.DependsOn RulePlugin.metadata rules) rule rule)) ∧
      ∃ groups, waves rules grouped = .ok groups ∧ groups.flatten.Perm rules) := by
  cases grouped with
  | false => exact .inr ⟨by simp, [rules], rfl, by simp⟩
  | true =>
      cases ExecutionPlanner.resolveExecutionGroupsIn_outcome distinct (List.Perm.refl rules) with
      | inl raised =>
          obtain ⟨message, failed, cyclic⟩ := raised
          exact .inl ⟨message, failed, rfl, cyclic⟩
      | inr planned =>
          obtain ⟨tier, leveled, answered⟩ := planned
          refine .inr ⟨?_, _, answered,
            (ExecutionPlanner.respects_of_leveling distinct leveled).partition⟩
          intro cyclic
          obtain ⟨_, rule, path⟩ := cyclic
          exact leveled.acyclic rule path

/-- Every schedule of a run ends in the report that the rules determine, and a grouped run on cyclic dependencies raises. -/
theorem execute_settles (engine : RuleExecutionEngine) (sha256 : String → String)
    (completion : CompletionOrder (RulePlugin Context)) (context : Context)
    (rules : List (RulePlugin Context)) (grouped : Bool)
    (distinct : (rules.map fun rule => rule.metadata.ruleId).Nodup) (owned : Owned context rules)
    (collisionFree : CollisionFree sha256 (rules.flatMap (engine.findings context))) :
    ((grouped = true ∧
        ∃ rule, Relation.TransGen (ExecutionPlanner.DependsOn RulePlugin.metadata rules) rule rule) →
      ∃ message, engine.execute sha256 completion context rules grouped =
        .error (.cyclicRuleDependency message)) ∧
    ((¬ (grouped = true ∧
        ∃ rule, Relation.TransGen (ExecutionPlanner.DependsOn RulePlugin.metadata rules) rule rule)) →
      ∃ report, engine.execute sha256 completion context rules grouped = .ok report ∧
        engine.Settles sha256 context rules report) := by
  cases waves_outcome distinct grouped with
  | inl raised =>
      obtain ⟨message, failed, isGrouped, cyclic⟩ := raised
      constructor
      · intro _
        exact ⟨message, by rw [execute, failed]; rfl⟩
      · intro acyclic
        exact absurd ⟨isGrouped, cyclic⟩ acyclic
  | inr planned =>
      obtain ⟨acyclic, groups, answered, partition⟩ := planned
      constructor
      · intro cyclic
        exact absurd cyclic acyclic
      · intro _
        obtain ⟨order, rearranged, collected⟩ := @collect_eq Context engine context completion groups
        refine ⟨_, by rw [execute, answered]; rfl, ?_⟩
        rw [collected]
        exact report_settles distinct owned collisionFree (rearranged.trans partition)

end Schedule

section Sample

def sampleFinding (ruleId nodeId : String) : RuleResult where
  ruleId := ruleId
  filePath := "demo.c"
  lineStart := 1
  lineEnd := 1
  columnStart := 1
  columnEnd := 2
  offendingExpression := "x"
  explanation := "x is used."
  riskDescription := ""
  sourceSnippet := "demo.c:1"
  astNodeId := nodeId
  astNodePath := [nodeId]
  confidenceScore := 1 / 2

/-- The first rule reports a node twice, the second raises once, the third raises always. -/
def sampleRules : List (RulePlugin Unit) :=
  [{ metadata := ⟨"rule-1", "A_ast_only", []⟩
     detect := fun _ _ => .ok [sampleFinding "rule-1" "node-1", sampleFinding "rule-1" "node-1",
       sampleFinding "rule-1" "node-2"] },
    { metadata := ⟨"rule-2", "B_type_system", ["rule-1"]⟩
      detect := fun _ number =>
        if number = 1 then .error "Traceback" else .ok [sampleFinding "rule-2" "node-1"] },
    { metadata := ⟨"rule-3", "A_ast_only", []⟩
      detect := fun _ _ => .error "Traceback" }]

def sampleEngine : RuleExecutionEngine := ⟨4, 1, by decide⟩

/-- The last submitted execution completes first. -/
def reversedOrder : CompletionOrder (RulePlugin Unit) := ⟨fun _ wave => wave.reverse, fun _ => List.reverse_perm⟩

/-- These are the SHA-256 digests of the three payloads. -/
def sampleDigest : String → String :=
  tableDigest [(encoded (sampleFinding "rule-1" "node-1"),
      "953486418d7b587650319b29e16b18bbfdb49012a4e201a076a045cdac9c3a70"),
    (encoded (sampleFinding "rule-1" "node-2"),
      "1883ae79833567270319df58d21fa573c8fcd02de3062523c677fc7e4dfdc1c4"),
    (encoded (sampleFinding "rule-2" "node-1"),
      "51508c497b8b2708d9b59f493c39603eb693e8d4a63ada3e525aac0af14a6cdc")]

example : encoded (sampleFinding "rule-1" "node-1") =
    "\x7b\"ast_node_path\":[\"node-1\"],\"file_path\":\"demo.c\",\"offending_expression\":\"x\"," ++
    "\"rule_id\":\"rule-1\",\"semantic_context\":\x7b\"ast_node_id\":\"node-1\"," ++
    "\"ast_node_path\":[\"node-1\"],\"macro_chain\":[],\"offending_expression\":\"x\"\x7d\x7d" := by
  decide +kernel

theorem sampleDigest_injective : Function.Injective sampleDigest := by
  apply tableDigest_injective
  · decide
  · decide

theorem sampleRules_owned : Owned () sampleRules := by
  intro rule listed number found detected finding inside
  simp only [sampleRules, List.mem_cons, List.not_mem_nil, or_false] at listed
  rcases listed with rfl | rfl | rfl
  · cases detected
    simp only [List.mem_cons, List.not_mem_nil, or_false] at inside
    rcases inside with rfl | rfl | rfl <;> rfl
  · dsimp only at detected
    split at detected
    · cases detected
    · cases detected
      rw [List.mem_singleton.mp inside]
      rfl
  · cases detected

theorem execute_settles_sample :
    (sampleRules.map fun rule => rule.metadata.ruleId).Nodup ∧ Owned () sampleRules ∧
    CollisionFree sampleDigest (sampleRules.flatMap (sampleEngine.findings ())) ∧
    ((true = true ∧ ∃ rule, Relation.TransGen
        (ExecutionPlanner.DependsOn RulePlugin.metadata sampleRules) rule rule) →
      ∃ message, sampleEngine.execute sampleDigest reversedOrder () sampleRules true =
        .error (.cyclicRuleDependency message)) ∧
    ((¬ (true = true ∧ ∃ rule, Relation.TransGen
        (ExecutionPlanner.DependsOn RulePlugin.metadata sampleRules) rule rule)) →
      ∃ report, sampleEngine.execute sampleDigest reversedOrder () sampleRules true = .ok report ∧
        sampleEngine.Settles sampleDigest () sampleRules report) :=
  ⟨by decide, sampleRules_owned, fun _ _ _ _ same => sampleDigest_injective same,
    execute_settles sampleEngine sampleDigest reversedOrder () sampleRules true (by decide) sampleRules_owned
      fun _ _ _ _ same => sampleDigest_injective same⟩

/-- The rule depends on itself. -/
def selfDependent : RulePlugin Unit where
  metadata := ⟨"rule-1", "A_ast_only", ["rule-1"]⟩
  detect := fun _ _ => .ok []

/-- A grouped run of a rule that depends on itself raises, where an ungrouped one returns a report. -/
theorem execute_grouped_raises :
    ([selfDependent].map fun rule => rule.metadata.ruleId).Nodup ∧ Owned () [selfDependent] ∧
    CollisionFree sampleDigest ([selfDependent].flatMap (sampleEngine.findings ())) ∧
    sampleEngine.execute sampleDigest reversedOrder () [selfDependent] true =
      .error (.cyclicRuleDependency "Cyclic rule_dependencies detected at 'rule-1'") ∧
    ∃ report, sampleEngine.execute sampleDigest reversedOrder () [selfDependent] false = .ok report ∧
      report.metrics.map outcome = [("rule-1", 0, true)] := by
  refine ⟨by decide, ?_, fun _ _ _ _ same => sampleDigest_injective same, rfl, _, rfl, rfl⟩
  intro rule listed number found detected finding inside
  rw [List.mem_singleton] at listed
  subst listed
  cases detected
  cases inside

end Sample

end MisraPlatform.RuleExecutionEngine
