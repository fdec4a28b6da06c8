import Mathlib.Data.List.Perm.Basic
import MisraPlatform.Proof.Definitions
import MisraPlatform.Proof.WorkerPool
import MisraPlatform.Semantics.RuleResults

/-
This file shows that the dispatcher returns only for batches without metrics.
-/

namespace MisraPlatform.RuleDispatcher

variable {dispatcher : RuleDispatcher} {request : DispatchRequest}

section Gather

/-- The entries that the loop stores for one unit. -/
def unitEntries (durationMs : String → Nat → Rat) (entry : String × ExecutionReport) : List MetricEntry :=
  entry.2.metrics.mapIdx fun index metrics => ⟨entry.1, metrics.ruleId, durationMs entry.1 index,
    metrics.violationCount, metrics.success, metrics.errorMessage⟩

def storedEntries (durationMs : String → Nat → Rat) (projectReport : ProjectExecutionReport) : List MetricEntry :=
  projectReport.translationUnitReports.entries.flatMap (unitEntries durationMs)

theorem mapM_storeMetric (durationMs : String → Nat → Rat) (entry : String × ExecutionReport) :
    (unitMetrics durationMs entry.1 entry.2).mapM (storeMetric entry.1) =
      .ok ((unitEntries durationMs entry).map .dict) := by
  have general : ∀ (items : List RuleExecutionMetrics) (duration : Nat → Rat),
      (items.mapIdx fun index metrics => Metric.object metrics (duration index)).mapM (storeMetric entry.1) =
        .ok ((items.mapIdx fun index metrics => MetricEntry.mk entry.1 metrics.ruleId (duration index)
          metrics.violationCount metrics.success metrics.errorMessage).map .dict) := by
    intro items
    induction items with
    | nil => exact fun _ => rfl
    | cons metrics rest ih =>
        intro duration
        rw [List.mapIdx_cons, List.mapM_cons, ih, List.mapIdx_cons, List.map_cons]
        rfl
  exact general entry.2.metrics (durationMs entry.1)

/-- A stored violation has the unit and the finding it was made of. -/
theorem mapM_storeViolation {translationUnitId : String} {findings : List RuleResult}
    {violations : List StoredViolation}
    (stored : findings.mapM (storeViolation dispatcher translationUnitId) = .ok violations) :
    ∀ violation ∈ violations, ∃ finding ∈ findings, ∃ metadata, violation =
      storedViolation dispatcher.workerPool.sha256 translationUnitId metadata finding := by
  induction findings generalizing violations with
  | nil =>
      cases stored
      simp
  | cons finding rest ih =>
      rw [List.mapM_cons, storeViolation] at stored
      cases known : dispatcher.registry.getMetadata finding.ruleId with
      | error error =>
          rw [known] at stored
          cases stored
      | ok metadata =>
          rw [known] at stored
          cases later : rest.mapM (storeViolation dispatcher translationUnitId) with
          | error error =>
              rw [later] at stored
              cases stored
          | ok others =>
              rw [later] at stored
              cases stored
              intro violation inside
              cases List.mem_cons.mp inside with
              | inl same => exact ⟨finding, List.mem_cons_self, metadata, same⟩
              | inr member =>
                  obtain ⟨found, foundInside, foundMetadata, same⟩ := ih later violation member
                  exact ⟨found, List.mem_cons_of_mem _ foundInside, foundMetadata, same⟩

/-- What the loop has gathered is that of the entries before it. -/
theorem foldlM_gatherUnit {durationMs : String → Nat → Rat} {entries : List (String × ExecutionReport)}
    {before gathered : Gathered}
    (done : entries.foldlM (gatherUnit dispatcher durationMs) before = .ok gathered) :
    gathered.metrics = before.metrics ++ (entries.flatMap (unitEntries durationMs)).map .dict ∧
    gathered.deduplicatedTotal = before.deduplicatedTotal +
      (entries.map fun entry => entry.2.deduplicatedCount).foldr (· + ·) 0 ∧
    ∀ violation ∈ gathered.violations, violation ∈ before.violations ∨ ∃ entry ∈ entries,
      ∃ finding ∈ entry.2.violations, ∃ metadata, violation =
        storedViolation dispatcher.workerPool.sha256 entry.1 metadata finding := by
  induction entries generalizing before with
  | nil =>
      cases done
      exact ⟨by simp, rfl, fun _ inside => .inl inside⟩
  | cons entry rest ih =>
      rw [List.foldlM_cons, gatherUnit, mapM_storeMetric] at done
      cases stored : entry.2.violations.mapM (storeViolation dispatcher entry.1) with
      | error error =>
          rw [stored] at done
          cases done
      | ok violations =>
          rw [stored] at done
          obtain ⟨metrics, deduplicated, produced⟩ := ih done
          refine ⟨?_, ?_, ?_⟩
          · rw [metrics, List.flatMap_cons, List.map_append, List.append_assoc]
          · rw [deduplicated, List.map_cons, List.foldr_cons, Nat.add_assoc]
          · intro violation inside
            cases produced violation inside with
            | inl earlier =>
                cases List.mem_append.mp earlier with
                | inl already => exact .inl already
                | inr here =>
                    obtain ⟨finding, found, metadata, same⟩ := mapM_storeViolation stored violation here
                    exact .inr ⟨entry, List.mem_cons_self, finding, found, metadata, same⟩
            | inr later =>
                obtain ⟨other, member, made⟩ := later
                exact .inr ⟨other, List.mem_cons_of_mem _ member, made⟩

theorem gather_metrics {durationMs : String → Nat → Rat} {projectReport : ProjectExecutionReport}
    {gathered : Gathered} (done : gather dispatcher durationMs projectReport = .ok gathered) :
    gathered.metrics = (storedEntries durationMs projectReport).map .dict := by
  rw [(foldlM_gatherUnit done).1]
  rfl

end Gather

section Summaries

/-- Dictionaries are read by key without an error. -/
theorem foldlM_addTiming (entries : List MetricEntry) (timings : OrderedDict String (List Rat)) :
    (entries.map Metric.dict).foldlM addTiming timings = .ok ((entries.map fun entry =>
      (entry.ruleId, entry.durationMs)).foldl (fun timings timed =>
        LinkageIndex.appendTo timings timed.1 timed.2) timings) := by
  induction entries generalizing timings with
  | nil => rfl
  | cons entry rest ih => exact ih _

theorem invocations_timings (entries : List MetricEntry) (ruleId : String) :
    (((((entries.map fun entry => (entry.ruleId, entry.durationMs)).foldl (fun timings timed =>
        LinkageIndex.appendTo timings timed.1 timed.2) .empty).mapValues timingSummary).get? ruleId).map
          TimingSummary.invocations).getD 0 = entries.countP fun entry => entry.ruleId = ruleId := by
  have folded := LinkageIndex.get?_foldl_appendTo
    (entries.map fun entry => (entry.ruleId, entry.durationMs)) .empty ruleId
  rw [OrderedDict.get?_empty, Option.getD_none, List.nil_append] at folded
  have counted := congrArg List.length folded
  rw [List.length_map, ← List.countP_eq_length_filter, List.countP_map] at counted
  rw [OrderedDict.get?_mapValues]
  refine Eq.trans ?_ counted
  cases OrderedDict.get? _ ruleId <;> rfl

/-- A dictionary has no attribute of that name. -/
theorem mapM_perRuleEntry (entries : List MetricEntry) :
    (entries.map Metric.dict).mapM perRuleEntry =
      if entries = [] then .ok [] else .error (.attributeError "'dict' object has no attribute 'rule_id'") := by
  cases entries with
  | nil => rfl
  | cons entry rest =>
      rw [if_neg (List.cons_ne_nil _ _), List.map_cons, List.mapM_cons]
      rfl

end Summaries

section Reports

open RuleExecutionEngine in
/-- The engine reports one metric for each rule. -/
theorem engineReport_rules {pool : WorkerPool} {job : TranslationUnitJob ArtifactContext}
    {tuReport : ExecutionReport} (full : pool.EngineReport job tuReport) :
    (tuReport.metrics.map RuleExecutionMetrics.ruleId).Perm (job.rules.map fun rule => rule.metadata.ruleId) := by
  obtain ⟨completion, executed⟩ := full
  cases executed
  have named : ∀ rule : RulePlugin ArtifactContext,
      (pool.ruleEngine.executeRuleSafe rule job.context).1.ruleId = rule.metadata.ruleId :=
    fun rule => attempt_ruleId rule _ _ _
  simp only [report, collect, List.mapIdx_cons, List.mapIdx_nil, List.flatMap_cons, List.flatMap_nil,
    List.append_nil, List.map_map, Function.comp_def, named]
  exact (completion.complete 0 job.rules).map _

theorem jobs_wellFormed (wellFormed : request.WellFormed) :
    dispatcher.jobs request = .ok (List.zipWith (fun artifact translationUnitId =>
      ⟨translationUnitId, context request (LinkageIndex.build (linkedUnits request)) artifact translationUnitId,
        dispatcher.registry.selectRules request.enabledRules⟩) request.artifacts request.translationUnitIds) := by
  rw [jobs, if_neg (by rw [wellFormed.matched]; exact lt_irrefl _),
    if_neg (by rw [wellFormed.matched]; exact lt_irrefl _)]

/-- The jobs of a batch have the ids of its units and the selected rules. -/
theorem jobs_members {batch : List (TranslationUnitJob ArtifactContext)} (wellFormed : request.WellFormed)
    (made : dispatcher.jobs request = .ok batch) :
    (batch.map fun job => job.translationUnitId) = request.translationUnitIds ∧
      ∀ job ∈ batch, job.rules = dispatcher.registry.selectRules request.enabledRules := by
  rw [jobs_wellFormed wellFormed] at made
  cases made
  rw [List.map_zipWith, ← List.map_uncurry_zip_eq_zipWith, ← List.map_uncurry_zip_eq_zipWith]
  constructor
  · exact List.map_snd_zip (le_of_eq wellFormed.matched.symm)
  · intro job member
    obtain ⟨pair, _, rfl⟩ := List.mem_map.mp member
    rfl

variable {state : WorkerPool.PoolState ArtifactContext} {batch : List (TranslationUnitJob ArtifactContext)}

/-- A finished run has recorded one full report for each unit. -/
theorem keys_perm (run : dispatcher.workerPool.Runs batch state) (finished : state.main = .finished)
    (uncancelled : state.report.progress.cancelled = false)
    (distinct : (batch.map fun job => job.translationUnitId).Nodup) :
    state.report.translationUnitReports.keys.Perm (batch.map fun job => job.translationUnitId) := by
  have sound := run.sound distinct
  rw [List.perm_ext_iff_of_nodup state.report.translationUnitReports.keys_nodup distinct]
  intro unitId
  constructor
  · intro listed
    obtain ⟨tuReport, found⟩ := (OrderedDict.mem_keys_iff _ _).mp listed
    obtain ⟨job, member, same, _⟩ := sound.recorded unitId tuReport ((OrderedDict.mem_entries_iff _ _ _).mpr found)
    exact List.mem_map.mpr ⟨job, member, same⟩
  · intro listed
    obtain ⟨job, member, rfl⟩ := List.mem_map.mp listed
    exact sound.complete finished uncancelled job member

/-- The stored entries are one for each unit and rule. -/
theorem storedEntries_complete (durationMs : String → Nat → Rat) (wellFormed : request.WellFormed)
    (made : dispatcher.jobs request = .ok batch) (run : dispatcher.workerPool.Runs batch state)
    (finished : state.main = .finished) (uncancelled : state.report.progress.cancelled = false) :
    ((storedEntries durationMs state.report).map fun entry => (entry.translationUnitId, entry.ruleId)).Perm
      (executions dispatcher request) := by
  obtain ⟨ids, rules⟩ := jobs_members wellFormed made
  have distinct : (batch.map fun job => job.translationUnitId).Nodup := ids ▸ wellFormed.distinct
  have keys := keys_perm run finished uncancelled distinct
  rw [ids] at keys
  have sound := run.sound distinct
  have eachUnit : ∀ entry ∈ state.report.translationUnitReports.entries,
      ((unitEntries durationMs entry).map fun stored => (stored.translationUnitId, stored.ruleId)).Perm
        ((dispatcher.registry.selectRules request.enabledRules).map fun rule =>
          (entry.1, rule.metadata.ruleId)) := by
    intro entry member
    obtain ⟨job, listed, _, full⟩ := sound.recorded entry.1 entry.2 member
    have reported := (engineReport_rules full).map (Prod.mk entry.1)
    rw [rules job listed, List.map_map, List.map_map] at reported
    have pairs : ((unitEntries durationMs entry).map fun stored => (stored.translationUnitId, stored.ruleId)) =
        entry.2.metrics.map (Prod.mk entry.1 ∘ RuleExecutionMetrics.ruleId) := by
      apply List.ext_getElem?
      intro index
      rw [unitEntries, List.getElem?_map, List.getElem?_mapIdx, List.getElem?_map, Option.map_map]
      rfl
    rw [pairs]
    exact reported
  rw [storedEntries, List.map_flatMap, executions]
  refine (List.Perm.flatMap_left _ eachUnit).trans ?_
  have spread := keys.flatMap_right fun translationUnitId =>
    (dispatcher.registry.selectRules request.enabledRules).map fun rule => (translationUnitId, rule.metadata.ruleId)
  rw [OrderedDict.keys, List.flatMap_map] at spread
  exact spread

/-- A stored entry stands for a metric of its unit. -/
theorem storedEntries_reflected (durationMs : String → Nat → Rat) (projectReport : ProjectExecutionReport) :
    ∀ entry ∈ storedEntries durationMs projectReport, Reflects projectReport entry := by
  intro entry inside
  obtain ⟨⟨unitId, tuReport⟩, member, stored⟩ := List.mem_flatMap.mp inside
  obtain ⟨index, bound, same⟩ := List.mem_mapIdx.mp stored
  subst same
  exact ⟨tuReport, (OrderedDict.mem_entries_iff _ _ _).mp member, _, List.getElem_mem bound, rfl, rfl, rfl, rfl⟩

end Reports

section Results

/-- The results that the dispatcher returns are consistent. -/
theorem consistent_of_results {durationMs : String → Nat → Rat} {projectReport : ProjectExecutionReport}
    {returned : Results}
    (complete : ((storedEntries durationMs projectReport).map fun entry =>
      (entry.translationUnitId, entry.ruleId)).Perm (executions dispatcher request))
    (returns : dispatcher.results request durationMs projectReport = .ok returned) :
    Consistent dispatcher request projectReport (storedEntries durationMs projectReport) returned := by
  rw [results] at returns
  cases done : gather dispatcher durationMs projectReport with
  | error error =>
      rw [done] at returns
      cases returns
  | ok gathered =>
      have metrics := gather_metrics done
      obtain ⟨_, deduplicated, produced⟩ := foldlM_gatherUnit done
      rw [done] at returns
      change (gathered.metrics.foldlM addTiming .empty >>= fun timings => gathered.metrics.mapM perRuleEntry >>=
        fun perRule => _) = _ at returns
      rw [metrics, foldlM_addTiming, mapM_perRuleEntry] at returns
      by_cases none_stored : storedEntries durationMs projectReport = []
      · rw [if_pos none_stored] at returns
        cases returns
        constructor
        case total => rfl
        case deduplicated =>
          refine deduplicated.trans ?_
          rw [deduplicatedSum, OrderedDict.values, List.map_map]
          exact Nat.zero_add _
        case metrics => rfl
        case complete => exact complete
        case reflected => exact storedEntries_reflected durationMs projectReport
        case perRule => rw [none_stored]; rfl
        case timed => exact invocations_timings (storedEntries durationMs projectReport)
        case produced =>
          intro violation inside
          obtain ⟨entry, member, made⟩ := (produced violation inside).resolve_left (List.not_mem_nil)
          obtain ⟨finding, found, metadata, same⟩ := made
          have owner : violation.translationUnitId = entry.1 := by
            rw [same]
            rfl
          rw [Produced, owner]
          exact ⟨entry.2, (OrderedDict.mem_entries_iff _ _ _).mp member, finding, found, metadata, same⟩
      · rw [if_neg none_stored] at returns
        cases returns

/-- No results are returned where an entry has been stored. -/
theorem results_raises {durationMs : String → Nat → Rat} {projectReport : ProjectExecutionReport}
    (stored : storedEntries durationMs projectReport ≠ []) (returned : Results) :
    dispatcher.results request durationMs projectReport ≠ .ok returned := by
  intro returns
  rw [results] at returns
  cases done : gather dispatcher durationMs projectReport with
  | error error =>
      rw [done] at returns
      cases returns
  | ok gathered =>
      rw [done] at returns
      change (gathered.metrics.foldlM addTiming .empty >>= fun timings => gathered.metrics.mapM perRuleEntry >>=
        fun perRule => _) = _ at returns
      rw [gather_metrics done, foldlM_addTiming, mapM_perRuleEntry, if_neg stored] at returns
      cases returns

/-- A unit without rules has no findings. -/
theorem engineReport_empty {pool : WorkerPool} {job : TranslationUnitJob ArtifactContext}
    {tuReport : ExecutionReport} (full : pool.EngineReport job tuReport) (idle : job.rules = []) :
    tuReport.violations = [] := by
  obtain ⟨completion, executed⟩ := full
  have nothing : completion.order 0 [] = [] := (completion.complete 0 []).eq_nil
  rw [idle] at executed
  cases executed
  simp [RuleExecutionEngine.report, RuleExecutionEngine.collect, nothing, RuleExecutionEngine.deduplicate]

theorem foldlM_gatherUnit_ok (durationMs : String → Nat → Rat) (entries : List (String × ExecutionReport))
    (quiet : ∀ entry ∈ entries, entry.2.violations = []) (before : Gathered) :
    ∃ gathered, entries.foldlM (gatherUnit dispatcher durationMs) before = .ok gathered := by
  induction entries generalizing before with
  | nil => exact ⟨before, rfl⟩
  | cons entry rest ih =>
      rw [List.foldlM_cons, gatherUnit, mapM_storeMetric, quiet entry List.mem_cons_self]
      exact ih (fun other member => quiet other (List.mem_cons_of_mem _ member)) _

/-- Results are returned where nothing was found and nothing is stored. -/
theorem results_returns (request : DispatchRequest) (durationMs : String → Nat → Rat)
    (projectReport : ProjectExecutionReport)
    (quiet : ∀ entry ∈ projectReport.translationUnitReports.entries, entry.2.violations = [])
    (unstored : storedEntries durationMs projectReport = []) :
    ∃ returned, dispatcher.results request durationMs projectReport = .ok returned := by
  obtain ⟨gathered, done⟩ := @foldlM_gatherUnit_ok dispatcher durationMs _ quiet {}
  have metrics := gather_metrics done
  rw [unstored, List.map_nil] at metrics
  rw [results, gather, done]
  change ∃ returned, (gathered.metrics.foldlM addTiming .empty >>= fun timings =>
    gathered.metrics.mapM perRuleEntry >>= fun perRule => _) = _
  rw [metrics]
  exact ⟨_, rfl⟩

end Results

theorem executions_eq_nil (wellFormed : request.WellFormed) : executions dispatcher request = [] ↔
    request.artifacts = [] ∨ dispatcher.registry.selectRules request.enabledRules = [] := by
  have units : request.artifacts = [] ↔ request.translationUnitIds = [] := by
    rw [← List.length_eq_zero_iff, wellFormed.matched, List.length_eq_zero_iff]
  rw [executions, List.flatMap_eq_nil_iff, units]
  constructor
  · intro nothing
    cases ids : request.translationUnitIds with
    | nil => exact .inl rfl
    | cons unitId rest => exact .inr (List.map_eq_nil_iff.mp (nothing unitId (ids ▸ List.mem_cons_self)))
  · rintro (noUnits | noRules) unitId member
    · rw [noUnits] at member
      cases member
    · rw [noRules]
      rfl

/-- A batch whose results are consistent executes nothing. -/
theorem executions_of_consistent (wellFormed : request.WellFormed)
    (consistent : ConsistentResults dispatcher request) : executions dispatcher request = [] := by
  obtain ⟨state, run, finished, uncancelled⟩ := dispatcher.workerPool.exists_uncancelled_run
    (List.zipWith (fun artifact translationUnitId => ⟨translationUnitId,
      context request (LinkageIndex.build (linkedUnits request)) artifact translationUnitId,
      dispatcher.registry.selectRules request.enabledRules⟩) request.artifacts request.translationUnitIds)
  have made := @jobs_wellFormed dispatcher request wellFormed
  obtain ⟨returned, entries, returns, _⟩ := consistent _ _
    (.finished (fun _ _ => 0) _ state made run finished uncancelled)
  have stored : storedEntries (fun _ _ => 0) state.report = [] := by
    by_contra some_stored
    exact results_raises some_stored returned returns
  have complete := storedEntries_complete (fun _ _ => 0) wellFormed made run finished uncancelled
  rw [stored, List.map_nil, List.nil_perm] at complete
  exact complete

/-- The results are consistent exactly where the batch has no artifact or no rule to execute. -/
theorem consistentResults_iff (dispatcher : RuleDispatcher) (request : DispatchRequest)
    (wellFormed : request.WellFormed) : ConsistentResults dispatcher request ↔
      request.artifacts = [] ∨ dispatcher.registry.selectRules request.enabledRules = [] := by
  rw [← executions_eq_nil wellFormed]
  constructor
  · exact executions_of_consistent wellFormed
  · intro nothing projectReport outcome executes
    cases executes with
    | unmatched error raised =>
        rw [jobs_wellFormed wellFormed] at raised
        cases raised
    | finished durationMs batch state made run finished uncancelled =>
        have complete := storedEntries_complete durationMs wellFormed made run finished uncancelled
        have unstored : storedEntries durationMs state.report = [] := by
          rw [nothing, List.perm_nil, List.map_eq_nil_iff] at complete
          exact complete
        obtain ⟨ids, rules⟩ := jobs_members wellFormed made
        have quiet : ∀ entry ∈ state.report.translationUnitReports.entries, entry.2.violations = [] := by
          intro entry member
          obtain ⟨job, listed, same, full⟩ :=
            (run.sound (ids ▸ wellFormed.distinct)).recorded entry.1 entry.2 member
          apply engineReport_empty full
          rw [rules job listed]
          cases (executions_eq_nil wellFormed).mp nothing with
          | inl noArtifacts =>
              rw [jobs_wellFormed wellFormed, noArtifacts] at made
              cases made
              cases listed
          | inr noRules => exact noRules
        obtain ⟨returned, returns⟩ := results_returns request durationMs state.report quiet unstored
        exact ⟨returned, _, returns, consistent_of_results complete returns⟩

section Sample

/-- The rule finds nothing. -/
def silentRule : RulePlugin ArtifactContext where
  metadata := ⟨"misra-c2012-rule-2-1", "C_control_flow", []⟩
  detect := fun _ _ => .ok []

def silentDispatcher : RuleDispatcher where
  registry :=
    { plugins := ⟨[("misra-c2012-rule-2-1", silentRule)], by decide⟩
      metadata := ⟨[("misra-c2012-rule-2-1", ⟨"required", "mandatory"⟩)], by decide⟩
      keyed := by simp [silentRule]
      sameKeys := rfl }
  workerPool := WorkerPool.samplePool

def singleRequest : DispatchRequest where
  artifacts := [⟨"demo.c", [], [], .dict []⟩]
  translationUnitIds := ["tu-1"]

theorem singleRequest_wellFormed : singleRequest.WellFormed where
  matched := rfl
  distinct := by decide

/-- One artifact and one rule that finds nothing are enough to raise. -/
theorem singleRequest_raises : ¬ ConsistentResults silentDispatcher singleRequest := by
  intro consistent
  have nothing := executions_of_consistent singleRequest_wellFormed consistent
  exact absurd nothing (by decide)

theorem consistentResults_iff_single : ConsistentResults silentDispatcher singleRequest ↔
    singleRequest.artifacts = [] ∨ silentDispatcher.registry.selectRules singleRequest.enabledRules = [] :=
  consistentResults_iff silentDispatcher singleRequest singleRequest_wellFormed

end Sample

end MisraPlatform.RuleDispatcher
