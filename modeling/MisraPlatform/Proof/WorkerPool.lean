import MisraPlatform.Construction.WorkerPool
import MisraPlatform.Proof.RuleEngine

/-
This file proves that a cancelled project run records only complete reports.
-/

namespace MisraPlatform.WorkerPool

variable {Context : Type} {pool : WorkerPool} {jobs : List (TranslationUnitJob Context)}
  {state later : PoolState Context}

/-- The jobs that the loop has not submitted yet. -/
def MainPhase.unsubmitted : MainPhase Context → List (TranslationUnitJob Context)
  | .submitting jobs => jobs
  | _ => []

/-- The job that the loop holds. -/
def MainPhase.held : MainPhase Context → List String
  | .holding job _ => [job.translationUnitId]
  | .recording job _ => [job.translationUnitId]
  | _ => []

def JobStatus.isYielded : JobStatus → Bool
  | .yielded => true
  | _ => false

def yieldedIds (futures : List (JobFuture Context)) : List String :=
  (futures.filter fun future => future.status.isYielded).map fun future => future.job.translationUnitId

def total {α : Type} (measure : α → Nat) (items : List α) : Nat :=
  items.foldr (fun item sum => measure item + sum) 0

theorem total_append {α : Type} (measure : α → Nat) (items others : List α) :
    total measure (items ++ others) = total measure items + total measure others := by
  induction items with
  | nil => exact (Nat.zero_add _).symm
  | cons item rest ih =>
      change measure item + total measure (rest ++ others) = measure item + total measure rest + _
      rw [ih, Nat.add_assoc]

@[simp] theorem total_cons {α : Type} (measure : α → Nat) (item : α) (rest : List α) :
    total measure (item :: rest) = measure item + total measure rest := rfl

@[simp] theorem total_nil {α : Type} (measure : α → Nat) : total measure [] = 0 := rfl

/-- The counters of the progress are sums over the recorded reports. -/
structure Summed (report : ProjectExecutionReport) : Prop where
  completed : report.progress.translationUnitsCompleted = report.translationUnitReports.size
  rules : report.progress.rulesExecuted =
    total (fun tuReport => tuReport.metrics.length) report.translationUnitReports.values
  violations : report.progress.violationsFound =
    total (fun tuReport => tuReport.violations.length) report.translationUnitReports.values

/-- A report that a worker or the loop has is complete, unless the flag is set. -/
structure Sound (pool : WorkerPool) (jobs : List (TranslationUnitJob Context)) (state : PoolState Context) :
    Prop where
  submitted : state.futures.map JobFuture.job ++ state.main.unsubmitted = jobs
  done : ∀ future ∈ state.futures, ∀ report, future.status = .done report →
    pool.EngineReport future.job report ∨ state.cancelEvent = true
  holding : ∀ job report, state.main = .holding job report →
    job ∈ jobs ∧ (pool.EngineReport job report ∨ state.cancelEvent = true)
  recording : ∀ job report, state.main = .recording job report →
    job ∈ jobs ∧ pool.EngineReport job report
  recorded : ∀ unitId report, (unitId, report) ∈ state.report.translationUnitReports.entries →
    ∃ job ∈ jobs, job.translationUnitId = unitId ∧ pool.EngineReport job report
  summed : Summed state.report
  collected : state.report.progress.cancelled = false →
    (state.report.translationUnitReports.keys ++ state.main.held).Perm (yieldedIds state.futures)
  cancelled : state.report.progress.cancelled = true → state.main = .finished
  complete : state.main = .finished → state.report.progress.cancelled = false →
    ∀ job ∈ jobs, job.translationUnitId ∈ state.report.translationUnitReports.keys

theorem initial_sound : Sound pool jobs (initial jobs) where
  submitted := rfl
  done := by simp [initial]
  holding := by simp [initial]
  recording := by simp [initial]
  recorded := by simp [initial, OrderedDict.empty]
  summed := by constructor <;> simp [initial, OrderedDict.empty, OrderedDict.size, OrderedDict.values]
  collected := by simp [initial, MainPhase.held, yieldedIds, OrderedDict.keys, OrderedDict.empty]
  cancelled := by simp [initial]
  complete := by simp [initial]

/-- A worker changes the status of one job, and never to or from a yielded one. -/
theorem Sound.update (sound : Sound pool jobs state) {before after : List (JobFuture Context)}
    {job : TranslationUnitJob Context} {status next : JobStatus}
    (futures : state.futures = before ++ ⟨job, status⟩ :: after)
    (unyielded : status.isYielded = false) (nextUnyielded : next.isYielded = false)
    (full : ∀ report, next = .done report → pool.EngineReport job report ∨ state.cancelEvent = true) :
    Sound pool jobs { state with futures := before ++ ⟨job, next⟩ :: after } where
  submitted := by
    have submitted := sound.submitted
    rw [futures] at submitted
    simpa using submitted
  done future inside report status := by
    have member : ∀ other ∈ before ++ after, other ∈ state.futures := by
      intro other found
      rw [futures]
      simp only [List.mem_append, List.mem_cons] at found ⊢
      tauto
    by_cases same : future = ⟨job, next⟩
    · subst same
      exact full report status
    · apply sound.done future (member future _) report status
      simp only [List.mem_append, List.mem_cons] at inside ⊢
      tauto
  holding := sound.holding
  recording := sound.recording
  recorded := sound.recorded
  summed := sound.summed
  collected open_ := by
    have collected := sound.collected open_
    have same : yieldedIds (before ++ ⟨job, next⟩ :: after) = yieldedIds state.futures := by
      rw [futures]
      simp [yieldedIds, unyielded, nextUnyielded]
    rw [same]
    exact collected
  cancelled := sound.cancelled
  complete := sound.complete

theorem yieldedIds_nodup (sound : Sound pool jobs state)
    (distinct : (jobs.map fun job => job.translationUnitId).Nodup) : (yieldedIds state.futures).Nodup := by
  have submitted := sound.submitted
  rw [← submitted, List.map_append] at distinct
  have ids := (List.nodup_append.mp distinct).1
  rw [List.map_map] at ids
  exact (List.filter_sublist.map _).nodup ids

/-- The yielded future is one of the jobs, and its report is complete or the flag is set. -/
theorem Sound.yield (sound : Sound pool jobs state) {before after : List (JobFuture Context)}
    {job : TranslationUnitJob Context} {report : ExecutionReport} (waiting : state.main = .waiting)
    (futures : state.futures = before ++ ⟨job, .done report⟩ :: after) :
    Sound pool jobs { state with
      futures := before ++ ⟨job, .yielded⟩ :: after
      main := .holding job report } where
  submitted := by
    have submitted := sound.submitted
    rw [futures, waiting] at submitted
    simpa [MainPhase.unsubmitted] using submitted
  done future inside other status := by
    apply sound.done future _ other status
    rw [futures]
    simp only [List.mem_append, List.mem_cons] at inside ⊢
    rcases inside with earlier | same | rest
    · exact .inl earlier
    · rw [same] at status
      cases status
    · exact .inr (.inr rest)
  holding other tuReport held := by
    cases held
    constructor
    · rw [← sound.submitted, futures]
      simp
    · exact sound.done ⟨job, .done report⟩ (by rw [futures]; simp) report rfl
  recording := by simp
  recorded := sound.recorded
  summed := sound.summed
  collected open_ := by
    have collected := sound.collected open_
    rw [waiting] at collected
    have added : (yieldedIds (before ++ ⟨job, .yielded⟩ :: after)).Perm
        (job.translationUnitId :: yieldedIds state.futures) := by
      rw [futures]
      simp only [yieldedIds, List.filter_append, List.filter_cons, JobStatus.isYielded, if_true,
        Bool.false_eq_true, if_false, List.map_append, List.map_cons]
      exact List.perm_middle
    simp only [MainPhase.held, List.append_nil] at collected ⊢
    exact (List.perm_append_singleton _ _).trans ((collected.cons _).trans added.symm)
  cancelled marked := by
    have finished := sound.cancelled marked
    rw [waiting] at finished
    cases finished
  complete := by simp

/-- A recorded report is complete, and its key is new. -/
theorem Sound.record (sound : Sound pool jobs state)
    (distinct : (jobs.map fun job => job.translationUnitId).Nodup) {job : TranslationUnitJob Context}
    {report : ExecutionReport} (recording : state.main = .recording job report) :
    Sound pool jobs { state with main := .waiting, report := recordReport state.report job report } := by
  have uncancelled : state.report.progress.cancelled = false := by
    by_contra marked
    have finished := sound.cancelled (by simpa using marked)
    rw [recording] at finished
    cases finished
  have collected := sound.collected uncancelled
  rw [recording] at collected
  have fresh : job.translationUnitId ∉ state.report.translationUnitReports.keys := by
    have distinctKeys := collected.nodup_iff.mpr (yieldedIds_nodup sound distinct)
    intro known
    exact (List.nodup_append.mp distinctKeys).2.2 _ known _ (by simp [MainPhase.held]) rfl
  have entries := OrderedDict.entries_insert_of_absent state.report.translationUnitReports
    job.translationUnitId report fresh
  have keys := OrderedDict.keys_insert_of_absent state.report.translationUnitReports
    job.translationUnitId report fresh
  have full := sound.recording job report recording
  constructor
  · have submitted := sound.submitted
    rw [recording] at submitted
    exact submitted
  · exact sound.done
  · simp
  · simp
  · intro unitId tuReport inside
    change (unitId, tuReport) ∈ (state.report.translationUnitReports.insert job.translationUnitId report).entries
      at inside
    rw [entries, List.mem_append, List.mem_singleton, Prod.mk.injEq] at inside
    cases inside with
    | inl earlier => exact sound.recorded unitId tuReport earlier
    | inr same => exact ⟨job, full.1, same.1.symm, same.2 ▸ full.2⟩
  · constructor
    · change state.report.progress.translationUnitsCompleted + 1 =
        (state.report.translationUnitReports.insert job.translationUnitId report).size
      rw [sound.summed.completed, OrderedDict.size, OrderedDict.size, entries]
      simp
    · change state.report.progress.rulesExecuted + report.metrics.length =
        total _ (state.report.translationUnitReports.insert job.translationUnitId report).values
      rw [sound.summed.rules, OrderedDict.values, OrderedDict.values, entries, List.map_append, total_append]
      rfl
    · change state.report.progress.violationsFound + report.violations.length =
        total _ (state.report.translationUnitReports.insert job.translationUnitId report).values
      rw [sound.summed.violations, OrderedDict.values, OrderedDict.values, entries, List.map_append,
        total_append]
      rfl
  · intro _
    change ((state.report.translationUnitReports.insert job.translationUnitId report).keys ++ []).Perm _
    rw [keys, List.append_nil]
    exact collected
  · intro marked
    exact absurd marked (by simp [recordReport, uncancelled])
  · simp

/-- Every step of the caller, a worker or the loop keeps the invariant. -/
theorem Sound.step (sound : Sound pool jobs state)
    (distinct : (jobs.map fun job => job.translationUnitId).Nodup) (step : Step pool state later) :
    Sound pool jobs later := by
  cases step with
  | cancel =>
      exact { sound with
        done := fun _ _ _ _ => .inr rfl
        holding := fun job report held => ⟨(sound.holding job report held).1, .inr rfl⟩ }
  | submit job rest submitting =>
      have submitted := sound.submitted
      rw [submitting] at submitted
      refine { sound with
        submitted := by simpa [MainPhase.unsubmitted] using submitted
        done := ?_
        holding := by simp
        recording := by simp
        collected := ?_
        cancelled := ?_
        complete := by simp }
      · intro future inside report status
        rw [List.mem_append, List.mem_singleton] at inside
        cases inside with
        | inl earlier => exact sound.done future earlier report status
        | inr same =>
            rw [same] at status
            cases status
      · intro open_
        have collected := sound.collected open_
        rw [submitting] at collected
        simpa [yieldedIds, MainPhase.held, JobStatus.isYielded] using collected
      · intro marked
        have finished := sound.cancelled marked
        rw [submitting] at finished
        cases finished
  | submitted submitting =>
      have submitted := sound.submitted
      rw [submitting] at submitted
      refine { sound with
        submitted := submitted
        holding := by simp
        recording := by simp
        collected := ?_
        cancelled := ?_
        complete := by simp }
      · intro open_
        have collected := sound.collected open_
        rw [submitting] at collected
        exact collected
      · intro marked
        have finished := sound.cancelled marked
        rw [submitting] at finished
        cases finished
  | start before job after futures room => exact sound.update futures rfl rfl (by simp)
  | check before job after futures =>
      apply sound.update futures rfl
      · cases state.cancelEvent <;> rfl
      · intro report done
        cases flag : state.cancelEvent with
        | true => exact .inr rfl
        | false =>
            rw [flag] at done
            cases done
  | finish before job after report futures full =>
      apply sound.update futures rfl rfl
      intro other done
      cases done
      exact .inl full
  | yield before job after report waiting futures => exact sound.yield waiting futures
  | stop job report held flag =>
      have submitted := sound.submitted
      rw [held] at submitted
      exact { sound with
        submitted := submitted
        holding := by simp
        recording := by simp
        summed := ⟨sound.summed.completed, sound.summed.rules, sound.summed.violations⟩
        collected := by simp [markCancelled]
        cancelled := fun _ => rfl
        complete := by simp [markCancelled] }
  | accept job report held flag =>
      have submitted := sound.submitted
      rw [held] at submitted
      obtain ⟨member, full⟩ := sound.holding job report held
      refine { sound with
        submitted := submitted
        holding := by simp
        recording := ?_
        collected := ?_
        cancelled := ?_
        complete := by simp }
      · intro other tuReport recording
        cases recording
        exact ⟨member, full.resolve_right (by simp [flag])⟩
      · intro open_
        have collected := sound.collected open_
        rw [held] at collected
        exact collected
      · intro marked
        have finished := sound.cancelled marked
        rw [held] at finished
        cases finished
  | record job report recording => exact sound.record distinct recording
  | exhausted waiting all =>
      have submitted := sound.submitted
      rw [waiting] at submitted
      refine { sound with
        submitted := submitted
        holding := by simp
        recording := by simp
        collected := ?_
        cancelled := fun _ => rfl
        complete := ?_ }
      · intro open_
        have collected := sound.collected open_
        rw [waiting] at collected
        exact collected
      · intro _ uncancelled job member
        have collected := sound.collected uncancelled
        rw [waiting] at collected
        simp only [MainPhase.held, MainPhase.unsubmitted, List.append_nil] at collected submitted
        rw [collected.mem_iff, yieldedIds, List.filter_eq_self.mpr]
        · rw [← submitted, List.mem_map] at member
          obtain ⟨future, inside, same⟩ := member
          exact List.mem_map.mpr ⟨future, inside, by rw [same]⟩
        · intro future inside
          rw [all future inside]
          rfl

/-- The induction is on the steps of the run. -/
theorem Runs.sound (run : Runs pool jobs state)
    (distinct : (jobs.map fun job => job.translationUnitId).Nodup) : Sound pool jobs state := by
  induction run with
  | refl => exact initial_sound
  | tail _ step ih => exact ih.step distinct step

section Progress

/-- A step other than a cancellation lowers these weights. -/
def JobStatus.weight : JobStatus → Nat
  | .pending => 7
  | .started => 6
  | .executing => 5
  | .done _ => 4
  | .yielded => 0

def MainPhase.weight : MainPhase Context → Nat
  | .submitting jobs => 8 * jobs.length + 3
  | .waiting => 2
  | .holding _ _ => 4
  | .recording _ _ => 3
  | .finished => 0

def work (state : PoolState Context) : Nat :=
  total (fun future => future.status.weight) state.futures + state.main.weight

/-- An ungrouped run of the engine always returns a report. -/
theorem engineReport_of_order (pool : WorkerPool) (job : TranslationUnitJob Context)
    (completion : CompletionOrder (RulePlugin Context)) :
    pool.EngineReport job (RuleExecutionEngine.report pool.sha256
      (pool.ruleEngine.collect completion job.context [job.rules])) := ⟨completion, rfl⟩

theorem engineReport_exists (pool : WorkerPool) (job : TranslationUnitJob Context) :
    ∃ report, pool.EngineReport job report :=
  ⟨_, engineReport_of_order pool job ⟨fun _ wave => wave, fun _ _ => List.Perm.refl _⟩⟩

/-- A future that is not yielded lets some worker or the loop act. -/
theorem waiting_progress (pool : WorkerPool) (waiting : state.main = .waiting) {future : JobFuture Context}
    (inside : future ∈ state.futures) (unyielded : future.status ≠ .yielded) :
    ∃ later, Step pool state later ∧ work later < work state := by
  by_cases idle : ∀ other ∈ state.futures, other.status.isActive = false
  · obtain ⟨before, after, futures⟩ := List.append_of_mem inside
    obtain ⟨job, status⟩ := future
    have free : active state = 0 := List.countP_eq_zero.mpr fun other found => by simp [idle other found]
    have quiet := idle _ inside
    cases status with
    | pending =>
        refine ⟨_, .start state before job after futures (by rw [free]; exact pool.positive), ?_⟩
        simp only [work, futures, total_append, total_cons, JobStatus.weight]
        omega
    | started => cases quiet
    | executing => cases quiet
    | done report =>
        refine ⟨_, .yield state before job after report waiting futures, ?_⟩
        simp only [work, futures, waiting, total_append, total_cons, JobStatus.weight, MainPhase.weight]
        omega
    | yielded => exact absurd rfl unyielded
  · simp only [not_forall, Bool.not_eq_false] at idle
    obtain ⟨⟨job, status⟩, found, acts⟩ := idle
    obtain ⟨before, after, futures⟩ := List.append_of_mem found
    cases status with
    | started =>
        refine ⟨_, .check state before job after futures, ?_⟩
        have lower : (checked state.cancelEvent).weight < JobStatus.started.weight := by
          cases state.cancelEvent <;> decide
        simp only [work, futures, total_append, total_cons]
        omega
    | executing =>
        obtain ⟨report, full⟩ := engineReport_exists pool job
        refine ⟨_, .finish state before job after report futures full, ?_⟩
        simp only [work, futures, total_append, total_cons, JobStatus.weight]
        omega
    | pending => cases acts
    | done report => cases acts
    | yielded => cases acts

theorem progress (pool : WorkerPool) (unfinished : state.main ≠ .finished) :
    ∃ later, Step pool state later ∧ work later < work state := by
  cases main : state.main with
  | submitting jobs =>
      cases jobs with
      | nil =>
          refine ⟨_, .submitted state main, ?_⟩
          simp [work, main, MainPhase.weight]
      | cons job rest =>
          refine ⟨_, .submit state job rest main, ?_⟩
          simp only [work, main, MainPhase.weight, JobStatus.weight, total_append, total_cons, total_nil,
            List.length_cons]
          omega
  | waiting =>
      by_cases all : ∀ future ∈ state.futures, future.status = .yielded
      · refine ⟨_, .exhausted state main all, ?_⟩
        simp [work, main, MainPhase.weight]
      · simp only [not_forall] at all
        obtain ⟨future, inside, unyielded⟩ := all
        exact waiting_progress pool main inside unyielded
  | holding job report =>
      cases flag : state.cancelEvent with
      | true =>
          refine ⟨_, .stop state job report main flag, ?_⟩
          simp [work, main, MainPhase.weight]
      | false =>
          refine ⟨_, .accept state job report main flag, ?_⟩
          simp [work, main, MainPhase.weight]
  | recording job report =>
      refine ⟨_, .record state job report main, ?_⟩
      simp [work, main, MainPhase.weight]
  | finished => exact absurd main unfinished

/-- Only a cancellation sets the flag, and it leaves the work as it was. -/
theorem Step.flag_eq (step : Step pool state later) (less : work later < work state) :
    later.cancelEvent = state.cancelEvent := by
  cases step with
  | cancel => exact absurd less (lt_irrefl _)
  | _ => rfl

/-- A report is marked only after the flag has been set. -/
theorem Step.marked (step : Step pool state later)
    (marked : state.report.progress.cancelled = true → state.cancelEvent = true) :
    later.report.progress.cancelled = true → later.cancelEvent = true := by
  cases step with
  | cancel => exact fun _ => rfl
  | stop job report holding flag => exact fun _ => flag
  | _ => exact marked

theorem Runs.marked (run : Runs pool jobs state) :
    state.report.progress.cancelled = true → state.cancelEvent = true := by
  induction run with
  | refl => exact fun cancelled => nomatch cancelled
  | tail _ step ih => exact step.marked ih

/-- Every state can be run to its end without a cancellation. -/
theorem can_finish_quietly (pool : WorkerPool) (state : PoolState Context) :
    ∃ last, Relation.ReflTransGen (Step pool) state last ∧ last.main = .finished ∧
      last.cancelEvent = state.cancelEvent := by
  induction left : work state using Nat.strong_induction_on generalizing state with
  | _ bound ih =>
      by_cases finished : state.main = .finished
      · exact ⟨state, .refl, finished, rfl⟩
      · obtain ⟨next, step, less⟩ := progress pool finished
        obtain ⟨last, run, ended, same⟩ := ih (work next) (left ▸ less) next rfl
        exact ⟨last, .head step run, ended, same.trans (step.flag_eq less)⟩

theorem can_finish (pool : WorkerPool) (state : PoolState Context) :
    ∃ last, Relation.ReflTransGen (Step pool) state last ∧ last.main = .finished := by
  obtain ⟨last, run, ended, _⟩ := can_finish_quietly pool state
  exact ⟨last, run, ended⟩

/-- Every list of jobs has a run that nothing cancels. -/
theorem exists_uncancelled_run (pool : WorkerPool) (jobs : List (TranslationUnitJob Context)) :
    ∃ state, Runs pool jobs state ∧ state.main = .finished ∧ state.report.progress.cancelled = false := by
  obtain ⟨last, run, ended, same⟩ := can_finish_quietly pool (initial jobs)
  have quiet : last.cancelEvent = false := same
  refine ⟨last, run, ended, ?_⟩
  rw [← Bool.not_eq_true]
  intro cancelled
  exact absurd (Runs.marked run cancelled) (by rw [quiet]; decide)

end Progress

/-- Every run can be ended, every recorded report is the complete one of its job, the progress counts them,
and a finished run that was not cancelled has recorded every job. -/
theorem executeProject_complete (pool : WorkerPool) (jobs : List (TranslationUnitJob Context))
    (distinct : (jobs.map fun job => job.translationUnitId).Nodup) (state : PoolState Context)
    (run : pool.Runs jobs state) :
    (∃ last, Relation.ReflTransGen (Step pool) state last ∧ last.main = .finished) ∧
    (∀ unitId report, state.report.translationUnitReports.get? unitId = some report →
      ∃ job ∈ jobs, job.translationUnitId = unitId ∧ pool.EngineReport job report) ∧
    Summed state.report ∧
    (state.main = .finished → state.report.progress.cancelled = false → ∀ job ∈ jobs, ∃ report,
      state.report.translationUnitReports.get? job.translationUnitId = some report ∧
        pool.EngineReport job report) := by
  have sound := run.sound distinct
  have recorded : ∀ unitId report, state.report.translationUnitReports.get? unitId = some report →
      ∃ job ∈ jobs, job.translationUnitId = unitId ∧ pool.EngineReport job report :=
    fun unitId report found => sound.recorded unitId report ((OrderedDict.mem_entries_iff _ _ _).mpr found)
  refine ⟨can_finish pool state, recorded, sound.summed, ?_⟩
  intro finished uncancelled job member
  obtain ⟨report, found⟩ := (OrderedDict.mem_keys_iff _ _).mp (sound.complete finished uncancelled job member)
  obtain ⟨owner, ownerMember, same, full⟩ := recorded _ _ found
  have joined : owner = job := List.inj_on_of_nodup_map distinct ownerMember member same
  exact ⟨report, found, joined ▸ full⟩

section Sample
open RuleExecutionEngine

def samplePool : WorkerPool := ⟨2, sampleEngine, sampleDigest, by decide⟩

def sampleJob : TranslationUnitJob Unit := ⟨"tu-1", (), sampleRules⟩

abbrev sampleReport : ExecutionReport :=
  report samplePool.sha256 (samplePool.ruleEngine.collect reversedOrder sampleJob.context [sampleJob.rules])

/-- The pool runs one job to its end and is cancelled after the report has been recorded. -/
theorem sampleRun : ∃ state, samplePool.Runs [sampleJob] state ∧ state.main = .finished ∧
    state.cancelEvent = true ∧ state.report.progress.translationUnitsCompleted = 1 := by
  have submitted : samplePool.Runs [sampleJob] _ := .single (.submit _ sampleJob [] rfl)
  have waits := submitted.tail (.submitted _ rfl)
  have starts := waits.tail (.start _ [] sampleJob [] rfl (by decide))
  have checks := starts.tail (.check _ [] sampleJob [] rfl)
  have finishes := checks.tail (.finish _ [] sampleJob [] sampleReport rfl
    (engineReport_of_order samplePool sampleJob reversedOrder))
  have yields := finishes.tail (.yield _ [] sampleJob [] sampleReport rfl rfl)
  have accepts := yields.tail (.accept _ sampleJob sampleReport rfl rfl)
  have records := accepts.tail (.record _ sampleJob sampleReport rfl)
  have cancels := records.tail (.cancel _)
  have ends := cancels.tail (.exhausted _ rfl (by simp))
  exact ⟨_, ends, rfl, rfl, rfl⟩

theorem executeProject_complete_sample : ∃ state,
    (samplePool.Runs [sampleJob] state ∧ state.main = .finished ∧ state.cancelEvent = true ∧
      state.report.progress.translationUnitsCompleted = 1) ∧
    (∃ last, Relation.ReflTransGen (Step samplePool) state last ∧ last.main = .finished) ∧
    (∀ unitId report, state.report.translationUnitReports.get? unitId = some report →
      ∃ job ∈ [sampleJob], job.translationUnitId = unitId ∧ samplePool.EngineReport job report) ∧
    Summed state.report ∧
    (state.main = .finished → state.report.progress.cancelled = false → ∀ job ∈ [sampleJob], ∃ report,
      state.report.translationUnitReports.get? job.translationUnitId = some report ∧
        samplePool.EngineReport job report) := by
  obtain ⟨state, run, ended⟩ := sampleRun
  exact ⟨state, ⟨run, ended⟩, executeProject_complete samplePool [sampleJob] (by decide) state run⟩

end Sample

end MisraPlatform.WorkerPool
