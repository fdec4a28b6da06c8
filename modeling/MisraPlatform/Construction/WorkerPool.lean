import Mathlib.Logic.Relation
import MisraPlatform.Construction.RuleEngine

/-
This file is the pool that runs the engine over the translation units of a project.
-/

namespace MisraPlatform

structure TranslationUnitJob (Context : Type) where
  translationUnitId : String
  context : Context
  rules : List (RulePlugin Context)

structure WorkerProgress where
  translationUnitsTotal : Nat := 0
  translationUnitsCompleted : Nat := 0
  rulesExecuted : Nat := 0
  violationsFound : Nat := 0
  cancelled : Bool := false

structure ProjectExecutionReport where
  translationUnitReports : OrderedDict String ExecutionReport := .empty
  progress : WorkerProgress := {}

/-- The pool has at least one worker, the engine has the workers for the rules of one unit. -/
structure WorkerPool where
  tuWorkers : Nat
  ruleEngine : RuleExecutionEngine
  sha256 : String → String
  positive : 0 < tuWorkers

namespace WorkerPool

variable {Context : Type}

/-- A worker that has started a job reads the cancel flag before it calls the engine. -/
inductive JobStatus
  | pending
  | started
  | executing
  | done (report : ExecutionReport)
  | yielded

structure JobFuture (Context : Type) where
  job : TranslationUnitJob Context
  status : JobStatus

/-- The loop of `execute_project` holds the future that it was given until it has recorded the report. -/
inductive MainPhase (Context : Type)
  | submitting (jobs : List (TranslationUnitJob Context))
  | waiting
  | holding (job : TranslationUnitJob Context) (report : ExecutionReport)
  | recording (job : TranslationUnitJob Context) (report : ExecutionReport)
  | finished

structure PoolState (Context : Type) where
  cancelEvent : Bool
  futures : List (JobFuture Context)
  main : MainPhase Context
  report : ProjectExecutionReport

/-- A fresh pool is not cancelled. -/
def initial (jobs : List (TranslationUnitJob Context)) : PoolState Context where
  cancelEvent := false
  futures := []
  main := .submitting jobs
  report := { progress := { translationUnitsTotal := jobs.length } }

/-- This is a report of the engine for the job, for some order in which its rules complete. -/
def EngineReport (pool : WorkerPool) (job : TranslationUnitJob Context) (report : ExecutionReport) : Prop :=
  ∃ completion, pool.ruleEngine.execute pool.sha256 completion job.context job.rules false = .ok report

def JobStatus.isActive : JobStatus → Bool
  | .started => true
  | .executing => true
  | _ => false

def active (state : PoolState Context) : Nat := state.futures.countP fun future => future.status.isActive

/-- The status of a job whose worker has read the flag. -/
def checked (cancelEvent : Bool) : JobStatus := if cancelEvent then .done {} else .executing

def recordReport (report : ProjectExecutionReport) (job : TranslationUnitJob Context)
    (tuReport : ExecutionReport) : ProjectExecutionReport where
  translationUnitReports := report.translationUnitReports.insert job.translationUnitId tuReport
  progress := { report.progress with
    translationUnitsCompleted := report.progress.translationUnitsCompleted + 1
    rulesExecuted := report.progress.rulesExecuted + tuReport.metrics.length
    violationsFound := report.progress.violationsFound + tuReport.violations.length }

def markCancelled (report : ProjectExecutionReport) : ProjectExecutionReport :=
  { report with progress := { report.progress with cancelled := true } }

/-- Each step is one action of the caller, of a worker or of the collecting loop. -/
inductive Step (pool : WorkerPool) : PoolState Context → PoolState Context → Prop
  | cancel (state) : Step pool state { state with cancelEvent := true }
  | submit (state job rest) : state.main = .submitting (job :: rest) →
      Step pool state { state with
        futures := state.futures ++ [⟨job, .pending⟩]
        main := .submitting rest }
  | submitted (state) : state.main = .submitting [] → Step pool state { state with main := .waiting }
  | start (state before job after) : state.futures = before ++ ⟨job, .pending⟩ :: after →
      active state < pool.tuWorkers →
      Step pool state { state with futures := before ++ ⟨job, .started⟩ :: after }
  | check (state before job after) : state.futures = before ++ ⟨job, .started⟩ :: after →
      Step pool state { state with futures := before ++ ⟨job, checked state.cancelEvent⟩ :: after }
  | finish (state before job after report) : state.futures = before ++ ⟨job, .executing⟩ :: after →
      pool.EngineReport job report →
      Step pool state { state with futures := before ++ ⟨job, .done report⟩ :: after }
  | yield (state before job after report) : state.main = .waiting →
      state.futures = before ++ ⟨job, .done report⟩ :: after →
      Step pool state { state with
        futures := before ++ ⟨job, .yielded⟩ :: after
        main := .holding job report }
  | stop (state job report) : state.main = .holding job report → state.cancelEvent = true →
      Step pool state { state with main := .finished, report := markCancelled state.report }
  | accept (state job report) : state.main = .holding job report → state.cancelEvent = false →
      Step pool state { state with main := .recording job report }
  | record (state job report) : state.main = .recording job report →
      Step pool state { state with main := .waiting, report := recordReport state.report job report }
  | exhausted (state) : state.main = .waiting → (∀ future ∈ state.futures, future.status = .yielded) →
      Step pool state { state with main := .finished }

/-- A run of the pool is any interleaving of the steps. -/
def Runs (pool : WorkerPool) (jobs : List (TranslationUnitJob Context)) (state : PoolState Context) : Prop :=
  Relation.ReflTransGen (Step pool) (initial jobs) state

end WorkerPool
end MisraPlatform
