import Mathlib.Data.List.Basic
import Mathlib.Data.List.Infix

/-
This file is a script of writes and calls that runs in one database session.
-/

namespace MisraPlatform.Transaction

variable {δ : Type}

/-- A write changes the session only, the other operations may raise. -/
inductive Operation (δ : Type)
  | write (change : δ → δ)
  | call (name : String)
  | raise (text : String)
  | flush
  | commit

/-- The session refuses further work once a flush or a commit of it has failed. -/
structure Session (δ : Type) where
  working : δ
  committed : δ
  broken : Bool := false

structure Outcome (δ : Type) where
  error : Option String
  calls : Nat
  session : Session δ

/-- The columns decide what the database accepts, and the calls of a run are counted from 0. -/
structure Surroundings (δ : Type) where
  accepts : δ → Bool
  faults : Nat → Option String

variable (around : Surroundings δ)

/-- This is the error of a flush or a commit that is the call of this number. -/
def refusal (calls : Nat) (session : Session δ) : Option String :=
  if session.broken then some "This session's transaction has been rolled back due to a previous exception"
  else if around.accepts session.working then around.faults calls
  else some "The value of a column is not JSON serializable"

def execute : Nat → List (Operation δ) → Session δ → Outcome δ
  | calls, [], session => ⟨none, calls, session⟩
  | calls, .write change :: rest, session =>
      execute calls rest { session with working := change session.working }
  | calls, .call _ :: rest, session =>
      match around.faults calls with
      | some text => ⟨some text, calls + 1, session⟩
      | none => execute (calls + 1) rest session
  | calls, .raise text :: _, session => ⟨some text, calls, session⟩
  | calls, .flush :: rest, session =>
      match refusal around calls session with
      | some text => ⟨some text, calls + 1, { session with broken := true }⟩
      | none => execute (calls + 1) rest session
  | calls, .commit :: rest, session =>
      match refusal around calls session with
      | some text => ⟨some text, calls + 1, { session with broken := true }⟩
      | none => execute (calls + 1) rest { session with committed := session.working }

/-- The handler of an exception runs in the session of the body. -/
def handled (body : List (Operation δ)) (handler : String → List (Operation δ)) (stored : δ) : δ :=
  let outcome := execute around 0 body ⟨stored, stored, false⟩
  match outcome.error with
  | none => outcome.session.committed
  | some text => (execute around outcome.calls (handler text) outcome.session).session.committed

def Operation.applied (stored : δ) : Operation δ → δ
  | .write change => change stored
  | _ => stored

/-- The writes of a script take effect one after the other. -/
def written (script : List (Operation δ)) (stored : δ) : δ := script.foldl Operation.applied stored

structure Failure where
  text : String
  stores : Bool
  calls : Nat

/-- This is the first action of the script that fails, when the session has had no failure before. -/
def firstFailure : Nat → List (Operation δ) → δ → Option Failure
  | _, [], _ => none
  | calls, .write change :: rest, stored => firstFailure calls rest (change stored)
  | calls, .call _ :: rest, stored =>
      match around.faults calls with
      | some text => some ⟨text, false, calls + 1⟩
      | none => firstFailure (calls + 1) rest stored
  | calls, .raise text :: _, _ => some ⟨text, false, calls⟩
  | calls, .flush :: rest, stored =>
      match refusal around calls ⟨stored, stored, false⟩ with
      | some text => some ⟨text, true, calls + 1⟩
      | none => firstFailure (calls + 1) rest stored
  | calls, .commit :: rest, stored =>
      match refusal around calls ⟨stored, stored, false⟩ with
      | some text => some ⟨text, true, calls + 1⟩
      | none => firstFailure (calls + 1) rest stored

section Written

theorem written_append (first second : List (Operation δ)) (stored : δ) :
    written (first ++ second) stored = written second (written first stored) := List.foldl_append

@[simp] theorem written_nil (stored : δ) : written [] stored = stored := rfl

@[simp] theorem written_cons_write (change : δ → δ) (rest : List (Operation δ)) (stored : δ) :
    written (.write change :: rest) stored = written rest (change stored) := rfl

@[simp] theorem written_cons_call (name : String) (rest : List (Operation δ)) (stored : δ) :
    written (.call name :: rest) stored = written rest stored := rfl

@[simp] theorem written_cons_raise (text : String) (rest : List (Operation δ)) (stored : δ) :
    written (.raise text :: rest) stored = written rest stored := rfl

@[simp] theorem written_cons_flush (rest : List (Operation δ)) (stored : δ) :
    written (.flush :: rest) stored = written rest stored := rfl

@[simp] theorem written_cons_commit (rest : List (Operation δ)) (stored : δ) :
    written (.commit :: rest) stored = written rest stored := rfl

/-- Every write of the script keeps the property. -/
def WritesKeep (keeps : δ → Prop) (script : List (Operation δ)) : Prop :=
  ∀ change, .write change ∈ script → ∀ stored, keeps stored → keeps (change stored)

variable {keeps : δ → Prop} {script : List (Operation δ)}

theorem WritesKeep.part {done : List (Operation δ)} (all : WritesKeep keeps script) (part : done <+: script) :
    WritesKeep keeps done := fun change inside => all change (part.subset inside)

theorem WritesKeep.append {first second : List (Operation δ)} (here : WritesKeep keeps first)
    (there : WritesKeep keeps second) : WritesKeep keeps (first ++ second) := by
  intro change inside
  cases List.mem_append.mp inside with
  | inl before => exact here change before
  | inr behind => exact there change behind

theorem WritesKeep.written (all : WritesKeep keeps script) {stored : δ} (before : keeps stored) :
    keeps (written script stored) := by
  induction script generalizing stored with
  | nil => exact before
  | cons action rest ih =>
      have later : WritesKeep keeps rest := fun change inside => all change (List.mem_cons_of_mem action inside)
      cases action with
      | write change => exact ih later (all change List.mem_cons_self stored before)
      | _ => exact ih later before

end Written

section Prefixes

/-- A run has done a part of its script, and has committed what some part of it had written. -/
theorem execute_prefix (calls : Nat) (script : List (Operation δ)) (session : Session δ) :
    ∃ done, done <+: script ∧ (execute around calls script session).session.working =
        written done session.working ∧
      ((execute around calls script session).session.committed = session.committed ∨
        ∃ stored, stored ++ [.commit] <+: script ∧
          (execute around calls script session).session.committed = written stored session.working) := by
  induction script generalizing calls session with
  | nil => exact ⟨[], List.prefix_rfl, rfl, .inl rfl⟩
  | cons action rest ih =>
      have stopped : ∃ done, done <+: action :: rest ∧ session.working = written done session.working ∧
          (session.committed = session.committed ∨ ∃ stored, stored ++ [.commit] <+: action :: rest ∧
            session.committed = written stored session.working) :=
        ⟨[], List.nil_prefix, rfl, .inl rfl⟩
      -- The rest of the script runs in a session with the writes of this action.
      have continued : ∀ calls later, later.working = written [action] session.working →
          later.committed = session.committed →
          ∃ done, done <+: action :: rest ∧
            (execute around calls rest later).session.working = written done session.working ∧
            ((execute around calls rest later).session.committed = session.committed ∨
              ∃ stored, stored ++ [.commit] <+: action :: rest ∧
                (execute around calls rest later).session.committed = written stored session.working) := by
        intro calls later working committed
        obtain ⟨done, part, wrote, kept⟩ := ih calls later
        refine ⟨action :: done, List.prefix_cons_inj action |>.mpr part, ?_, ?_⟩
        · rw [wrote, working]
          exact (written_append [action] done session.working).symm
        · rw [committed] at kept
          cases kept with
          | inl same => exact .inl same
          | inr found =>
              obtain ⟨stored, before, same⟩ := found
              refine .inr ⟨action :: stored, List.prefix_cons_inj action |>.mpr before, ?_⟩
              rw [same, working]
              exact (written_append [action] stored session.working).symm
      cases action with
      | write change => exact continued calls { session with working := change session.working } rfl rfl
      | call name =>
          rw [execute]
          cases around.faults calls with
          | none => exact continued (calls + 1) session rfl rfl
          | some text => exact stopped
      | raise text => exact stopped
      | flush =>
          rw [execute]
          cases refusal around calls session with
          | none => exact continued (calls + 1) session rfl rfl
          | some text => exact stopped
      | commit =>
          rw [execute]
          cases refusal around calls session with
          | some text => exact stopped
          | none =>
              obtain ⟨done, part, wrote, kept⟩ := ih (calls + 1) { session with committed := session.working }
              refine ⟨.commit :: done, List.prefix_cons_inj _ |>.mpr part, wrote, .inr ?_⟩
              cases kept with
              | inl same => exact ⟨[], List.prefix_cons_inj _ |>.mpr List.nil_prefix, same⟩
              | inr found =>
                  obtain ⟨stored, before, same⟩ := found
                  exact ⟨.commit :: stored, List.prefix_cons_inj _ |>.mpr before, same⟩

/-- A handled run stores what it had, the writes of a part of its body, or these and those of the handler. -/
theorem handled_prefix (body : List (Operation δ)) (handler : String → List (Operation δ)) (stored : δ) :
    handled around body handler stored = stored ∨
      (∃ done, done ++ [.commit] <+: body ∧ handled around body handler stored = written done stored) ∨
      ∃ done text handlerDone, done <+: body ∧ handlerDone ++ [.commit] <+: handler text ∧
        handled around body handler stored = written handlerDone (written done stored) := by
  obtain ⟨done, part, wrote, kept⟩ := execute_prefix around 0 body ⟨stored, stored, false⟩
  rw [handled]
  cases failed : (execute around 0 body ⟨stored, stored, false⟩).error with
  | none =>
      dsimp only
      cases kept with
      | inl same => exact .inl same
      | inr found =>
          obtain ⟨committed, before, same⟩ := found
          exact .inr (.inl ⟨committed, before, same⟩)
  | some text =>
      dsimp only
      obtain ⟨_, _, _, handlerKept⟩ := execute_prefix around
        (execute around 0 body ⟨stored, stored, false⟩).calls (handler text)
        (execute around 0 body ⟨stored, stored, false⟩).session
      cases handlerKept with
      | inl unchanged =>
          rw [unchanged]
          cases kept with
          | inl same => exact .inl same
          | inr found =>
              obtain ⟨committed, before, same⟩ := found
              exact .inr (.inl ⟨committed, before, same⟩)
      | inr found =>
          obtain ⟨handlerDone, before, same⟩ := found
          rw [wrote] at same
          exact .inr (.inr ⟨done, text, handlerDone, part, before, same⟩)

end Prefixes

section Failures

/-- A run stops at the first action that fails, and only a flush or a commit breaks the session. -/
theorem execute_failure (calls : Nat) (script : List (Operation δ)) (session : Session δ)
    (intact : session.broken = false) :
    match firstFailure around calls script session.working with
    | none => (execute around calls script session).error = none ∧
        (execute around calls script session).session.broken = false ∧
        (execute around calls script session).session.working = written script session.working
    | some failure => (execute around calls script session).error = some failure.text ∧
        (execute around calls script session).calls = failure.calls ∧
        (execute around calls script session).session.broken = failure.stores := by
  have sameRefusal : ∀ calls, refusal around calls ⟨session.working, session.working, false⟩ =
      refusal around calls session := by
    intro calls
    rw [refusal, refusal, intact]
  induction script generalizing calls session with
  | nil => exact ⟨rfl, intact, rfl⟩
  | cons action rest ih =>
      cases action with
      | write change =>
          exact ih calls { session with working := change session.working } intact fun calls => by
            rw [refusal, refusal, intact]
      | call name =>
          rw [firstFailure, execute]
          cases around.faults calls with
          | none => exact ih (calls + 1) session intact sameRefusal
          | some text => exact ⟨rfl, rfl, intact⟩
      | raise text => exact ⟨rfl, rfl, intact⟩
      | flush =>
          rw [firstFailure, execute, sameRefusal]
          cases refusal around calls session with
          | none => exact ih (calls + 1) session intact sameRefusal
          | some text => exact ⟨rfl, rfl, rfl⟩
      | commit =>
          rw [firstFailure, execute, sameRefusal]
          cases refusal around calls session with
          | none =>
              exact ih (calls + 1) { session with committed := session.working } intact fun calls => by
                rw [refusal, refusal, intact]
          | some text => exact ⟨rfl, rfl, rfl⟩

/-- The second part of a script runs only after the first has not failed. -/
theorem execute_append (calls : Nat) (first second : List (Operation δ)) (session : Session δ) :
    execute around calls (first ++ second) session =
      match (execute around calls first session).error with
      | none => execute around (execute around calls first session).calls second
          (execute around calls first session).session
      | some _ => execute around calls first session := by
  induction first generalizing calls session with
  | nil => rfl
  | cons action rest ih =>
      cases action with
      | write change => exact ih calls _
      | call name =>
          rw [List.cons_append, execute, execute]
          cases around.faults calls with
          | none => exact ih (calls + 1) session
          | some text => rfl
      | raise text => rfl
      | flush =>
          rw [List.cons_append, execute, execute]
          cases refusal around calls session with
          | none => exact ih (calls + 1) session
          | some text => rfl
      | commit =>
          rw [List.cons_append, execute, execute]
          cases refusal around calls session with
          | none => exact ih (calls + 1) _
          | some text => rfl

/-- A script of calls leaves the session as it is. -/
theorem execute_calls (calls : Nat) {script : List (Operation δ)} (session : Session δ)
    (onlyCalls : ∀ action ∈ script, ∃ name, action = .call name) :
    (execute around calls script session).session = session := by
  induction script generalizing calls with
  | nil => rfl
  | cons action rest ih =>
      obtain ⟨name, rfl⟩ := onlyCalls action List.mem_cons_self
      rw [execute]
      cases around.faults calls with
      | none => exact ih (calls + 1) fun later inside => onlyCalls later (List.mem_cons_of_mem _ inside)
      | some text => rfl

/-- A script that a commit ends has committed all its writes when it does not fail. -/
theorem execute_commit (calls : Nat) (head : List (Operation δ)) (session : Session δ)
    (ended : (execute around calls (head ++ [.commit]) session).error = none) :
    (execute around calls (head ++ [.commit]) session).session.committed =
      (execute around calls (head ++ [.commit]) session).session.working := by
  rw [execute_append] at ended ⊢
  cases failed : (execute around calls head session).error with
  | some text =>
      rw [failed] at ended
      simp only [failed] at ended
      cases ended
  | none =>
      simp only [failed] at ended ⊢
      rw [execute] at ended ⊢
      cases refused : refusal around (execute around calls head session).calls
          (execute around calls head session).session with
      | none => rfl
      | some text =>
          rw [refused] at ended
          cases ended

theorem execute_writes (calls : Nat) {script : List (Operation δ)} (session : Session δ)
    (onlyWrites : ∀ action ∈ script, ∃ change, action = .write change) :
    execute around calls script session =
      ⟨none, calls, { session with working := written script session.working }⟩ := by
  induction script generalizing session with
  | nil => rfl
  | cons action rest ih =>
      obtain ⟨change, rfl⟩ := onlyWrites action List.mem_cons_self
      exact ih _ fun later inside => onlyWrites later (List.mem_cons_of_mem _ inside)

end Failures

section Settling

/-- A script settles once it has committed, and its handler settles by a write and a commit of its own. -/
structure Settling (settled : δ → Prop) (first writes tail : List (Operation δ)) (fail : String → δ → δ)
    (stored : δ) : Prop where
  start : ¬ settled stored
  before : ∀ done, done ++ [.commit] <+: first → ¬ settled (written done stored)
  ended : settled (written (first ++ writes) stored)
  onlyWrites : ∀ action ∈ writes, ∃ change, action = .write change
  onlyCalls : ∀ action ∈ tail, ∃ name, action = .call name
  failed : ∀ text stored, settled (fail text stored)
  accepted : ∀ done, done <+: first → ∀ text, around.accepts (fail text (written done stored)) = true

variable {settled : δ → Prop} {first writes tail : List (Operation δ)} {fail : String → δ → δ} {stored : δ}
  {name : String}

/-- The commit of the handler stores its write unless it is refused. -/
theorem execute_handler (calls : Nat) (text : String) (session : Session δ) :
    (execute around calls [.write (fail text), .commit, .call name] session).session.committed =
      if (refusal around calls { session with working := fail text session.working }).isSome then session.committed
      else fail text session.working := by
  rw [execute, execute]
  cases refusal around calls { session with working := fail text session.working } with
  | some text => rfl
  | none =>
      rw [execute]
      cases around.faults (calls + 1) with
      | none => rfl
      | some text => rfl

/-- A failure leaves what the script had committed before its last commit. -/
theorem committed_of_failure (settling : Settling around settled first writes tail fail stored)
    (text : String)
    (failed : (execute around 0 (first ++ writes ++ [.commit]) ⟨stored, stored, false⟩).error = some text) :
    ¬ settled (execute around 0 (first ++ writes ++ [.commit]) ⟨stored, stored, false⟩).session.committed := by
  have early : ¬ settled (execute around 0 first ⟨stored, stored, false⟩).session.committed := by
    obtain ⟨_, _, _, kept⟩ := execute_prefix around 0 first ⟨stored, stored, false⟩
    cases kept with
    | inl same => exact same ▸ settling.start
    | inr found =>
        obtain ⟨done, before, same⟩ := found
        exact same ▸ settling.before done before
  rw [List.append_assoc, execute_append] at failed ⊢
  cases stopped : (execute around 0 first ⟨stored, stored, false⟩).error with
  | some other => exact early
  | none =>
      simp only [stopped] at failed ⊢
      rw [execute_append, execute_writes _ _ _ settling.onlyWrites] at failed ⊢
      simp only [execute] at failed ⊢
      split at failed
      · exact early
      · cases failed

/-- A failure that leaves the session intact is met before the last writes. -/
theorem working_of_failure (settling : Settling around settled first writes tail fail stored) (text : String)
    (failed : (execute around 0 (first ++ writes ++ [.commit]) ⟨stored, stored, false⟩).error = some text)
    (intact : (execute around 0 (first ++ writes ++ [.commit]) ⟨stored, stored, false⟩).session.broken = false) :
    ∃ done, done <+: first ∧
      (execute around 0 (first ++ writes ++ [.commit]) ⟨stored, stored, false⟩).session.working =
        written done stored := by
  rw [List.append_assoc, execute_append] at failed intact ⊢
  cases stopped : (execute around 0 first ⟨stored, stored, false⟩).error with
  | some other =>
      obtain ⟨done, part, wrote, _⟩ := execute_prefix around 0 first ⟨stored, stored, false⟩
      exact ⟨done, part, wrote⟩
  | none =>
      simp only [stopped] at failed intact
      rw [execute_append, execute_writes _ _ _ settling.onlyWrites] at failed intact
      simp only [execute] at failed intact
      split at failed
      · rename_i refused
        simp only [refused] at intact
        cases intact
      · cases failed

/-- A handled run settles unless a flush or a commit fails first, or that of the handler does. -/
theorem settled_handled_iff (settling : Settling around settled first writes tail fail stored) :
    settled (handled around (first ++ writes ++ .commit :: tail)
        (fun text => [.write (fail text), .commit, .call name]) stored) ↔
      ∀ failure, firstFailure around 0 (first ++ writes ++ [.commit]) stored = some failure →
        failure.stores = false ∧ around.faults failure.calls = none := by
  have failure := execute_failure around 0 (first ++ writes ++ [.commit]) ⟨stored, stored, false⟩ rfl
  have split : first ++ writes ++ .commit :: tail = (first ++ writes ++ [.commit]) ++ tail := by simp
  rw [handled, split, execute_append]
  cases found : firstFailure around 0 (first ++ writes ++ [.commit]) stored with
  | none =>
      simp only [found] at failure
      obtain ⟨ended, intact, wrote⟩ := failure
      have committed := execute_commit around 0 (first ++ writes) ⟨stored, stored, false⟩ ended
      have done : settled (execute around 0 (first ++ writes ++ [.commit])
          ⟨stored, stored, false⟩).session.committed := by
        rw [committed, wrote, written_append]
        exact settling.ended
      simp only [ended]
      have quiet := execute_calls around
        (execute around 0 (first ++ writes ++ [.commit]) ⟨stored, stored, false⟩).calls
        (execute around 0 (first ++ writes ++ [.commit]) ⟨stored, stored, false⟩).session settling.onlyCalls
      refine ⟨fun _ _ impossible => (nomatch impossible), fun _ => ?_⟩
      split
      · rw [quiet]
        exact done
      · rw [execute_handler, quiet]
        split
        · exact done
        · exact settling.failed _ _
  | some first_failure =>
      simp only [found] at failure
      obtain ⟨error, calls, broken⟩ := failure
      simp only [error]
      rw [execute_handler]
      have early := committed_of_failure around settling _ error
      constructor
      · intro done other same
        cases same
        cases stores : first_failure.stores with
        | true =>
            rw [refusal, if_pos (broken.trans stores), Option.isSome_some, if_pos rfl] at done
            exact absurd done early
        | false =>
            refine ⟨rfl, ?_⟩
            rw [← Option.not_isSome_iff_eq_none]
            intro faulty
            rw [calls, if_pos] at done
            · exact absurd done early
            · rw [refusal, if_neg (by rw [broken, stores]; decide)]
              split
              · exact faulty
              · rfl
      · intro condition
        obtain ⟨stores, healthy⟩ := condition first_failure rfl
        rw [stores] at broken
        obtain ⟨done, part, wrote⟩ := working_of_failure around settling _ error broken
        rw [if_neg]
        · exact settling.failed _ _
        · rw [refusal, if_neg (by rw [broken]; decide), if_pos (by rw [wrote]; exact settling.accepted done part _),
            calls, healthy]
          decide

end Settling

section Raising

/-- Nothing behind an action that raises is run. -/
theorem execute_raise (calls : Nat) (first more : List (Operation δ)) (text : String) (session : Session δ) :
    execute around calls (first ++ .raise text :: more) session =
      execute around calls (first ++ [.raise text]) session := by
  rw [execute_append, execute_append around calls first [.raise text]]
  cases (execute around calls first session).error with
  | none => rfl
  | some other => rfl

theorem firstFailure_raise (calls : Nat) (first more : List (Operation δ)) (text : String) (stored : δ) :
    firstFailure around calls (first ++ .raise text :: more) stored =
      firstFailure around calls (first ++ [.raise text]) stored := by
  induction first generalizing calls stored with
  | nil => rfl
  | cons action rest ih =>
      cases action with
      | write change => exact ih calls _
      | call name =>
          rw [List.cons_append, List.cons_append, firstFailure, firstFailure]
          cases around.faults calls with
          | none => exact ih (calls + 1) stored
          | some other => rfl
      | raise other => rfl
      | flush =>
          rw [List.cons_append, List.cons_append, firstFailure, firstFailure]
          cases refusal around calls ⟨stored, stored, false⟩ with
          | none => exact ih (calls + 1) stored
          | some other => rfl
      | commit =>
          rw [List.cons_append, List.cons_append, firstFailure, firstFailure]
          cases refusal around calls ⟨stored, stored, false⟩ with
          | none => exact ih (calls + 1) stored
          | some other => rfl

/-- A script that raises at its end settles in its handler only. -/
theorem settled_raised_iff {settled : δ → Prop} {first : List (Operation δ)} {fail : String → δ → δ} {stored : δ}
    {name text : String} (start : ¬ settled stored)
    (before : ∀ done, done ++ [.commit] <+: first ++ [.raise text] → ¬ settled (written done stored))
    (failed : ∀ text stored, settled (fail text stored))
    (accepted : ∀ done, done <+: first ++ [.raise text] → ∀ text,
      around.accepts (fail text (written done stored)) = true) :
    settled (handled around (first ++ [.raise text]) (fun text => [.write (fail text), .commit, .call name])
        stored) ↔
      ∀ failure, firstFailure around 0 (first ++ [.raise text]) stored = some failure →
        failure.stores = false ∧ around.faults failure.calls = none := by
  have settling : Settling around settled (first ++ [.raise text]) [.write (fail text)] [] fail stored := by
    refine ⟨start, before, ?_, ?_, ?_, failed, accepted⟩
    · rw [written_append]
      exact failed _ _
    · intro action inside
      exact ⟨_, List.mem_singleton.mp inside⟩
    · intro action inside
      cases inside
  have iff := @settled_handled_iff _ around settled _ _ _ _ _ name settling
  have longer : first ++ [.raise text] ++ [.write (fail text)] ++ [.commit] =
      first ++ .raise text :: [.write (fail text), .commit] := by simp
  rw [longer, firstFailure_raise, handled, execute_raise] at iff
  exact iff

end Raising

section Storing

/-- A script without failing calls fails in a flush or a commit only. -/
theorem firstFailure_stores {calls : Nat} {script : List (Operation δ)} {stored : δ} {failure : Failure}
    (faultless : ∀ number, around.faults number = none) (unraised : ∀ text, .raise text ∉ script)
    (found : firstFailure around calls script stored = some failure) : failure.stores = true := by
  induction script generalizing calls stored with
  | nil => cases found
  | cons action rest ih =>
      have later : ∀ text, .raise text ∉ rest := fun text inside => unraised text (List.mem_cons_of_mem _ inside)
      cases action with
      | write change => exact ih later found
      | call name =>
          rw [firstFailure, faultless] at found
          exact ih later found
      | raise text => exact absurd List.mem_cons_self (unraised text)
      | flush =>
          rw [firstFailure] at found
          split at found
          · cases found
            rfl
          · exact ih later found
      | commit =>
          rw [firstFailure] at found
          split at found
          · cases found
            rfl
          · exact ih later found

/-- A commit refuses what the database does not accept. -/
theorem firstFailure_refused (calls : Nat) (script : List (Operation δ)) (stored : δ)
    (refused : around.accepts (written script stored) = false) :
    firstFailure around calls (script ++ [.commit]) stored ≠ none := by
  intro nothing
  have failure := execute_failure around calls script ⟨stored, stored, false⟩ rfl
  have whole := execute_failure around calls (script ++ [.commit]) ⟨stored, stored, false⟩ rfl
  simp only [nothing] at whole
  have ended := whole.1
  rw [execute_append] at ended
  cases found : firstFailure around calls script stored with
  | some failed =>
      simp only [found] at failure
      simp only [failure.1] at ended
      cases ended
  | none =>
      simp only [found] at failure
      obtain ⟨quiet, intact, wrote⟩ := failure
      simp only [quiet, execute, refusal, intact, wrote, refused] at ended
      cases ended

end Storing

end MisraPlatform.Transaction
