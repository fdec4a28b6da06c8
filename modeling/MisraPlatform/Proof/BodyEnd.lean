import MisraPlatform.Proof.GraphShape
import MisraPlatform.Proof.Placement
import MisraPlatform.Semantics.Execution

/-
This file shows from the body alone when the builder links the end of the body, and lists the steps
that lead out of a function.
-/

namespace MisraPlatform
open CFGEngine

/-- An edge of the operations leads to the block. -/
def Targets (ops : List Op) (number : Nat) : Prop :=
  ∃ edge ∈ ops.filterMap Op.toEdge, edge.target = .block number

theorem targets_append (first second : List Op) (number : Nat) :
    Targets (first ++ second) number ↔ Targets first number ∨ Targets second number := by
  simp only [Targets, List.filterMap_append, List.mem_append, or_and_right, exists_or]

theorem targets_edge (source : Nat) {number : Nat} (kind : EdgeKind) {ops : List Op}
    (inside : .edge source (.block number) kind ∈ ops) : Targets ops number :=
  ⟨⟨.block source, .block number, kind, none⟩, List.mem_filterMap.mpr ⟨_, inside, rfl⟩, rfl⟩

theorem Aimed.absent {high number : Nat} {ops : List Op} (aimed : Aimed high ops)
    (beyond : high < number) : ¬ Targets ops number := by
  rintro ⟨edge, inside, same⟩
  obtain ⟨op, listed, written⟩ := List.mem_filterMap.mp inside
  rcases aimed op listed edge written with ⟨leaves, _⟩ | ⟨other, named, _, small⟩
  · rw [leaves] at same
    exact BlockId.noConfusion same
  · rw [named] at same
    cases same
    omega

/-- A branch leads to its join. -/
theorem Branch.emit_target (branch : Branch) (stack : LoopStack) (source : Nat)
    (entryKind tailKind : EdgeKind) (target next : Nat) :
    Targets (branch.emit stack source entryKind tailKind target
      [.edge source (.block target) entryKind] next) target := by
  cases branch with
  | absent => exact targets_edge source entryKind (List.mem_singleton.mpr rfl)
  | present body =>
      have inside : Op.edge (body.last (.fresh next)).block (.block target) tailKind ∈
          Branch.emit (.present body) stack source entryKind tailKind target
            [.edge source (.block target) entryKind] next := by
        simp [Branch.emit]
      exact targets_edge _ _ inside

/-- The last group of a switch leads behind the switch. -/
theorem Groups.emit_target : ∀ (groups : Groups) (stack : LoopStack) (switchBlock : Nat)
    (previous : Option Nat) (afterSwitch next : Nat), (groups = .nil → previous ≠ none) →
    Targets (groups.emit stack switchBlock previous afterSwitch next) afterSwitch
  | .nil, _, _, previous, _, _, linked => by
      obtain ⟨tail, rfl⟩ := Option.ne_none_iff_exists'.mp (linked rfl)
      exact targets_edge tail .fallthrough (List.mem_singleton.mpr rfl)
  | .cons label body more, stack, switchBlock, previous, afterSwitch, next, _ => by
      have later := more.emit_target stack switchBlock
        (some (body.last ((Cursor.fresh next).after label)).block) afterSwitch
        (body.last ((Cursor.fresh next).after label)).next (by simp)
      rw [Groups.emit]
      exact (targets_append _ _ _).mpr (.inr later)

/-- An edge leads to the block, or the entry does. -/
def Fed (ops : List Op) (number : Nat) : Prop := number = 1 ∨ Targets ops number

/-- The flags describe the cursor. -/
structure Flags (before : List Op) (cursor : Cursor) (fed started : Bool) : Prop where
  positive : 0 < cursor.block
  valid : cursor.Valid
  aimed : Aimed cursor.next before
  feeds : fed = true ↔ Fed before cursor.block
  starts : started = true ↔ cursor.statements ≠ []

/-- The operations of a list move the flags. -/
theorem Flags.step {before : List Op} {cursor : Cursor} {fed started : Bool} (head : Code)
    (now begun : Bool) (good : Flags before cursor fed started)
    (feeds : now = true ↔ Fed (before ++ head.emit [] cursor) (head.last cursor).block)
    (starts : begun = true ↔ (head.last cursor).statements ≠ []) :
    Flags (before ++ head.emit [] cursor) (head.last cursor) now begun := by
  have advances := head.advances_last cursor
  have positive := good.positive
  have aimed := head.emit_aimed (head.last cursor).next [] cursor
    (fun _ inside => absurd inside List.not_mem_nil) positive good.valid (Nat.le_refl _)
  refine ⟨?_, advances.valid good.valid, ?_, feeds, starts⟩
  · unfold Cursor.Advances at advances
    omega
  · rw [aimed_append]
    refine ⟨fun op inside edge wrote => ?_, aimed⟩
    rcases good.aimed op inside edge wrote with leaves | ⟨number, named, bounds⟩
    · exact .inl leaves
    · have larger : cursor.next ≤ (head.last cursor).next := advances.1
      exact .inr ⟨number, named, bounds.1, by omega⟩

/-- A block that is allocated after every edge has none into it. -/
theorem not_fed {before : List Op} (high : Nat) {number : Nat} (positive : 0 < high) (aimed : Aimed high before)
    (beyond : high < number) : ¬ Fed before number := by
  rintro (first | targets)
  · omega
  · exact aimed.absent beyond targets

theorem Flags.next_positive {before : List Op} {cursor : Cursor} {fed started : Bool}
    (good : Flags before cursor fed started) : 0 < cursor.next :=
  Nat.lt_of_lt_of_le good.positive good.valid

/-- A simple statement keeps the block, splits it at a label, or leaves an empty block behind. -/
theorem simple_flags {before : List Op} {cursor : Cursor} {fed started : Bool} (statement : AstNode)
    (good : Flags before cursor fed started) :
    ∃ now begun, Flags (before ++ simpleOps [] statement cursor) (cursor.after statement) now begun ∧
      ∀ rest : Code, (Code.simple statement rest).endFed fed started = rest.endFed now begun := by
  have written : (Code.simple statement .nil).emit [] cursor = simpleOps [] statement cursor :=
    List.append_nil _
  have step : ∀ now begun, (now = true ↔ Fed (before ++ simpleOps [] statement cursor)
      (cursor.after statement).block) → (begun = true ↔ (cursor.after statement).statements ≠ []) →
      Flags (before ++ simpleOps [] statement cursor) (cursor.after statement) now begun := by
    intro now begun feeds starts
    rw [← written] at feeds ⊢
    exact good.step (.simple statement .nil) now begun feeds starts
  have kept : ∀ ops : List Op, (∀ number, ¬ Targets ops number) →
      (fed = true ↔ Fed (before ++ ops) cursor.block) := by
    intro ops nothing
    rw [good.feeds, Fed, Fed, targets_append, or_iff_left (nothing _)]
  obtain ⟨label, empty, ops, form⟩ | ⟨label, filled, ops, form⟩ | ⟨jump, ops, form⟩ |
    ⟨label, straight, ops, form⟩ := simple_forms [] statement cursor
  · have unstarted : started = false := by
      rw [← Bool.not_eq_true, good.starts, not_not]
      exact empty
    refine ⟨fed, true, step fed true ?_ (by simp [form]), fun rest => ?_⟩
    · rw [form, ops]
      exact kept _ fun number => by simp [Targets, Op.toEdge]
    · rw [Code.endFed, if_pos label, unstarted, Bool.or_false]
  · have begun : started = true := good.starts.mpr filled
    refine ⟨true, true, step true true ?_ (by simp [form]), fun rest => ?_⟩
    · rw [form, ops]
      refine iff_of_true rfl (.inr ((targets_append _ _ _).mpr (.inr ?_)))
      exact targets_edge cursor.block .fallthrough (by simp)
    · rw [Code.endFed, if_pos label, begun, Bool.or_true]
  · have label : statement.nodeKind ≠ .labelStmt := by
      intro label
      simp [label, NodeKind.isJump] at jump
    refine ⟨false, false, step false false ?_ (by simp [form]), fun rest => ?_⟩
    · rw [form, ops]
      refine iff_of_false Bool.false_ne_true ?_
      have bare : StackAllocated cursor.next [] := fun _ inside => absurd inside List.not_mem_nil
      have outer : Aimed cursor.next (.append cursor.block statement ::
          jumpOps [] statement cursor.block ++ [.newBlock]) := by
        simp [jumpOps_aimed bare]
      exact not_fed cursor.next good.next_positive ((aimed_append _ _ _).mpr ⟨good.aimed, outer⟩)
        (Nat.lt_succ_self _)
    · rw [Code.endFed, if_neg label, if_pos jump]
  · refine ⟨fed, true, step fed true ?_ (by simp [form]), fun rest => ?_⟩
    · rw [form, ops]
      exact kept _ fun number => by simp [Targets, Op.toEdge]
    · rw [Code.endFed, if_neg label, if_neg (by simp [straight])]

/-- The flags of a list tell whether its end is fed. -/
theorem Code.fed_end : ∀ (code : Code) (cursor : Cursor) (before : List Op) (fed started : Bool),
    Flags before cursor fed started →
    (code.endFed fed started = true ↔ Fed (before ++ code.emit [] cursor) (code.last cursor).block)
  | .nil, cursor, before, fed, started, good => by
      rw [Code.emit, List.append_nil]
      exact good.feeds
  | .simple statement rest, cursor, before, fed, started, good => by
      obtain ⟨now, begun, next, same⟩ := simple_flags statement good
      rw [same, Code.emit, ← List.append_assoc]
      exact rest.fed_end _ _ now begun next
  | .compound statement body rest, cursor, before, fed, started, good => by
      have inner := body.advances_last (.fresh cursor.next)
      simp only [Cursor.Advances, fresh_next, fresh_block] at inner
      have aimed := body.emit_aimed (body.last (.fresh cursor.next)).next [] (.fresh cursor.next)
        (fun _ inside => absurd inside List.not_mem_nil) (Nat.succ_pos _) (Cursor.valid_fresh _)
        (Nat.le_refl _)
      have next := good.step (.compound statement body .nil) false false
        (iff_of_false Bool.false_ne_true ?_) (by simp [Code.last])
      · have rest' := rest.fed_end _ _ false false next
        simp only [Code.emit, Code.last, Code.endFed, List.append_nil] at rest' ⊢
        simpa only [List.append_assoc] using rest'
      · simp only [Code.emit, Code.last, List.append_nil, fresh_block]
        refine not_fed (body.last (.fresh cursor.next)).next (by omega) ?_ (Nat.lt_succ_self _)
        rw [aimed_append]
        refine ⟨fun op inside edge wrote => ?_, ?_⟩
        · rcases good.aimed op inside edge wrote with leaves | ⟨number, named, bounds⟩
          · exact .inl leaves
          · exact .inr ⟨number, named, bounds.1, by omega⟩
        · simp only [List.cons_append, aimed_newBlock, aimed_append, aimed_edge, aimed_nil, and_true]
          exact ⟨aimed, .inr (allocated_block (by omega))⟩
  | .ifStmt statement thenBranch elseBranch rest, cursor, before, fed, started, good => by
      have next := good.step (.ifStmt statement thenBranch elseBranch .nil) true false (iff_of_true rfl (.inr ?_))
        (by simp [Code.last])
      · have rest' := rest.fed_end _ _ true false next
        simp only [Code.emit, Code.last, Code.endFed, List.append_nil] at rest' ⊢
        simpa only [List.append_assoc] using rest'
      · simp only [Code.emit, Code.last, List.append_nil, targets_append]
        exact .inr (.inr (Branch.emit_target _ _ _ _ _ _ _))
  | .loop statement body rest, cursor, before, fed, started, good => by
      have next := good.step (.loop statement body .nil) true false (iff_of_true rfl (.inr ?_))
        (by simp [Code.last])
      · have rest' := rest.fed_end _ _ true false next
        simp only [Code.emit, Code.last, Code.endFed, List.append_nil] at rest' ⊢
        simpa only [List.append_assoc] using rest'
      · refine targets_edge (cursor.next + 1) .falseEdge ?_
        simp [Code.emit, Code.last]
  | .switch statement groups rest, cursor, before, fed, started, good => by
      have next := good.step (.switch statement groups .nil) true false (iff_of_true rfl (.inr ?_))
        (by simp [Code.last])
      · have rest' := rest.fed_end _ _ true false next
        simp only [Code.emit, Code.last, Code.endFed, List.append_nil] at rest' ⊢
        simpa only [List.append_assoc] using rest'
      · cases groups with
        | nil =>
            refine targets_edge cursor.block .noMatch ?_
            simp [Code.emit, Code.last, Groups.hasDefault]
        | cons label body more =>
            simp only [Code.emit, Code.last, List.append_nil, targets_append]
            exact .inr (.inl (.inr (Groups.emit_target _ _ _ _ _ _ (by simp))))
  | .bareSwitch statement rest, cursor, before, fed, started, good => by
      have next := good.step (.bareSwitch statement .nil) true false (iff_of_true rfl (.inr ?_))
        (by simp [Code.last])
      · have rest' := rest.fed_end _ _ true false next
        simp only [Code.emit, Code.last, Code.endFed, List.append_nil] at rest' ⊢
        simpa only [List.append_assoc] using rest'
      · refine targets_edge cursor.block .fallthrough ?_
        simp [Code.emit, Code.last]

/-- The builder links the end of a body exactly when the body feeds it. -/
theorem Code.fed_iff (body : Code) : body.fed = true ↔ body.EndFed := by
  have start : Flags [.newBlock] (.fresh 0) true false :=
    ⟨Nat.succ_pos 0, Cursor.valid_fresh 0, by simp, iff_of_true rfl (.inl rfl), by simp⟩
  have whole := body.fed_end (.fresh 0) [.newBlock] true false start
  rw [Code.EndFed, whole]
  simp only [Code.fed, Bool.or_eq_true, decide_eq_true_eq, List.any_eq_true]
  rfl

end MisraPlatform

namespace MisraPlatform
open CFGEngine

theorem Cont.breakTarget_stays {next : Cont} {departure : Departure} :
    next.breakTarget ≠ some (.left departure) := by
  induction next with
  | stop => simp [Cont.breakTarget]
  | seq rest next ih => exact ih
  | block rest next ih => exact ih
  | loop | switch => simp [Cont.breakTarget, State.enter]

theorem Cont.continueTarget_stays {reading : Reading} {next : Cont} {departure : Departure} :
    next.continueTarget reading ≠ some (.left departure) := by
  induction next with
  | stop => simp [Cont.continueTarget]
  | seq rest next ih => exact ih
  | block rest next ih => exact ih
  | loop => simp [Cont.continueTarget]
  | switch lead more rest next ih =>
      simp only [Cont.continueTarget]
      split
      · simp [State.enter]
      · exact ih

theorem resolve_stays {body : Code} (kinded : body.Kinded) {name : String} {departure : Departure} :
    body.resolve name ≠ some (.left departure) := by
  intro found
  obtain ⟨statement, inside, _⟩ := resolve_position found
  have current := (body.positions_fitting body .stop kinded _ inside).1
  simp [State.current] at current

/-- Control leaves at a return, at a goto without a label or at the end of the body. -/
inductive LeavesAt (body : Code) : State → Departure → Prop
  | returned {lead statement rest next} (kind : statement.nodeKind = .returnStmt) :
      LeavesAt body (.run lead (.simple statement rest) next) (.returned statement)
  | jumped {lead statement rest next} (kind : statement.nodeKind = .gotoStmt)
      (missing : body.resolve (targetLabel statement) = none) :
      LeavesAt body (.run lead (.simple statement rest) next) (.jumped statement)
  | fellOff {lead} : LeavesAt body (.run lead .nil .stop) .fellOff

theorem Step.leaves {reading : Reading} {body : Code} (kinded : body.Kinded) {state : State}
    {departure : Departure} (taken : Step reading body state (.left departure)) :
    LeavesAt body state departure := by
  generalize same : State.left departure = target at taken
  cases taken with
  | returnStmt kind =>
      cases same
      exact .returned kind
  | gotoMissing kind missing =>
      cases same
      exact .jumped kind missing
  | fallOff =>
      cases same
      exact .fellOff
  | breakStmt _ enclosed => exact absurd (same ▸ enclosed) Cont.breakTarget_stays
  | continueStmt _ enclosed => exact absurd (same ▸ enclosed) Cont.continueTarget_stays
  | gotoStmt _ found => exact absurd (same ▸ found) (resolve_stays kinded)
  | @thenBranch lead statement thenBranch elseBranch rest next =>
      cases thenBranch <;> exact State.noConfusion same
  | @elseBranch lead statement thenBranch elseBranch rest next =>
      cases elseBranch <;> exact State.noConfusion same
  | _ => exact State.noConfusion same

/-- A walk that has left the function has come to the place where control leaves. -/
theorem Walk.leaves {reading : Reading} {body : Code} (kinded : body.Kinded)
    {step : State → State → Prop} (narrow : ∀ state target, step state target →
      Step reading body state target) {trace : List AstNode} {departure : Departure}
    (walk : Walk step (.start body) trace (.left departure)) :
    ∃ before state, Walk step (.start body) before state ∧ trace = before ++ state.reached ∧
      LeavesAt body state departure ∧ step state (.left departure) := by
  generalize same : State.left departure = last at walk
  cases walk with
  | start => exact State.noConfusion same
  | @step before state target walked taken =>
      subst same
      exact ⟨before, state, walked, rfl, (narrow _ _ taken).leaves kinded, taken⟩

end MisraPlatform
