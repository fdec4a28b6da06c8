import MisraPlatform.Proof.Emission

/-
This file bounds the blocks that the operations of a statement list touch.
-/

namespace MisraPlatform
open CFGEngine

/-! ### Cursors -/

/-- The current block is one of the allocated blocks. -/
def Cursor.Valid (cursor : Cursor) : Prop := cursor.block ≤ cursor.next

/-- A cursor stays on its block or moves to a block that is allocated later. -/
def Cursor.Advances (before after : Cursor) : Prop :=
  before.next ≤ after.next ∧
    (after.block = before.block ∨ before.next < after.block ∧ after.block ≤ after.next)

/-- The blocks of a stretch are the current block and the blocks that the stretch allocates. -/
def Within (block low high number : Nat) : Prop := number = block ∨ low < number ∧ number ≤ high

@[simp] theorem within_here (block low high : Nat) : Within block low high block := .inl rfl

@[simp] theorem fresh_next (next : Nat) : (Cursor.fresh next).next = next + 1 := rfl

@[simp] theorem fresh_block (next : Nat) : (Cursor.fresh next).block = next + 1 := rfl

@[simp] theorem fresh_statements (next : Nat) : (Cursor.fresh next).statements = [] := rfl

theorem Cursor.valid_fresh (next : Nat) : (Cursor.fresh next).Valid := Nat.le_refl _

theorem Cursor.Advances.valid {before after : Cursor} (moves : before.Advances after)
    (valid : before.Valid) : after.Valid := by
  unfold Advances Valid at *
  omega

/-- A simple statement stays on its block, splits the block at a label, or jumps away. -/
theorem simple_forms (stack : LoopStack) (statement : AstNode) (cursor : Cursor) :
    (statement.nodeKind = .labelStmt ∧ cursor.statements = [] ∧
      simpleOps stack statement cursor =
        [.label (labelName statement) cursor.block, .append cursor.block statement] ∧
      cursor.after statement = { cursor with statements := [statement] }) ∨
    (statement.nodeKind = .labelStmt ∧ cursor.statements ≠ [] ∧
      simpleOps stack statement cursor =
        [.newBlock, .edge cursor.block (.block (cursor.next + 1)) .fallthrough,
          .label (labelName statement) (cursor.next + 1), .append (cursor.next + 1) statement] ∧
      cursor.after statement = ⟨cursor.next + 1, cursor.next + 1, [statement]⟩) ∨
    (statement.nodeKind.isJump = true ∧
      simpleOps stack statement cursor =
        .append cursor.block statement :: jumpOps stack statement cursor.block ++ [.newBlock] ∧
      cursor.after statement = .fresh cursor.next) ∨
    (statement.nodeKind ≠ .labelStmt ∧ statement.nodeKind.isJump = false ∧
      simpleOps stack statement cursor = [.append cursor.block statement] ∧
      cursor.after statement = { cursor with statements := cursor.statements ++ [statement] }) := by
  by_cases label : statement.nodeKind = .labelStmt
  · by_cases empty : cursor.statements = []
    · exact .inl (by simp [simpleOps, Cursor.after, label, empty, NodeKind.isJump])
    · exact .inr (.inl (by simp [simpleOps, Cursor.after, label, empty]))
  · cases jump : statement.nodeKind.isJump with
    | true => exact .inr (.inr (.inl (by simp [simpleOps, Cursor.after, label, jump])))
    | false => exact .inr (.inr (.inr (by simp [simpleOps, Cursor.after, label, jump])))

theorem Cursor.advances_after (cursor : Cursor) (statement : AstNode) :
    cursor.Advances (cursor.after statement) := by
  unfold Advances
  obtain ⟨_, _, _, form⟩ | ⟨_, _, _, form⟩ | ⟨_, _, form⟩ | ⟨_, _, _, form⟩ :=
    simple_forms [] statement cursor <;> simp [form]

mutual

theorem Code.advances_last : ∀ (code : Code) (cursor : Cursor), cursor.Advances (code.last cursor)
  | .nil, cursor => ⟨Nat.le_refl _, .inl rfl⟩
  | .simple statement rest, cursor => by
      have first := cursor.advances_after statement
      have tail := rest.advances_last (cursor.after statement)
      simp only [Code.last, Cursor.Advances] at *
      omega
  | .compound _ body rest, cursor => by
      have inner := body.advances_last (.fresh cursor.next)
      have tail := rest.advances_last (.fresh (body.last (.fresh cursor.next)).next)
      simp only [Code.last, Cursor.Advances, fresh_next, fresh_block] at *
      omega
  | .ifStmt _ thenBranch elseBranch rest, cursor => by
      have first := thenBranch.le_last (cursor.next + 1)
      have second := elseBranch.le_last (thenBranch.last (cursor.next + 1))
      have tail := rest.advances_last
        ⟨elseBranch.last (thenBranch.last (cursor.next + 1)), cursor.next + 1, []⟩
      simp only [Code.last, Cursor.Advances] at *
      omega
  | .loop _ body rest, cursor => by
      have inner := body.le_last (cursor.next + 2)
      have tail := rest.advances_last ⟨body.last (cursor.next + 2), cursor.next + 2, []⟩
      simp only [Code.last, Cursor.Advances] at *
      omega
  | .switch _ groups rest, cursor => by
      have inner := groups.le_last (cursor.next + 1)
      have tail := rest.advances_last ⟨groups.last (cursor.next + 1), cursor.next + 1, []⟩
      simp only [Code.last, Cursor.Advances] at *
      omega
  | .bareSwitch _ rest, cursor => by
      have tail := rest.advances_last ⟨cursor.next + 1, cursor.next + 1, []⟩
      simp only [Code.last, Cursor.Advances] at *
      omega

theorem Branch.le_last : ∀ (branch : Branch) (next : Nat), next ≤ branch.last next
  | .absent, _ => Nat.le_refl _
  | .present body, next => by
      have inner := body.advances_last (.fresh next)
      simp only [Branch.last, Cursor.Advances, fresh_next] at *
      omega

theorem Groups.le_last : ∀ (groups : Groups) (next : Nat), next ≤ groups.last next
  | .nil, _ => Nat.le_refl _
  | .cons label body more, next => by
      have first := (Cursor.fresh next).advances_after label
      have inner := body.advances_last ((Cursor.fresh next).after label)
      have tail := more.le_last (body.last ((Cursor.fresh next).after label)).next
      simp only [Groups.last, Cursor.Advances, fresh_next] at *
      omega

end

/-! ### Confinement -/

/-- The operations write only to blocks that satisfy the condition. -/
def Confined (inside : Nat → Prop) (ops : List Op) : Prop :=
  ∀ op ∈ ops, ∀ number, op.subject = some number → inside number

@[simp] theorem confined_nil (inside : Nat → Prop) : Confined inside [] := by
  simp [Confined]

@[simp] theorem confined_newBlock (inside : Nat → Prop) (ops : List Op) :
    Confined inside (.newBlock :: ops) ↔ Confined inside ops := by
  simp [Confined, Op.subject]

@[simp] theorem confined_append_op (inside : Nat → Prop) (number : Nat) (statement : AstNode)
    (ops : List Op) :
    Confined inside (.append number statement :: ops) ↔ inside number ∧ Confined inside ops := by
  simp [Confined, Op.subject]

@[simp] theorem confined_edge (inside : Nat → Prop) (source : Nat) (target : BlockId)
    (kind : EdgeKind) (ops : List Op) :
    Confined inside (.edge source target kind :: ops) ↔ inside source ∧ Confined inside ops := by
  simp [Confined, Op.subject]

@[simp] theorem confined_label (inside : Nat → Prop) (name : String) (number : Nat)
    (ops : List Op) :
    Confined inside (.label name number :: ops) ↔ inside number ∧ Confined inside ops := by
  simp [Confined, Op.subject]

@[simp] theorem confined_goto (inside : Nat → Prop) (number : Nat) (name : String)
    (ops : List Op) :
    Confined inside (.goto number name :: ops) ↔ inside number ∧ Confined inside ops := by
  simp [Confined, Op.subject]

@[simp] theorem confined_append (inside : Nat → Prop) (first second : List Op) :
    Confined inside (first ++ second) ↔ Confined inside first ∧ Confined inside second := by
  simp [Confined, or_imp, forall_and]

theorem Confined.widen {small large : Nat → Prop} {ops : List Op} (confined : Confined small ops)
    (wider : ∀ number, small number → large number) : Confined large ops :=
  fun op present number writes => wider number (confined op present number writes)

/-- A stretch lies inside a longer one when its current block and its allocations do. -/
theorem Confined.into {block low high outerBlock outerLow outerHigh : Nat} {ops : List Op}
    (confined : Confined (Within block low high) ops)
    (here : block = outerBlock ∨ outerLow < block ∧ block ≤ outerHigh)
    (bounds : outerLow ≤ low ∧ high ≤ outerHigh) :
    Confined (Within outerBlock outerLow outerHigh) ops := by
  refine confined.widen fun number inside => ?_
  unfold Within at *
  omega

theorem jumpOps_confined (stack : LoopStack) (statement : AstNode) (number : Nat) :
    Confined (fun other => other = number) (jumpOps stack statement number) := by
  unfold jumpOps
  cases stack.head? <;> split <;> simp

theorem simpleOps_confined (stack : LoopStack) (statement : AstNode) (cursor : Cursor) :
    Confined (Within cursor.block cursor.next (cursor.after statement).next)
      (simpleOps stack statement cursor) := by
  have jump := jumpOps_confined stack statement cursor.block
  obtain ⟨_, _, ops, form⟩ | ⟨_, _, ops, form⟩ | ⟨_, ops, form⟩ | ⟨_, _, ops, form⟩ :=
    simple_forms stack statement cursor
  · simp [ops]
  · simp [ops, form, Within]
  · simp only [ops, List.cons_append, confined_append_op, confined_append, confined_newBlock]
    exact ⟨within_here _ _ _, jump.widen fun number same => .inl same, confined_nil _⟩
  · simp [ops]

mutual

theorem Code.emit_confined : ∀ (code : Code) (stack : LoopStack) (cursor : Cursor),
    Confined (Within cursor.block cursor.next (code.last cursor).next) (code.emit stack cursor)
  | .nil, _, _ => confined_nil _
  | .simple statement rest, stack, cursor => by
      have moves := cursor.advances_after statement
      have bound := rest.advances_last (cursor.after statement)
      have first := simpleOps_confined stack statement cursor
      have tail := rest.emit_confined stack (cursor.after statement)
      simp only [Code.emit, Code.last, confined_append, Cursor.Advances] at *
      exact ⟨first.into (by omega) (by omega), tail.into (by omega) (by omega)⟩
  | .compound _ body rest, stack, cursor => by
      have inner := body.advances_last (.fresh cursor.next)
      have bound := rest.advances_last (.fresh (body.last (.fresh cursor.next)).next)
      have nested := body.emit_confined stack (.fresh cursor.next)
      have tail := rest.emit_confined stack (.fresh (body.last (.fresh cursor.next)).next)
      simp only [Code.emit, Code.last, List.cons_append, confined_append, confined_newBlock,
        confined_edge, confined_nil, within_here, Cursor.Advances,
        fresh_next, fresh_block, and_true] at *
      exact ⟨nested.into (by omega) (by omega), tail.into (by omega) (by omega)⟩
  | .ifStmt _ thenBranch elseBranch rest, stack, cursor => by
      have firstBound := thenBranch.le_last (cursor.next + 1)
      have secondBound := elseBranch.le_last (thenBranch.last (cursor.next + 1))
      have bound := rest.advances_last
        ⟨elseBranch.last (thenBranch.last (cursor.next + 1)), cursor.next + 1, []⟩
      have first := thenBranch.emit_confined stack cursor.block .trueEdge .fallthrough
        (cursor.next + 1) [.edge cursor.block (.block (cursor.next + 1)) .trueEdge] (cursor.next + 1)
        (by simp)
      have second := elseBranch.emit_confined stack cursor.block .falseEdge .fallthrough
        (cursor.next + 1) [.edge cursor.block (.block (cursor.next + 1)) .falseEdge]
        (thenBranch.last (cursor.next + 1)) (by simp)
      have tail := rest.emit_confined stack
        ⟨elseBranch.last (thenBranch.last (cursor.next + 1)), cursor.next + 1, []⟩
      simp only [Code.emit, Code.last, List.cons_append, confined_append, confined_newBlock,
        confined_append_op, confined_nil, within_here, Cursor.Advances,
        true_and] at *
      exact ⟨⟨first.into (by omega) (by omega), second.into (by omega) (by omega)⟩, tail.into (by omega) (by omega)⟩
  | .loop statement body rest, stack, cursor => by
      have innerBound := body.le_last (cursor.next + 2)
      have bound := rest.advances_last ⟨body.last (cursor.next + 2), cursor.next + 2, []⟩
      have nested := body.emit_confined
        ((.block (cursor.next + 1), .block (cursor.next + 2)) :: stack) (cursor.next + 1)
        (loopEntryKind statement) .loopBack (cursor.next + 1) [] (cursor.next + 2) (confined_nil _)
      have tail := rest.emit_confined stack ⟨body.last (cursor.next + 2), cursor.next + 2, []⟩
      simp only [Code.emit, Code.last, List.cons_append, confined_append, confined_newBlock,
        confined_append_op, confined_edge, confined_nil, within_here, Cursor.Advances,
        true_and, and_true] at *
      exact ⟨.inr (by omega), ⟨nested.into (by omega) (by omega), .inr (by omega)⟩,
        tail.into (by omega) (by omega)⟩
  | .switch _ groups rest, stack, cursor => by
      have innerBound := groups.le_last (cursor.next + 1)
      have bound := rest.advances_last ⟨groups.last (cursor.next + 1), cursor.next + 1, []⟩
      have nested := groups.emit_confined
        ((.block cursor.block, .block (cursor.next + 1)) :: stack) cursor.block none
        (cursor.next + 1) (cursor.next + 1)
      have tail := rest.emit_confined stack ⟨groups.last (cursor.next + 1), cursor.next + 1, []⟩
      simp only [Code.emit, Code.last, List.cons_append, confined_append, confined_newBlock,
        confined_append_op, confined_nil, within_here, Cursor.Advances,
        reduceCtorEq, false_or, true_and] at *
      refine ⟨⟨nested.into (by omega) (by omega), ?_⟩, tail.into (by omega) (by omega)⟩
      split <;> simp
  | .bareSwitch _ rest, stack, cursor => by
      have bound := rest.advances_last ⟨cursor.next + 1, cursor.next + 1, []⟩
      have tail := rest.emit_confined stack ⟨cursor.next + 1, cursor.next + 1, []⟩
      simp only [Code.emit, Code.last, List.cons_append, confined_append, confined_newBlock,
        confined_append_op, confined_edge, confined_nil, within_here, Cursor.Advances,
        true_and] at *
      exact tail.into (by omega) (by omega)

theorem Branch.emit_confined : ∀ (branch : Branch) (stack : LoopStack) (source : Nat)
    (entryKind tailKind : EdgeKind) (target : Nat) (missing : List Op) (next : Nat),
    Confined (fun number => number = source) missing →
    Confined (Within source next (branch.last next))
      (branch.emit stack source entryKind tailKind target missing next)
  | .absent, _, _, _, _, _, _, _, missing => missing.widen fun _ same => .inl same
  | .present body, stack, source, _, _, _, _, next, _ => by
      have inner := body.advances_last (.fresh next)
      have nested := body.emit_confined stack (.fresh next)
      simp only [Branch.emit, Branch.last, List.cons_append, confined_append, confined_newBlock,
        confined_edge, confined_nil, within_here, Cursor.Advances, fresh_next, fresh_block,
        true_and, and_true] at *
      exact ⟨nested.into (by omega) (by omega), .inr (by omega)⟩

theorem Groups.emit_confined : ∀ (groups : Groups) (stack : LoopStack) (switchBlock : Nat)
    (previous : Option Nat) (afterSwitch next : Nat),
    Confined (fun number => previous = some number ∨ Within switchBlock next (groups.last next) number)
      (groups.emit stack switchBlock previous afterSwitch next)
  | .nil, _, _, previous, _, _ => by
      cases previous <;> simp [Groups.emit]
  | .cons label body more, stack, switchBlock, previous, afterSwitch, next => by
      have moves := (Cursor.fresh next).advances_after label
      have inner := body.advances_last ((Cursor.fresh next).after label)
      have bound := more.le_last (body.last ((Cursor.fresh next).after label)).next
      have first := simpleOps_confined stack label (.fresh next)
      have nested := body.emit_confined stack ((Cursor.fresh next).after label)
      have tail := more.emit_confined stack switchBlock
        (some (body.last ((Cursor.fresh next).after label)).block) afterSwitch
        (body.last ((Cursor.fresh next).after label)).next
      simp only [Groups.emit, Groups.last, List.cons_append, confined_append, confined_newBlock,
        confined_edge, confined_nil, within_here, Cursor.Advances, fresh_next, fresh_block,
        or_true, and_true, Option.some.injEq] at *
      refine ⟨⟨⟨first.widen fun _ inside => .inr ?_, nested.widen fun _ inside => .inr ?_⟩, ?_⟩,
        tail.widen fun _ inside => .inr ?_⟩
      · unfold Within at *
        omega
      · unfold Within at *
        omega
      · cases previous <;> simp
      · unfold Within at *
        omega

end

/-- An arm of an `if` or the edge past it stays in the block before it and in its own blocks. -/
theorem Branch.arm_confined (branch : Branch) (stack : LoopStack) (source join : Nat) (kind : EdgeKind)
    (next : Nat) : Confined (Within source next (branch.last next))
      (branch.emit stack source kind .fallthrough join [.edge source (.block join) kind] next) :=
  branch.emit_confined stack source kind .fallthrough join [.edge source (.block join) kind] next (by simp)

/-- The body of a loop stays in the header and in its own blocks. -/
theorem Branch.loop_confined (body : Branch) (stack : LoopStack) (kind : EdgeKind) (number : Nat) :
    Confined (Within (number + 1) (number + 2) (body.last (number + 2)))
      (body.emit ((.block (number + 1), .block (number + 2)) :: stack) (number + 1) kind .loopBack
        (number + 1) [] (number + 2)) :=
  body.emit_confined ((.block (number + 1), .block (number + 2)) :: stack) (number + 1) kind .loopBack
    (number + 1) [] (number + 2) (confined_nil _)

/-- The groups of a switch stay in its block and in their own blocks. -/
theorem Groups.switch_confined (groups : Groups) (stack : LoopStack) (block number : Nat) :
    Confined (Within block (number + 1) (groups.last (number + 1)))
      (groups.emit ((.block block, .block (number + 1)) :: stack) block none (number + 1) (number + 1)) := by
  simpa using groups.emit_confined ((.block block, .block (number + 1)) :: stack) block none (number + 1)
    (number + 1)

/-! ### What the operations leave alone -/

/-- No edge leaves the block, neither now nor when the gotos are wired. -/
def Silent (ops : List Op) (number : Nat) : Prop := ∀ op ∈ ops, op.source ≠ some number

@[simp] theorem silent_nil (number : Nat) : Silent [] number := by
  simp [Silent]

@[simp] theorem silent_cons (op : Op) (ops : List Op) (number : Nat) :
    Silent (op :: ops) number ↔ op.source ≠ some number ∧ Silent ops number := by
  simp [Silent]

@[simp] theorem silent_append (first second : List Op) (number : Nat) :
    Silent (first ++ second) number ↔ Silent first number ∧ Silent second number := by
  simp [Silent, or_imp, forall_and]

theorem subject_of_source {op : Op} {number : Nat} (leaves : op.source = some number) :
    op.subject = some number := by
  cases op <;> simp_all [Op.source, Op.subject]

theorem Confined.silent {inside : Nat → Prop} {ops : List Op} (confined : Confined inside ops)
    (number : Nat) (outside : ¬ inside number) : Silent ops number :=
  fun op present leaves => outside (confined op present number (subject_of_source leaves))

/-- The end of a statement list is left open for the enclosing code. -/
theorem Code.emit_silent : ∀ (code : Code) (stack : LoopStack) (cursor : Cursor),
    cursor.Valid → Silent (code.emit stack cursor) (code.last cursor).block
  | .nil, _, _, _ => silent_nil _
  | .simple statement rest, stack, cursor, valid => by
      have moves := cursor.advances_after statement
      have bound := rest.advances_last (cursor.after statement)
      have tail := rest.emit_silent stack (cursor.after statement) (moves.valid valid)
      simp only [Code.emit, Code.last, silent_append]
      refine ⟨?_, tail⟩
      have jump := jumpOps_confined stack statement cursor.block
      unfold Cursor.Valid at valid
      unfold Cursor.Advances at bound
      obtain ⟨_, _, ops, form⟩ | ⟨_, _, ops, form⟩ | ⟨_, ops, form⟩ | ⟨_, _, ops, form⟩ :=
        simple_forms stack statement cursor
      · simp [ops, Op.source]
      · rw [form] at bound ⊢
        simp only at bound
        simp only [ops, silent_cons, silent_nil, Op.source, ne_eq, reduceCtorEq, Option.some.injEq,
          not_false_eq_true, true_and, and_true]
        omega
      · rw [form] at bound ⊢
        simp only [fresh_next, fresh_block] at bound
        have away : (rest.last (.fresh cursor.next)).block ≠ cursor.block := by omega
        simpa [ops, Op.source] using jump.silent _ away
      · simp [ops, Op.source]
  | .compound _ body rest, stack, cursor, valid => by
      have inner := body.advances_last (.fresh cursor.next)
      have bound := rest.advances_last (.fresh (body.last (.fresh cursor.next)).next)
      have nested := body.emit_confined stack (.fresh cursor.next)
      have tail := rest.emit_silent stack (.fresh (body.last (.fresh cursor.next)).next)
        (Cursor.valid_fresh _)
      unfold Cursor.Valid at valid
      simp only [Cursor.Advances, fresh_next, fresh_block] at inner bound
      simp only [Code.emit, Code.last, List.cons_append, silent_append, silent_cons, silent_nil,
        Op.source, ne_eq, reduceCtorEq, Option.some.injEq, not_false_eq_true, true_and, and_true]
      refine ⟨⟨nested.silent _ ?_, ?_⟩, tail⟩
      · simp only [Within, fresh_next, fresh_block]
        omega
      · omega
  | .ifStmt _ thenBranch elseBranch rest, stack, cursor, valid => by
      have firstBound := thenBranch.le_last (cursor.next + 1)
      have secondBound := elseBranch.le_last (thenBranch.last (cursor.next + 1))
      have bound := rest.advances_last
        ⟨elseBranch.last (thenBranch.last (cursor.next + 1)), cursor.next + 1, []⟩
      have first := thenBranch.arm_confined stack cursor.block (cursor.next + 1) .trueEdge (cursor.next + 1)
      have second := elseBranch.arm_confined stack cursor.block (cursor.next + 1) .falseEdge
        (thenBranch.last (cursor.next + 1))
      have tail := rest.emit_silent stack
        ⟨elseBranch.last (thenBranch.last (cursor.next + 1)), cursor.next + 1, []⟩
        (by unfold Cursor.Valid; simp only; omega)
      unfold Cursor.Valid at valid
      simp only [Cursor.Advances] at bound
      simp only [Code.emit, Code.last, List.cons_append, List.nil_append, silent_append,
        silent_cons, Op.source, ne_eq, reduceCtorEq, not_false_eq_true, true_and]
      refine ⟨⟨first.silent _ ?_, second.silent _ ?_⟩, tail⟩
      · unfold Within
        omega
      · unfold Within
        omega
  | .loop statement body rest, stack, cursor, valid => by
      have innerBound := body.le_last (cursor.next + 2)
      have bound := rest.advances_last ⟨body.last (cursor.next + 2), cursor.next + 2, []⟩
      have nested := body.loop_confined stack (loopEntryKind statement) cursor.next
      have tail := rest.emit_silent stack ⟨body.last (cursor.next + 2), cursor.next + 2, []⟩
        (by unfold Cursor.Valid; simp only; omega)
      unfold Cursor.Valid at valid
      simp only [Cursor.Advances] at bound
      simp only [Code.emit, Code.last, List.cons_append, List.nil_append, silent_append,
        silent_cons, silent_nil, Op.source, ne_eq, reduceCtorEq, Option.some.injEq,
        not_false_eq_true, true_and, and_true]
      refine ⟨?_, ⟨nested.silent _ ?_, ?_⟩, tail⟩
      · omega
      · unfold Within
        omega
      · omega
  | .switch _ groups rest, stack, cursor, valid => by
      have innerBound := groups.le_last (cursor.next + 1)
      have bound := rest.advances_last ⟨groups.last (cursor.next + 1), cursor.next + 1, []⟩
      have nested := groups.switch_confined stack cursor.block cursor.next
      have tail := rest.emit_silent stack ⟨groups.last (cursor.next + 1), cursor.next + 1, []⟩
        (by unfold Cursor.Valid; simp only; omega)
      unfold Cursor.Valid at valid
      simp only [Cursor.Advances] at bound
      simp only [Code.emit, Code.last, List.cons_append, List.nil_append, silent_append,
        silent_cons, Op.source, ne_eq, reduceCtorEq, not_false_eq_true, true_and]
      refine ⟨⟨nested.silent _ ?_, ?_⟩, tail⟩
      · unfold Within
        omega
      · split
        · exact silent_nil _
        · simp only [silent_cons, silent_nil, Op.source, ne_eq, Option.some.injEq, and_true]
          omega
  | .bareSwitch _ rest, stack, cursor, valid => by
      have bound := rest.advances_last ⟨cursor.next + 1, cursor.next + 1, []⟩
      have tail := rest.emit_silent stack ⟨cursor.next + 1, cursor.next + 1, []⟩ (Cursor.valid_fresh _)
      unfold Cursor.Valid at valid
      simp only [Cursor.Advances] at bound
      simp only [Code.emit, Code.last, List.cons_append, List.nil_append, silent_cons, Op.source,
        ne_eq, reduceCtorEq, Option.some.injEq, not_false_eq_true, true_and]
      exact ⟨by omega, tail⟩

/-! ### Allocations -/

@[simp] theorem allocations_nil : allocations [] = 0 := rfl

@[simp] theorem allocations_append (first second : List Op) :
    allocations (first ++ second) = allocations first + allocations second := by
  simp [allocations]

@[simp] theorem allocations_cons (op : Op) (ops : List Op) :
    allocations (op :: ops) = op.allocates + allocations ops := by
  simp [allocations]

theorem jumpOps_allocations (stack : LoopStack) (statement : AstNode) (number : Nat) :
    allocations (jumpOps stack statement number) = 0 := by
  unfold jumpOps
  cases stack.head? <;> split <;> rfl

theorem simpleOps_allocations (stack : LoopStack) (statement : AstNode) (cursor : Cursor) :
    cursor.next + allocations (simpleOps stack statement cursor) = (cursor.after statement).next := by
  obtain ⟨_, _, ops, form⟩ | ⟨_, _, ops, form⟩ | ⟨_, ops, form⟩ | ⟨_, _, ops, form⟩ :=
    simple_forms stack statement cursor <;>
    simp [ops, form, jumpOps_allocations, Op.allocates]

mutual

theorem Code.emit_allocations : ∀ (code : Code) (stack : LoopStack) (cursor : Cursor),
    cursor.next + allocations (code.emit stack cursor) = (code.last cursor).next
  | .nil, _, _ => rfl
  | .simple statement rest, stack, cursor => by
      have first := simpleOps_allocations stack statement cursor
      have tail := rest.emit_allocations stack (cursor.after statement)
      simp only [Code.emit, Code.last, allocations_append]
      omega
  | .compound _ body rest, stack, cursor => by
      have nested := body.emit_allocations stack (.fresh cursor.next)
      have tail := rest.emit_allocations stack (.fresh (body.last (.fresh cursor.next)).next)
      simp only [fresh_next] at nested tail
      simp [Code.emit, Code.last, Op.allocates] at *
      omega
  | .ifStmt _ thenBranch elseBranch rest, stack, cursor => by
      have first := thenBranch.emit_allocations stack cursor.block .trueEdge .fallthrough
        (cursor.next + 1) [.edge cursor.block (.block (cursor.next + 1)) .trueEdge] (cursor.next + 1)
        rfl
      have second := elseBranch.emit_allocations stack cursor.block .falseEdge .fallthrough
        (cursor.next + 1) [.edge cursor.block (.block (cursor.next + 1)) .falseEdge]
        (thenBranch.last (cursor.next + 1)) rfl
      have tail := rest.emit_allocations stack
        ⟨elseBranch.last (thenBranch.last (cursor.next + 1)), cursor.next + 1, []⟩
      simp [Code.emit, Code.last, Op.allocates] at *
      omega
  | .loop statement body rest, stack, cursor => by
      have nested := body.emit_allocations
        ((.block (cursor.next + 1), .block (cursor.next + 2)) :: stack) (cursor.next + 1)
        (loopEntryKind statement) .loopBack (cursor.next + 1) [] (cursor.next + 2) rfl
      have tail := rest.emit_allocations stack ⟨body.last (cursor.next + 2), cursor.next + 2, []⟩
      simp [Code.emit, Code.last, Op.allocates] at *
      omega
  | .switch _ groups rest, stack, cursor => by
      have nested := groups.emit_allocations
        ((.block cursor.block, .block (cursor.next + 1)) :: stack) cursor.block none
        (cursor.next + 1) (cursor.next + 1)
      have tail := rest.emit_allocations stack ⟨groups.last (cursor.next + 1), cursor.next + 1, []⟩
      simp only at tail
      simp only [Code.emit, Code.last, List.cons_append, List.nil_append, allocations_append,
        allocations_cons, Op.allocates]
      split <;> simp [Op.allocates] <;> omega
  | .bareSwitch _ rest, stack, cursor => by
      have tail := rest.emit_allocations stack ⟨cursor.next + 1, cursor.next + 1, []⟩
      simp [Code.emit, Code.last, Op.allocates] at *
      omega

theorem Branch.emit_allocations : ∀ (branch : Branch) (stack : LoopStack) (source : Nat)
    (entryKind tailKind : EdgeKind) (target : Nat) (missing : List Op) (next : Nat),
    allocations missing = 0 →
    next + allocations (branch.emit stack source entryKind tailKind target missing next) =
      branch.last next
  | .absent, _, _, _, _, _, _, _, zero => by
      simp [Branch.emit, Branch.last, zero]
  | .present body, stack, _, _, _, _, _, next, _ => by
      have nested := body.emit_allocations stack (.fresh next)
      simp only [fresh_next] at nested
      simp [Branch.emit, Branch.last, Op.allocates]
      omega

theorem Groups.emit_allocations : ∀ (groups : Groups) (stack : LoopStack) (switchBlock : Nat)
    (previous : Option Nat) (afterSwitch next : Nat),
    next + allocations (groups.emit stack switchBlock previous afterSwitch next) = groups.last next
  | .nil, _, _, previous, _, _ => by
      cases previous <;> simp [Groups.emit, Groups.last, Op.allocates]
  | .cons label body more, stack, switchBlock, previous, afterSwitch, next => by
      have first := simpleOps_allocations stack label (.fresh next)
      have nested := body.emit_allocations stack ((Cursor.fresh next).after label)
      have tail := more.emit_allocations stack switchBlock
        (some (body.last ((Cursor.fresh next).after label)).block) afterSwitch
        (body.last ((Cursor.fresh next).after label)).next
      simp only [fresh_next] at first
      cases previous <;> simp [Groups.emit, Groups.last, Op.allocates] <;> omega

end

/-! ### Statements of the current block -/

@[simp] theorem puts_nil (number : Nat) : puts [] number = [] := rfl

@[simp] theorem puts_append (first second : List Op) (number : Nat) :
    puts (first ++ second) number = puts first number ++ puts second number :=
  List.filterMap_append

@[simp] theorem puts_cons (op : Op) (ops : List Op) (number : Nat) :
    puts (op :: ops) number = (op.put number).toList ++ puts ops number := by
  simp only [puts, List.filterMap_cons]
  cases op.put number <;> rfl

theorem Confined.puts {inside : Nat → Prop} {ops : List Op} (confined : Confined inside ops)
    (number : Nat) (outside : ¬ inside number) : puts ops number = [] := by
  refine List.filterMap_eq_nil_iff.mpr fun op present => ?_
  have elsewhere := confined op present
  cases op with
  | append other statement =>
      refine if_neg fun same => outside ?_
      rw [← same]
      exact elsewhere other rfl
  | newBlock | edge | label | goto => rfl

theorem jumpOps_puts (stack : LoopStack) (statement : AstNode) (source number : Nat) :
    puts (jumpOps stack statement source) number = [] := by
  unfold jumpOps
  cases stack.head? <;> split <;> rfl

/-- The statements that a block holds when the cursor arrives. -/
def Cursor.held (cursor : Cursor) (number : Nat) : List AstNode :=
  if number = cursor.block then cursor.statements else []

/-- The operations fill the last block with the statements that the last cursor names. -/
def Fills (before after : Cursor) (ops : List Op) : Prop :=
  before.held after.block ++ puts ops after.block = after.statements

theorem Fills.trans {before middle after : Cursor} {first second : List Op}
    (head : Fills before middle first) (tail : Fills middle after second)
    (valid : before.Valid) (moves : before.Advances middle) (further : middle.Advances after)
    (confined : Confined (Within before.block before.next middle.next) first) :
    Fills before after (first ++ second) := by
  unfold Fills Cursor.held Cursor.Valid Cursor.Advances at *
  by_cases same : after.block = middle.block
  · rw [same] at tail ⊢
    rw [puts_append, ← List.append_assoc, head]
    simpa using tail
  · have outside : ¬ Within before.block before.next middle.next after.block := by
      unfold Within
      omega
    have away : after.block ≠ before.block := fun equal => outside (.inl equal)
    rw [puts_append, confined.puts _ outside]
    simpa [same, away] using tail

/-- A new block is empty. -/
theorem fills_new (before : Cursor) (ops : List Op) (next block : Nat) (valid : before.Valid)
    (new : before.next < block) (empty : puts ops block = []) :
    Fills before ⟨next, block, []⟩ ops := by
  unfold Cursor.Valid at valid
  have away : block ≠ before.block := by omega
  simp [Fills, Cursor.held, away, empty]

theorem simpleOps_fills (stack : LoopStack) (statement : AstNode) (cursor : Cursor)
    (valid : cursor.Valid) :
    Fills cursor (cursor.after statement) (simpleOps stack statement cursor) := by
  unfold Cursor.Valid at valid
  obtain ⟨_, empty, ops, form⟩ | ⟨_, _, ops, form⟩ | ⟨_, ops, form⟩ | ⟨_, _, ops, form⟩ :=
    simple_forms stack statement cursor
  · simp [ops, form, Fills, Cursor.held, Op.put, empty]
  · have away : cursor.next + 1 ≠ cursor.block := by omega
    simp [ops, form, Fills, Cursor.held, Op.put, away]
  · rw [ops, form]
    refine fills_new cursor _ _ _ valid (Nat.lt_succ_self _) ?_
    have away : cursor.block ≠ cursor.next + 1 := by omega
    simp [jumpOps_puts, Op.put, away]
  · simp [ops, form, Fills, Cursor.held, Op.put]

theorem Code.emit_fills : ∀ (code : Code) (stack : LoopStack) (cursor : Cursor), cursor.Valid →
    Fills cursor (code.last cursor) (code.emit stack cursor)
  | .nil, _, cursor, _ => by simp [Code.last, Code.emit, Fills, Cursor.held]
  | .simple statement rest, stack, cursor, valid => by
      have moves := cursor.advances_after statement
      exact (simpleOps_fills stack statement cursor valid).trans
        (rest.emit_fills stack (cursor.after statement) (moves.valid valid)) valid moves
        (rest.advances_last _) (simpleOps_confined stack statement cursor)
  | .compound statement body rest, stack, cursor, valid => by
      have inner := body.advances_last (.fresh cursor.next)
      have nested := body.emit_confined stack (.fresh cursor.next)
      have head := (Code.compound statement body .nil).emit_confined stack cursor
      have moves := (Code.compound statement body .nil).advances_last cursor
      have tail := rest.emit_fills stack (.fresh (body.last (.fresh cursor.next)).next)
        (Cursor.valid_fresh _)
      simp only [Cursor.Advances, fresh_next, fresh_block] at inner
      simp only [Code.emit, List.append_nil] at head
      refine Fills.trans (fills_new cursor _ _ _ valid ?_ ?_) tail valid moves
        (rest.advances_last _) head
      · omega
      · have empty := nested.puts ((body.last (.fresh cursor.next)).next + 1) (by
          simp only [Within, fresh_next, fresh_block]
          omega)
        simp [empty, Op.put]
  | .ifStmt statement thenBranch elseBranch rest, stack, cursor, valid => by
      have firstBound := thenBranch.le_last (cursor.next + 1)
      have first := thenBranch.arm_confined stack cursor.block (cursor.next + 1) .trueEdge (cursor.next + 1)
      have second := elseBranch.arm_confined stack cursor.block (cursor.next + 1) .falseEdge
        (thenBranch.last (cursor.next + 1))
      have head := (Code.ifStmt statement thenBranch elseBranch .nil).emit_confined stack cursor
      have moves := (Code.ifStmt statement thenBranch elseBranch .nil).advances_last cursor
      have tail := rest.emit_fills stack
        ⟨elseBranch.last (thenBranch.last (cursor.next + 1)), cursor.next + 1, []⟩
        (moves.valid valid)
      simp only [Code.emit, List.append_nil] at head
      refine Fills.trans (fills_new cursor _ _ _ valid (Nat.lt_succ_self _) ?_) tail valid moves
        (rest.advances_last _) head
      unfold Cursor.Valid at valid
      have away : cursor.block ≠ cursor.next + 1 := by omega
      rw [puts_append, puts_append, first.puts _ (by unfold Within; omega),
        second.puts _ (by unfold Within; omega)]
      simp [Op.put, away]
  | .loop statement body rest, stack, cursor, valid => by
      have nested := body.loop_confined stack (loopEntryKind statement) cursor.next
      have head := (Code.loop statement body .nil).emit_confined stack cursor
      have moves := (Code.loop statement body .nil).advances_last cursor
      have tail := rest.emit_fills stack ⟨body.last (cursor.next + 2), cursor.next + 2, []⟩
        (moves.valid valid)
      simp only [Code.emit, List.append_nil] at head
      refine Fills.trans (fills_new cursor _ _ _ valid (by omega) ?_) tail valid moves
        (rest.advances_last _) head
      rw [puts_append, puts_append, nested.puts _ (by unfold Within; omega)]
      simp [Op.put]
  | .switch statement groups rest, stack, cursor, valid => by
      have nested := groups.switch_confined stack cursor.block cursor.next
      have head := (Code.switch statement groups .nil).emit_confined stack cursor
      have moves := (Code.switch statement groups .nil).advances_last cursor
      have tail := rest.emit_fills stack ⟨groups.last (cursor.next + 1), cursor.next + 1, []⟩
        (moves.valid valid)
      simp only [Code.emit, List.append_nil] at head
      refine Fills.trans (fills_new cursor _ _ _ valid (Nat.lt_succ_self _) ?_) tail valid moves
        (rest.advances_last _) head
      unfold Cursor.Valid at valid
      have away : cursor.block ≠ cursor.next + 1 := by omega
      rw [puts_append, puts_append, nested.puts _ (by unfold Within; omega)]
      split <;> simp [Op.put, away]
  | .bareSwitch statement rest, stack, cursor, valid => by
      have head := (Code.bareSwitch statement .nil).emit_confined stack cursor
      have moves := (Code.bareSwitch statement .nil).advances_last cursor
      have tail := rest.emit_fills stack ⟨cursor.next + 1, cursor.next + 1, []⟩ (Cursor.valid_fresh _)
      simp only [Code.emit, List.append_nil] at head
      refine Fills.trans (fills_new cursor _ _ _ valid (Nat.lt_succ_self _) ?_) tail valid moves
        (rest.advances_last _) head
      unfold Cursor.Valid at valid
      have away : cursor.block ≠ cursor.next + 1 := by omega
      simp [Op.put, away]

/-! ### Edges -/

@[simp] theorem edgesFrom_nil (number : Nat) : edgesFrom [] number = [] := rfl

@[simp] theorem edgesFrom_append (first second : List Op) (number : Nat) :
    edgesFrom (first ++ second) number = edgesFrom first number ++ edgesFrom second number := by
  simp [edgesFrom]

@[simp] theorem edgesFrom_edge (source : Nat) (target : BlockId) (kind : EdgeKind) (ops : List Op)
    (number : Nat) :
    edgesFrom (.edge source target kind :: ops) number =
      (if source = number then [⟨.block source, target, kind, none⟩] else []) ++
        edgesFrom ops number := by
  by_cases same : source = number <;> simp [edgesFrom, Op.toEdge, same]

theorem edgesFrom_cons (op : Op) (ops : List Op) (number : Nat) (other : op.toEdge = none) :
    edgesFrom (op :: ops) number = edgesFrom ops number := by
  simp [edgesFrom, other]

@[simp] theorem edgesFrom_newBlock (ops : List Op) (number : Nat) :
    edgesFrom (.newBlock :: ops) number = edgesFrom ops number := edgesFrom_cons _ _ _ rfl

@[simp] theorem edgesFrom_append_op (other : Nat) (statement : AstNode) (ops : List Op)
    (number : Nat) :
    edgesFrom (.append other statement :: ops) number = edgesFrom ops number :=
  edgesFrom_cons _ _ _ rfl

@[simp] theorem edgesFrom_label (name : String) (other : Nat) (ops : List Op) (number : Nat) :
    edgesFrom (.label name other :: ops) number = edgesFrom ops number := edgesFrom_cons _ _ _ rfl

@[simp] theorem edgesFrom_goto (other : Nat) (name : String) (ops : List Op) (number : Nat) :
    edgesFrom (.goto other name :: ops) number = edgesFrom ops number := edgesFrom_cons _ _ _ rfl

@[simp] theorem gotosFrom_nil (resolve : String → BlockId) (number : Nat) :
    gotosFrom resolve [] number = [] := rfl

@[simp] theorem gotosFrom_append (resolve : String → BlockId) (first second : List Op)
    (number : Nat) :
    gotosFrom resolve (first ++ second) number =
      gotosFrom resolve first number ++ gotosFrom resolve second number := by
  simp [gotosFrom]

@[simp] theorem gotosFrom_goto (resolve : String → BlockId) (source : Nat) (name : String)
    (ops : List Op) (number : Nat) :
    gotosFrom resolve (.goto source name :: ops) number =
      (if source = number then [⟨.block source, resolve name, .gotoEdge, some name⟩] else []) ++
        gotosFrom resolve ops number := by
  by_cases same : source = number <;> simp [gotosFrom, Op.toGoto, same]

theorem gotosFrom_cons (resolve : String → BlockId) (op : Op) (ops : List Op) (number : Nat)
    (other : op.toGoto = none) :
    gotosFrom resolve (op :: ops) number = gotosFrom resolve ops number := by
  simp [gotosFrom, other]

@[simp] theorem gotosFrom_newBlock (resolve : String → BlockId) (ops : List Op) (number : Nat) :
    gotosFrom resolve (.newBlock :: ops) number = gotosFrom resolve ops number :=
  gotosFrom_cons _ _ _ _ rfl

@[simp] theorem gotosFrom_append_op (resolve : String → BlockId) (other : Nat)
    (statement : AstNode) (ops : List Op) (number : Nat) :
    gotosFrom resolve (.append other statement :: ops) number = gotosFrom resolve ops number :=
  gotosFrom_cons _ _ _ _ rfl

@[simp] theorem gotosFrom_edge (resolve : String → BlockId) (source : Nat) (target : BlockId)
    (kind : EdgeKind) (ops : List Op) (number : Nat) :
    gotosFrom resolve (.edge source target kind :: ops) number = gotosFrom resolve ops number :=
  gotosFrom_cons _ _ _ _ rfl

@[simp] theorem gotosFrom_label (resolve : String → BlockId) (name : String) (other : Nat)
    (ops : List Op) (number : Nat) :
    gotosFrom resolve (.label name other :: ops) number = gotosFrom resolve ops number :=
  gotosFrom_cons _ _ _ _ rfl

theorem Silent.edgesFrom {ops : List Op} {number : Nat} (silent : Silent ops number) :
    edgesFrom ops number = [] := by
  induction ops with
  | nil => rfl
  | cons op rest ih =>
      rw [silent_cons] at silent
      cases op <;> simp_all [Op.source]

theorem Silent.gotosFrom {ops : List Op} {number : Nat} (silent : Silent ops number)
    (resolve : String → BlockId) : gotosFrom resolve ops number = [] := by
  induction ops with
  | nil => rfl
  | cons op rest ih =>
      rw [silent_cons] at silent
      cases op <;> simp_all [Op.source]

end MisraPlatform
