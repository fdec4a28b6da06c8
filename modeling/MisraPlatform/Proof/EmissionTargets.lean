import MisraPlatform.Proof.EmissionFrame

/-
This file bounds the blocks that the edges of a statement list lead to.
-/

namespace MisraPlatform
open CFGEngine

/-- The block is one of the first blocks that the factory numbered. -/
def Allocated (high : Nat) (blockId : BlockId) : Prop :=
  ∃ number, blockId = .block number ∧ 0 < number ∧ number ≤ high

theorem allocated_block {high number : Nat} (bounds : 0 < number ∧ number ≤ high) :
    Allocated high (.block number) := ⟨number, rfl, bounds⟩

/-- Only a return leads to the exit and every other edge leads to a numbered block. -/
def Aimed (high : Nat) (ops : List Op) : Prop :=
  ∀ op ∈ ops, ∀ edge, op.toEdge = some edge →
    (edge.target = .exit ∧ edge.kind = .returnEdge) ∨ Allocated high edge.target

@[simp] theorem aimed_nil (high : Nat) : Aimed high [] := by
  simp [Aimed]

@[simp] theorem aimed_append (high : Nat) (first second : List Op) :
    Aimed high (first ++ second) ↔ Aimed high first ∧ Aimed high second := by
  simp [Aimed, or_imp, forall_and]

@[simp] theorem aimed_edge (high source : Nat) (target : BlockId) (kind : EdgeKind) (ops : List Op) :
    Aimed high (.edge source target kind :: ops) ↔
      ((target = .exit ∧ kind = .returnEdge) ∨ Allocated high target) ∧ Aimed high ops := by
  simp [Aimed, Op.toEdge]

theorem aimed_cons (high : Nat) (op : Op) (ops : List Op) (other : op.toEdge = none) :
    Aimed high (op :: ops) ↔ Aimed high ops := by
  simp [Aimed, other]

@[simp] theorem aimed_newBlock (high : Nat) (ops : List Op) :
    Aimed high (.newBlock :: ops) ↔ Aimed high ops := aimed_cons _ _ _ rfl

@[simp] theorem aimed_append_op (high number : Nat) (statement : AstNode) (ops : List Op) :
    Aimed high (.append number statement :: ops) ↔ Aimed high ops := aimed_cons _ _ _ rfl

@[simp] theorem aimed_label (high number : Nat) (name : String) (ops : List Op) :
    Aimed high (.label name number :: ops) ↔ Aimed high ops := aimed_cons _ _ _ rfl

@[simp] theorem aimed_goto (high number : Nat) (name : String) (ops : List Op) :
    Aimed high (.goto number name :: ops) ↔ Aimed high ops := aimed_cons _ _ _ rfl

/-- The targets of the enclosing loops and switches are numbered blocks. -/
def StackAllocated (high : Nat) (stack : LoopStack) : Prop :=
  ∀ targets ∈ stack, Allocated high targets.1 ∧ Allocated high targets.2

theorem StackAllocated.push {high : Nat} {stack : LoopStack} (outer : StackAllocated high stack)
    {again after : Nat} (first : 0 < again ∧ again ≤ high) (second : 0 < after ∧ after ≤ high) :
    StackAllocated high ((.block again, .block after) :: stack) := by
  intro targets inside
  rcases List.mem_cons.mp inside with rfl | below
  · exact ⟨allocated_block first, allocated_block second⟩
  · exact outer targets below

theorem jumpOps_aimed {high : Nat} {stack : LoopStack} (outer : StackAllocated high stack)
    (statement : AstNode) (number : Nat) : Aimed high (jumpOps stack statement number) := by
  unfold jumpOps
  cases stack with
  | nil => split <;> simp
  | cons targets rest =>
      have known := outer targets (by simp)
      split <;> simp [known]

theorem simpleOps_aimed {high : Nat} {stack : LoopStack} (outer : StackAllocated high stack)
    (statement : AstNode) (cursor : Cursor) (fits : (cursor.after statement).next ≤ high) :
    Aimed high (simpleOps stack statement cursor) := by
  obtain ⟨_, _, ops, form⟩ | ⟨_, _, ops, form⟩ | ⟨_, ops, form⟩ | ⟨_, _, ops, form⟩ :=
    simple_forms stack statement cursor
  · simp [ops]
  · rw [form] at fits
    simp only [ops, aimed_newBlock, aimed_edge, aimed_label, aimed_append_op, aimed_nil, and_true]
    exact .inr (allocated_block ⟨Nat.succ_pos _, fits⟩)
  · simp [ops, jumpOps_aimed outer]
  · simp [ops]

mutual

theorem Code.emit_aimed (high : Nat) : ∀ (code : Code) (stack : LoopStack) (cursor : Cursor),
    StackAllocated high stack → 0 < cursor.block → cursor.Valid → (code.last cursor).next ≤ high →
    Aimed high (code.emit stack cursor)
  | .nil, _, _, _, _, _, _ => aimed_nil _
  | .simple statement rest, stack, cursor, outer, positive, valid, fits => by
      have moves := cursor.advances_after statement
      have bound := rest.advances_last (cursor.after statement)
      simp only [Code.last, Cursor.Advances] at *
      rw [Code.emit, aimed_append]
      exact ⟨simpleOps_aimed outer statement cursor (by omega),
        rest.emit_aimed high stack _ outer (by omega) (Cursor.Advances.valid moves valid) fits⟩
  | .compound _ body rest, stack, cursor, outer, positive, valid, fits => by
      have inner := body.advances_last (.fresh cursor.next)
      have bound := rest.advances_last (.fresh (body.last (.fresh cursor.next)).next)
      simp only [Code.last, Cursor.Advances, fresh_next, fresh_block] at *
      simp only [Code.emit, List.cons_append, aimed_newBlock, aimed_append, aimed_edge, aimed_nil,
        and_true, fresh_block]
      exact ⟨⟨body.emit_aimed high stack _ outer (Nat.succ_pos _) (Cursor.valid_fresh _) (by omega),
          .inr (allocated_block (by omega))⟩,
        rest.emit_aimed high stack _ outer (Nat.succ_pos _) (Cursor.valid_fresh _) fits⟩
  | .ifStmt _ thenBranch elseBranch rest, stack, cursor, outer, positive, valid, fits => by
      have firstBound := thenBranch.le_last (cursor.next + 1)
      have secondBound := elseBranch.le_last (thenBranch.last (cursor.next + 1))
      have bound := rest.advances_last
        ⟨elseBranch.last (thenBranch.last (cursor.next + 1)), cursor.next + 1, []⟩
      simp only [Code.last, Cursor.Advances] at *
      have join : Allocated high (.block (cursor.next + 1)) := allocated_block (by omega)
      simp only [Code.emit, List.cons_append, List.nil_append, aimed_append_op, aimed_newBlock,
        aimed_append]
      exact ⟨⟨thenBranch.emit_aimed high _ _ _ _ _ _ _ outer join (by simp [join]) (by omega),
          elseBranch.emit_aimed high _ _ _ _ _ _ _ outer join (by simp [join]) (by omega)⟩,
        rest.emit_aimed high stack _ outer (Nat.succ_pos _) (by unfold Cursor.Valid; simp only; omega)
          fits⟩
  | .loop statement body rest, stack, cursor, outer, positive, valid, fits => by
      have innerBound := body.le_last (cursor.next + 2)
      have bound := rest.advances_last ⟨body.last (cursor.next + 2), cursor.next + 2, []⟩
      simp only [Code.last, Cursor.Advances] at *
      have header : Allocated high (.block (cursor.next + 1)) := allocated_block (by omega)
      have after : Allocated high (.block (cursor.next + 2)) := allocated_block (by omega)
      simp only [Code.emit, List.cons_append, List.nil_append, aimed_append_op, aimed_newBlock,
        aimed_append, aimed_edge, aimed_nil, and_true]
      exact ⟨.inr header, ⟨body.emit_aimed high _ _ _ _ _ _ _
          (outer.push (by omega) (by omega)) header (aimed_nil _) (by omega), .inr after⟩,
        rest.emit_aimed high stack _ outer (Nat.succ_pos _) (by unfold Cursor.Valid; simp only; omega)
          fits⟩
  | .switch _ groups rest, stack, cursor, outer, positive, valid, fits => by
      have innerBound := groups.le_last (cursor.next + 1)
      have bound := rest.advances_last ⟨groups.last (cursor.next + 1), cursor.next + 1, []⟩
      unfold Cursor.Valid at valid
      simp only [Code.last, Cursor.Advances] at *
      have after : Allocated high (.block (cursor.next + 1)) := allocated_block (by omega)
      simp only [Code.emit, List.cons_append, List.nil_append, aimed_append_op, aimed_newBlock,
        aimed_append]
      refine ⟨⟨groups.emit_aimed high _ _ _ _ _ (outer.push (by omega) (by omega)) after
          (by omega), ?_⟩,
        rest.emit_aimed high stack _ outer (Nat.succ_pos _) (by unfold Cursor.Valid; simp only; omega)
          fits⟩
      split <;> simp [after]
  | .bareSwitch _ rest, stack, cursor, outer, positive, valid, fits => by
      have bound := rest.advances_last ⟨cursor.next + 1, cursor.next + 1, []⟩
      simp only [Code.last, Cursor.Advances] at *
      simp only [Code.emit, List.cons_append, List.nil_append, aimed_append_op, aimed_newBlock,
        aimed_edge]
      exact ⟨.inr (allocated_block (by omega)),
        rest.emit_aimed high stack _ outer (Nat.succ_pos _) (Cursor.valid_fresh _) fits⟩

theorem Branch.emit_aimed (high : Nat) : ∀ (branch : Branch) (stack : LoopStack) (source : Nat)
    (entryKind tailKind : EdgeKind) (target : Nat) (missing : List Op) (next : Nat),
    StackAllocated high stack → Allocated high (.block target) → Aimed high missing →
    branch.last next ≤ high →
    Aimed high (branch.emit stack source entryKind tailKind target missing next)
  | .absent, _, _, _, _, _, _, _, _, _, missing, _ => missing
  | .present body, stack, source, _, _, target, _, next, outer, join, _, fits => by
      have inner := body.advances_last (.fresh next)
      simp only [Branch.last, Cursor.Advances, fresh_next, fresh_block] at *
      simp only [Branch.emit, List.cons_append, aimed_newBlock, aimed_append, aimed_edge, aimed_nil,
        and_true, fresh_block]
      exact ⟨body.emit_aimed high stack _ outer (Nat.succ_pos _) (Cursor.valid_fresh _) fits,
        .inr (allocated_block (by omega)), .inr join⟩

theorem Groups.emit_aimed (high : Nat) : ∀ (groups : Groups) (stack : LoopStack)
    (switchBlock : Nat) (previous : Option Nat) (afterSwitch next : Nat),
    StackAllocated high stack → Allocated high (.block afterSwitch) → groups.last next ≤ high →
    Aimed high (groups.emit stack switchBlock previous afterSwitch next)
  | .nil, _, _, previous, _, _, _, after, _ => by
      cases previous <;> simp [Groups.emit, after]
  | .cons label body more, stack, switchBlock, previous, afterSwitch, next, outer, after, fits => by
      have moves := (Cursor.fresh next).advances_after label
      have inner := body.advances_last ((Cursor.fresh next).after label)
      have bound := more.le_last (body.last ((Cursor.fresh next).after label)).next
      have valid := moves.valid (Cursor.valid_fresh next)
      simp only [Groups.last, Cursor.Advances, fresh_next, fresh_block] at *
      have entry : Allocated high (.block (next + 1)) := allocated_block (by omega)
      simp only [Groups.emit, List.cons_append, aimed_newBlock, aimed_append, aimed_edge, aimed_nil,
        and_true, fresh_block]
      refine ⟨⟨⟨⟨simpleOps_aimed outer label _ (by omega), body.emit_aimed high stack _ outer
        (by omega) valid (by omega)⟩, .inr entry⟩, ?_⟩,
        more.emit_aimed high stack switchBlock _ afterSwitch _ outer after fits⟩
      cases previous <;> simp [entry]

end

end MisraPlatform
