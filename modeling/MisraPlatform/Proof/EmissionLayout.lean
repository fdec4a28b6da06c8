import MisraPlatform.Proof.Refinement

/-
This file shows that the operations of a body lay the body out.
-/

namespace MisraPlatform
open CFGEngine

/-- The cursor stands behind the statements of its block. -/
def Cursor.point (cursor : Cursor) : Point := (.block cursor.block, cursor.statements.length)

section Shows

variable (cfg : ControlFlowGraph) (resolve : String → BlockId)

/-- The graph holds what the operations write to one block. -/
def ShowsBlock (ops : List Op) (before : List AstNode) (number : Nat) : Prop :=
  cfg.statementsOf (.block number) = before ++ puts ops number ∧
    cfg.successors (.block number) = edgesFrom ops number ++ gotosFrom resolve ops number

/-- The graph holds a stretch. The block where the stretch ends may grow further. -/
structure Shows (cursor last : Cursor) (ops : List Op) : Prop where
  closed : ∀ number, Within cursor.block cursor.next last.next number → number ≠ last.block →
    ShowsBlock cfg resolve ops (cursor.held number) number
  opened : ∃ more, cfg.statementsOf (.block last.block) = last.statements ++ more

/-- The graph holds every block that the operations allocate. -/
def ShowsAll (low high : Nat) (ops : List Op) : Prop :=
  ∀ number, low < number → number ≤ high → ShowsBlock cfg resolve ops [] number

end Shows

variable {cfg : ControlFlowGraph} {resolve : String → BlockId}

/-- The second part of a stretch goes on where the first part ends. -/
theorem Shows.tail {cursor middle last : Cursor} {first second : List Op}
    (shown : Shows cfg resolve cursor last (first ++ second)) (valid : cursor.Valid)
    (moves : cursor.Advances middle) (further : middle.Advances last)
    (fills : Fills cursor middle first) (silent : Silent first middle.block)
    (confined : Confined (Within cursor.block cursor.next middle.next) first) :
    Shows cfg resolve middle last second := by
  refine ⟨fun number inside away => ?_, shown.opened⟩
  unfold Cursor.Valid Cursor.Advances Within at *
  obtain ⟨statements, successors⟩ := shown.closed number (by unfold Within; omega) away
  by_cases same : number = middle.block
  · subst same
    rw [puts_append, ← List.append_assoc, fills] at statements
    rw [edgesFrom_append, gotosFrom_append, silent.edgesFrom, silent.gotosFrom] at successors
    exact ⟨by simpa [Cursor.held] using statements, by simpa using successors⟩
  · have outside : ¬ (number = cursor.block ∨ cursor.next < number ∧ number ≤ middle.next) := by omega
    have elsewhere : number ≠ cursor.block := fun equal => outside (.inl equal)
    have quiet := confined.silent _ outside
    rw [puts_append, confined.puts _ outside] at statements
    rw [edgesFrom_append, gotosFrom_append, quiet.edgesFrom, quiet.gotosFrom] at successors
    exact ⟨by simpa [Cursor.held, same, elsewhere] using statements, by simpa using successors⟩

/-- The first part of a stretch is complete but for its last block. -/
theorem Shows.head {cursor middle last : Cursor} {first second : List Op}
    (shown : Shows cfg resolve cursor last (first ++ second)) (valid : cursor.Valid)
    (moves : cursor.Advances middle) (further : middle.Advances last)
    (fills : Fills cursor middle first) (later : Fills middle last second)
    (confined : Confined (Within middle.block middle.next last.next) second) :
    Shows cfg resolve cursor middle first := by
  constructor
  · intro number inside away
    unfold Cursor.Valid Cursor.Advances Within at *
    obtain ⟨statements, successors⟩ := shown.closed number (by unfold Within; omega) (by omega)
    have outside : ¬ (number = middle.block ∨ middle.next < number ∧ number ≤ last.next) := by omega
    have quiet := confined.silent _ outside
    rw [puts_append, confined.puts _ outside] at statements
    rw [edgesFrom_append, gotosFrom_append, quiet.edgesFrom, quiet.gotosFrom] at successors
    exact ⟨by simpa using statements, by simpa using successors⟩
  · by_cases same : middle.block = last.block
    · obtain ⟨more, statements⟩ := shown.opened
      refine ⟨puts second last.block ++ more, ?_⟩
      rw [same, statements, ← List.append_assoc]
      unfold Fills Cursor.held at later
      rw [← later, if_pos same.symm]
    · obtain ⟨statements, _⟩ := shown.closed middle.block
        (by unfold Cursor.Advances Within at *; omega) same
      refine ⟨puts second middle.block, ?_⟩
      rw [statements, puts_append, ← List.append_assoc, fills]

/-- The two parts of a statement list are shown separately. -/
theorem Shows.code {cursor : Cursor} (stack : LoopStack) (head rest : Code)
    (shown : Shows cfg resolve cursor (rest.last (head.last cursor))
      (head.emit stack cursor ++ rest.emit stack (head.last cursor))) (valid : cursor.Valid) :
    Shows cfg resolve cursor (head.last cursor) (head.emit stack cursor) ∧
      Shows cfg resolve (head.last cursor) (rest.last (head.last cursor))
        (rest.emit stack (head.last cursor)) := by
  have moves := head.advances_last cursor
  have further := rest.advances_last (head.last cursor)
  have fills := head.emit_fills stack cursor valid
  exact ⟨shown.head valid moves further fills
      (rest.emit_fills stack _ (moves.valid valid)) (rest.emit_confined stack _),
    shown.tail valid moves further fills (head.emit_silent stack cursor valid)
      (head.emit_confined stack cursor)⟩

/-- A jump leaves its block by its edges. -/
theorem jumpOps_edges (stack : LoopStack) (statement : AstNode) (number : Nat) :
    edgesFrom (jumpOps stack statement number) number ++
      gotosFrom resolve (jumpOps stack statement number) number =
      jumpEdges resolve stack statement (.block number) := by
  unfold jumpOps jumpEdges
  cases stack.head? <;> cases statement.nodeKind <;> simp

/-- The labels that the operations record. -/
def labelsOf (ops : List Op) : List (String × BlockId) := ops.filterMap Op.toLabel

@[simp] theorem labelsOf_nil : labelsOf [] = [] := rfl

@[simp] theorem labelsOf_append (first second : List Op) :
    labelsOf (first ++ second) = labelsOf first ++ labelsOf second := List.filterMap_append

@[simp] theorem labelsOf_cons (op : Op) (ops : List Op) :
    labelsOf (op :: ops) = op.toLabel.toList ++ labelsOf ops := by
  unfold labelsOf
  rw [List.filterMap_cons]
  cases op.toLabel <;> rfl

theorem jumpOps_labels (stack : LoopStack) (statement : AstNode) (number : Nat) :
    labelsOf (jumpOps stack statement number) = [] := by
  unfold jumpOps
  cases stack.head? <;> split <;> rfl

theorem simple_laid {stack : LoopStack} {statement : AstNode} {cursor : Cursor}
    (valid : cursor.Valid)
    (shown : Shows cfg resolve cursor (cursor.after statement) (simpleOps stack statement cursor)) :
    ∃ spot, SimpleLaid cfg resolve stack statement cursor.point spot (cursor.after statement).point ∧
      labelsOf (simpleOps stack statement cursor) = labelBlocks [(statement, spot)] := by
  unfold Cursor.Valid at valid
  have current : Within cursor.block cursor.next (cursor.after statement).next cursor.block :=
    within_here _ _ _
  obtain ⟨kind, empty, ops, form⟩ | ⟨kind, _, ops, form⟩ | ⟨kind, ops, form⟩ | ⟨kind, jump, ops, form⟩ :=
    simple_forms stack statement cursor
  · obtain ⟨more, statements⟩ := shown.opened
    rw [form] at statements ⊢
    refine ⟨(.block cursor.block, 0), ⟨?_, ?_⟩, ?_⟩
    · simp [ControlFlowGraph.Holds, statements]
    · rw [if_pos kind]
      exact ⟨.inl ⟨rfl, by simp [Cursor.point, empty]⟩, rfl, rfl⟩
    · simp [ops, labelBlocks_label kind, Op.toLabel]
  · obtain ⟨more, opened⟩ := shown.opened
    obtain ⟨statements, successors⟩ := shown.closed cursor.block current (by rw [form]; simp; omega)
    rw [ops] at statements successors
    rw [form] at opened ⊢
    have away : cursor.next + 1 ≠ cursor.block := by omega
    refine ⟨(.block (cursor.next + 1), 0), ⟨?_, ?_⟩, ?_⟩
    · simp [ControlFlowGraph.Holds, opened]
    · rw [if_pos kind]
      refine ⟨.inr ⟨?_, ?_⟩, rfl, rfl⟩
      · simp [ControlFlowGraph.Ends, Cursor.point, statements, Cursor.held, Op.put, away]
      · simpa [Cursor.point, away] using successors
    · simp [ops, labelBlocks_label kind, Op.toLabel]
  · obtain ⟨statements, successors⟩ := shown.closed cursor.block current (by rw [form]; simp; omega)
    rw [ops] at statements successors
    rw [form]
    have label : statement.nodeKind ≠ .labelStmt := fun same => by
      simp [same, NodeKind.isJump] at kind
    have whole : cfg.statementsOf (.block cursor.block) = cursor.statements ++ [statement] := by
      simpa [Cursor.held, Op.put, jumpOps_puts] using statements
    have holds : cfg.Holds cursor.point statement := by
      simp [ControlFlowGraph.Holds, Cursor.point, whole]
    refine ⟨cursor.point, ⟨holds, ?_⟩, ?_⟩
    · rw [if_neg label, if_pos kind]
      refine ⟨rfl, ⟨holds, ?_, ?_⟩, rfl⟩
      · simp [ControlFlowGraph.Ends, Cursor.point, whole]
      · change cfg.successors (.block cursor.block) =
          jumpEdges resolve stack statement (.block cursor.block)
        rw [← jumpOps_edges]
        simpa using successors
    · simp [ops, labelBlocks_other label, jumpOps_labels, Op.toLabel]
  · obtain ⟨more, statements⟩ := shown.opened
    rw [form] at statements ⊢
    refine ⟨cursor.point, ⟨?_, ?_⟩, ?_⟩
    · simp [ControlFlowGraph.Holds, Cursor.point, statements]
    · rw [if_neg kind, jump]
      exact ⟨rfl, by simp [Cursor.point]⟩
    · simp [ops, labelBlocks_other kind, Op.toLabel]

/-! ### Nested stretches -/

/-- The operations neither write statements to the block nor edges out of it. -/
def Untouched (ops : List Op) (number : Nat) : Prop := puts ops number = [] ∧ Silent ops number

theorem Confined.untouched {inside : Nat → Prop} {ops : List Op} (confined : Confined inside ops)
    (number : Nat) (outside : ¬ inside number) : Untouched ops number :=
  ⟨confined.puts number outside, confined.silent number outside⟩

theorem ShowsBlock.part {first second third : List Op} {held : List AstNode} {number : Nat}
    (shown : ShowsBlock cfg resolve (first ++ second ++ third) held number)
    (left : Untouched first number) (right : Untouched third number) :
    ShowsBlock cfg resolve second held number := by
  obtain ⟨statements, successors⟩ := shown
  simp only [puts_append, edgesFrom_append, gotosFrom_append, left.1, right.1, left.2.edgesFrom,
    right.2.edgesFrom, left.2.gotosFrom, right.2.gotosFrom, List.nil_append, List.append_nil] at *
  exact ⟨statements, successors⟩

theorem Shows.all {cursor last : Cursor} {ops : List Op} (shown : Shows cfg resolve cursor last ops)
    (valid : cursor.Valid) (low high : Nat) (above : cursor.next ≤ low) (below : high ≤ last.next)
    (away : last.block ≤ low ∨ high < last.block) : ShowsAll cfg resolve low high ops := by
  intro number later small
  unfold Cursor.Valid at valid
  have other : number ≠ cursor.block := by omega
  simpa [Cursor.held, other] using
    shown.closed number (.inr ⟨by omega, by omega⟩) (by omega)

theorem ShowsAll.part {low high innerLow innerHigh : Nat} {first second third : List Op}
    (shown : ShowsAll cfg resolve low high (first ++ second ++ third))
    (bounds : low ≤ innerLow ∧ innerHigh ≤ high)
    (untouched : ∀ number, innerLow < number → number ≤ innerHigh →
      Untouched first number ∧ Untouched third number) :
    ShowsAll cfg resolve innerLow innerHigh second := by
  intro number later small
  obtain ⟨left, right⟩ := untouched number later small
  exact (shown number (by omega) (by omega)).part left right

/-- A sequence of its own ends at a block that only the enclosing code leaves. -/
theorem ShowsAll.fresh {next high : Nat} (stack : LoopStack) (code : Code) (first third : List Op)
    (shown : ShowsAll cfg resolve next high (first ++ code.emit stack (.fresh next) ++ third))
    (fits : (code.last (.fresh next)).next ≤ high)
    (quiet : ∀ number, next < number → number ≤ (code.last (.fresh next)).next →
      puts first number = [] ∧ puts third number = [])
    (silent : ∀ number, next < number → number ≤ (code.last (.fresh next)).next →
      number ≠ (code.last (.fresh next)).block → Silent first number ∧ Silent third number) :
    Shows cfg resolve (.fresh next) (code.last (.fresh next)) (code.emit stack (.fresh next)) ∧
      cfg.Ends (code.last (.fresh next)).point ∧
      cfg.successors (.block (code.last (.fresh next)).block) =
        edgesFrom (first ++ third) (code.last (.fresh next)).block ++
          gotosFrom resolve (first ++ third) (code.last (.fresh next)).block := by
  have bound := code.advances_last (.fresh next)
  have fills := code.emit_fills stack (.fresh next) (Cursor.valid_fresh next)
  have ends := code.emit_silent stack (.fresh next) (Cursor.valid_fresh next)
  have empty : ∀ number, (Cursor.fresh next).held number = [] := fun number => by
    unfold Cursor.held
    split <;> rfl
  simp only [Cursor.Advances, fresh_next, fresh_block] at bound
  have whole : cfg.statementsOf (.block (code.last (.fresh next)).block) =
      (code.last (.fresh next)).statements := by
    obtain ⟨statements, _⟩ := shown (code.last (.fresh next)).block (by omega) (by omega)
    obtain ⟨left, right⟩ := quiet (code.last (.fresh next)).block (by omega) (by omega)
    unfold Fills at fills
    rw [empty, List.nil_append] at fills
    simpa [left, right, fills] using statements
  refine ⟨⟨fun number inside away => ?_, [], by simpa using whole⟩, ?_, ?_⟩
  · simp only [Within, fresh_next, fresh_block] at inside
    obtain ⟨left, right⟩ := quiet number (by omega) (by omega)
    obtain ⟨leftSilent, rightSilent⟩ := silent number (by omega) (by omega) away
    rw [empty]
    exact (shown number (by omega) (by omega)).part ⟨left, leftSilent⟩
      ⟨right, rightSilent⟩
  · simp [ControlFlowGraph.Ends, Cursor.point, whole]
  · obtain ⟨_, successors⟩ := shown (code.last (.fresh next)).block (by omega) (by omega)
    simpa [ends.edgesFrom, ends.gotosFrom] using successors

/-! ### The layout of a body -/

/-- The blocks of a branch and the edges that enter it do not meet. -/
theorem Branch.emit_source (resolve : String → BlockId) (branch : Branch) (stack : LoopStack) (source : Nat)
    (entryKind tailKind : EdgeKind) (target : Nat) (missing : List Op) (next : Nat)
    (small : source ≤ next) (plain : puts missing source = [])
    (direct : gotosFrom resolve missing source = []) :
    puts (branch.emit stack source entryKind tailKind target missing next) source = [] ∧
      gotosFrom resolve (branch.emit stack source entryKind tailKind target missing next) source =
        [] := by
  cases branch with
  | absent => exact ⟨plain, direct⟩
  | present body =>
      have bound := body.advances_last (.fresh next)
      have inner := (body.emit_confined stack (.fresh next)).untouched source
      simp only [Cursor.Advances, Within, fresh_next, fresh_block] at bound inner
      obtain ⟨empty, silent⟩ := inner (by omega)
      have away : (body.last (.fresh next)).block ≠ source := by omega
      constructor
      · simp [Branch.emit, Op.put, empty]
      · simp [Branch.emit, silent.gotosFrom]

/-- The block of a statement that branches ends with the statement. -/
theorem closes_of_shows {cursor : Cursor} {statement : AstNode} {edges : List CFGEdge}
    (statements : cfg.statementsOf (.block cursor.block) = cursor.statements ++ [statement])
    (successors : cfg.successors (.block cursor.block) = edges) :
    cfg.Closes cursor.point statement edges :=
  ⟨by simp [ControlFlowGraph.Holds, Cursor.point, statements],
    by simp [ControlFlowGraph.Ends, Cursor.point, statements], successors⟩

/-- The groups write statements and gotos only to new blocks. -/
theorem Groups.emit_old (resolve : String → BlockId) : ∀ (groups : Groups) (stack : LoopStack) (switchBlock : Nat)
    (previous : Option Nat) (afterSwitch next number : Nat), number ≤ next →
    puts (groups.emit stack switchBlock previous afterSwitch next) number = [] ∧
      gotosFrom resolve (groups.emit stack switchBlock previous afterSwitch next) number = []
  | .nil, _, _, previous, _, _, _, _ => by
      cases previous <;> simp [Groups.emit, Op.put]
  | .cons label body more, stack, switchBlock, previous, afterSwitch, next, number, small => by
      have inner := (Code.simple label body).advances_last (.fresh next)
      have group := ((Code.simple label body).emit_confined stack (.fresh next)).untouched
        number
      simp only [Cursor.Advances, Within, fresh_next, fresh_block] at inner group
      obtain ⟨empty, silent⟩ := group (by omega)
      have tail := more.emit_old resolve stack switchBlock
        (some (body.last ((Cursor.fresh next).after label)).block) afterSwitch
        (body.last ((Cursor.fresh next).after label)).next number
        (by simp only [Code.last] at inner; omega)
      have direct := silent.gotosFrom resolve
      simp only [Code.emit, puts_append, gotosFrom_append, List.append_eq_nil_iff] at empty direct
      cases previous <;> simp [Groups.emit, Op.put, empty, direct, tail]

mutual

/-- A stretch of operations lays its statement list out. -/
theorem Code.laid_of_shows : ∀ (code : Code) (stack : LoopStack) (cursor : Cursor), code.Kinded →
    cursor.Valid → Shows cfg resolve cursor (code.last cursor) (code.emit stack cursor) →
    ∃ spots, code.Laid cfg resolve stack cursor.point (code.last cursor).point spots ∧
      labelsOf (code.emit stack cursor) = labelBlocks spots
  | .nil, _, cursor, _, _, _ => ⟨[], ⟨rfl, by simp [Cursor.point], by simp [Cursor.point], rfl⟩, rfl⟩
  | .simple statement rest, stack, cursor, kinded, valid, shown => by
      have parts := Shows.code stack (.simple statement .nil) rest
        (by simpa [Code.emit, Code.last] using shown) valid
      simp only [Code.emit, Code.last, List.append_nil] at parts
      obtain ⟨spot, first, firstLabels⟩ := simple_laid valid parts.1
      obtain ⟨others, tail, labels⟩ := rest.laid_of_shows stack (cursor.after statement) kinded.2
        ((cursor.advances_after statement).valid valid) parts.2
      refine ⟨_, ⟨spot, _, others, first, tail, rfl⟩, ?_⟩
      rw [← List.singleton_append, labelBlocks_append, ← firstLabels, ← labels]
      exact labelsOf_append _ _
  | .compound statement body rest, stack, cursor, kinded, valid, shown => by
      have parts := Shows.code stack (.compound statement body .nil) rest
        (by simpa [Code.emit, Code.last] using shown) valid
      simp only [Code.emit, Code.last, List.append_nil] at parts
      obtain ⟨headShown, tailShown⟩ := parts
      have bound := body.advances_last (.fresh cursor.next)
      have confined := body.emit_confined stack (.fresh cursor.next)
      have valid' := valid
      simp only [Cursor.Valid, Cursor.Advances, fresh_next, fresh_block] at bound valid'
      have all := headShown.all valid cursor.next
        (body.last (.fresh cursor.next)).next (Nat.le_refl _) (by simp)
        (.inr (by simp))
      obtain ⟨innerShown, ends, leaves⟩ := ShowsAll.fresh stack body [.newBlock]
        ([.edge cursor.block (.block (cursor.next + 1)) .fallthrough, .newBlock])
        (by simpa using all) (Nat.le_refl _) (by simp [Op.put])
        (by intro number later small away; simp [Op.source]; omega)
      obtain ⟨inner, nested, innerLabels⟩ := body.laid_of_shows stack (.fresh cursor.next) kinded.2.1
        (Cursor.valid_fresh _) innerShown
      obtain ⟨outer, tail, outerLabels⟩ := rest.laid_of_shows stack _ kinded.2.2
        (Cursor.valid_fresh _) tailShown
      obtain ⟨statements, successors⟩ := headShown.closed cursor.block (within_here _ _ _)
        (by simp; omega)
      have untouched := confined.untouched cursor.block
        (by simp only [Within, fresh_next, fresh_block]; omega)
      refine ⟨_, ⟨_, _, _, inner, outer, ?_, nested, ⟨ends, ?_⟩, tail, rfl⟩,
        by simp [Code.emit, Op.toLabel, innerLabels, outerLabels]⟩
      · refine .inr ⟨?_, ?_⟩
        · simpa [ControlFlowGraph.Ends, Cursor.point, Cursor.held, Op.put, untouched.1] using
            congrArg List.length statements
        · simpa [Cursor.point, untouched.2.edgesFrom, untouched.2.gotosFrom] using successors
      · have away : cursor.block ≠ (body.last (.fresh cursor.next)).block := by omega
        simpa [Cursor.point, away] using leaves
  | .ifStmt statement thenBranch elseBranch rest, stack, cursor, kinded, valid, shown => by
      have parts := Shows.code stack (.ifStmt statement thenBranch elseBranch .nil) rest (by simpa [Code.emit, Code.last] using shown) valid
      have moves := (Code.ifStmt statement thenBranch elseBranch .nil).advances_last cursor
      simp only [Code.emit, Code.last, List.append_nil] at parts moves
      obtain ⟨headShown, tailShown⟩ := parts
      have small := valid
      unfold Cursor.Valid at small
      have firstBound := thenBranch.le_last (cursor.next + 1)
      have secondBound := elseBranch.le_last (thenBranch.last (cursor.next + 1))
      have first := thenBranch.arm_confined stack cursor.block (cursor.next + 1) .trueEdge (cursor.next + 1)
      have second := elseBranch.arm_confined stack cursor.block (cursor.next + 1) .falseEdge
        (thenBranch.last (cursor.next + 1))
      have firstSource := thenBranch.emit_source resolve stack cursor.block .trueEdge
        .fallthrough (cursor.next + 1) [.edge cursor.block (.block (cursor.next + 1)) .trueEdge]
        (cursor.next + 1) (by omega) (by simp [Op.put]) (by simp)
      have secondSource := elseBranch.emit_source resolve stack cursor.block .falseEdge
        .fallthrough (cursor.next + 1) [.edge cursor.block (.block (cursor.next + 1)) .falseEdge]
        (thenBranch.last (cursor.next + 1)) (by omega) (by simp [Op.put]) (by simp)
      have all := headShown.all valid (cursor.next + 1)
        (elseBranch.last (thenBranch.last (cursor.next + 1))) (by omega) (Nat.le_refl _)
        (.inl (Nat.le_refl _))
      have start : ∀ number, cursor.next + 1 < number →
          Untouched [.append cursor.block statement, .newBlock] number := fun number later => by
        have away : cursor.block ≠ number := by omega
        simp [Untouched, Op.put, Op.source, away]
      have thenShown := ShowsAll.part all ⟨Nat.le_refl _, secondBound⟩
        (fun number later below => ⟨start number later, second.untouched _ (by unfold Within; omega)⟩)
      have elseShown := ShowsAll.part
        (show ShowsAll cfg resolve _ _ (_ ++ _ ++ []) by rw [List.append_nil]; exact all)
        ⟨firstBound, Nat.le_refl _⟩
        (fun number later below => ⟨⟨by
            rw [puts_append, (start number (by omega)).1,
              (first.untouched number (by unfold Within; omega)).1]
            rfl, by
            rw [silent_append]
            exact ⟨(start number (by omega)).2,
              (first.untouched number (by unfold Within; omega)).2⟩⟩,
          rfl, silent_nil _⟩)
      obtain ⟨firstSpots, thenLaid, thenLabels⟩ := thenBranch.laid_of_shows stack cursor.block .trueEdge
        .fallthrough (cursor.next + 1) [.edge cursor.block (.block (cursor.next + 1)) .trueEdge]
        (cursor.next + 1) kinded.2.1 (by omega) rfl thenShown
      obtain ⟨secondSpots, elseLaid, elseLabels⟩ := elseBranch.laid_of_shows stack cursor.block .falseEdge
        .fallthrough (cursor.next + 1) [.edge cursor.block (.block (cursor.next + 1)) .falseEdge]
        (thenBranch.last (cursor.next + 1)) kinded.2.2.1 (by omega) rfl elseShown
      obtain ⟨outer, tail, outerLabels⟩ := rest.laid_of_shows stack _ kinded.2.2.2 (moves.valid valid)
        tailShown
      obtain ⟨statements, successors⟩ := headShown.closed cursor.block (within_here _ _ _)
        (by simp only; omega)
      have label : statement.nodeKind ≠ .labelStmt := by simp [kinded.1]
      refine ⟨_, ⟨.block (cursor.next + 1), _, _, firstSpots, secondSpots, outer, ?_,
        by simpa [Cursor.point] using thenLaid, by simpa [Cursor.point] using elseLaid, tail, rfl⟩,
        by simp [Code.emit, Op.toLabel, labelBlocks_other label, thenLabels, elseLabels, outerLabels]⟩
      apply closes_of_shows
      · simpa [Op.put, Cursor.held, firstSource.1, secondSource.1] using statements
      · simpa [firstSource.2, secondSource.2] using successors
  | .loop statement body rest, stack, cursor, kinded, valid, shown => by
      have parts := Shows.code stack (.loop statement body .nil) rest
        (by simpa [Code.emit, Code.last] using shown) valid
      have moves := (Code.loop statement body .nil).advances_last cursor
      simp only [Code.emit, Code.last, List.append_nil] at parts moves
      obtain ⟨headShown, tailShown⟩ := parts
      have small := valid
      unfold Cursor.Valid at small
      have innerBound := body.le_last (cursor.next + 2)
      have confined := body.loop_confined stack (loopEntryKind statement) cursor.next
      have source := body.emit_source resolve
        ((.block (cursor.next + 1), .block (cursor.next + 2)) :: stack) (cursor.next + 1)
        (loopEntryKind statement) .loopBack (cursor.next + 1) [] (cursor.next + 2) (by omega) rfl rfl
      have all := headShown.all valid (cursor.next + 2) (body.last (cursor.next + 2))
        (by omega) (Nat.le_refl _) (.inl (Nat.le_refl _))
      have bodyShown := ShowsAll.part all ⟨Nat.le_refl _, Nat.le_refl _⟩
        (fun number later below => by
          have first : cursor.block ≠ number := by omega
          have second : cursor.next + 1 ≠ number := by omega
          simp [Untouched, Op.put, Op.source, first, second])
      obtain ⟨inner, bodyLaid, innerLabels⟩ := body.laid_of_shows _ _ _ _ _ _ _ kinded.2.1 (by omega)
        rfl bodyShown
      obtain ⟨outer, tail, outerLabels⟩ := rest.laid_of_shows stack _ kinded.2.2 (moves.valid valid)
        tailShown
      have before := headShown.closed cursor.block (within_here _ _ _) (by simp only; omega)
      have untouched := confined.untouched cursor.block (by unfold Within; omega)
      have header := headShown.closed (cursor.next + 1) (.inr ⟨by omega, by simp only; omega⟩)
        (by simp)
      have away : cursor.block ≠ cursor.next + 1 := by omega
      have started : cfg.statementsOf (.block (cursor.next + 1)) = [statement] := by
        simpa [Op.put, Cursor.held, away.symm, source.1] using header.1
      have entered : cfg.statementsOf (.block cursor.block) = cursor.statements := by
        simpa [Op.put, Cursor.held, away.symm, untouched.1] using before.1
      have label : statement.nodeKind ≠ .labelStmt := fun same => by
        simp [Code.Kinded, same, NodeKind.isLoop] at kinded
      refine ⟨_, ⟨.block (cursor.next + 1), .block (cursor.next + 2), _, inner, outer,
        .inr ⟨?_, ?_⟩, ⟨?_, ?_, ?_⟩, bodyLaid, tail, rfl⟩,
        by simp [Code.emit, Op.toLabel, labelBlocks_other label, innerLabels, outerLabels]⟩
      · simp [ControlFlowGraph.Ends, Cursor.point, entered]
      · simpa [Cursor.point, away.symm, untouched.2.edgesFrom, untouched.2.gotosFrom] using before.2
      · simp [ControlFlowGraph.Holds, started]
      · simp [ControlFlowGraph.Ends, started]
      · simpa [away, source.2] using header.2
  | .switch statement groups rest, stack, cursor, kinded, valid, shown => by
      have parts := Shows.code stack (.switch statement groups .nil) rest
        (by simpa [Code.emit, Code.last] using shown) valid
      have moves := (Code.switch statement groups .nil).advances_last cursor
      simp only [Code.emit, Code.last, List.append_nil] at parts moves
      obtain ⟨headShown, tailShown⟩ := parts
      have small := valid
      unfold Cursor.Valid at small
      have innerBound := groups.le_last (cursor.next + 1)
      have source := groups.emit_old resolve
        ((.block cursor.block, .block (cursor.next + 1)) :: stack) cursor.block none
        (cursor.next + 1) (cursor.next + 1) cursor.block (by omega)
      have all := headShown.all valid (cursor.next + 1) (groups.last (cursor.next + 1))
        (by omega) (Nat.le_refl _) (.inl (Nat.le_refl _))
      have groupsShown := ShowsAll.part all ⟨Nat.le_refl _, Nat.le_refl _⟩
        (fun number later below => by
          have away : cursor.block ≠ number := by omega
          refine ⟨by simp [Untouched, Op.put, Op.source, away], ?_⟩
          split <;> simp [Untouched, Op.put, Op.source, away])
      obtain ⟨inner, groupsLaid, innerLabels⟩ := groups.laid_of_shows _ cursor.block none
        (cursor.next + 1) (cursor.next + 1) kinded.2.1 (by omega) (by simp) groupsShown
      obtain ⟨outer, tail, outerLabels⟩ := rest.laid_of_shows stack _ kinded.2.2 (moves.valid valid)
        tailShown
      obtain ⟨statements, successors⟩ := headShown.closed cursor.block (within_here _ _ _)
        (by simp only; omega)
      have label : statement.nodeKind ≠ .labelStmt := by simp [kinded.1]
      refine ⟨_, ⟨.block (cursor.next + 1), _, inner, outer, ?_, groupsLaid, tail, rfl⟩, ?_⟩
      rotate_left
      · rw [Option.map_none] at innerLabels
        cases default_ : groups.hasDefault <;> simp [Code.emit, Op.toLabel, labelBlocks_other label,
          innerLabels, outerLabels, default_]
      apply closes_of_shows
      · split at statements <;> simpa [Op.put, Cursor.held, source.1] using statements
      · split at successors <;> rename_i default_ <;>
          simpa [Cursor.point, source.2, default_] using successors
  | .bareSwitch statement rest, stack, cursor, kinded, valid, shown => by
      have parts := Shows.code stack (.bareSwitch statement .nil) rest
        (by simpa [Code.emit, Code.last] using shown) valid
      simp only [Code.emit, Code.last, List.append_nil] at parts
      obtain ⟨headShown, tailShown⟩ := parts
      have small := valid
      unfold Cursor.Valid at small
      obtain ⟨outer, tail, outerLabels⟩ := rest.laid_of_shows stack _ kinded.2 (Cursor.valid_fresh _)
        tailShown
      obtain ⟨statements, successors⟩ := headShown.closed cursor.block (within_here _ _ _)
        (by simp; omega)
      have label : statement.nodeKind ≠ .labelStmt := by simp [kinded.1]
      refine ⟨_, ⟨_, outer, ?_, tail, rfl⟩,
        by simpa [Code.emit, Op.toLabel, labelBlocks_other label, Cursor.fresh] using outerLabels⟩
      exact closes_of_shows (by simpa [Op.put, Cursor.held] using statements)
        (by simpa [Cursor.point] using successors)

/-- A branch whose blocks are all shown is laid out. -/
theorem Branch.laid_of_shows : ∀ (branch : Branch) (stack : LoopStack) (source : Nat)
    (entryKind tailKind : EdgeKind) (target : Nat) (missing : List Op) (next : Nat), branch.Kinded →
    source ≤ next → labelsOf missing = [] → ShowsAll cfg resolve next (branch.last next)
      (branch.emit stack source entryKind tailKind target missing next) →
    ∃ spots, branch.Laid cfg resolve stack (.block source) entryKind tailKind (.block target)
      (edgesFrom missing source)
      (edgesFrom (branch.emit stack source entryKind tailKind target missing next) source) spots ∧
      labelsOf (branch.emit stack source entryKind tailKind target missing next) = labelBlocks spots
  | .absent, _, _, _, _, _, _, _, _, _, plain, _ => ⟨[], ⟨rfl, rfl⟩, plain⟩
  | .present body, stack, source, entryKind, tailKind, target, missing, next, kinded, small, _, shown => by
      have bound := body.advances_last (.fresh next)
      have confined := body.emit_confined stack (.fresh next)
      simp only [Cursor.Advances, fresh_next, fresh_block] at bound
      obtain ⟨innerShown, ends, leaves⟩ := ShowsAll.fresh stack body [.newBlock]
        ([.edge source (.block (next + 1)) entryKind,
          .edge (body.last (.fresh next)).block (.block target) tailKind])
        (by simpa [Branch.emit, Branch.last] using shown) (Nat.le_refl _) (by simp [Op.put])
        (by intro number later small away; simp [Op.source]; omega)
      obtain ⟨inner, nested, labels⟩ := body.laid_of_shows stack (.fresh next) kinded
        (Cursor.valid_fresh _) innerShown
      have untouched := confined.untouched source
        (by simp only [Within, fresh_next, fresh_block]; omega)
      have away : source ≠ (body.last (.fresh next)).block := by omega
      refine ⟨inner, ⟨.block (next + 1), _, ?_, nested, .inr ⟨ends, ?_⟩⟩,
        by simp [Branch.emit, Op.toLabel, labels]⟩
      · simp [Branch.emit, untouched.2.edgesFrom, away.symm]
      · simpa [Cursor.point, away] using leaves

/-- Groups whose blocks are all shown are laid out when the tail before them is shown as well. -/
theorem Groups.laid_of_shows : ∀ (groups : Groups) (stack : LoopStack) (switchBlock : Nat)
    (previous : Option (Nat × Nat)) (afterSwitch next : Nat), groups.Kinded → switchBlock ≤ next →
    (∀ tail, previous = some tail → tail.1 ≤ next ∧ tail.1 ≠ switchBlock ∧
      cfg.Ends (.block tail.1, tail.2) ∧ cfg.successors (.block tail.1) =
        edgesFrom (groups.emit stack switchBlock (previous.map Prod.fst) afterSwitch next) tail.1) →
    ShowsAll cfg resolve next (groups.last next)
      (groups.emit stack switchBlock (previous.map Prod.fst) afterSwitch next) →
    ∃ spots, groups.Laid cfg resolve stack (.block switchBlock)
      (previous.map fun tail => (.block tail.1, tail.2)) (.block afterSwitch)
      (edgesFrom (groups.emit stack switchBlock (previous.map Prod.fst) afterSwitch next) switchBlock)
      spots ∧
      labelsOf (groups.emit stack switchBlock (previous.map Prod.fst) afterSwitch next) =
        labelBlocks spots
  | .nil, _, switchBlock, previous, afterSwitch, _, _, _, tails, _ => by
      cases previous with
      | none => exact ⟨[], ⟨rfl, rfl, by simp⟩, rfl⟩
      | some tail =>
          obtain ⟨_, away, ends, leaves⟩ := tails tail rfl
          refine ⟨[], ⟨by simp [Groups.emit, away], rfl, ?_⟩, by simp [Groups.emit, Op.toLabel]⟩
          rintro point same
          simp only [Option.map_some, Option.some.injEq] at same
          subst same
          exact .inr ⟨ends, by simpa [Groups.emit] using leaves⟩
  | .cons label body more, stack, switchBlock, previous, afterSwitch, next, kinded, small, tails,
    shown => by
      have bound := (Code.simple label body).advances_last (.fresh next)
      have confined := (Code.simple label body).emit_confined stack (.fresh next)
      simp only [Code.emit, Code.last, Cursor.Advances, fresh_next, fresh_block] at bound confined
      have moreBound := more.le_last (body.last ((Cursor.fresh next).after label)).next
      have moreConfined := more.emit_confined stack switchBlock
        (some (body.last ((Cursor.fresh next).after label)).block) afterSwitch
        (body.last ((Cursor.fresh next).after label)).next
      have moreOld : ∀ number, number ≤ (body.last ((Cursor.fresh next).after label)).next → _ :=
        fun number => more.emit_old resolve stack switchBlock
          (some (body.last ((Cursor.fresh next).after label)).block) afterSwitch
          (body.last ((Cursor.fresh next).after label)).next number
      have earlier : ∀ tail, previous.map Prod.fst = some tail → tail ≤ next ∧ tail ≠ switchBlock := by
        intro tail same
        obtain ⟨point, found, rfl⟩ := Option.map_eq_some_iff.mp same
        exact ⟨(tails point found).1, (tails point found).2.1⟩
      simp only [Groups.emit, Groups.last] at shown tails ⊢
      generalize previousEdges : ((previous.map Prod.fst).toList.map fun tail =>
        Op.edge tail (.block (Cursor.fresh next).block) .switchFallthrough) = linked at *
      have linkedPuts : ∀ number, puts linked number = [] := by
        intro number
        subst previousEdges
        cases previous <;> simp [Op.put]
      have linkedGotos : ∀ number, gotosFrom resolve linked number = [] := by
        intro number
        subst previousEdges
        cases previous <;> simp
      have linkedLabels : labelsOf linked = [] := by
        subst previousEdges
        cases previous <;> simp [Op.toLabel]
      have linkedSilent : ∀ number, previous.map Prod.fst ≠ some number → Silent linked number := by
        intro number other
        subst previousEdges
        cases found : previous <;> simp_all [Op.source]
      obtain ⟨groupShown, ends, leaves⟩ := ShowsAll.fresh stack (.simple label body) [.newBlock]
        (.edge switchBlock (.block (next + 1)) (caseEdgeKind label) ::
          linked ++ more.emit stack switchBlock
            (some (body.last ((Cursor.fresh next).after label)).block) afterSwitch
            (body.last ((Cursor.fresh next).after label)).next)
        (by simpa [Code.emit] using shown) (by simp only [Code.last]; omega)
        (by
          intro number later below
          simp only [Code.last] at below
          simp [Op.put, linkedPuts, (moreOld number below).1])
        (by
          intro number later below away
          simp only [Code.last] at below away
          refine ⟨by simp [Op.source], ?_⟩
          simp only [List.cons_append, silent_cons, silent_append]
          refine ⟨by simp [Op.source]; omega, linkedSilent number fun same => ?_,
            moreConfined.silent _ ?_⟩
          · have := (earlier number same).1
            omega
          · simp only [Option.some.injEq, Within]
            omega)
      have parts := Shows.code stack (.simple label .nil) body
        (by simpa [Code.emit, Code.last] using groupShown) (Cursor.valid_fresh next)
      simp only [Code.emit, Code.last, List.append_nil] at parts ends leaves
      obtain ⟨spot, first, firstLabels⟩ := simple_laid (Cursor.valid_fresh next) parts.1
      obtain ⟨inner, bodyLaid, innerLabels⟩ := body.laid_of_shows stack
        ((Cursor.fresh next).after label) kinded.2.1 (((Cursor.fresh next).advances_after label).valid (Cursor.valid_fresh next)) parts.2
      have tailAway : switchBlock ≠ (body.last ((Cursor.fresh next).after label)).block := by omega
      have tailLinked := linkedSilent (body.last ((Cursor.fresh next).after label)).block (fun same => by
        have := (earlier _ same).1
        omega)
      have valid := (body.advances_last ((Cursor.fresh next).after label)).valid
        (((Cursor.fresh next).advances_after label).valid (Cursor.valid_fresh next))
      unfold Cursor.Valid at valid
      obtain ⟨outer, moreLaid, outerLabels⟩ := more.laid_of_shows stack switchBlock
        (some ((body.last ((Cursor.fresh next).after label)).block,
          (body.last ((Cursor.fresh next).after label)).statements.length)) afterSwitch
        (body.last ((Cursor.fresh next).after label)).next kinded.2.2 (by omega)
        (by
          rintro point same
          simp only [Option.some.injEq] at same
          subst same
          refine ⟨valid, tailAway.symm, ends, ?_⟩
          simpa [tailAway, tailLinked.edgesFrom, linkedGotos,
            (moreOld _ valid).2] using leaves)
        (ShowsAll.part (show ShowsAll cfg resolve _ _ (_ ++ _ ++ []) by rw [List.append_nil]; exact shown) ⟨by omega, Nat.le_refl _⟩
          (fun number later below => by
            have group := confined.untouched number (by
              simp only [Within]; omega)
            have other : switchBlock ≠ number := by omega
            refine ⟨⟨?_, ?_⟩, rfl, silent_nil _⟩
            · have empty := group.1
              simp only [puts_append, List.append_eq_nil_iff] at empty
              simp [Op.put, empty, linkedPuts]
            · have silent := group.2
              rw [silent_append] at silent
              simp only [List.cons_append, silent_append, silent_cons, silent_nil, Op.source, ne_eq,
                reduceCtorEq, not_false_eq_true, Option.some.injEq, other, silent, true_and]
              refine linkedSilent _ fun same => ?_
              have := (earlier _ same).1
              omega))
      have untouched := confined.untouched switchBlock (by
        simp only [Within]; omega)
      have switchEdges := untouched.2.edgesFrom
      have switchLinked := linkedSilent switchBlock (fun same => (earlier _ same).2 rfl)
      simp only [edgesFrom_append, List.append_eq_nil_iff] at switchEdges
      refine ⟨_, ⟨.block (next + 1), spot, _, _, _, inner, outer, first, bodyLaid, moreLaid, ?_, rfl, ?_⟩,
        ?_⟩
      · simp [switchEdges, switchLinked.edgesFrom]
      · intro point same
        obtain ⟨tail, rfl, rfl⟩ := Option.map_eq_some_iff.mp same
        obtain ⟨old, away, tailEnds, tailLeaves⟩ := tails tail rfl
        have group := confined.untouched tail.1 (by
          simp only [Within]; omega)
        have groupEdges := group.2.edgesFrom
        have moreSilent := moreConfined.silent tail.1 (by
          simp only [Option.some.injEq, Within]; omega)
        simp only [edgesFrom_append, List.append_eq_nil_iff] at groupEdges
        refine .inr ⟨tailEnds, ?_⟩
        rw [tailLeaves, ← previousEdges]
        simp [groupEdges, moreSilent.edgesFrom, away.symm]
      · rw [Option.map_some] at outerLabels
        have front : labelBlocks ((label, spot) :: inner) =
            labelsOf (simpleOps stack label (.fresh next)) ++ labelBlocks inner := by
          rw [firstLabels, ← labelBlocks_append]
          rfl
        rw [labelBlocks_append, front]
        simp [Op.toLabel, linkedLabels, innerLabels, outerLabels]

end

theorem source_of_toEdge {ops : List Op} {edge : CFGEdge} (inside : edge ∈ ops.filterMap Op.toEdge) :
    ∃ number, edge.source = .block number := by
  obtain ⟨op, _, written⟩ := List.mem_filterMap.mp inside
  cases op with
  | edge number target kind =>
      simp only [Op.toEdge, Option.some.injEq] at written
      exact ⟨number, written ▸ rfl⟩
  | newBlock | append | label | goto => simp [Op.toEdge] at written

theorem source_of_toGoto {ops : List Op} {pending : BlockId × String}
    (inside : pending ∈ ops.filterMap Op.toGoto) : ∃ number, pending.1 = .block number := by
  obtain ⟨op, _, written⟩ := List.mem_filterMap.mp inside
  cases op with
  | goto number name =>
      simp only [Op.toGoto, Option.some.injEq] at written
      exact ⟨number, written ▸ rfl⟩
  | newBlock | append | label | edge => simp [Op.toGoto] at written

/-- The edges of the gotos and the edge at the end join the edges that are written at once. -/
theorem Written.successors {body : Code} {cfg : ControlFlowGraph} (written : Written body cfg)
    (number : Nat) : cfg.successors (.block number) = edgesFrom body.operations number ++
      (if number = body.tail then endEdges body.fed (.block number) else []) ++
      gotosFrom body.labelBlock body.operations number := by
  have final : (endEdges body.fed (.block body.tail)).filter (fun edge => edge.source = .block number) =
      if number = body.tail then endEdges body.fed (.block number) else [] := by
    unfold endEdges
    by_cases same : number = body.tail
    · cases body.fed <;> simp [same]
    · have away : body.tail ≠ number := fun equal => same equal.symm
      cases body.fed <;> simp [same, away]
  simp only [ControlFlowGraph.successors, written.edges, List.filter_append, List.filter_cons,
    reduceCtorEq, decide_false, final, edgesFrom, gotosFrom, List.filter_map, Bool.false_eq_true,
    if_false]
  rfl

/-- Only the body leaves the entry and nothing leaves the exit. -/
theorem Written.successors_bounds {body : Code} {cfg : ControlFlowGraph} (written : Written body cfg) :
    cfg.successors .entry = [⟨.entry, .block 1, .fallthrough, none⟩] ∧ cfg.successors .exit = [] := by
  have direct : ∀ blockId, (∀ number, blockId ≠ .block number) →
      (body.operations.filterMap Op.toEdge).filter (fun edge => edge.source = blockId) = [] := by
    intro blockId synthetic
    refine List.filter_eq_nil_iff.mpr fun edge inside same => ?_
    obtain ⟨number, named⟩ := source_of_toEdge inside
    exact synthetic number (by simpa [named] using (of_decide_eq_true same).symm)
  have pending : ∀ blockId, (∀ number, blockId ≠ .block number) →
      ((body.operations.filterMap Op.toGoto).map fun pending => (⟨pending.1,
        body.labelBlock pending.2, .gotoEdge, some pending.2⟩ : CFGEdge)).filter
          (fun edge => edge.source = blockId) = [] := by
    intro blockId synthetic
    refine List.filter_eq_nil_iff.mpr fun edge inside same => ?_
    obtain ⟨pending, present, rfl⟩ := List.mem_map.mp inside
    obtain ⟨number, named⟩ := source_of_toGoto present
    exact synthetic number (by simpa [named] using (of_decide_eq_true same).symm)
  have final : ∀ blockId, (∀ number, blockId ≠ .block number) →
      (endEdges body.fed (.block body.tail)).filter (fun edge => edge.source = blockId) = [] := by
    intro blockId synthetic
    have away := synthetic body.tail
    unfold endEdges
    cases body.fed <;> simp [away.symm]
  simp only [ControlFlowGraph.successors, written.edges, List.filter_append, List.filter_cons]
  simp [direct, pending, final]

/-- The graph of a body before pruning lays the body out. -/
theorem Written.lays {body : Code} {cfg : ControlFlowGraph} (written : Written body cfg)
    (kinded : body.Kinded) : Lays cfg body body.fed := by
  have ends := body.emit_silent [] (.fresh 0) (Cursor.valid_fresh 0)
  have fills := body.emit_fills [] (.fresh 0) (Cursor.valid_fresh 0)
  have empty : ∀ number, (Cursor.fresh 0).held number = [] := fun number => by
    unfold Cursor.held
    split <;> rfl
  have whole : cfg.statementsOf (.block (body.last (.fresh 0)).block) =
      (body.last (.fresh 0)).statements := by
    unfold Fills at fills
    rw [empty, List.nil_append] at fills
    simpa [Code.operations, Op.put, fills] using written.statements (body.last (.fresh 0)).block
  have shown : Shows cfg body.labelBlock (.fresh 0) (body.last (.fresh 0)) (body.emit [] (.fresh 0)) := by
    refine ⟨fun number _ away => ⟨?_, ?_⟩, [], by simpa using whole⟩
    · simpa [Code.operations, Op.put, empty] using written.statements number
    · have other : number ≠ body.tail := away
      simpa [Code.operations, other] using written.successors number
  obtain ⟨spots, laid, labels⟩ := body.laid_of_shows [] (.fresh 0) kinded (Cursor.valid_fresh 0) shown
  have same : body.labelBlock = spotBlock spots := by
    funext name
    rw [Code.labelBlock, spotBlock, ← labels]
    rfl
  refine ⟨.block 1, (body.last (.fresh 0)).point, spots, written.successors_bounds.1, same ▸ laid, ?_,
    ?_, written.successors_bounds.2, written.bounds⟩
  · simp [ControlFlowGraph.Ends, Cursor.point, whole]
  · have leaves := written.successors body.tail
    simp only [Code.operations, Code.tail] at leaves
    simpa [Cursor.point, ends.edgesFrom, ends.gotosFrom] using leaves

end MisraPlatform
