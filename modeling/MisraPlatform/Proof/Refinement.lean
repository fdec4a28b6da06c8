import MisraPlatform.Proof.EmissionFrame
import MisraPlatform.Proof.Layout

/-
This file shows that the builder performs the operations of the body it reads.
-/

namespace MisraPlatform
open CFGEngine

/-! ### Tables -/

/-- The factory numbers the blocks in order, and edges and tails belong to numbered blocks. -/
structure Numbered (state : BuildState) : Prop where
  blocks : state.cfg.blocks.keys =
    .entry :: .exit :: (List.range state.counter).map fun index => .block (index + 1)
  tails : ∀ key ∈ state.sequenceTails.keys, ∃ number ≤ state.counter, key = .block number
  sources : ∀ edge ∈ state.cfg.edges, ∃ number ≤ state.counter, edge.source = .block number
  keyed : state.cfg.Keyed

theorem Numbered.mem_keys {state : BuildState} (numbered : Numbered state) (number : Nat) :
    .block number ∈ state.cfg.blocks.keys ↔ 0 < number ∧ number ≤ state.counter := by
  rw [numbered.blocks]
  simp only [List.mem_cons, List.mem_map, List.mem_range, reduceCtorEq, BlockId.block.injEq, false_or]
  constructor
  · rintro ⟨index, small, rfl⟩
    omega
  · rintro ⟨positive, small⟩
    exact ⟨number - 1, by omega, by omega⟩

theorem statementsOf_absent {cfg : ControlFlowGraph} {blockId : BlockId}
    (absent : blockId ∉ cfg.blocks.keys) : cfg.statementsOf blockId = [] := by
  simp [ControlFlowGraph.statementsOf, (OrderedDict.get?_eq_none _ _).mpr absent]

theorem Numbered.statements_later {state : BuildState} (numbered : Numbered state) {number : Nat}
    (later : state.counter < number) : state.cfg.statementsOf (.block number) = [] := by
  apply statementsOf_absent
  rw [numbered.mem_keys]
  omega

theorem Numbered.successors_later {state : BuildState} (numbered : Numbered state) {number : Nat}
    (later : state.counter < number) : state.cfg.successors (.block number) = [] := by
  refine List.filter_eq_nil_iff.mpr fun edge present => ?_
  obtain ⟨source, small, named⟩ := numbered.sources edge present
  simp only [named, decide_eq_true_eq, BlockId.block.injEq]
  omega

/-! ### Performing operations -/

/-- The tables grow by what the operations write, and the known tails stay. -/
structure Performs (ops : List Op) (before after : BuildState) : Prop where
  counter : after.counter = before.counter + allocations ops
  statements : ∀ number, after.cfg.statementsOf (.block number) =
    before.cfg.statementsOf (.block number) ++ puts ops number
  bounds : after.cfg.statementsOf .entry = before.cfg.statementsOf .entry ∧
    after.cfg.statementsOf .exit = before.cfg.statementsOf .exit
  edges : after.cfg.edges = before.cfg.edges ++ ops.filterMap Op.toEdge
  labels : after.labelTargets = (ops.filterMap Op.toLabel).foldl
    (fun table entry => table.insert entry.1 entry.2) before.labelTargets
  gotos : after.pendingGotos = before.pendingGotos ++ ops.filterMap Op.toGoto
  named : after.cfg.functionNodeId = before.cfg.functionNodeId
  kept : ∀ number ≤ before.counter,
    after.sequenceTails.get? (.block number) = before.sequenceTails.get? (.block number)
  numbered : Numbered after

theorem Performs.refl {state : BuildState} (numbered : Numbered state) :
    Performs [] state state :=
  ⟨rfl, by simp, ⟨rfl, rfl⟩, by simp, rfl, by simp, rfl, fun _ _ => rfl, numbered⟩

theorem Performs.trans {before middle after : BuildState} {first second : List Op}
    (head : Performs first before middle) (tail : Performs second middle after) :
    Performs (first ++ second) before after where
  counter := by rw [tail.counter, head.counter, allocations_append, Nat.add_assoc]
  statements number := by rw [tail.statements, head.statements, puts_append, List.append_assoc]
  bounds := ⟨tail.bounds.1.trans head.bounds.1, tail.bounds.2.trans head.bounds.2⟩
  edges := by rw [tail.edges, head.edges, List.filterMap_append, List.append_assoc]
  labels := by rw [tail.labels, head.labels, List.filterMap_append, List.foldl_append]
  gotos := by rw [tail.gotos, head.gotos, List.filterMap_append, List.append_assoc]
  named := tail.named.trans head.named
  kept number known := by
    rw [tail.kept number (by rw [head.counter]; omega), head.kept number known]
  numbered := tail.numbered

theorem Performs.successors {before after : BuildState} {ops : List Op}
    (performs : Performs ops before after) (number : Nat) :
    after.cfg.successors (.block number) =
      before.cfg.successors (.block number) ++ edgesFrom ops number := by
  simp [ControlFlowGraph.successors, performs.edges, edgesFrom]

theorem performs_newBlock {state : BuildState} (numbered : Numbered state) (kind : BlockKind) :
    Performs [.newBlock] state (state.newBlock kind).2 := by
  have absent : .block (state.counter + 1) ∉ state.cfg.blocks.keys := by
    rw [numbered.mem_keys]
    omega
  have same : ∀ blockId, (state.newBlock kind).2.cfg.statementsOf blockId =
      state.cfg.statementsOf blockId := by
    intro blockId
    by_cases new : blockId = .block (state.counter + 1)
    · rw [new, statementsOf_absent absent]
      simp [BuildState.newBlock, ControlFlowGraph.statementsOf, OrderedDict.get?_insert]
    · simp [BuildState.newBlock, ControlFlowGraph.statementsOf, OrderedDict.get?_insert, new]
  refine ⟨rfl, fun number => ?_, ⟨same _, same _⟩, by simp [BuildState.newBlock, Op.toEdge], rfl,
    by simp [BuildState.newBlock, Op.toGoto], rfl, fun _ _ => rfl, ⟨?_, ?_, ?_, ?_⟩⟩
  · rw [same]
    simp [Op.put]
  · change (state.cfg.blocks.insert _ _).keys = _
    rw [OrderedDict.keys_insert_of_absent _ _ _ absent, numbered.blocks]
    simp [BuildState.newBlock, List.range_succ]
  · intro key present
    obtain ⟨number, small, rfl⟩ := numbered.tails key present
    exact ⟨number, Nat.le_succ_of_le small, rfl⟩
  · intro edge present
    obtain ⟨number, small, named⟩ := numbered.sources edge present
    exact ⟨number, Nat.le_succ_of_le small, named⟩
  · rw [ControlFlowGraph.keyed_iff]
    intro blockId block found
    simp only [BuildState.newBlock, OrderedDict.get?_insert] at found
    split at found
    · rename_i new
      cases found
      exact new.symm
    · exact (state.cfg.keyed_iff.mp numbered.keyed) blockId block found

theorem performs_append {state : BuildState} (numbered : Numbered state) {number : Nat}
    (positive : 0 < number) (small : number ≤ state.counter) (statement : AstNode) :
    Performs [.append number statement] state (state.appendStatement (.block number) statement) := by
  obtain ⟨block, found⟩ := (OrderedDict.mem_keys_iff _ _).mp
    ((numbered.mem_keys number).mpr ⟨positive, small⟩)
  refine ⟨rfl, fun other => ?_, ⟨?_, ?_⟩, by simp [BuildState.appendStatement, Op.toEdge], rfl,
    by simp [BuildState.appendStatement, Op.toGoto], rfl, fun _ _ => rfl, ⟨?_, ?_, ?_, ?_⟩⟩
  · by_cases same : number = other
    · subst same
      simp [BuildState.appendStatement, ControlFlowGraph.statementsOf, OrderedDict.get?_modify,
        found, Op.put]
    · have away : other ≠ number := fun equal => same equal.symm
      simp [BuildState.appendStatement, ControlFlowGraph.statementsOf, OrderedDict.get?_modify,
        Op.put, same, away]
  · simp [BuildState.appendStatement, ControlFlowGraph.statementsOf, OrderedDict.get?_modify]
  · simp [BuildState.appendStatement, ControlFlowGraph.statementsOf, OrderedDict.get?_modify]
  · simpa [BuildState.appendStatement] using numbered.blocks
  · exact numbered.tails
  · exact numbered.sources
  · rw [ControlFlowGraph.keyed_iff]
    intro blockId changed known
    simp only [BuildState.appendStatement, OrderedDict.get?_modify] at known
    split at known
    · obtain ⟨old, before, rfl⟩ := Option.map_eq_some_iff.mp known
      exact (state.cfg.keyed_iff.mp numbered.keyed) blockId old before
    · exact (state.cfg.keyed_iff.mp numbered.keyed) blockId changed known

theorem performs_edge {state : BuildState} (numbered : Numbered state) {source : Nat}
    (small : source ≤ state.counter) (target : BlockId) (kind : EdgeKind) :
    Performs [.edge source target kind] state (state.addEdge (.block source) target kind none) := by
  refine ⟨rfl, fun number => ?_, ⟨rfl, rfl⟩, rfl, rfl, by simp [BuildState.addEdge, Op.toGoto], rfl,
    fun _ _ => rfl, ⟨numbered.blocks, numbered.tails, ?_, numbered.keyed⟩⟩
  · simp [BuildState.addEdge, ControlFlowGraph.statementsOf, Op.put]
  · intro edge present
    rcases List.mem_append.mp present with old | new
    · exact numbered.sources edge old
    · rw [List.mem_singleton.mp new]
      exact ⟨source, small, rfl⟩

theorem performs_label {state : BuildState} (numbered : Numbered state) (name : String)
    (number : Nat) :
    Performs [.label name number] state
      { state with labelTargets := state.labelTargets.insert name (.block number) } :=
  ⟨rfl, by simp [Op.put], ⟨rfl, rfl⟩, by simp [Op.toEdge], rfl, by simp [Op.toGoto], rfl,
    fun _ _ => rfl, ⟨numbered.blocks, numbered.tails, numbered.sources, numbered.keyed⟩⟩

theorem performs_goto {state : BuildState} (numbered : Numbered state) (number : Nat)
    (name : String) :
    Performs [.goto number name] state
      { state with pendingGotos := state.pendingGotos ++ [(.block number, name)] } :=
  ⟨rfl, by simp [Op.put], ⟨rfl, rfl⟩, by simp [Op.toEdge], rfl, rfl, rfl,
    fun _ _ => rfl, ⟨numbered.blocks, numbered.tails, numbered.sources, numbered.keyed⟩⟩

/-! ### The cursor of a state -/

/-- The cursor describes the counter and the current block of the builder. -/
structure At (state : BuildState) (cursor : Cursor) : Prop where
  numbered : Numbered state
  counter : state.counter = cursor.next
  statements : state.cfg.statementsOf (.block cursor.block) = cursor.statements
  positive : 0 < cursor.block
  valid : cursor.Valid

theorem At.held {state : BuildState} {cursor : Cursor} (here : At state cursor) {number : Nat}
    (known : number = cursor.block ∨ cursor.next < number) :
    state.cfg.statementsOf (.block number) = cursor.held number := by
  unfold Cursor.held
  split
  · rename_i same
    rw [same, here.statements]
  · rename_i away
    apply here.numbered.statements_later
    rw [here.counter]
    omega

/-- The operations of a stretch take the builder from one cursor to the next. -/
theorem At.move {before after : BuildState} {cursor target : Cursor} {ops : List Op}
    (here : At before cursor) (performs : Performs ops before after)
    (moves : cursor.Advances target) (fills : Fills cursor target ops)
    (allocated : cursor.next + allocations ops = target.next) : At after target where
  numbered := performs.numbered
  counter := by rw [performs.counter, here.counter, allocated]
  statements := by
    rw [performs.statements, here.held, fills]
    unfold Cursor.Advances at moves
    omega
  positive := by
    have first := here.positive
    unfold Cursor.Advances at moves
    omega
  valid := moves.valid here.valid

/-- A straight stretch ends where it began to write. -/
theorem At.step {before after : BuildState} {cursor : Cursor} {stack : LoopStack}
    {statement : AstNode} (here : At before cursor)
    (performs : Performs (simpleOps stack statement cursor) before after) :
    At after (cursor.after statement) :=
  here.move performs (cursor.advances_after statement) (simpleOps_fills stack statement cursor here.valid)
    (simpleOps_allocations stack statement cursor)

theorem At.code {before after : BuildState} {cursor : Cursor} {stack : LoopStack} {code : Code}
    (here : At before cursor) (performs : Performs (code.emit stack cursor) before after) :
    At after (code.last cursor) :=
  here.move performs (code.advances_last cursor) (code.emit_fills stack cursor here.valid)
    (code.emit_allocations stack cursor)

/-! ### The handlers -/

/-- A sequence builder performs the operations of the code that a reader finds. -/
def Builds (build : SequenceBuilder) (read : Reader) : Prop :=
  ∀ statements code, read statements = some code → ∀ stack state, Numbered state →
    ∃ after, build statements stack state = some (.block (state.counter + 1), after) ∧
      Performs (.newBlock :: code.emit stack (.fresh state.counter)) state after ∧
      after.tailOf (.block (state.counter + 1)) = .block (code.last (.fresh state.counter)).block

/-- A branch with or without braces is built as one sequence. -/
theorem asSequenceEntry_performs {build : SequenceBuilder} {read : Reader}
    (builds : Builds build read) (graph : AstGraph) (node : AstNode) (code : Branch)
    (reads : readBranch read graph (some node) = some code) (stack : LoopStack)
    {state : BuildState} (numbered : Numbered state) :
    ∃ inner after, code = .present inner ∧
      asSequenceEntry build graph node stack state = some (.block (state.counter + 1), after) ∧
      Performs (.newBlock :: inner.emit stack (.fresh state.counter)) state after ∧
      after.tailOf (.block (state.counter + 1)) = .block (inner.last (.fresh state.counter)).block := by
  simp only [readBranch] at reads
  unfold asSequenceEntry
  split at reads
  · rename_i braces
    obtain ⟨inner, found, rfl⟩ := Option.map_eq_some_iff.mp reads
    obtain ⟨after, built, performs, tail⟩ := builds _ inner found stack state numbered
    exact ⟨inner, after, rfl, by rw [if_pos braces, built], performs, tail⟩
  · rename_i plain
    obtain ⟨inner, found, rfl⟩ := Option.map_eq_some_iff.mp reads
    obtain ⟨after, built, performs, tail⟩ := builds _ inner found stack state numbered
    exact ⟨inner, after, rfl, by rw [if_neg plain, built], performs, tail⟩

/-- The two edges of a branch follow its blocks. -/
theorem linkSequence_performs {build : SequenceBuilder} {read : Reader}
    (builds : Builds build read) (graph : AstGraph) (node : AstNode) (code : Branch)
    (reads : readBranch read graph (some node) = some code) (source target : Nat)
    (entryKind tailKind : EdgeKind) (stack : LoopStack) (missing : List Op) {state : BuildState}
    (numbered : Numbered state) (small : source ≤ state.counter) :
    ∃ after, linkSequence build graph node (.block source) (.block target) entryKind tailKind stack
        state = some after ∧
      Performs (code.emit stack source entryKind tailKind target missing state.counter) state
        after := by
  obtain ⟨inner, after, rfl, built, performs, tail⟩ :=
    asSequenceEntry_performs builds graph node code reads stack numbered
  have allocated := inner.emit_allocations stack (.fresh state.counter)
  have bound := (inner.advances_last (.fresh state.counter)).valid (Cursor.valid_fresh _)
  have counter := performs.counter
  simp only [allocations_cons, Op.allocates, fresh_next] at allocated counter
  unfold Cursor.Valid at bound
  have first := performs_edge performs.numbered (show source ≤ after.counter by omega)
    (.block (state.counter + 1)) entryKind
  have second := performs_edge first.numbered
    (show (inner.last (.fresh state.counter)).block ≤ _ by rw [first.counter]; simp; omega)
    (.block target) tailKind
  refine ⟨_, ?_, performs.trans (first.trans second)⟩
  rw [linkSequence, built, ← tail]
  rfl

theorem linkBranch_performs {build : SequenceBuilder} {read : Reader} (builds : Builds build read)
    (graph : AstGraph) (branch : Option AstNode) (code : Branch)
    (reads : readBranch read graph branch = some code) (source join : Nat) (kind : EdgeKind)
    (stack : LoopStack) {state : BuildState} (numbered : Numbered state)
    (small : source ≤ state.counter) :
    ∃ after, linkBranch build graph branch (.block source) (.block join) kind stack state = some after ∧
      Performs (code.emit stack source kind .fallthrough join [.edge source (.block join) kind]
        state.counter) state after := by
  cases branch with
  | none =>
      simp only [readBranch, Option.some.injEq] at reads
      subst reads
      exact ⟨_, rfl, performs_edge numbered small (.block join) kind⟩
  | some node =>
      exact linkSequence_performs builds graph node code reads source join kind .fallthrough stack _
        numbered small

theorem linkBody_performs {build : SequenceBuilder} {read : Reader} (builds : Builds build read)
    (graph : AstGraph) (statement : AstNode) (code : Branch)
    (reads : readBranch read graph (loopBody statement (graph.children statement.nodeId)) = some code)
    (header : Nat) (stack : LoopStack) {state : BuildState} (numbered : Numbered state)
    (small : header ≤ state.counter) :
    ∃ after, linkBody build graph statement (.block header) stack state = some after ∧
      Performs (code.emit stack header (loopEntryKind statement) .loopBack header [] state.counter)
        state after := by
  unfold linkBody
  cases node : loopBody statement (graph.children statement.nodeId) with
  | none =>
      rw [node] at reads
      simp only [readBranch, Option.some.injEq] at reads
      subst reads
      exact ⟨state, rfl, Performs.refl numbered⟩
  | some bodyNode =>
      rw [node] at reads
      exact linkSequence_performs builds graph bodyNode code reads header header _ .loopBack stack []
        numbered small

/-- The handler returns the cursor from which the rest of the list is written. -/
def Handles (handled : Option (BlockId × BuildState)) (state : BuildState) (stack : LoopStack)
    (code : Code) (cursor : Cursor) : Prop :=
  ∃ after, handled = some (.block (code.last cursor).block, after) ∧
    Performs (code.emit stack cursor) state after

theorem handleIf_performs {build : SequenceBuilder} {read : Reader} (builds : Builds build read)
    (graph : AstGraph) (statement : AstNode) (thenBranch elseBranch : Branch)
    (readsThen : readBranch read graph (graph.children statement.nodeId)[1]? = some thenBranch)
    (readsElse : readBranch read graph (graph.children statement.nodeId)[2]? = some elseBranch)
    (stack : LoopStack) {state : BuildState} {cursor : Cursor} (here : At state cursor) :
    Handles (handleIf build graph statement stack (.block cursor.block) state) state stack
      (.ifStmt statement thenBranch elseBranch .nil) cursor := by
  have valid := here.valid
  unfold Cursor.Valid at valid
  have first := performs_append here.numbered here.positive
    (show cursor.block ≤ state.counter by rw [here.counter]; exact valid) statement
  have second := performs_newBlock first.numbered .normal
  have counter : ((state.appendStatement (.block cursor.block) statement).newBlock .normal).2.counter =
      cursor.next + 1 := by
    rw [second.counter, first.counter, here.counter]
    rfl
  obtain ⟨middle, builtThen, third⟩ := linkBranch_performs builds graph _ _ readsThen cursor.block
    (cursor.next + 1) .trueEdge stack second.numbered (by omega)
  have between : middle.counter = thenBranch.last (cursor.next + 1) := by
    rw [third.counter, counter]
    exact thenBranch.emit_allocations _ _ _ _ _ _ _ rfl
  have bound := thenBranch.le_last (cursor.next + 1)
  obtain ⟨after, builtElse, fourth⟩ := linkBranch_performs builds graph _ _ readsElse cursor.block
    (cursor.next + 1) .falseEdge stack third.numbered (by omega)
  refine ⟨after, ?_, ?_⟩
  · rw [← here.counter] at builtThen builtElse
    change (linkBranch build graph (graph.children statement.nodeId)[1]? (.block cursor.block)
      (.block (state.counter + 1)) .trueEdge stack
      ((state.appendStatement (.block cursor.block) statement).newBlock .normal).2 >>= fun state' =>
        linkBranch build graph (graph.children statement.nodeId)[2]? (.block cursor.block)
          (.block (state.counter + 1)) .falseEdge stack state' >>= fun state' =>
            some (BlockId.block (state.counter + 1), state')) = _
    rw [builtThen, Option.bind_eq_bind, Option.bind_some, builtElse, here.counter]
    rfl
  · rw [counter] at third
    rw [between] at fourth
    have whole := ((first.trans second).trans third).trans fourth
    simpa [Code.emit] using whole

/-- The state of the loop handler before it builds the body. -/
def loopStart (statement : AstNode) (current : BlockId) (state : BuildState) : BuildState :=
  let header := BlockId.block (state.counter + 1)
  ((((state.newBlock .loopHeader).2.appendStatement header statement).newBlock .normal).2.addEdge
    current header .fallthrough none)

theorem loopStart_performs (statement : AstNode) {state : BuildState} {cursor : Cursor}
    (here : At state cursor) :
    Performs [.newBlock, .append (cursor.next + 1) statement, .newBlock,
        .edge cursor.block (.block (cursor.next + 1)) .fallthrough] state
      (loopStart statement (.block cursor.block) state) := by
  have valid := here.valid
  unfold Cursor.Valid at valid
  have first := performs_newBlock here.numbered .loopHeader
  have second := performs_append first.numbered (show 0 < state.counter + 1 by omega)
    (by rw [first.counter]; exact Nat.le_refl _) statement
  have third := performs_newBlock second.numbered .normal
  have fourth := performs_edge third.numbered
    (show cursor.block ≤ _ by rw [third.counter, second.counter, first.counter, here.counter]; omega)
    (.block (state.counter + 1)) .fallthrough
  rw [← here.counter]
  exact ((first.trans second).trans third).trans fourth

theorem handleLoop_performs {build : SequenceBuilder} {read : Reader} (builds : Builds build read)
    (graph : AstGraph) (statement : AstNode) (body : Branch)
    (reads : readBranch read graph (loopBody statement (graph.children statement.nodeId)) = some body)
    (stack : LoopStack) {state : BuildState} {cursor : Cursor} (here : At state cursor) :
    Handles (handleLoop build graph statement stack (.block cursor.block) state) state stack
      (.loop statement body .nil) cursor := by
  have first := loopStart_performs statement here
  have counter : (loopStart statement (.block cursor.block) state).counter = cursor.next + 2 := by
    rw [first.counter, here.counter]
    rfl
  obtain ⟨after, built, second⟩ := linkBody_performs builds graph statement body reads
    (cursor.next + 1) ((.block (cursor.next + 1), .block (cursor.next + 2)) :: stack)
    first.numbered (by omega)
  rw [counter] at second
  have third := performs_edge second.numbered
    (show cursor.next + 1 ≤ after.counter by rw [second.counter, counter]; omega)
    (.block (cursor.next + 2)) .falseEdge
  refine ⟨after.addEdge (.block (cursor.next + 1)) (.block (cursor.next + 2)) .falseEdge none, ?_, ?_⟩
  · change (linkBody build graph statement (.block (state.counter + 1))
      ((.block (state.counter + 1), .block (state.counter + 2)) :: stack)
      (loopStart statement (.block cursor.block) state) >>= fun state' =>
        some (BlockId.block (state.counter + 2), state'.addEdge (.block (state.counter + 1))
          (.block (state.counter + 2)) .falseEdge none)) = _
    rw [here.counter, built]
    rfl
  · have whole := (first.trans second).trans third
    simpa [Code.emit] using whole

/-- A tail without edges is linked. -/
theorem linkTail_performs {state : BuildState} (numbered : Numbered state) (previous : Option Nat)
    (dangling : ∀ tail, previous = some tail →
      tail ≤ state.counter ∧ state.cfg.successors (.block tail) = [])
    (target : BlockId) (kind : EdgeKind) :
    Performs (previous.toList.map fun tail => .edge tail target kind) state
      (state.linkTail (previous.map .block) target kind) := by
  cases previous with
  | none => exact Performs.refl numbered
  | some tail =>
      obtain ⟨small, empty⟩ := dangling tail rfl
      have open_ : state.terminates (.block tail) = false := by
        simp [BuildState.terminates, empty]
      simp only [Option.map_some, BuildState.linkTail, open_]
      exact performs_edge numbered small target kind

theorem linkTail_tailOf (state : BuildState) (previous : Option BlockId) (target : BlockId)
    (kind : EdgeKind) (entry : BlockId) :
    (state.linkTail previous target kind).tailOf entry = state.tailOf entry := by
  unfold BuildState.linkTail
  split
  · rfl
  · split <;> rfl

/-- A reader puts a case label in front of what it reads after it. -/
def ReadsLabels (read : Reader) : Prop :=
  ∀ label group body, isCaseLabel label = true → read group = some body →
    read (label :: group) = some (.simple label body)

theorem buildCaseGroups_performs {build : SequenceBuilder} {read : Reader}
    (builds : Builds build read) (readsLabels : ReadsLabels read) (switchBlock afterSwitch : Nat)
    (stack : LoopStack) (groups : List (AstNode × List AstNode)) (code : Groups)
    (labelled : ∀ group ∈ groups, isCaseLabel group.1 = true)
    (reads : readGroups read groups = some code) (previous : Option Nat) {state : BuildState}
    (numbered : Numbered state) (small : switchBlock ≤ state.counter)
    (dangling : ∀ tail, previous = some tail →
      tail ≤ state.counter ∧ tail ≠ switchBlock ∧ state.cfg.successors (.block tail) = []) :
    ∃ tail after, buildCaseGroups build (.block switchBlock) stack groups (previous.map .block) state =
        some (tail, after) ∧
      Performs (code.emit stack switchBlock previous afterSwitch state.counter) state
        (after.linkTail tail (.block afterSwitch) .fallthrough) := by
  induction groups generalizing code previous state with
  | nil =>
      simp only [readGroups, Option.some.injEq] at reads
      subst reads
      refine ⟨_, _, rfl, linkTail_performs numbered previous (fun tail found => ?_) _ _⟩
      obtain ⟨bound, _, empty⟩ := dangling tail found
      exact ⟨bound, empty⟩
  | cons group rest ih =>
      obtain ⟨label, group⟩ := group
      simp only [readGroups, Option.bind_eq_bind, Option.bind_eq_some_iff, Option.some.injEq] at reads
      obtain ⟨body, found, more, others, rfl⟩ := reads
      have kind : isCaseLabel label = true := labelled (label, group) (by simp)
      obtain ⟨inside, built, first, tail⟩ := builds _ _ (readsLabels label group body kind found) stack
        state numbered
      have counter := first.counter
      have allocated := (Code.simple label body).emit_allocations stack (.fresh state.counter)
      have bound := ((Code.simple label body).advances_last (.fresh state.counter))
      have silent := (Code.simple label body).emit_silent stack (.fresh state.counter)
        (Cursor.valid_fresh _)
      have confined := (Code.simple label body).emit_confined stack (.fresh state.counter)
      simp only [allocations_cons, Op.allocates, fresh_next, fresh_block, Cursor.Advances] at *
      have second := performs_edge first.numbered (show switchBlock ≤ inside.counter by omega)
        (.block (state.counter + 1)) (caseEdgeKind label)
      have third := linkTail_performs second.numbered previous (fun tail found => by
        obtain ⟨bound, away, empty⟩ := dangling tail found
        refine ⟨by rw [second.counter]; simp; omega, ?_⟩
        rw [second.successors, first.successors, empty]
        have outside := confined.silent tail (by unfold Within; omega)
        simp [outside.edgesFrom, away.symm]) (.block (state.counter + 1)) .switchFallthrough
      have whole := (first.trans second).trans third
      have ends : ((inside.addEdge (.block switchBlock) (.block (state.counter + 1))
          (caseEdgeKind label) none).linkTail (previous.map .block) (.block (state.counter + 1))
          .switchFallthrough).counter =
          ((Code.simple label body).last (.fresh state.counter)).next := by
        rw [third.counter, second.counter]
        cases previous <;> simp [Op.allocates] <;> omega
      have quiet : edgesFrom (previous.toList.map fun tail =>
          Op.edge tail (.block (state.counter + 1)) .switchFallthrough)
          ((Code.simple label body).last (.fresh state.counter)).block = [] := by
        cases previous with
        | none => rfl
        | some earlier =>
            have away := (dangling earlier rfl).1
            simp only [Option.toList_some, List.map_cons, List.map_nil, edgesFrom_edge,
              edgesFrom_nil, List.append_nil, ite_eq_right_iff]
            intro same
            omega
      obtain ⟨final, after, builtRest, fourth⟩ := ih more
        (fun group inside => labelled group (by simp [inside])) others
        (some ((Code.simple label body).last (.fresh state.counter)).block) third.numbered
        (by omega) (fun tail same => by
          simp only [Option.some.injEq] at same
          subst same
          refine ⟨by omega, by omega, ?_⟩
          have away : switchBlock ≠ ((Code.simple label body).last (.fresh state.counter)).block := by
            omega
          rw [whole.successors, numbered.successors_later (by omega)]
          simp [silent.edgesFrom, quiet, away])
      refine ⟨final, after, ?_, ?_⟩
      · simp only [buildCaseGroups, built, Option.bind_eq_bind, Option.bind_some]
        rw [linkTail_tailOf]
        change buildCaseGroups build _ stack rest (some (inside.tailOf _)) _ = _
        rw [tail]
        exact builtRest
      · have total := whole.trans fourth
        rw [ends] at total
        simpa [Groups.emit, Code.emit, Code.last] using total

/-- The groups start at labels. -/
theorem caseGroups_labelled (statements : List AstNode) :
    ∀ group ∈ caseGroups statements, isCaseLabel group.1 = true := by
  have scanned : ∀ (scan : CaseScan), (∀ group ∈ scan.close, isCaseLabel group.1 = true) →
      ∀ group ∈ (statements.foldl CaseScan.next scan).close, isCaseLabel group.1 = true := by
    induction statements with
    | nil => exact fun _ labelled => labelled
    | cons statement rest ih =>
        intro scan labelled
        refine ih _ ?_
        unfold CaseScan.next
        split
        · rename_i label
          intro group inside
          rcases List.mem_append.mp inside with old | new
          · exact labelled group old
          · rw [List.mem_singleton.mp new]
            exact label
        · unfold CaseScan.close at labelled ⊢
          cases opened : scan.currentCase with
          | none =>
              rw [opened] at labelled
              exact labelled
          | some label =>
              simp only [opened, List.mem_append, List.mem_singleton] at labelled ⊢
              rintro group (old | rfl)
              · exact labelled group (.inl old)
              · exact labelled (label, scan.currentGroup) (.inr rfl)
  exact scanned {} (by simp [CaseScan.close])

theorem hasDefault_of_reads {read : Reader} (groups : List (AstNode × List AstNode)) (code : Groups)
    (reads : readGroups read groups = some code) :
    code.hasDefault = groups.any fun group => group.1.nodeKind = .defaultStmt := by
  induction groups generalizing code with
  | nil =>
      simp only [readGroups, Option.some.injEq] at reads
      subst reads
      rfl
  | cons group rest ih =>
      obtain ⟨label, group⟩ := group
      simp only [readGroups, Option.bind_eq_bind, Option.bind_eq_some_iff, Option.some.injEq] at reads
      obtain ⟨body, _, more, others, rfl⟩ := reads
      simp [Groups.hasDefault, ih more others]

/-- A switch appends its statement and allocates the block after it. -/
theorem switchStart_performs (statement : AstNode) {state : BuildState} {cursor : Cursor}
    (here : At state cursor) :
    Performs [.append cursor.block statement, .newBlock] state
      ((state.appendStatement (.block cursor.block) statement).newBlock .normal).2 := by
  have valid := here.valid
  unfold Cursor.Valid at valid
  have first := performs_append here.numbered here.positive
    (show cursor.block ≤ state.counter by rw [here.counter]; exact valid) statement
  exact first.trans (performs_newBlock first.numbered .normal)

theorem handleSwitch_performs {build : SequenceBuilder} {read : Reader} (builds : Builds build read)
    (readsLabels : ReadsLabels read) (graph : AstGraph) (statement body : AstNode) (groups : Groups)
    (braces : (graph.children statement.nodeId).find? (fun child => child.nodeKind = .compoundStmt) =
      some body)
    (reads : readGroups read (caseGroups (graph.children body.nodeId)) = some groups)
    (stack : LoopStack) {state : BuildState} {cursor : Cursor} (here : At state cursor) :
    Handles (handleSwitch build graph statement stack (.block cursor.block) state) state stack
      (.switch statement groups .nil) cursor := by
  have valid := here.valid
  unfold Cursor.Valid at valid
  have first := switchStart_performs statement here
  have counter : ((state.appendStatement (.block cursor.block) statement).newBlock .normal).2.counter =
      cursor.next + 1 := by
    rw [first.counter, here.counter]
    rfl
  obtain ⟨tail, after, built, second⟩ := buildCaseGroups_performs builds readsLabels cursor.block
    (cursor.next + 1) ((.block cursor.block, .block (cursor.next + 1)) :: stack) _ groups
    (caseGroups_labelled _) reads none first.numbered (by omega) (by simp)
  rw [counter] at second
  have third := performs_edge second.numbered
    (show cursor.block ≤ _ by rw [second.counter, counter]; omega)
    (.block (cursor.next + 1)) .noMatch
  have default_ := hasDefault_of_reads _ groups reads
  refine ⟨if groups.hasDefault then after.linkTail tail (.block (cursor.next + 1)) .fallthrough
    else (after.linkTail tail (.block (cursor.next + 1)) .fallthrough).addEdge (.block cursor.block)
      (.block (cursor.next + 1)) .noMatch none, ?_, ?_⟩
  · rw [Option.map_none, ← here.counter] at built
    simp only [handleSwitch, braces, Code.last, ← here.counter]
    change (buildCaseGroups build (.block cursor.block)
      ((.block cursor.block, .block (state.counter + 1)) :: stack)
      (caseGroups (graph.children body.nodeId)) none
      ((state.appendStatement (.block cursor.block) statement).newBlock .normal).2 >>= _) = _
    rw [built, default_]
    rfl
  · split
    · rename_i present
      simpa [Code.emit, present] using first.trans second
    · rename_i absent
      simpa [Code.emit, absent] using (first.trans second).trans third

theorem handleBareSwitch_performs (build : SequenceBuilder) (graph : AstGraph) (statement : AstNode)
    (bare : (graph.children statement.nodeId).find? (fun child => child.nodeKind = .compoundStmt) =
      none)
    (stack : LoopStack) {state : BuildState} {cursor : Cursor} (here : At state cursor) :
    Handles (handleSwitch build graph statement stack (.block cursor.block) state) state stack
      (.bareSwitch statement .nil) cursor := by
  have valid := here.valid
  unfold Cursor.Valid at valid
  have first := switchStart_performs statement here
  have second := performs_edge first.numbered
    (show cursor.block ≤ _ by rw [first.counter, here.counter]; simp; omega)
    (.block (cursor.next + 1)) .fallthrough
  refine ⟨((state.appendStatement (.block cursor.block) statement).newBlock .normal).2.addEdge
    (.block cursor.block) (.block (cursor.next + 1)) .fallthrough none, ?_, ?_⟩
  · simp only [handleSwitch, bare, ← here.counter, Code.last]
    rfl
  · exact first.trans second

/-- A nested block is built before the edge that enters it. -/
theorem compound_performs {build : SequenceBuilder} {read : Reader} (builds : Builds build read)
    (graph : AstGraph) (exitTarget : BlockId) (statement : AstNode)
    (kind : statement.nodeKind = .compoundStmt) (body : Code)
    (reads : read (graph.children statement.nodeId) = some body)
    (stack : LoopStack) {state : BuildState} {cursor : Cursor} (here : At state cursor) :
    Handles (buildStatement build graph exitTarget stack statement (.block cursor.block) state) state
      stack (.compound statement body .nil) cursor := by
  have valid := here.valid
  unfold Cursor.Valid at valid
  obtain ⟨inside, built, first, _⟩ := builds _ body reads stack state here.numbered
  have allocated := body.emit_allocations stack (.fresh state.counter)
  have counter := first.counter
  simp only [allocations_cons, Op.allocates, fresh_next, here.counter] at allocated counter
  have second := performs_edge first.numbered (show cursor.block ≤ inside.counter by omega)
    (.block (state.counter + 1)) .fallthrough
  have third := performs_newBlock second.numbered .normal
  have ends : inside.counter = (body.last (.fresh cursor.next)).next := by omega
  refine ⟨((inside.addEdge (.block cursor.block) (.block (state.counter + 1)) .fallthrough
    none).newBlock .normal).2, ?_, ?_⟩
  · simp only [buildStatement, kind, built, Code.last, fresh_block, ← ends]
    rfl
  · have whole := (first.trans second).trans third
    simpa [Code.emit, here.counter] using whole

/-- A jump writes its edge and leaves a fresh block behind. -/
theorem jump_performs (stack : LoopStack) {statement : AstNode} {state middle : BuildState}
    {cursor : Cursor} (here : At state cursor) (jump : statement.nodeKind.isJump = true)
    (wired : Performs (jumpOps stack statement cursor.block)
      (state.appendStatement (.block cursor.block) statement) middle) :
    Handles (some (middle.newBlock .normal)) state stack (.simple statement .nil) cursor := by
  have valid := here.valid
  unfold Cursor.Valid at valid
  have first := performs_append here.numbered here.positive
    (show cursor.block ≤ state.counter by rw [here.counter]; exact valid) statement
  have third := performs_newBlock wired.numbered .normal
  have counter : middle.counter = cursor.next := by
    rw [wired.counter, first.counter, jumpOps_allocations, here.counter]
    rfl
  have other : statement.nodeKind ≠ .labelStmt := fun same => by simp [same, NodeKind.isJump] at jump
  refine ⟨(middle.newBlock .normal).2, ?_, ?_⟩
  · simp only [Code.last, Cursor.after, other, jump, fresh_block, ← counter, false_and, if_false,
      if_true]
    rfl
  · have whole := (first.trans wired).trans third
    simpa [Code.emit, simpleOps, other, jump] using whole

/-- A label is written into an empty block or into a new one. -/
theorem label_performs (build : SequenceBuilder) (graph : AstGraph) (statement : AstNode)
    (kind : statement.nodeKind = .labelStmt) (stack : LoopStack) {state : BuildState}
    {cursor : Cursor} (here : At state cursor) :
    Handles (buildStatement build graph .exit stack statement (.block cursor.block) state) state
      stack (.simple statement .nil) cursor := by
  have valid := here.valid
  unfold Cursor.Valid at valid
  by_cases empty : cursor.statements = []
  · have first := performs_label here.numbered (labelName statement) cursor.block
    have second := performs_append first.numbered here.positive
      (show cursor.block ≤ state.counter by rw [here.counter]; exact valid) statement
    have whole := first.trans second
    refine ⟨_, ?_, by simpa [Code.emit, simpleOps, kind, empty] using whole⟩
    simp only [buildStatement, kind, here.statements, empty, if_true, Code.last, Cursor.after,
      NodeKind.isJump]
    rfl
  · have first := performs_newBlock here.numbered .normal
    have second := performs_edge first.numbered
      (show cursor.block ≤ _ by rw [first.counter, here.counter]; simp; omega)
      (.block (state.counter + 1)) .fallthrough
    have third := performs_label second.numbered (labelName statement) (state.counter + 1)
    have fourth := performs_append third.numbered (Nat.succ_pos state.counter)
      (Nat.le_refl _) statement
    have whole := ((first.trans second).trans third).trans fourth
    refine ⟨_, ?_, by simpa [Code.emit, simpleOps, kind, empty, here.counter] using whole⟩
    simp only [buildStatement, kind, here.statements, empty, if_false, Code.last, Cursor.after,
      true_and, ne_eq, not_false_eq_true, if_true, ← here.counter]
    rfl

/-- Every simple kind is built in place. -/
theorem simple_performs (build : SequenceBuilder) (graph : AstGraph) (statement : AstNode)
    (kind : statement.nodeKind.isSimple = true) (stack : LoopStack) {state : BuildState}
    {cursor : Cursor} (here : At state cursor) :
    Handles (buildStatement build graph .exit stack statement (.block cursor.block) state) state
      stack (.simple statement .nil) cursor := by
  have valid := here.valid
  unfold Cursor.Valid at valid
  have small : cursor.block ≤ state.counter := by rw [here.counter]; exact valid
  have first := performs_append here.numbered here.positive small statement
  cases jump : statement.nodeKind.isJump with
  | false =>
      by_cases label : statement.nodeKind = .labelStmt
      · exact label_performs build graph statement label stack here
      · refine ⟨state.appendStatement (.block cursor.block) statement, ?_, ?_⟩
        · cases named : statement.nodeKind <;>
            simp_all [buildStatement, NodeKind.isSimple, NodeKind.isJump, Code.last, Cursor.after]
        · simpa [Code.emit, simpleOps, label, jump] using first
  | true =>
      cases named : statement.nodeKind <;> simp only [named, NodeKind.isJump, reduceCtorEq] at jump
      case returnStmt =>
        have wired := performs_edge first.numbered small .exit .returnEdge
        simpa [buildStatement, named] using jump_performs stack here
          (by simp [named, NodeKind.isJump]) (by simpa [jumpOps, named] using wired)
      case breakStmt =>
        cases stack with
        | nil =>
            simpa [buildStatement, named] using jump_performs [] here
              (by simp [named, NodeKind.isJump])
              (by simpa [jumpOps, named] using Performs.refl first.numbered)
        | cons targets outer =>
            have wired := performs_edge first.numbered small targets.2 .breakEdge
            simpa [buildStatement, named] using jump_performs (targets :: outer) here
              (by simp [named, NodeKind.isJump]) (by simpa [jumpOps, named] using wired)
      case continueStmt =>
        cases stack with
        | nil =>
            simpa [buildStatement, named] using jump_performs [] here
              (by simp [named, NodeKind.isJump])
              (by simpa [jumpOps, named] using Performs.refl first.numbered)
        | cons targets outer =>
            have wired := performs_edge first.numbered small targets.1 .continueEdge
            simpa [buildStatement, named] using jump_performs (targets :: outer) here
              (by simp [named, NodeKind.isJump]) (by simpa [jumpOps, named] using wired)
      case gotoStmt =>
        have wired := performs_goto first.numbered cursor.block (targetLabel statement)
        simpa [buildStatement, named] using jump_performs stack here
          (by simp [named, NodeKind.isJump]) (by simpa [jumpOps, named] using wired)

/-! ### Statement lists -/

/-- The first statement is a code of its own in front of the rest. -/
def Code.Splits (head rest code : Code) : Prop :=
  (∀ cursor, code.last cursor = rest.last (head.last cursor)) ∧
    ∀ stack cursor, code.emit stack cursor = head.emit stack cursor ++ rest.emit stack (head.last cursor)

/-- The reading of a statement decides how the builder handles it. -/
theorem buildStatement_performs {build : SequenceBuilder} {read : Reader}
    (builds : Builds build read) (readsLabels : ReadsLabels read) (graph : AstGraph)
    (statement : AstNode) (rest code : Code)
    (reads : readStatement read graph statement rest = some code) :
    ∃ head : Code, head.Splits rest code ∧ ∀ (stack : LoopStack) {state : BuildState}
      {cursor : Cursor}, At state cursor →
      Handles (buildStatement build graph .exit stack statement (.block cursor.block) state) state
        stack head cursor := by
  cases readStatement_cases reads with
  | @ifStmt thenBranch elseBranch kind readThen readElse =>
      refine ⟨.ifStmt statement thenBranch elseBranch .nil, ⟨fun _ => rfl, by simp [Code.emit, Code.last]⟩, ?_⟩
      intro stack state cursor here
      simpa only [buildStatement, kind] using
        handleIf_performs builds graph statement _ _ readThen readElse stack here
  | @loop body kind readBody =>
      refine ⟨.loop statement body .nil, ⟨fun _ => rfl, by simp [Code.emit, Code.last]⟩, ?_⟩
      intro stack state cursor here
      have handled := handleLoop_performs builds graph statement body readBody stack here
      cases named : statement.nodeKind <;> simp only [named, NodeKind.isLoop, reduceCtorEq] at kind <;>
        simpa only [buildStatement, named] using handled
  | bareSwitch kind missing =>
      refine ⟨.bareSwitch statement .nil, ⟨fun _ => rfl, by simp [Code.emit, Code.last]⟩, ?_⟩
      intro stack state cursor here
      simpa only [buildStatement, kind] using
        handleBareSwitch_performs build graph statement missing stack here
  | @switch body groups kind found readBody =>
      refine ⟨.switch statement groups .nil, ⟨fun _ => rfl, by simp [Code.emit, Code.last]⟩, ?_⟩
      intro stack state cursor here
      simpa only [buildStatement, kind] using
        handleSwitch_performs builds readsLabels graph statement body groups found readBody stack here
  | @compound body kind readBody =>
      refine ⟨.compound statement body .nil, ⟨fun _ => rfl, by simp [Code.emit, Code.last]⟩, ?_⟩
      intro stack state cursor here
      exact compound_performs builds graph .exit statement kind body readBody stack here
  | simple kind =>
      refine ⟨.simple statement .nil, ⟨fun _ => rfl, by simp [Code.emit, Code.last]⟩, ?_⟩
      intro stack state cursor here
      exact simple_performs build graph statement kind stack here

theorem buildStatements_performs {build : SequenceBuilder} {read : Reader}
    (builds : Builds build read) (readsLabels : ReadsLabels read) (graph : AstGraph)
    (statements : List AstNode) (code : Code)
    (reads : readStatements read graph statements = some code) (stack : LoopStack)
    {state : BuildState} {cursor : Cursor} (here : At state cursor) :
    Handles (buildStatements build graph .exit stack statements (.block cursor.block) state) state
      stack code cursor := by
  induction statements generalizing code state cursor with
  | nil =>
      simp only [readStatements, Option.some.injEq] at reads
      subst reads
      exact ⟨state, rfl, Performs.refl here.numbered⟩
  | cons statement rest ih =>
      simp only [readStatements, Option.bind_eq_bind, Option.bind_eq_some_iff] at reads
      obtain ⟨restCode, readsRest, readsHead⟩ := reads
      obtain ⟨head, ⟨lastSplits, emitSplits⟩, handles⟩ :=
        buildStatement_performs builds readsLabels graph statement restCode code readsHead
      obtain ⟨middle, built, first⟩ := handles stack here
      obtain ⟨after, builtRest, second⟩ := ih restCode readsRest (here.code first)
      refine ⟨after, ?_, by rw [emitSplits]; exact first.trans second⟩
      simp only [buildStatements, built, Option.bind_eq_bind, Option.bind_some, builtRest, lastSplits]

theorem readCode_labels (graph : AstGraph) (fuel : Nat) : ReadsLabels (readCode graph fuel) := by
  intro label group body kind reads
  cases fuel with
  | zero => simp [readCode] at reads
  | succ fuel =>
      simp only [readCode] at reads
      simp only [readCode, readStatements, reads, Option.bind_eq_bind, Option.bind_some]
      unfold readStatement
      simp only [isCaseLabel, Bool.or_eq_true, decide_eq_true_eq] at kind
      rcases kind with named | named <;> rw [named]

/-- The builder of every nesting depth performs the operations of the code of that depth. -/
theorem buildBlockSequence_builds (graph : AstGraph) (fuel : Nat) :
    Builds (buildBlockSequence graph .exit fuel) (readCode graph fuel) := by
  induction fuel with
  | zero =>
      intro statements code reads
      simp [readCode] at reads
  | succ fuel ih =>
      intro statements code reads stack state numbered
      have first := performs_newBlock numbered .normal
      have here : At (state.newBlock .normal).2 (.fresh state.counter) :=
        ⟨first.numbered, rfl, by
          rw [first.statements, fresh_block, numbered.statements_later (Nat.lt_succ_self _)]
          rfl, Nat.succ_pos _, Cursor.valid_fresh _⟩
      obtain ⟨after, built, second⟩ := buildStatements_performs ih (readCode_labels graph fuel) graph
        statements code reads stack here
      have whole := first.trans second
      have new : .block (state.counter + 1) ∉ after.sequenceTails.keys := by
        rw [← OrderedDict.get?_eq_none, second.kept _ (by rw [first.counter]; exact Nat.le_refl _)]
        refine (OrderedDict.get?_eq_none _ _).mpr fun present => ?_
        obtain ⟨number, small, same⟩ := numbered.tails _ present
        simp only [BlockId.block.injEq] at same
        omega
      have grown : state.counter + 1 ≤ after.counter := by
        rw [whole.counter]
        simp [Op.allocates]
      refine ⟨after.recordTail (.block (state.counter + 1))
        (.block (code.last (.fresh state.counter)).block), ?_, ?_, ?_⟩
      · simp only [buildBlockSequence, Option.bind_eq_bind]
        change (buildStatements _ graph .exit stack statements (.block (state.counter + 1))
          (state.newBlock .normal).2).bind _ = _
        rw [fresh_block] at built
        rw [built]
        rfl
      · refine ⟨whole.counter, whole.statements, whole.bounds, whole.edges, whole.labels, whole.gotos,
          whole.named, fun number known => ?_, ⟨whole.numbered.blocks, fun key present => ?_,
            whole.numbered.sources, whole.numbered.keyed⟩⟩
        · rw [← whole.kept number known, BuildState.recordTail, OrderedDict.setDefault, if_neg new, OrderedDict.get?_insert,
            if_neg (by simp; omega)]
        · simp only [BuildState.recordTail, OrderedDict.setDefault, if_neg new,
            OrderedDict.mem_keys_insert] at present
          rcases present with rfl | old
          · exact ⟨_, grown, rfl⟩
          · exact whole.numbered.tails key old
      · simp [BuildState.tailOf, BuildState.recordTail, OrderedDict.setDefault, if_neg new, OrderedDict.get?_insert]

/-! ### The whole graph -/

/-- The operations of a body are those of one sequence that starts at the first block. -/
def Code.operations (body : Code) : List Op := .newBlock :: body.emit [] (.fresh 0)

/-- This is the number of the block where the body ends. -/
def Code.tail (body : Code) : Nat := (body.last (.fresh 0)).block

/-- The end of the body has a predecessor before the gotos are wired. -/
def Code.fed (body : Code) : Bool :=
  body.tail = 1 || (body.operations.filterMap Op.toEdge).any fun edge => edge.target = .block body.tail

/-- A name that no label has leads to the exit. -/
def Code.labelBlock (body : Code) (name : String) : BlockId :=
  ((body.operations.filterMap Op.toLabel).reverse.lookup name).getD .exit


/-- The graph before pruning holds what the operations write. -/
structure Written (body : Code) (cfg : ControlFlowGraph) : Prop where
  blocks : cfg.blocks.keys = .entry :: .exit ::
    (List.range (body.last (.fresh 0)).next).map fun index => .block (index + 1)
  statements : ∀ number, cfg.statementsOf (.block number) = puts body.operations number
  bounds : cfg.statementsOf .entry = [] ∧ cfg.statementsOf .exit = []
  edges : cfg.edges = body.operations.filterMap Op.toEdge ++
    ⟨.entry, .block 1, .fallthrough, none⟩ :: endEdges body.fed (.block body.tail) ++
    (body.operations.filterMap Op.toGoto).map fun pending =>
      ⟨pending.1, body.labelBlock pending.2, .gotoEdge, some pending.2⟩
  keyed : cfg.Keyed

theorem numbered_initialState (functionNode : AstNode) : Numbered (initialState functionNode) where
  blocks := by
    simp only [initialState]
    rw [OrderedDict.keys_insert_of_absent, OrderedDict.keys_insert_of_absent]
    · rfl
    · exact List.not_mem_nil
    · rw [OrderedDict.mem_keys_insert]
      rintro (same | inside)
      · exact BlockId.noConfusion same
      · exact List.not_mem_nil inside
  tails key present := absurd present List.not_mem_nil
  sources edge present := absurd present List.not_mem_nil
  keyed := by
    rw [ControlFlowGraph.keyed_iff]
    intro blockId block found
    simp only [initialState, OrderedDict.get?_insert, OrderedDict.get?_empty] at found
    split at found
    · rename_i exit
      cases found
      exact exit.symm
    · split at found
      · rename_i entry
        cases found
        exact entry.symm
      · exact absurd found (by simp)

/-- The end is linked exactly when it is fed. -/
theorem linkEnd_eq (body : Code) (functionNode : AstNode) (after : BuildState)
    (performs : Performs body.operations (initialState functionNode) after)
    (tail : after.tailOf (.block 1) = .block body.tail) :
    linkEnd (.block 1) after = { after with cfg := { after.cfg with
      edges := after.cfg.edges ++ ⟨.entry, .block 1, .fallthrough, none⟩ :: endEdges body.fed (.block body.tail) } } := by
  have silent : edgesFrom body.operations body.tail = [] := by
    simpa [Code.operations, Code.tail] using
      (body.emit_silent [] (.fresh 0) (Cursor.valid_fresh _)).edgesFrom
  have dangling : (after.addEdge .entry (.block 1) .fallthrough none).cfg.successors
      (.block body.tail) = [] := by
    have inside := performs.successors body.tail
    rw [silent] at inside
    simpa [BuildState.addEdge, ControlFlowGraph.successors, initialState] using inside
  have found : (after.addEdge .entry (.block 1) .fallthrough none).cfg.predecessors
      (.block body.tail) ≠ [] ↔ body.fed = true := by
    have written : after.cfg.edges = body.operations.filterMap Op.toEdge := performs.edges
    simp only [BuildState.addEdge, ControlFlowGraph.predecessors, written, ne_eq,
      List.filter_eq_nil_iff, Code.fed, Bool.or_eq_true, List.any_eq_true, decide_eq_true_eq,
      List.mem_append, List.mem_singleton]
    constructor
    · intro some_
      by_contra none_
      rw [not_or] at none_
      refine some_ ?_
      rintro edge (inside | rfl) same
      · exact none_.2 ⟨edge, inside, same⟩
      · exact none_.1 (BlockId.block.inj same).symm
    · rintro (first | ⟨edge, inside, same⟩) none_
      · exact none_ ⟨.entry, .block 1, .fallthrough, none⟩ (.inr rfl) (by rw [first])
      · exact none_ edge (.inl inside) same
  have top : (after.addEdge .entry (.block 1) .fallthrough none).tailOf (.block 1) =
      .block body.tail := tail
  simp only [linkEnd, top, dangling, found, true_and, endEdges]
  split
  · simp [BuildState.addEdge]
  · simp [BuildState.addEdge]

theorem buildUnpruned_written (functionNode : AstNode) (graph : AstGraph) (body : Code)
    (nonempty : bodyStatements functionNode graph ≠ [])
    (reads : readCode graph (graph.nodes.length + 1) (bodyStatements functionNode graph) = some body) :
    ∃ cfg, buildUnpruned functionNode graph = some cfg ∧ Written body cfg := by
  obtain ⟨after, built, performs, tail⟩ := buildBlockSequence_builds graph _ _ body reads []
    (initialState functionNode) (numbered_initialState functionNode)
  have linked := linkEnd_eq body functionNode after performs tail
  refine ⟨linkGotos (linkEnd (.block 1) after), ?_, ?_⟩
  · simp only [buildUnpruned, if_neg nonempty]
    change (buildBlockSequence _ _ _ _ _ _).bind _ = _
    rw [built]
    rfl
  · rw [linked]
    refine ⟨?_, performs.statements, performs.bounds, ?_, performs.numbered.keyed⟩
    · have allocated := body.emit_allocations [] (.fresh 0)
      have counter := performs.counter
      simp only [allocations_cons, Op.allocates, fresh_next, initialState, Nat.zero_add] at allocated counter
      rw [← allocated, ← counter]
      exact performs.numbered.blocks
    · have table : ∀ name, (after.labelTargets.get? name).getD .exit = body.labelBlock name := by
        intro name
        rw [performs.labels, OrderedDict.get?_foldl_insert]
        simp [initialState, Code.labelBlock, Code.operations]
      have written : after.cfg.edges = body.operations.filterMap Op.toEdge := performs.edges
      have gotos : after.pendingGotos = body.operations.filterMap Op.toGoto := performs.gotos
      simp [linkGotos, written, gotos, gotoEdge, table]

end MisraPlatform
