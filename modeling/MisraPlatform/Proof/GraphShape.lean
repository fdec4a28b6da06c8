import MisraPlatform.Proof.EmissionLayout
import MisraPlatform.Proof.EmissionTargets
import MisraPlatform.Proof.LayoutPruning

/-
This file collects what holds of the graph that `build` returns.
-/

namespace MisraPlatform
open CFGEngine

/-- The edges join blocks of the graph, nothing enters the entry, and no fallthrough edge leads to
the exit. -/
structure Anchored (cfg : ControlFlowGraph) : Prop where
  bounds : .entry ∈ cfg.blocks.keys ∧ .exit ∈ cfg.blocks.keys
  sources : ∀ edge ∈ cfg.edges, edge.source ∈ cfg.blocks.keys
  targets : ∀ edge ∈ cfg.edges, edge.target ∈ cfg.blocks.keys ∧ edge.target ≠ .entry
  falls : FallsInside cfg

theorem anchored_collapse (cfg : ControlFlowGraph) (blockId target : BlockId)
    (anchored : Anchored cfg) (collapsible : Collapsible cfg blockId target) :
    Anchored (collapse cfg blockId target) := by
  have kept : ∀ other, other ∈ cfg.blocks.keys → other ≠ blockId →
      other ∈ (collapse cfg blockId target).blocks.keys := by
    intro other present away
    rw [collapse_keys]
    exact List.mem_filter.mpr ⟨present, by simpa using away⟩
  have aim : target ∈ cfg.blocks.keys ∧ target ≠ .entry := by
    obtain ⟨label, leaves⟩ := collapsible.leaves
    have present : (⟨blockId, target, .fallthrough, label⟩ : CFGEdge) ∈ cfg.successors blockId := by
      simp [leaves]
    exact anchored.targets _ (List.mem_filter.mp present).1
  refine ⟨⟨kept _ anchored.bounds.1 collapsible.inner.1.symm,
    kept _ anchored.bounds.2 collapsible.inner.2.symm⟩, ?_, ?_,
    fallsInside_collapse cfg blockId target anchored.falls collapsible⟩
  · intro edge present
    obtain ⟨old, before, away, rfl⟩ := (mem_collapse_edges _ _ _ _).mp present
    rw [redirect_source]
    exact kept _ (anchored.sources old before) away
  · intro edge present
    obtain ⟨old, before, _, rfl⟩ := (mem_collapse_edges _ _ _ _).mp present
    rw [redirect_target, renameBlock]
    split
    · exact ⟨kept _ aim.1 collapsible.other, aim.2⟩
    · rename_i away
      exact ⟨kept _ (anchored.targets old before).1 away, (anchored.targets old before).2⟩

theorem Written.allocated {body : Code} {cfg : ControlFlowGraph} (written : Written body cfg)
    {blockId : BlockId} (allocated : Allocated (body.last (.fresh 0)).next blockId) :
    blockId ∈ cfg.blocks.keys := by
  obtain ⟨number, rfl, positive, small⟩ := allocated
  rw [written.blocks]
  simp only [List.mem_cons, List.mem_map, List.mem_range, reduceCtorEq, BlockId.block.injEq, false_or]
  exact ⟨number - 1, by omega, by omega⟩

/-- The subjects of the operations of a body are allocated. -/
theorem operations_allocated (body : Code) :
    Confined (fun number => Allocated (body.last (.fresh 0)).next (.block number)) body.operations := by
  have bound := body.advances_last (.fresh 0)
  simp only [Cursor.Advances, fresh_next, fresh_block] at bound
  rw [Code.operations, confined_newBlock]
  refine (body.emit_confined [] (.fresh 0)).widen fun number inside => allocated_block ?_
  simp only [Within, fresh_next, fresh_block] at inside
  omega

theorem operations_aimed (body : Code) : Aimed (body.last (.fresh 0)).next body.operations := by
  rw [Code.operations, aimed_newBlock]
  exact body.emit_aimed _ [] (.fresh 0) (fun _ inside => absurd inside List.not_mem_nil)
    (Nat.succ_pos 0) (Cursor.valid_fresh 0) (Nat.le_refl _)

/-- A goto leads to an allocated block or to the exit. -/
theorem labelBlock_allocated (body : Code) (name : String) :
    body.labelBlock name = .exit ∨ Allocated (body.last (.fresh 0)).next (body.labelBlock name) := by
  unfold Code.labelBlock
  cases found : (body.operations.filterMap Op.toLabel).reverse.lookup name with
  | none => exact .inl rfl
  | some blockId =>
      right
      obtain ⟨key, inside⟩ : ∃ key, (key, blockId) ∈ (body.operations.filterMap Op.toLabel).reverse := by
        obtain ⟨front, back, same, _⟩ := List.lookup_eq_some_iff.mp found
        exact ⟨name, by rw [same]; simp⟩
      obtain ⟨op, present, recorded⟩ := List.mem_filterMap.mp (List.mem_reverse.mp inside)
      cases op with
      | label other number =>
          simp only [Op.toLabel, Option.some.injEq, Prod.mk.injEq] at recorded
          rw [Option.getD_some, ← recorded.2]
          exact operations_allocated body _ present number rfl
      | newBlock | append | edge | goto => simp [Op.toLabel] at recorded

theorem Written.anchored {body : Code} {cfg : ControlFlowGraph} (written : Written body cfg) :
    Anchored cfg := by
  have bound := body.advances_last (.fresh 0)
  simp only [Cursor.Advances, fresh_next, fresh_block] at bound
  have first : Allocated (body.last (.fresh 0)).next (.block 1) := allocated_block (by omega)
  have last : Allocated (body.last (.fresh 0)).next (.block body.tail) :=
    allocated_block (by unfold Code.tail; omega)
  have entry : .entry ∈ cfg.blocks.keys := by simp [written.blocks]
  have exit : .exit ∈ cfg.blocks.keys := by simp [written.blocks]
  have sorted : ∀ edge ∈ cfg.edges,
      (edge.source = .entry ∨ Allocated (body.last (.fresh 0)).next edge.source) ∧
      ((edge.target = .exit ∧ edge.kind ≠ .fallthrough) ∨
        Allocated (body.last (.fresh 0)).next edge.target) := by
    intro edge present
    rw [written.edges] at present
    simp only [List.mem_append, List.mem_cons, List.mem_map] at present
    rcases present with (direct | rfl | final) | ⟨pending, waiting, rfl⟩
    · obtain ⟨op, inside, wrote⟩ := List.mem_filterMap.mp direct
      refine ⟨.inr ?_, (operations_aimed body op inside edge wrote).imp
        (fun leaves => ⟨leaves.1, by simp [leaves.2]⟩) id⟩
      cases op with
      | edge number target kind =>
          simp only [Op.toEdge, Option.some.injEq] at wrote
          rw [← wrote]
          exact operations_allocated body _ inside number rfl
      | newBlock | append | label | goto => simp [Op.toEdge] at wrote
    · exact ⟨.inl rfl, .inr first⟩
    · unfold endEdges at final
      split at final
      · rw [List.mem_singleton.mp final]
        exact ⟨.inr last, .inl ⟨rfl, by simp⟩⟩
      · exact absurd final List.not_mem_nil
    · obtain ⟨op, inside, wrote⟩ := List.mem_filterMap.mp waiting
      refine ⟨.inr ?_, (labelBlock_allocated body pending.2).imp (fun leaves => ⟨leaves, by simp⟩) id⟩
      cases op with
      | goto number name =>
          simp only [Op.toGoto, Option.some.injEq] at wrote
          rw [← wrote]
          exact operations_allocated body _ inside number rfl
      | newBlock | append | label | edge => simp [Op.toGoto] at wrote
  refine ⟨⟨entry, exit⟩, ?_, ?_, ?_⟩
  · intro edge present
    rcases (sorted edge present).1 with start | allocated
    · rw [start]
      exact entry
    · exact written.allocated allocated
  · intro edge present
    rcases (sorted edge present).2 with ⟨leaves, _⟩ | allocated
    · rw [leaves]
      exact ⟨exit, by simp⟩
    · refine ⟨written.allocated allocated, ?_⟩
      obtain ⟨number, same, _⟩ := allocated
      simp [same]
  · intro edge present falls
    rcases (sorted edge present).2 with ⟨_, other⟩ | ⟨number, same, _⟩
    · exact absurd falls other
    · simp [same]

/-! ### Statements in blocks -/

def Op.appended : Op → Option (Nat × AstNode)
  | .append number statement => some (number, statement)
  | _ => none

/-- The statements that the operations append, with their blocks. -/
def appends (ops : List Op) : List (Nat × AstNode) := ops.filterMap Op.appended

@[simp] theorem appends_append (first second : List Op) :
    appends (first ++ second) = appends first ++ appends second := List.filterMap_append

@[simp] theorem appends_cons (op : Op) (ops : List Op) :
    appends (op :: ops) = op.appended.toList ++ appends ops := by
  unfold appends
  rw [List.filterMap_cons]
  cases op.appended <;> rfl

@[simp] theorem appends_nil : appends [] = [] := rfl

theorem simpleOps_appends (stack : LoopStack) (statement : AstNode) (cursor : Cursor) :
    (appends (simpleOps stack statement cursor)).map Prod.snd = [statement] := by
  have jump : ∀ number, appends (jumpOps stack statement number) = [] := by
    intro number
    unfold jumpOps
    split <;> first | rfl | cases stack <;> rfl
  unfold simpleOps
  split
  · split <;> simp [Op.appended]
  · split <;> simp [Op.appended, jump]

mutual

/-- The statements are appended in the order of the source, each of them once. -/
theorem Code.emit_appends : ∀ (code : Code) (stack : LoopStack) (cursor : Cursor),
    (appends (code.emit stack cursor)).map Prod.snd = code.nodes
  | .nil, _, _ => rfl
  | .simple statement rest, stack, cursor => by
      simp [Code.emit, Code.nodes, simpleOps_appends, rest.emit_appends]
  | .compound _ body rest, stack, cursor => by
      simp [Code.emit, Code.nodes, Op.appended, body.emit_appends, rest.emit_appends]
  | .ifStmt statement thenBranch elseBranch rest, stack, cursor => by
      simp [Code.emit, Code.nodes, Op.appended, thenBranch.emit_appends, elseBranch.emit_appends,
        rest.emit_appends]
  | .loop statement body rest, stack, cursor => by
      have inner := fun stack header entryKind next =>
        body.emit_appends stack header entryKind .loopBack header [] next rfl
      simp [Code.emit, Code.nodes, Op.appended, inner, rest.emit_appends]
  | .switch statement groups rest, stack, cursor => by
      have skip : ∀ (closed : Bool) (ops : List Op), appends ops = [] →
          appends (if closed then [] else ops) = [] := by
        intro closed ops empty
        cases closed
        · exact empty
        · rfl
      simp [Code.emit, Code.nodes, Op.appended, groups.emit_appends, rest.emit_appends, skip]
  | .bareSwitch statement rest, stack, cursor => by
      simp [Code.emit, Code.nodes, Op.appended, rest.emit_appends]

theorem Branch.emit_appends : ∀ (branch : Branch) (stack : LoopStack) (source : Nat)
    (entryKind tailKind : EdgeKind) (target : Nat) (missing : List Op) (next : Nat),
    appends missing = [] →
    (appends (branch.emit stack source entryKind tailKind target missing next)).map Prod.snd =
      branch.nodes
  | .absent, _, _, _, _, _, missing, _, empty => by simp [Branch.emit, Branch.nodes, empty]
  | .present body, _, _, _, _, _, _, _, _ => by
      simp [Branch.emit, Branch.nodes, Op.appended, body.emit_appends]

theorem Groups.emit_appends : ∀ (groups : Groups) (stack : LoopStack) (switchBlock : Nat)
    (previous : Option Nat) (afterSwitch next : Nat),
    (appends (groups.emit stack switchBlock previous afterSwitch next)).map Prod.snd = groups.nodes
  | .nil, _, _, previous, _, _ => by cases previous <;> rfl
  | .cons label body more, stack, _, previous, _, next => by
      have link : ∀ kind target, appends (previous.toList.map fun tail =>
          .edge tail (.block target) kind) = [] := by
        intro kind target
        cases previous <;> rfl
      simp [Groups.emit, Groups.nodes, Op.appended, simpleOps_appends, body.emit_appends,
        more.emit_appends, link]

end

/-- Every statement of the body stands in at most one block and there at most once. -/
structure PlacesOnce (cfg : ControlFlowGraph) (body : Code) : Prop where
  nodup : ∀ block, (cfg.statementsOf block).Nodup
  inside : ∀ block, ∀ statement ∈ cfg.statementsOf block, statement ∈ body.nodes
  once : ∀ first second statement, statement ∈ cfg.statementsOf first →
    statement ∈ cfg.statementsOf second → first = second

theorem puts_eq_appends (ops : List Op) (number : Nat) :
    puts ops number = ((appends ops).filter fun entry => entry.1 = number).map Prod.snd := by
  induction ops with
  | nil => rfl
  | cons op rest ih =>
      cases op with
      | append other statement =>
          by_cases same : other = number <;> simp [Op.put, Op.appended, ih, same]
      | newBlock | edge | label | goto => simp [Op.put, Op.appended, ih]

theorem mem_puts {ops : List Op} {number : Nat} {statement : AstNode} :
    statement ∈ puts ops number ↔ (number, statement) ∈ appends ops := by
  rw [puts_eq_appends]
  simp

theorem Written.places {body : Code} {cfg : ControlFlowGraph} (written : Written body cfg)
    (nodup : body.nodes.Nodup) : PlacesOnce cfg body := by
  have source : (appends body.operations).map Prod.snd = body.nodes := by
    simp [Code.operations, Op.appended, body.emit_appends]
  have distinct : ((appends body.operations).map Prod.snd).Nodup := source ▸ nodup
  have synthetic : ∀ block, (∃ number, block = .block number) ∨ cfg.statementsOf block = [] := by
    intro block
    cases block with
    | entry => exact .inr written.bounds.1
    | exit => exact .inr written.bounds.2
    | block number => exact .inl ⟨number, rfl⟩
  have numbered : ∀ block statement, statement ∈ cfg.statementsOf block →
      ∃ number, block = .block number ∧ (number, statement) ∈ appends body.operations := by
    intro block statement inside
    rcases synthetic block with ⟨number, rfl⟩ | empty
    · rw [written.statements] at inside
      exact ⟨number, rfl, mem_puts.mp inside⟩
    · rw [empty] at inside
      exact absurd inside List.not_mem_nil
  constructor
  · intro block
    rcases synthetic block with ⟨number, rfl⟩ | empty
    · rw [written.statements, puts_eq_appends]
      exact distinct.sublist (List.filter_sublist.map _)
    · rw [empty]
      exact List.nodup_nil
  · intro block statement inside
    obtain ⟨number, _, listed⟩ := numbered block statement inside
    rw [← source]
    exact List.mem_map_of_mem listed
  · intro first second statement left right
    obtain ⟨number, rfl, listed⟩ := numbered first statement left
    obtain ⟨other, rfl, named⟩ := numbered second statement right
    have same := List.inj_on_of_nodup_map distinct listed named rfl
    exact congrArg BlockId.block (Prod.mk.inj same).1

/-- A collapse leaves the statements where they are. -/
theorem placesOnce_collapse (body : Code) (cfg : ControlFlowGraph) (blockId target : BlockId)
    (places : PlacesOnce cfg body) (collapsible : Collapsible cfg blockId target) :
    PlacesOnce (collapse cfg blockId target) body := by
  have same : ∀ block, (collapse cfg blockId target).statementsOf block = cfg.statementsOf block := by
    intro block
    by_cases here : block = blockId
    · rw [here, collapsible.empty]
      simp [ControlFlowGraph.statementsOf, collapse, OrderedDict.get?_erase]
    · exact collapse_statements cfg blockId target block here
  constructor
  · intro block
    rw [same]
    exact places.nodup block
  · intro block statement inside
    rw [same] at inside
    exact places.inside block statement inside
  · intro first second statement left right
    rw [same] at left right
    exact places.once first second statement left right

/-! ### The graph of a function -/

/-- A collapse removes a block and leaves the others where they are stored. -/
theorem keyed_collapse (cfg : ControlFlowGraph) (blockId target : BlockId) (keyed : cfg.Keyed) :
    (collapse cfg blockId target).Keyed := by
  intro entry inside
  exact keyed entry (List.mem_of_mem_filter inside)

/-- The graph of a body lays it out and places every statement once. -/
structure Represents (cfg : ControlFlowGraph) (body : Code) : Prop where
  keyed : cfg.Keyed
  kinded : body.Kinded
  nodup : body.nodes.Nodup
  lays : Lays cfg body body.fed
  anchored : Anchored cfg
  places : PlacesOnce cfg body

/-- The engine returns a graph that represents the body. -/
theorem build_represents (functionNode : AstNode) (graph : AstGraph) (body : Code)
    (nonempty : bodyStatements functionNode graph ≠ [])
    (reads : readCode graph (graph.nodes.length + 1) (bodyStatements functionNode graph) = some body)
    (kinded : body.Kinded) (nodup : body.nodes.Nodup) :
    ∃ cfg, build functionNode graph = some cfg ∧ Represents cfg body := by
  obtain ⟨before, built, written⟩ := buildUnpruned_written functionNode graph body nonempty reads
  obtain ⟨cfg, pruned, steps⟩ := prune_collapses before
  have kept := steps.keeps
    (fun cfg => ((Lays cfg body body.fed ∧ Anchored cfg) ∧ PlacesOnce cfg body) ∧ cfg.Keyed)
    (fun cfg blockId target good collapsible => by
      obtain ⟨⟨⟨⟨first, last, spots, lays⟩, anchored⟩, places⟩, keyed⟩ := good
      exact ⟨⟨⟨⟨_, last, _, lays.collapse collapsible (collapsible.target_inside anchored.falls)⟩,
        anchored_collapse cfg blockId target anchored collapsible⟩,
        placesOnce_collapse body cfg blockId target places collapsible⟩,
        keyed_collapse cfg blockId target keyed⟩)
    ⟨⟨⟨written.lays kinded, written.anchored⟩, written.places nodup⟩, written.keyed⟩
  refine ⟨cfg, ?_, kept.2, kinded, nodup, kept.1.1.1, kept.1.1.2, kept.1.2⟩
  simp only [build, built, Option.bind_eq_bind, Option.bind_some, if_neg nonempty]
  exact pruned

/-- A function without statements goes straight from its entry to its exit. -/
structure Trivial (cfg : ControlFlowGraph) : Prop where
  keys : cfg.blocks.keys = [.entry, .exit]
  empty : ∀ block, cfg.statementsOf block = []
  edges : cfg.edges = [⟨.entry, .exit, .fallthrough, none⟩]
  keyed : cfg.Keyed

theorem build_trivial (functionNode : AstNode) (graph : AstGraph)
    (empty : bodyStatements functionNode graph = []) :
    ∃ cfg, build functionNode graph = some cfg ∧ Trivial cfg := by
  refine ⟨((initialState functionNode).addEdge .entry .exit .fallthrough none).cfg, ?_, ?_⟩
  · simp [build, buildUnpruned, empty]
  · have numbered := numbered_initialState functionNode
    refine ⟨numbered.blocks, fun block => ?_, rfl, numbered.keyed⟩
    unfold ControlFlowGraph.statementsOf
    change ((((initialState functionNode).cfg.blocks.get? block).map BasicBlock.statements).getD []) = []
    simp only [initialState, OrderedDict.get?_insert, OrderedDict.get?_empty]
    split
    · rfl
    · split <;> rfl

end MisraPlatform
