import MisraPlatform.Proof.PathSimulation
import MisraPlatform.Proof.RuleResults

/-
This file is the soundness of reachability in the graph of a function.
-/

namespace MisraPlatform
open CFGEngine

/-- The engine follows control here: it is not at the brace of a bare block and does not continue
a loop from a switch inside it. -/
def State.Followed (state : State) : Prop := ¬ state.EndsBlock ∧ ¬ state.ContinuesInSwitch

/-- This is a step of C that the engine follows. -/
def FollowedStep (body : Code) (state target : State) : Prop :=
  state.Followed ∧ Step .c body state target

theorem FollowedStep.engine {body : Code} {state target : State}
    (taken : FollowedStep body state target) : Step .engine body state target := by
  refine Step.reread taken.2 (fun ends => absurd ends taken.1.1) taken.1.2 fun _ skips => ?_
  exact absurd skips Bool.false_ne_true

/-- A statement of a run is the current statement of a walk. -/
theorem Run.visits {step : State → State → Prop} {start last : State} {trace : List AstNode}
    {statement : AstNode} (run : Run step start trace last) (inside : statement ∈ trace) :
    ∃ front state, Walk step start front state ∧ state.current = some statement := by
  obtain ⟨left, walk, rfl⟩ := run_iff_walk.mp run
  rcases List.mem_append.mp inside with early | here
  · exact walk.mem_split early
  · exact ⟨left, last, walk, by simpa [State.reached] using here⟩

/-- Control only stands before statements of the body. -/
theorem current_mem_nodes {body : Code} {state : State} {statement : AstNode}
    (placed : state.Placed (body.positions body .stop)) (current : state.current = some statement) :
    statement ∈ body.nodes := by
  obtain ⟨position, inside, _⟩ := placed.position current
  rw [← body.positions_nodes body .stop]
  exact List.mem_map_of_mem (f := Prod.fst) inside

theorem reached_left {state : State} {statement : AstNode} (current : state.current = some statement) :
    state ≠ .left .fellOff := by
  rintro rfl
  simp [State.current] at current

/-- A run that the engine follows reaches statements of reachable blocks. -/
theorem Represents.held {cfg : ControlFlowGraph} {body : Code} (represents : Represents cfg body)
    {step : State → State → Prop}
    (narrow : ∀ state target, step state target → Step .engine body state target)
    {trace : List AstNode} {state : State} (walk : Walk step (.start body) trace state)
    {statement : AstNode} (current : state.current = some statement) :
    ∃ block, cfg.Reachable block ∧ statement ∈ cfg.statementsOf block := by
  obtain ⟨first, last, spots, lays⟩ := represents.lays
  have inner := walk_inside narrow walk (reached_left current)
  exact walk_held lays represents.kinded
    (fun _ _ taken => ⟨narrow _ _ taken.1, fun same => absurd same taken.2⟩) inner current

/-- The graph and the rule know that control can get to the statement. -/
structure KnownReachable (context : RuleContext) (cfg : ControlFlowGraph) (statement : AstNode) :
    Prop where
  held : ∃ block, cfg.Reachable block ∧ statement ∈ cfg.statementsOf block
  listed : ∀ block ∈ cfg.unreachableBlocks, statement ∉ block.statements
  reported : ∃ results, Rule2_1.detect context = some results ∧
    ∀ result ∈ results, result.astNodeId ≠ statement.nodeId

section Reports

variable {graph : AstGraph} (wellFormed : graph.WellFormed) (shaped : SwitchesShaped graph)
  {functionNode : AstNode} (present : functionNode ∈ graph.nodes)
  (declares : functionNode.nodeKind = .functionDecl)

include wellFormed

/-- A statement of a returned graph is a statement of the body that the engine reads. -/
theorem held_read {cfg : ControlFlowGraph} (built : build functionNode graph = some cfg)
    {block : BlockId} {statement : AstNode} (inside : statement ∈ cfg.statementsOf block) :
    ∃ body, readCode graph (graph.nodes.length + 1) (bodyStatements functionNode graph) = some body ∧
      Represents cfg body ∧ statement ∈ body.nodes := by
  obtain ⟨body, reads, kinded, nodup⟩ := body_reading wellFormed functionNode
  by_cases empty : bodyStatements functionNode graph = []
  · obtain ⟨other, same, trivial⟩ := build_trivial functionNode graph empty
    cases built.symm.trans same
    simp [trivial.empty] at inside
  · obtain ⟨other, same, represents⟩ := build_represents functionNode graph body empty reads kinded nodup
    cases built.symm.trans same
    exact ⟨body, reads, represents, represents.places.inside block statement inside⟩

include shaped present declares

/-- Two functions share no statement, so a statement has one block in all graphs. -/
theorem held_once {other : AstNode} (known : other ∈ graph.nodes)
    (states : other.nodeKind = .functionDecl) {cfg twin : ControlFlowGraph}
    (built : build functionNode graph = some cfg) (again : build other graph = some twin)
    {first second : BlockId} {left right : AstNode} (here : left ∈ cfg.statementsOf first)
    (there : right ∈ twin.statementsOf second) (same : left.nodeId = right.nodeId) :
    cfg = twin ∧ first = second := by
  obtain ⟨body, reads, represents, inside⟩ := held_read wellFormed built here
  obtain ⟨code, readsOther, _, insideOther⟩ := held_read wellFormed again there
  have equal : left = right := wellFormed.unique (reading_present wellFormed reads left inside)
    (reading_present wellFormed readsOther right insideOther) same
  subst equal
  have stands := ((mem_nodes_iff wellFormed shaped present declares reads left).mp inside).1
  have standsOther := ((mem_nodes_iff wellFormed shaped known states readsOther left).mp insideOther).1
  obtain ⟨rfl, _⟩ := Stands.unique wellFormed present declares known states stands standsOther
  cases built.symm.trans again
  exact ⟨rfl, represents.places.once first second left here there⟩

end Reports

/-- A statement that a reachable block holds is in no unreachable block and in no result. -/
theorem known_of_held {context : RuleContext}
    (wellFormed : (BaseRulePlugin.graph context).WellFormed)
    (shaped : SwitchesShaped (BaseRulePlugin.graph context)) {functionNode : AstNode}
    (present : functionNode ∈ (BaseRulePlugin.graph context).nodes)
    (declares : functionNode.nodeKind = .functionDecl) {cfg : ControlFlowGraph}
    (built : build functionNode (BaseRulePlugin.graph context) = some cfg) {statement : AstNode}
    (held : ∃ block, cfg.Reachable block ∧ statement ∈ cfg.statementsOf block) :
    KnownReachable context cfg statement := by
  obtain ⟨block, reachable, inside⟩ := held
  refine ⟨⟨block, reachable, inside⟩, ?_, ?_⟩
  · intro other unreachable listed
    obtain ⟨otherId, found, missed, _⟩ := (cfg.mem_unreachableBlocks other).mp unreachable
    rw [← ControlFlowGraph.statementsOf_of_get found] at listed
    obtain ⟨_, rfl⟩ := held_once wellFormed shaped present declares present declares built built inside
      listed rfl
    exact missed reachable
  · obtain ⟨results, detected, reports⟩ := Rule2_1.detect_iff wellFormed
    refine ⟨results, detected, fun result listed same => ?_⟩
    obtain ⟨other, known, states, twin, twinBlock, first, again, unreachable, head, rfl⟩ :=
      (reports result).mp listed
    obtain ⟨otherId, found, missed, _⟩ := (twin.mem_unreachableBlocks twinBlock).mp unreachable
    have there : first ∈ twin.statementsOf otherId := by
      rw [ControlFlowGraph.statementsOf_of_get found]
      exact List.mem_of_mem_head? head
    obtain ⟨rfl, rfl⟩ := held_once wellFormed shaped present declares known states built again inside
      there same.symm
    exact missed reachable

/-- Every statement that a followed run reaches is known to be reachable. -/
theorem followed_run_sound (context : RuleContext)
    (wellFormed : (BaseRulePlugin.graph context).WellFormed)
    (shaped : SwitchesShaped (BaseRulePlugin.graph context)) (functionNode : AstNode)
    (present : functionNode ∈ (BaseRulePlugin.graph context).nodes)
    (declares : functionNode.nodeKind = .functionDecl) (body : Code)
    (layout : FunctionBody (BaseRulePlugin.graph context) functionNode body) :
    ∃ cfg, build functionNode (BaseRulePlugin.graph context) = some cfg ∧
      ∀ trace state, Run (FollowedStep body) (.start body) trace state →
        ∀ statement ∈ trace, KnownReachable context cfg statement := by
  obtain ⟨reads, kinded, nodup⟩ := layout.reading wellFormed
  by_cases empty : bodyStatements functionNode (BaseRulePlugin.graph context) = []
  · obtain ⟨cfg, built, _⟩ := build_trivial functionNode _ empty
    refine ⟨cfg, built, fun trace state run statement inside => ?_⟩
    obtain ⟨front, last, walk, current⟩ := run.visits inside
    have placed := walk_placed (fun _ _ taken => FollowedStep.engine taken) walk
    have listed := current_mem_nodes placed current
    rw [empty] at reads
    cases reads
    exact absurd listed List.not_mem_nil
  · obtain ⟨cfg, built, represents⟩ := build_represents functionNode _ body empty reads kinded nodup
    refine ⟨cfg, built, fun trace state run statement inside => ?_⟩
    obtain ⟨front, last, walk, current⟩ := run.visits inside
    exact known_of_held wellFormed shaped present declares built
      (represents.held (fun _ _ taken => FollowedStep.engine taken) walk current)

/-! ### A bare block -/

/-- These are the nodes of `f() { { x(); } y(); }`. -/
def bareBlockFunction : AstNode := { nodeId := "f", nodeKind := .functionDecl, childrenIds := ["b"] }

def bareBlockStatement : AstNode :=
  { nodeId := "s", nodeKind := .compoundStmt, parentId := "b", childrenIds := ["x"] }

def bareBlockInner : AstNode := { nodeId := "x", nodeKind := .callExpr, parentId := "s" }

def bareBlockLater : AstNode := { nodeId := "y", nodeKind := .callExpr, parentId := "b" }

def bareBlockContext : RuleContext where
  filePath := "f.c"
  astNodes :=
    [bareBlockFunction,
      { nodeId := "b", nodeKind := .compoundStmt, parentId := "f", childrenIds := ["s", "y"] },
      bareBlockStatement, bareBlockInner, bareBlockLater]

def bareBlockBody : Code :=
  .compound bareBlockStatement (.simple bareBlockInner .nil) (.simple bareBlockLater .nil)

theorem bareBlock_wellFormed : (BaseRulePlugin.graph bareBlockContext).WellFormed := by
  apply AstGraph.WellFormed.of_order <;> decide

theorem bareBlock_shaped : SwitchesShaped (BaseRulePlugin.graph bareBlockContext) := by
  unfold SwitchesShaped
  decide

theorem bareBlock_layout :
    FunctionBody (BaseRulePlugin.graph bareBlockContext) bareBlockFunction bareBlockBody := by
  have statements : bodyStatements bareBlockFunction (BaseRulePlugin.graph bareBlockContext) =
      [bareBlockStatement, bareBlockLater] := by decide
  have inner : (BaseRulePlugin.graph bareBlockContext).children bareBlockStatement.nodeId =
      [bareBlockInner] := by decide
  refine ⟨[bareBlockLater], statements, rfl, ?_, ⟨[], rfl, rfl, rfl⟩⟩
  exact ⟨[], inner, rfl, rfl⟩

/-- Control passes the bare block and gets to the statement after it. -/
theorem bareBlock_executable : Executable bareBlockBody bareBlockLater := by
  have inside : Step .c bareBlockBody (.start bareBlockBody)
      (.enter (.simple bareBlockInner .nil) (.block (.simple bareBlockLater .nil) .stop)) := .compound
  have entered := Run.step .start inside
  have passed := Run.step entered (Step.simple rfl)
  exact ⟨_, _, Run.step passed (Step.endBlock rfl), rfl⟩

/-- The engine loses the statement after a bare block, and the rule reports it. -/
theorem bareBlock_unsound :
    Executable bareBlockBody bareBlockLater ∧
      ∃ cfg results, build bareBlockFunction (BaseRulePlugin.graph bareBlockContext) = some cfg ∧
        (∀ block, bareBlockLater ∈ cfg.statementsOf block → ¬ cfg.Reachable block) ∧
        (∃ block ∈ cfg.unreachableBlocks, bareBlockLater ∈ block.statements) ∧
        Rule2_1.detect bareBlockContext = some results ∧
        ∃ result ∈ results, result.astNodeId = bareBlockLater.nodeId := by
  have listed : (build bareBlockFunction (BaseRulePlugin.graph bareBlockContext)).map
      (fun cfg => cfg.unreachableBlocks.map BasicBlock.statements) = some [[bareBlockLater]] := by
    decide
  have reported : (Rule2_1.detect bareBlockContext).map
      (fun results => results.map RuleResult.astNodeId) = some ["y"] := by decide
  obtain ⟨cfg, built, blocks⟩ := Option.map_eq_some_iff.mp listed
  obtain ⟨results, detected, names⟩ := Option.map_eq_some_iff.mp reported
  obtain ⟨block, unreachable, statements⟩ := List.mem_map.mp (blocks ▸ List.mem_singleton_self _ :
    [bareBlockLater] ∈ cfg.unreachableBlocks.map BasicBlock.statements)
  have inside : bareBlockLater ∈ block.statements := statements ▸ List.mem_singleton_self _
  refine ⟨bareBlock_executable, cfg, results, built, fun other held reachable => ?_,
    ⟨block, unreachable, inside⟩, detected, ?_⟩
  · obtain ⟨blockId, found, missed, _⟩ := (cfg.mem_unreachableBlocks block).mp unreachable
    rw [← ControlFlowGraph.statementsOf_of_get found] at inside
    obtain ⟨_, rfl⟩ := held_once bareBlock_wellFormed bareBlock_shaped (by decide) rfl (by decide) rfl
      built built held inside rfl
    exact missed reachable
  · exact List.mem_map.mp (names ▸ List.mem_singleton_self _ :
      "y" ∈ results.map RuleResult.astNodeId)

/-- A run that ends inside the bare block is followed. -/
theorem followed_run_sound_bareBlock :
    ∃ cfg, build bareBlockFunction (BaseRulePlugin.graph bareBlockContext) = some cfg ∧
      ∀ trace state, Run (FollowedStep bareBlockBody) (.start bareBlockBody) trace state →
        ∀ statement ∈ trace, KnownReachable bareBlockContext cfg statement :=
  followed_run_sound bareBlockContext bareBlock_wellFormed bareBlock_shaped bareBlockFunction
    (by decide) rfl bareBlockBody bareBlock_layout

end MisraPlatform
