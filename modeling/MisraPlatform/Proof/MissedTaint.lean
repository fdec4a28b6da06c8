import MisraPlatform.Semantics.FlowFacts
import MisraPlatform.Proof.Evaluation
import MisraPlatform.Proof.Taint

/-
This file compares the taint findings with the flow of values.
-/

namespace MisraPlatform
open CFGEngine DataFlowEngineV2

namespace ControlFlowGraph

variable {cfg : ControlFlowGraph} {graph : AstGraph} {header : ForHeader graph} {sources sinks : Finset String}

/-- A finding belongs to a sink argument that the plain assignments of some path leave tainted. -/
theorem mem_propagateTaint (closed : cfg.Closed) :
    ∃ findings, propagateTaint cfg graph sources sinks = some findings ∧ ∀ finding, finding ∈ findings ↔
      ∃ argument ∈ cfg.sinkArguments graph sinks, cfg.TaintedArgument graph sources sinks argument ∧
        argument.finding = finding := by
  classical
  refine ⟨_, propagateTaint_eq closed, fun finding => ?_⟩
  simp only [List.mem_map, List.mem_filter, decide_eq_true_eq, and_assoc]

/-- The plain assignments of some path leave the name tainted when the scan of the block arrives at the
call. -/
def TaintedAtCall (cfg : ControlFlowGraph) (graph : AstGraph) (sources sinks : Finset String)
    (blockId : BlockId) (call : AstNode) (name : String) : Prop :=
  ∃ scanned tainted, (scanned, call) ∈ occurrences (scannedNodes (cfg.blockAt blockId) graph) ∧
    cfg.TaintArrives graph sources sinks blockId tainted ∧ name ∈ taintScan graph sources scanned tainted

theorem mem_sinkArguments {argument : SinkArgument} : argument ∈ cfg.sinkArguments graph sinks ↔
    argument.blockId ∈ cfg.blocks.keys ∧
      (argument.scanned, argument.call) ∈
        occurrences (scannedNodes (cfg.blockAt argument.blockId) graph) ∧
      (argument.call.nodeKind = .callExpr ∧ callee argument.call ∈ sinks) ∧
      (argument.argument, argument.position) ∈ (graph.children argument.call.nodeId).zipIdx := by
  rw [sinkArguments, List.mem_flatMap]
  constructor
  · rintro ⟨blockId, inside, listed⟩
    obtain ⟨occurrence, occurs, found⟩ := List.mem_flatMap.mp listed
    split at found
    · rename_i sink
      obtain ⟨child, position, rfl⟩ := List.mem_map.mp found
      exact ⟨inside, occurs, sink, position⟩
    · exact absurd found List.not_mem_nil
  · rintro ⟨inside, occurs, sink, position⟩
    refine ⟨argument.blockId, inside, List.mem_flatMap.mpr ⟨_, occurs, ?_⟩⟩
    rw [if_pos sink]
    exact List.mem_map.mpr ⟨_, position, rfl⟩

theorem scanned_of_occurrence {blockId : BlockId} {scanned : List AstNode} {node : AstNode}
    (occurs : (scanned, node) ∈ occurrences (scannedNodes (cfg.blockAt blockId) graph)) :
    node ∈ scannedNodes (cfg.blockAt blockId) graph := by
  obtain ⟨after, split⟩ := (mem_occurrences _ _ _).mp occurs
  rw [split]
  exact List.mem_append_right _ List.mem_cons_self

/-- An argument that is read has a name and its call is scanned. -/
theorem ReachesSink.read {blockId : BlockId} {call argument : AstNode}
    (reaches : cfg.ReachesSink header sources sinks blockId call argument) :
    declRefName argument ≠ "" ∧ call ∈ scannedNodes (cfg.blockAt blockId) graph := by
  obtain ⟨_, again, _, front, root, rest, _, _, _, _, _, roots, within, _, _, actions, _⟩ := reaches
  have inside := actions.mem_iff.mp (List.mem_append_right _ List.mem_cons_self)
  obtain ⟨node, _, acts⟩ := List.mem_flatMap.mp inside
  have listed : root ∈ cfg.rootsOf header again blockId := by
    rw [roots]
    exact List.mem_append_right _ List.mem_cons_self
  obtain ⟨statement, here, evaluated⟩ := List.mem_flatMap.mp listed
  exact ⟨(mem_nodeActions_reads acts).2.2.1, (mem_scannedNodes blockId call).mpr
    ⟨statement, here, own_of_root header evaluated within⟩⟩

/-- This is the AST of `f() { int n = recv(); memcpy(buf, n); }`. -/
def receiveAst : AstGraph where
  nodes :=
    [{ nodeId := "f", nodeKind := .functionDecl, childrenIds := ["b"] },
      { nodeId := "b", nodeKind := .compoundStmt, parentId := "f", childrenIds := ["d", "m"] },
      { nodeId := "d", nodeKind := .varDecl, parentId := "b", childrenIds := ["c"],
        semanticProperties := [("name", "n")] },
      { nodeId := "c", nodeKind := .callExpr, parentId := "d", semanticProperties := [("callee", "recv")] },
      { nodeId := "m", nodeKind := .callExpr, parentId := "b", childrenIds := ["p", "a"],
        semanticProperties := [("callee", "memcpy")] },
      { nodeId := "p", nodeKind := .declRefExpr, parentId := "m", semanticProperties := [("name", "buf")] },
      { nodeId := "a", nodeKind := .declRefExpr, parentId := "m", semanticProperties := [("name", "n")] }]

def receiveFunction : AstNode := { nodeId := "f", nodeKind := .functionDecl, childrenIds := ["b"] }

def receiveNode (nodeId : String) : AstNode := (receiveAst.get nodeId).getD receiveFunction

def receiveFlow : ControlFlowGraph where
  functionNodeId := "f"
  blocks :=
    { entries :=
        [(.entry, { blockId := .entry, kind := .entry }), (.exit, { blockId := .exit, kind := .exit }),
          (.block 1, { blockId := .block 1, statements := ["d", "m"].filterMap receiveAst.get })]
      distinct := by decide }
  edges :=
    [{ source := .entry, target := .block 1 },
      { source := .block 1, target := .exit, kind := .implicitReturn }]

theorem receiveFlow_closed : receiveFlow.Closed := by
  unfold Closed
  decide

theorem receiveFlow_scansOnce : receiveFlow.ScansOnce receiveAst := by
  unfold ScansOnce
  decide

abbrev receiveHeader : ForHeader receiveAst := .complete receiveAst

/-- The initializer taints `n`, and the call reads it. -/
theorem receive_reachesSink : receiveFlow.ReachesSink receiveHeader defaultTaintSources defaultTaintSinks
    (.block 1) (receiveNode "m") (receiveNode "a") := by
  have plain : receiveAst.Unconditional := by decide
  have arrives : receiveFlow.Tainted receiveHeader defaultTaintSources (.block 1) false ∅ :=
    @Tainted.next _ _ _ _ { source := .entry, target := .block 1 } _ _ _ .start .nil (by decide)
  have declares : Carries receiveAst defaultTaintSources [receiveNode "d"] ∅ {"n"} :=
    .cons plain.skips (by decide : List.Perm [⟨receiveNode "d", .writes⟩] _)
      (List.pairwise_singleton _ _) .nil
  exact ⟨by decide, false, ∅, [receiveNode "d"], receiveNode "m", [], {"n"}, [],
    [⟨receiveNode "p", .reads⟩], [], arrives, by decide, by decide, declares, plain.skips, by decide,
    by unfold Allowed; decide, by decide⟩

end ControlFlowGraph
end MisraPlatform
