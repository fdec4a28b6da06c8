import MisraPlatform.Proof.Evaluation
import MisraPlatform.Proof.UninitializedReads

/-
This file compares the uninitialized reads with the evaluation order of C.
-/

namespace MisraPlatform
open CFGEngine DataFlowEngineV2

namespace ControlFlowGraph

variable {functionNode : AstNode} {cfg : ControlFlowGraph} {graph : AstGraph} {header : ForHeader graph}

/-- No event before the reference writes its name, in the order of the text of its block. -/
def FirstInText (cfg : ControlFlowGraph) (graph : AstGraph) (blockId : BlockId) (ref : AstNode) : Prop :=
  ∀ before event after, cfg.events graph blockId = before ++ event :: after → event.ref = ref →
    Unwritten before (declRefName ref)

/-! ### The reported reads -/

/-- The analysis reports the references whose event may find the name without a value. -/
theorem mem_uninitializedReads (wellFormed : cfg.WellFormed) (named : cfg.SitesNamed graph) :
    ∃ reads, uninitializedReads functionNode cfg graph = some reads ∧ ∀ ref, ref ∈ reads ↔
      ∃ blockId before event after, cfg.events graph blockId = before ++ event :: after ∧
        event.ref = ref ∧ cfg.UninitRead functionNode graph (blockId, before, event) := by
  classical
  refine ⟨_, uninitializedReads_exact functionNode cfg graph wellFormed named, fun ref => ?_⟩
  simp only [List.mem_map, List.mem_filter, decide_eq_true_eq, eventOccurrences, List.mem_flatMap]
  constructor
  · rintro ⟨_, ⟨⟨blockId, _, ⟨before, event⟩, inside, rfl⟩, uninit⟩, same⟩
    obtain ⟨after, split⟩ := (mem_occurrences _ _ _).mp inside
    exact ⟨blockId, before, event, after, split, same, uninit⟩
  · rintro ⟨blockId, before, event, after, split, same, uninit⟩
    have listed : event ∈ cfg.events graph blockId := by
      rw [split]
      exact List.mem_append_right _ List.mem_cons_self
    obtain ⟨_, ⟨statement, inside, _⟩, _⟩ := (mem_events cfg graph blockId event).mp listed
    exact ⟨_, ⟨⟨blockId, block_of_statement inside, (before, event),
      (mem_occurrences _ _ _).mpr ⟨after, split⟩, rfl⟩, uninit⟩, same⟩

section Missed

variable (wellFormed : cfg.WellFormed) (named : cfg.SitesNamed graph) (once : cfg.ScansOnce graph)

include wellFormed named once

/-- A read of a block is reported exactly when the name may have no value there and no store to it comes
before the read in the text of the block. -/
theorem mem_uninitializedReads_of_event {reads : List AstNode}
    (found : uninitializedReads functionNode cfg graph = some reads) {blockId : BlockId} {ref : AstNode}
    (inside : eventOf graph ref ∈ cfg.events graph blockId) (isRead : (eventOf graph ref).reads = true) :
    ref ∈ reads ↔
      cfg.UninitAt functionNode graph blockId (declRefName ref) ∧ cfg.FirstInText graph blockId ref := by
  obtain ⟨others, same, members⟩ := @mem_uninitializedReads functionNode _ _ wellFormed named
  obtain rfl := Option.some.inj (found.symm.trans same)
  rw [members]
  constructor
  · rintro ⟨other, before, event, after, split, sameRef, uninit⟩
    have listed : event ∈ cfg.events graph other := by
      rw [split]
      exact List.mem_append_right _ List.mem_cons_self
    obtain ⟨rfl, _⟩ := once.same (scanned_of_event listed) (scanned_of_event inside)
      (congrArg AstNode.nodeId sameRef)
    have name : event.name = declRefName ref := by rw [(event_ref listed).1, sameRef]
    refine ⟨name ▸ uninit.2.2, fun front twin back again twinRef => ?_⟩
    obtain ⟨rfl, _, _⟩ := split_unique (split ▸ once.events_nodup other) (split.symm.trans again)
      (congrArg AstNode.nodeId (sameRef.trans twinRef.symm))
    exact name ▸ uninit.2.1
  · rintro ⟨uninit, first⟩
    obtain ⟨before, after, split⟩ := List.append_of_mem inside
    exact ⟨blockId, before, _, after, split, rfl, isRead, first before _ after split rfl, uninit⟩

/-- The analysis misses no read of a variable without a value exactly when a path that the events leave
clear leads to each of them and no store in its block comes before it in the text. -/
theorem uninitializedReads_complete_iff :
    (∃ reads, uninitializedReads functionNode cfg graph = some reads ∧
      ∀ varDecl blockId ref, cfg.ReadsUninitialized functionNode header varDecl blockId ref →
        ref ∈ reads) ↔
    ∀ varDecl blockId ref, cfg.ReadsUninitialized functionNode header varDecl blockId ref →
      cfg.UninitAt functionNode graph blockId (declRefName ref) ∧ cfg.FirstInText graph blockId ref := by
  obtain ⟨reads, found, _⟩ := @mem_uninitializedReads functionNode _ _ wellFormed named
  have reported : ∀ {varDecl blockId ref},
      cfg.ReadsUninitialized functionNode header varDecl blockId ref → (ref ∈ reads ↔
        cfg.UninitAt functionNode graph blockId (declRefName ref) ∧ cfg.FirstInText graph blockId ref) := by
    rintro varDecl blockId ref ⟨_, _, _, after, _⟩
    exact mem_uninitializedReads_of_event wellFormed named once found after.event.1 after.event.2
  constructor
  · rintro ⟨_, same, complete⟩ varDecl blockId ref uninitialized
    obtain rfl := Option.some.inj (found.symm.trans same)
    exact (reported uninitialized).mp (complete varDecl blockId ref uninitialized)
  · intro condition
    exact ⟨reads, found, fun varDecl blockId ref uninitialized =>
      (reported uninitialized).mpr (condition varDecl blockId ref uninitialized)⟩

end Missed

/-! ### A variable that is incremented without a value -/

/-- This is the AST of `f() { int x; x = x + 1; }`. -/
def incrementAst : AstGraph where
  nodes :=
    [{ nodeId := "f", nodeKind := .functionDecl, childrenIds := ["b"] },
      { nodeId := "b", nodeKind := .compoundStmt, parentId := "f", childrenIds := ["d", "a"] },
      { nodeId := "d", nodeKind := .varDecl, parentId := "b", semanticProperties := [("name", "x")] },
      { nodeId := "a", nodeKind := .binaryOperator, parentId := "b", childrenIds := ["l", "p"],
        semanticProperties := [("opcode", "=")] },
      { nodeId := "l", nodeKind := .declRefExpr, parentId := "a", semanticProperties := [("name", "x")],
        sourceRange := { lineStart := 2, columnStart := 3 } },
      { nodeId := "p", nodeKind := .binaryOperator, parentId := "a", childrenIds := ["r", "o"],
        semanticProperties := [("opcode", "+")] },
      { nodeId := "r", nodeKind := .declRefExpr, parentId := "p", semanticProperties := [("name", "x")],
        sourceRange := { lineStart := 2, columnStart := 7 } },
      { nodeId := "o", nodeKind := .other "IntegerLiteral", parentId := "p" }]

def incrementFunction : AstNode := { nodeId := "f", nodeKind := .functionDecl, childrenIds := ["b"] }

def incrementFlow : ControlFlowGraph where
  functionNodeId := "f"
  blocks :=
    { entries :=
        [(.entry, { blockId := .entry, kind := .entry }), (.exit, { blockId := .exit, kind := .exit }),
          (.block 1, { blockId := .block 1, statements := ["d", "a"].filterMap incrementAst.get })]
      distinct := by decide }
  edges :=
    [{ source := .entry, target := .block 1 },
      { source := .block 1, target := .exit, kind := .implicitReturn }]

theorem incrementFlow_wellFormed : incrementFlow.WellFormed where
  keyed := by
    unfold Keyed
    decide
  closed := by
    unfold Closed
    decide
  placed := by decide

theorem incrementFlow_sitesNamed : incrementFlow.SitesNamed incrementAst := by
  unfold SitesNamed
  decide

theorem incrementFlow_scansOnce : incrementFlow.ScansOnce incrementAst := by
  unfold ScansOnce
  decide

theorem incrementAst_distinctLocals : DistinctLocals incrementFunction incrementAst := by
  unfold DistinctLocals
  decide

def incrementNode (nodeId : String) : AstNode := (incrementAst.get nodeId).getD incrementFunction

/-- The actions of the two statements in the order of C. -/
def incrementActions : List Action :=
  [⟨incrementNode "d", .declares⟩, ⟨incrementNode "r", .reads⟩, ⟨incrementNode "l", .writes⟩]

theorem increment_visit :
    incrementFlow.Visit (ForHeader.complete incrementAst) false (.block 1) incrementActions := by
  have stores : Evaluates incrementAst [incrementNode "a"]
      [⟨incrementNode "r", .reads⟩, ⟨incrementNode "l", .writes⟩] :=
    .last (by decide) (by decide) (by unfold Allowed; decide)
  have declares : Evaluates incrementAst [incrementNode "d", incrementNode "a"]
      ([⟨incrementNode "d", .declares⟩] ++ [⟨incrementNode "r", .reads⟩, ⟨incrementNode "l", .writes⟩]) :=
    .full (by decide) (by decide) (by unfold Allowed; decide) stores
  exact .of (by decide) declares

/-- The right operand is evaluated first and finds `x` without a value. -/
theorem increment_readsUninitialized :
    incrementFlow.ReadsUninitialized incrementFunction (ForHeader.complete incrementAst)
      (incrementNode "d") (.block 1) (incrementNode "r") := by
  have arrives : incrementFlow.Trace (ForHeader.complete incrementAst) .entry false (.block 1) false [] :=
    Trace.start.along { source := .entry, target := .block 1 } .nil (by decide)
  exact ⟨by decide, rfl, [], ⟨false, [], [⟨incrementNode "d", .declares⟩], [], [⟨incrementNode "l", .writes⟩],
    arrives, increment_visit, rfl⟩, by decide⟩

/-- The analysis does not report the read in `x = x + 1`. -/
theorem increment_missed :
    build incrementFunction incrementAst = some incrementFlow ∧
      DistinctLocals incrementFunction incrementAst ∧
      ¬ ∃ reads, uninitializedReads incrementFunction incrementFlow incrementAst = some reads ∧
        ∀ varDecl blockId ref, incrementFlow.ReadsUninitialized incrementFunction
          (ForHeader.complete incrementAst) varDecl blockId ref → ref ∈ reads := by
  refine ⟨rfl, incrementAst_distinctLocals, ?_⟩
  rintro ⟨reads, found, complete⟩
  have reported := complete _ _ _ increment_readsUninitialized
  have none : uninitializedReads incrementFunction incrementFlow incrementAst = some [] := by decide
  cases none.symm.trans found
  exact absurd reported List.not_mem_nil

theorem uninitializedReads_complete_increment :
    (∃ reads, uninitializedReads incrementFunction incrementFlow incrementAst = some reads ∧
      ∀ varDecl blockId ref, incrementFlow.ReadsUninitialized incrementFunction
        (ForHeader.complete incrementAst) varDecl blockId ref → ref ∈ reads) ↔
    ∀ varDecl blockId ref, incrementFlow.ReadsUninitialized incrementFunction
      (ForHeader.complete incrementAst) varDecl blockId ref →
        incrementFlow.UninitAt incrementFunction incrementAst blockId (declRefName ref) ∧
          incrementFlow.FirstInText incrementAst blockId ref :=
  uninitializedReads_complete_iff incrementFlow_wellFormed incrementFlow_sitesNamed incrementFlow_scansOnce

end ControlFlowGraph
end MisraPlatform
