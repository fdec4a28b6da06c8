import MisraPlatform.Semantics.Evaluation
import MisraPlatform.Proof.BlockEvents
import MisraPlatform.Proof.Forest
import MisraPlatform.Proof.Scan

/-
This file compares the actions of a block with the events that the analyses replay.
-/

namespace MisraPlatform
open DataFlowEngineV2

/-- An action of an evaluation is one of a node below a full expression. -/
theorem Evaluates.mem {graph : AstGraph} {roots : List AstNode} {order : List Action}
    (evaluates : Evaluates graph roots order) {action : Action} (inside : action ∈ order) :
    ∃ root ∈ roots, ∃ node ∈ root :: graph.descendants root.nodeId, action ∈ nodeActions graph node := by
  induction evaluates with
  | nil => exact absurd inside List.not_mem_nil
  | cons _ actions _ _ ih =>
      rcases List.mem_append.mp inside with here | later
      · obtain ⟨node, performed, acts⟩ := List.mem_flatMap.mp (actions.mem_iff.mp here)
        exact ⟨_, List.mem_cons_self, node, (List.mem_filter.mp performed).1, acts⟩
      · obtain ⟨root, listed, found⟩ := ih later
        exact ⟨root, List.mem_cons_of_mem _ listed, found⟩

/-- Everything is evaluated in an AST without conditional operators and without `sizeof`. -/
def AstGraph.Unconditional (graph : AstGraph) : Prop :=
  ∀ node ∈ graph.nodes,
    node.nodeKind ∉ [NodeKind.other "ConditionalOperator", .other "UnaryExprOrTypeTraitExpr"]

instance (graph : AstGraph) : Decidable graph.Unconditional :=
  inferInstanceAs (Decidable (∀ node ∈ graph.nodes, _))

theorem AstGraph.Unconditional.skips {graph : AstGraph} (unconditional : graph.Unconditional) :
    Skips graph [] where
  optional _ inside := absurd inside List.not_mem_nil
  choice node inside kind := absurd (by simp [kind]) (unconditional node inside)
  unevaluated node inside kind := absurd (by simp [kind]) (unconditional node inside)

theorem Evaluates.full {graph : AstGraph} {root : AstNode} {rest : List AstNode} {order later : List Action}
    (unconditional : graph.Unconditional) (actions : order.Perm (performedActions graph [] root))
    (allowed : Allowed graph order) (after : Evaluates graph rest later) :
    Evaluates graph (root :: rest) (order ++ later) :=
  .cons unconditional.skips actions allowed after

theorem Evaluates.last {graph : AstGraph} {root : AstNode} {order : List Action}
    (unconditional : graph.Unconditional) (actions : order.Perm (performedActions graph [] root))
    (allowed : Allowed graph order) : Evaluates graph [root] order := by
  have evaluates := Evaluates.full unconditional actions allowed .nil
  rwa [List.append_nil] at evaluates

/-- The condition of a branch and the header of a loop belong to its block. -/
theorem own_of_child {graph : AstGraph} {statement child node : AstNode}
    (control : statement.nodeKind ∈ [NodeKind.ifStmt, .whileStmt, .forStmt, .switchStmt, .doStmt])
    (inside : child ∈ ownChildren statement (graph.children statement.nodeId))
    (under : node ∈ child :: graph.descendants child.nodeId) :
    node ∈ statementOwnDescendants statement graph := by
  have found : node ∈ statement :: (ownChildren statement (graph.children statement.nodeId)).flatMap
      fun child => child :: graph.descendants child.nodeId :=
    List.mem_cons_of_mem _ (List.mem_flatMap.mpr ⟨child, inside, under⟩)
  unfold statementOwnDescendants
  split
  · exact found
  · exact found
  · exact found
  · exact found
  · exact found
  · rename_i other
    simp_all

/-- A full expression of a statement belongs to the block of the statement. -/
theorem own_of_root {graph : AstGraph} (header : ForHeader graph) {again : Bool}
    {statement root node : AstNode} (evaluated : root ∈ evaluatedRoots header again statement)
    (under : node ∈ root :: graph.descendants root.nodeId) :
    node ∈ statementOwnDescendants statement graph := by
  unfold evaluatedRoots at evaluated
  split at evaluated
  · rename_i kind
    exact own_of_child (by simp [kind]) (by simpa only [ownChildren, kind] using evaluated) under
  · rename_i kind
    exact own_of_child (by simp [kind]) (by simpa only [ownChildren, kind] using evaluated) under
  · rename_i kind
    exact own_of_child (by simp [kind]) (by simpa only [ownChildren, kind] using evaluated) under
  · rename_i kind
    refine own_of_child (by simp [kind]) ?_ under
    simp only [ownChildren, kind]
    rw [← header.parts statement]
    rcases List.mem_append.mp evaluated with first | condition
    · split at first
      · exact List.mem_append_right _ first
      · exact List.mem_append_left _ (List.mem_append_left _ first)
    · exact List.mem_append_left _ (List.mem_append_right _ condition)
  · rename_i kind
    split at evaluated
    · exact own_of_child (by simp [kind]) (by simpa only [ownChildren, kind] using evaluated) under
    · exact absurd evaluated List.not_mem_nil
  · rename_i notIf notWhile notSwitch notFor notDo
    obtain rfl := List.mem_singleton.mp evaluated
    unfold statementOwnDescendants
    split
    · exact absurd (by assumption) notIf
    · exact absurd (by assumption) notWhile
    · exact absurd (by assumption) notFor
    · exact absurd (by assumption) notSwitch
    · exact absurd (by assumption) notDo
    · exact under

/-! ### Events -/

section Events

variable {graph : AstGraph}

theorem referenceEffects_of_parent {ref parent : AstNode} (found : graph.get ref.parentId = some parent) :
    referenceEffects graph ref =
      if isAssignment parent = true ∧
          ((graph.children parent.nodeId).head?.any fun child => child.nodeId = ref.nodeId) = true then
        if opcode parent = "=" then [.writes] else [.reads, .writes]
      else if parent.nodeKind = .unaryOperator ∧ opcode parent ∈ ["++", "--"] then [.reads, .writes]
      else [.reads] := by
  simp only [referenceEffects, found]

/-- A reference that is read is a read of the engine. -/
theorem event_reads {ref : AstNode} (reads : Effect.reads ∈ referenceEffects graph ref) :
    (eventOf graph ref).reads = true := by
  simp only [Event.reads, eventOf, isWriteTarget]
  split
  · rfl
  · rename_i parent found
    split
    · rename_i plain
      have assigns : isAssignment parent = true := by simp [isAssignment, plain.1, plain.2.1]
      rw [referenceEffects_of_parent found, if_pos ⟨assigns, plain.2.2⟩, if_pos plain.2.1] at reads
      exact absurd reads (by decide)
    · split
      · rfl
      · split <;> rfl

/-- The events of a block are its named references. -/
theorem mem_events (cfg : ControlFlowGraph) (graph : AstGraph) (blockId : BlockId) (event : Event) :
    event ∈ cfg.events graph blockId ↔ ∃ ref, (∃ statement ∈ cfg.statementsOf blockId,
      ref ∈ statementOwnDescendants statement graph) ∧ ref.nodeKind = .declRefExpr ∧
        declRefName ref ≠ "" ∧ eventOf graph ref = event := by
  have same : (cfg.blockAt blockId).statements = cfg.statementsOf blockId := by
    unfold ControlFlowGraph.blockAt ControlFlowGraph.statementsOf
    cases cfg.blocks.get? blockId <;> rfl
  simp only [ControlFlowGraph.events, blockEvents, linearize, List.mem_map, List.mem_filter,
    List.mem_insertionSort, List.mem_flatMap, isDeclRef, decide_eq_true_eq, same]
  constructor
  · rintro ⟨ref, ⟨⟨statement, inside, own, kind⟩, named⟩, rfl⟩
    exact ⟨ref, ⟨statement, inside, own⟩, kind, named, rfl⟩
  · rintro ⟨ref, ⟨statement, inside, own⟩, kind, named, rfl⟩
    exact ⟨ref, ⟨⟨statement, inside, own, kind⟩, named⟩, rfl⟩

/-- An event has the name of its reference. -/
theorem event_ref {cfg : ControlFlowGraph} {blockId : BlockId} {event : Event}
    (inside : event ∈ cfg.events graph blockId) :
    event.name = declRefName event.ref ∧ declRefName event.ref ≠ "" := by
  obtain ⟨ref, _, _, named, rfl⟩ := (mem_events cfg graph blockId event).mp inside
  exact ⟨rfl, named⟩

theorem scanned_of_event {cfg : ControlFlowGraph} {blockId : BlockId} {event : Event}
    (inside : event ∈ cfg.events graph blockId) :
    event.ref ∈ scannedNodes (cfg.blockAt blockId) graph := by
  obtain ⟨ref, own, _, _, rfl⟩ := (mem_events cfg graph blockId event).mp inside
  exact (ControlFlowGraph.mem_scannedNodes blockId ref).mpr own

/-- The references of a block have distinct ids when its nodes are scanned once. -/
theorem ControlFlowGraph.ScansOnce.events_nodup {cfg : ControlFlowGraph} (once : cfg.ScansOnce graph)
    (blockId : BlockId) : ((cfg.events graph blockId).map fun event => event.ref.nodeId).Nodup := by
  by_cases inside : blockId ∈ cfg.blocks.keys
  · have scanned := once.block inside
    rw [ControlFlowGraph.events, blockEvents, List.map_map]
    change ((List.filter _ (List.insertionSort _ _)).map AstNode.nodeId).Nodup
    rw [← List.filter_flatMap]
    have sorted := (List.perm_insertionSort precedes
      ((scannedNodes (cfg.blockAt blockId) graph).filter isDeclRef)).map AstNode.nodeId
    exact (sorted.nodup_iff.mpr (scanned.sublist (List.filter_sublist.map _))).sublist
      (List.filter_sublist.map _)
  · have none : cfg.events graph blockId = [] := by
      rw [List.eq_nil_iff_forall_not_mem]
      intro event listed
      obtain ⟨_, ⟨statement, here, _⟩, _⟩ := (mem_events cfg graph blockId event).mp listed
      exact inside (block_of_statement here)
    rw [none]
    exact List.nodup_nil

/-- Only a reference is read. -/
theorem mem_nodeActions_reads {node ref : AstNode} (inside : ⟨ref, .reads⟩ ∈ nodeActions graph node) :
    ref = node ∧ ref.nodeKind = .declRefExpr ∧ declRefName ref ≠ "" ∧
      Effect.reads ∈ referenceEffects graph ref := by
  unfold nodeActions at inside
  split at inside
  · rename_i kind
    split at inside
    · exact absurd inside List.not_mem_nil
    · rename_i named
      obtain ⟨effect, listed, same⟩ := List.mem_map.mp inside
      cases same
      exact ⟨rfl, kind, named, listed⟩
  · split at inside
    · have same := List.mem_singleton.mp inside
      split at same <;> cases same
    · exact absurd inside List.not_mem_nil

/-- The actions of a visit are those of nodes that the block scans. -/
theorem scanned_of_visit {cfg : ControlFlowGraph} {header : ForHeader graph} {again : Bool}
    {blockId : BlockId} {order : List Action} (visit : cfg.Visit header again blockId order)
    {action : Action} (inside : action ∈ order) :
    ∃ node ∈ scannedNodes (cfg.blockAt blockId) graph, action ∈ nodeActions graph node := by
  obtain ⟨root, listed, node, under, acts⟩ := visit.mem inside
  obtain ⟨statement, here, evaluated⟩ := List.mem_flatMap.mp listed
  exact ⟨node, (ControlFlowGraph.mem_scannedNodes blockId node).mpr
    ⟨statement, here, own_of_root header evaluated under⟩, acts⟩

/-- A read of a visit is an event of its block. -/
theorem event_of_read {cfg : ControlFlowGraph} {header : ForHeader graph} {again : Bool}
    {blockId : BlockId} {order : List Action} (visit : cfg.Visit header again blockId order)
    {ref : AstNode} (inside : ⟨ref, .reads⟩ ∈ order) :
    eventOf graph ref ∈ cfg.events graph blockId ∧ (eventOf graph ref).reads = true := by
  obtain ⟨node, scanned, acts⟩ := scanned_of_visit visit inside
  obtain ⟨rfl, kind, named, effects⟩ := mem_nodeActions_reads acts
  exact ⟨(mem_events cfg graph blockId _).mpr
    ⟨ref, (ControlFlowGraph.mem_scannedNodes blockId ref).mp scanned, kind, named, rfl⟩, event_reads effects⟩

end Events

namespace ControlFlowGraph

variable {cfg : ControlFlowGraph} {graph : AstGraph} {header : ForHeader graph}

theorem Visit.of {again : Bool} {blockId : BlockId} {roots : List AstNode} {order : List Action}
    (same : (cfg.statementsOf blockId).flatMap (evaluatedRoots header again) = roots)
    (evaluates : Evaluates graph roots order) : cfg.Visit header again blockId order := by
  subst same
  exact evaluates

/-- A visit of a block goes on along an edge. -/
theorem Trace.along (edge : CFGEdge) {start : BlockId} {flag again : Bool} {actions order : List Action}
    (before : cfg.Trace header start flag edge.source again actions)
    (visit : cfg.Visit header again edge.source order) (inside : edge ∈ cfg.edges) :
    cfg.Trace header start flag edge.target (comesBack edge) (actions ++ order) :=
  .next before visit inside

/-- An action of a trace is done in a visit. -/
theorem Trace.mem {start blockId : BlockId} {flag again : Bool} {actions : List Action}
    (trace : cfg.Trace header start flag blockId again actions) {action : Action}
    (inside : action ∈ actions) :
    ∃ source again order, cfg.Visit header again source order ∧ action ∈ order := by
  induction trace with
  | start => exact absurd inside List.not_mem_nil
  | next _ visit _ ih =>
      rcases List.mem_append.mp inside with earlier | here
      · exact ih earlier
      · exact ⟨_, _, _, visit, here⟩

/-- The first action before a read is done in a visit. -/
theorem ReadAfter.visits {start blockId : BlockId} {flag : Bool} {first : Action} {middle : List Action}
    {ref : AstNode} (after : cfg.ReadAfter header start flag first middle blockId ref) :
    ∃ source again order, cfg.Visit header again source order ∧ first ∈ order := by
  obtain ⟨again, actions, order, before, rest, trace, visit, same⟩ := after
  have inside : first ∈ actions ++ order := by
    rw [same]
    exact List.mem_append_right _ List.mem_cons_self
  rcases List.mem_append.mp inside with earlier | here
  · exact trace.mem earlier
  · exact ⟨blockId, again, _, visit, List.mem_append_left _ here⟩

/-- The read after an action is an event of its block. -/
theorem ReadAfter.event {start blockId : BlockId} {flag : Bool} {first : Action} {middle : List Action}
    {ref : AstNode} (after : cfg.ReadAfter header start flag first middle blockId ref) :
    eventOf graph ref ∈ cfg.events graph blockId ∧ (eventOf graph ref).reads = true := by
  obtain ⟨_, _, _, _, _, _, visit, _⟩ := after
  exact event_of_read visit (List.mem_append_right _ List.mem_cons_self)

end ControlFlowGraph
end MisraPlatform
