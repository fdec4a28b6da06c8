import MisraPlatform.Semantics.Scoping

/-
This file is what the engines see of an AST whose variables have other names.
-/

namespace MisraPlatform
open DataFlowEngineV2

/-- Every node keeps its id and its children. -/
structure KeepsTree (relabel : AstNode → AstNode) : Prop where
  nodeId : ∀ node, (relabel node).nodeId = node.nodeId
  childrenIds : ∀ node, (relabel node).childrenIds = node.childrenIds

section Tree

variable {relabel : AstNode → AstNode} (keeps : KeepsTree relabel) (graph : AstGraph)

include keeps

theorem KeepsTree.get (nodeId : String) : (graph.relabel relabel).get nodeId = (graph.get nodeId).map relabel := by
  simp only [AstGraph.get, AstGraph.relabel, ← List.map_reverse, List.find?_map, Function.comp_def,
    keeps.nodeId]

theorem KeepsTree.children (nodeId : String) :
    (graph.relabel relabel).children nodeId = (graph.children nodeId).map relabel := by
  unfold AstGraph.children
  rw [keeps.get]
  cases graph.get nodeId with
  | none => rfl
  | some node =>
      simp only [Option.map_some, keeps.childrenIds, List.map_filterMap]
      congr 1
      funext childId
      exact keeps.get graph childId

theorem KeepsTree.collect (fuel : Nat) (collected stack : List AstNode) :
    (graph.relabel relabel).collect fuel (collected.map relabel) (stack.map relabel) =
      (graph.collect fuel collected stack).map (List.map relabel) := by
  induction fuel generalizing collected stack with
  | zero => cases stack <;> rfl
  | succ fuel ih =>
      cases stack with
      | nil => rfl
      | cons current stack =>
          simp only [AstGraph.collect, List.map_cons]
          rw [← ih, keeps.nodeId, keeps.children]
          simp

theorem KeepsTree.descendants (nodeId : String) :
    (graph.relabel relabel).descendants nodeId = (graph.descendants nodeId).map relabel := by
  have start := keeps.collect graph graph.nodes.length [] (graph.children nodeId).reverse
  unfold AstGraph.descendants
  rw [keeps.children, ← List.map_reverse, show (graph.relabel relabel).nodes.length = graph.nodes.length by
    simp [AstGraph.relabel]]
  rw [List.map_nil] at start
  rw [start]
  cases graph.collect graph.nodes.length [] (graph.children nodeId).reverse <;> rfl

end Tree

/-- Nodes that keep their places keep their order. -/
theorem linearize_map {relabel : AstNode → AstNode} (ranges : ∀ node, (relabel node).sourceRange = node.sourceRange)
    (nodes : List AstNode) : linearize (nodes.map relabel) = (linearize nodes).map relabel := by
  refine (List.map_insertionSort _ _ relabel nodes fun first _ second _ => ?_).symm
  unfold precedes
  rw [ranges, ranges]

/-- Only declarations and references change, and only their names. -/
structure Relabels (relabel : AstNode → AstNode) : Prop where
  nodeId : ∀ node, (relabel node).nodeId = node.nodeId
  nodeKind : ∀ node, (relabel node).nodeKind = node.nodeKind
  parentId : ∀ node, (relabel node).parentId = node.parentId
  childrenIds : ∀ node, (relabel node).childrenIds = node.childrenIds
  sourceRange : ∀ node, (relabel node).sourceRange = node.sourceRange
  property : ∀ node key default, key ≠ "name" → (relabel node).property key default = node.property key default
  others : ∀ node, node.nodeKind ∉ [NodeKind.varDecl, .declRefExpr] → relabel node = node
  unnamed : ∀ node, declRefName (relabel node) = "" ↔ declRefName node = ""

section Relabeling

variable {relabel : AstNode → AstNode} (relabels : Relabels relabel) (graph : AstGraph)

include relabels

theorem Relabels.tree : KeepsTree relabel := ⟨relabels.nodeId, relabels.childrenIds⟩

/-! ### Nodes -/

theorem Relabels.opcode (node : AstNode) : opcode (relabel node) = opcode node :=
  relabels.property node "opcode" "" (by decide)

theorem Relabels.callee (node : AstNode) : callee (relabel node) = callee node :=
  relabels.property node "callee" "" (by decide)

theorem Relabels.get (nodeId : String) : (graph.relabel relabel).get nodeId = (graph.get nodeId).map relabel :=
  relabels.tree.get graph nodeId

theorem Relabels.children (nodeId : String) :
    (graph.relabel relabel).children nodeId = (graph.children nodeId).map relabel :=
  relabels.tree.children graph nodeId

theorem Relabels.descendants (nodeId : String) :
    (graph.relabel relabel).descendants nodeId = (graph.descendants nodeId).map relabel :=
  relabels.tree.descendants graph nodeId

theorem Relabels.subtree (node : AstNode) :
    relabel node :: (graph.relabel relabel).descendants (relabel node).nodeId =
      (node :: graph.descendants node.nodeId).map relabel := by
  rw [relabels.descendants, relabels.nodeId, List.map_cons]

/-! ### Events -/

theorem Relabels.isWriteTarget (declRef : AstNode) :
    isWriteTarget (relabel declRef) (graph.relabel relabel) = isWriteTarget declRef graph := by
  unfold DataFlowEngineV2.isWriteTarget
  rw [relabels.parentId, relabels.get]
  cases graph.get declRef.parentId with
  | none => rfl
  | some parent =>
      simp only [Option.map_some, relabels.nodeId, relabels.children, relabels.nodeKind, relabels.opcode,
        List.head?_map, Option.any_map]

theorem Relabels.statementOwnDescendants (statement : AstNode) :
    statementOwnDescendants (relabel statement) (graph.relabel relabel) =
      (statementOwnDescendants statement graph).map relabel := by
  have flat : ∀ children : List AstNode, (children.map relabel).flatMap
      (fun child => child :: (graph.relabel relabel).descendants child.nodeId) =
        (children.flatMap fun child => child :: graph.descendants child.nodeId).map relabel := by
    intro children
    rw [List.flatMap_map, List.map_flatMap]
    congr 1
    funext child
    exact relabels.subtree graph child
  have own : ∀ children : List AstNode, ownChildren (relabel statement) (children.map relabel) =
      (ownChildren statement children).map relabel := by
    intro children
    unfold ownChildren
    rw [relabels.nodeKind]
    split <;> simp
  unfold DataFlowEngineV2.statementOwnDescendants
  rw [relabels.nodeKind, relabels.nodeId, relabels.children, own, flat, relabels.descendants]
  split <;> rfl

theorem Relabels.linearize (nodes : List AstNode) :
    linearize (nodes.map relabel) = (linearize nodes).map relabel := linearize_map relabels.sourceRange nodes

end Relabeling

def BasicBlock.relabel (relabel : AstNode → AstNode) (block : BasicBlock) : BasicBlock :=
  { block with statements := block.statements.map relabel }

def DataFlowEngineV2.Event.relabel (relabel : AstNode → AstNode) (event : Event) : Event :=
  { event with name := declRefName (relabel event.ref), ref := relabel event.ref }

def ControlFlowGraph.relabel (cfg : ControlFlowGraph) (relabel : AstNode → AstNode) : ControlFlowGraph :=
  { cfg with blocks := cfg.blocks.mapValues (BasicBlock.relabel relabel) }

namespace ControlFlowGraph

variable {relabel : AstNode → AstNode} (cfg : ControlFlowGraph)

theorem relabel_keys : (cfg.relabel relabel).blocks.keys = cfg.blocks.keys := cfg.blocks.keys_mapValues _

theorem relabel_blockAt (blockId : BlockId) :
    (cfg.relabel relabel).blockAt blockId = (cfg.blockAt blockId).relabel relabel := by
  unfold blockAt ControlFlowGraph.relabel
  rw [OrderedDict.get?_mapValues]
  cases cfg.blocks.get? blockId <;> rfl

theorem relabel_statementsOf (blockId : BlockId) :
    (cfg.relabel relabel).statementsOf blockId = (cfg.statementsOf blockId).map relabel := by
  unfold statementsOf ControlFlowGraph.relabel
  rw [OrderedDict.get?_mapValues]
  cases cfg.blocks.get? blockId <;> rfl

variable (relabels : Relabels relabel) (graph : AstGraph)

include relabels

theorem relabel_scannedNodes (blockId : BlockId) :
    scannedNodes ((cfg.relabel relabel).blockAt blockId) (graph.relabel relabel) =
      (scannedNodes (cfg.blockAt blockId) graph).map relabel := by
  rw [relabel_blockAt, scannedNodes, scannedNodes, BasicBlock.relabel, List.flatMap_map, List.map_flatMap]
  congr 1
  funext statement
  exact relabels.statementOwnDescendants graph statement

/-- The events keep their order and their effects. -/
theorem relabel_events (blockId : BlockId) : (cfg.relabel relabel).events (graph.relabel relabel) blockId =
    (cfg.events graph blockId).map (Event.relabel relabel) := by
  have refs : ((scannedNodes (cfg.blockAt blockId) graph).map relabel).filter isDeclRef =
      ((scannedNodes (cfg.blockAt blockId) graph).filter isDeclRef).map relabel := by
    rw [List.filter_map]
    congr 2
    funext node
    simp only [Function.comp_apply, isDeclRef, relabels.nodeKind]
  have scanned := cfg.relabel_scannedNodes relabels graph blockId
  unfold scannedNodes at scanned refs
  simp only [events, blockEvents]
  rw [← List.filter_flatMap, ← List.filter_flatMap, scanned, refs, relabels.linearize, List.filter_map,
    List.map_map, List.map_map]
  have named : (fun ref => decide (declRefName ref ≠ "")) ∘ relabel =
      fun ref => decide (declRefName ref ≠ "") := by
    funext ref
    simp only [Function.comp_apply, ne_eq, relabels.unnamed]
  rw [named]
  congr 1
  funext ref
  simp only [Function.comp_apply, eventOf, Event.relabel, relabels.isWriteTarget]

end ControlFlowGraph
end MisraPlatform
