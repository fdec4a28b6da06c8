import MisraPlatform.Construction.Ast
import MisraPlatform.Library.OrderedDict
import MisraPlatform.Library.Reachability

/-
This file is the basic-block graph that the engine returns and its queries.
-/

namespace MisraPlatform

/-- The two synthetic blocks have fixed names and the factory numbers every other block. -/
inductive BlockId where
  | entry
  | exit
  | block (number : Nat)
  deriving DecidableEq, Repr

inductive BlockKind where
  | normal | entry | exit | branch | loopHeader | switch
  deriving DecidableEq, Repr

inductive EdgeKind where
  | fallthrough | trueEdge | falseEdge | loopBack | breakEdge | continueEdge | gotoEdge
  | caseEdge | defaultEdge | switchFallthrough | noMatch | implicitReturn | returnEdge
  deriving DecidableEq, Repr

structure CFGEdge where
  source : BlockId
  target : BlockId
  kind : EdgeKind := .fallthrough
  label : Option String := none
  deriving DecidableEq, Repr

structure BasicBlock where
  blockId : BlockId
  statements : List AstNode := []
  kind : BlockKind := .normal
  deriving DecidableEq, Repr

structure ControlFlowGraph where
  functionNodeId : String
  blocks : OrderedDict BlockId BasicBlock
  edges : List CFGEdge

namespace ControlFlowGraph

def successors (cfg : ControlFlowGraph) (blockId : BlockId) : List CFGEdge :=
  cfg.edges.filter fun edge => edge.source = blockId

def predecessors (cfg : ControlFlowGraph) (blockId : BlockId) : List CFGEdge :=
  cfg.edges.filter fun edge => edge.target = blockId

def arrows (cfg : ControlFlowGraph) : List (BlockId × BlockId) :=
  cfg.edges.map fun edge => (edge.source, edge.target)

def reachableBlocks (cfg : ControlFlowGraph) : List BlockId :=
  Reachability.reachable cfg.arrows .entry

/-- An empty block is scaffolding, so only blocks with statements are reported. -/
def unreachableBlocks (cfg : ControlFlowGraph) : List BasicBlock :=
  (cfg.blocks.entries.filter fun entry =>
    entry.1 ∉ cfg.reachableBlocks ∧ entry.1 ∉ [BlockId.entry, BlockId.exit] ∧
      entry.2.statements ≠ []).map Prod.snd

def exitEdges (cfg : ControlFlowGraph) : List CFGEdge := cfg.predecessors .exit

def blockContaining (cfg : ControlFlowGraph) (nodeId : String) : Option BasicBlock :=
  cfg.blocks.values.find? fun block => block.statements.any fun statement => statement.nodeId = nodeId

/-- A block that is not in the graph has no statements. -/
def statementsOf (cfg : ControlFlowGraph) (blockId : BlockId) : List AstNode :=
  ((cfg.blocks.get? blockId).map BasicBlock.statements).getD []

/-- The graph reaches a block when a path of edges leads from the entry to it. -/
def Reachable (cfg : ControlFlowGraph) (blockId : BlockId) : Prop :=
  Relation.ReflTransGen (Reachability.Arrow cfg.arrows) .entry blockId

theorem mem_reachableBlocks (cfg : ControlFlowGraph) (blockId : BlockId) :
    blockId ∈ cfg.reachableBlocks ↔ cfg.Reachable blockId :=
  Reachability.mem_reachable cfg.arrows .entry blockId

/-- Every block is stored under its own id. -/
def Keyed (cfg : ControlFlowGraph) : Prop := ∀ entry ∈ cfg.blocks.entries, entry.2.blockId = entry.1

theorem keyed_iff (cfg : ControlFlowGraph) : cfg.Keyed ↔
    ∀ blockId block, cfg.blocks.get? blockId = some block → block.blockId = blockId := by
  simp only [← OrderedDict.mem_entries_iff]
  exact ⟨fun keyed blockId block inside => keyed (blockId, block) inside,
    fun keyed entry inside => keyed entry.1 entry.2 inside⟩

/-- The unreachable blocks hold statements and no path leads to them. -/
theorem mem_unreachableBlocks (cfg : ControlFlowGraph) (block : BasicBlock) :
    block ∈ cfg.unreachableBlocks ↔ ∃ blockId, cfg.blocks.get? blockId = some block ∧
      ¬ cfg.Reachable blockId ∧ blockId ≠ .entry ∧ blockId ≠ .exit ∧ block.statements ≠ [] := by
  simp only [unreachableBlocks, List.mem_map, List.mem_filter, decide_eq_true_eq, mem_reachableBlocks,
    List.mem_cons, List.not_mem_nil, or_false, not_or, ← OrderedDict.mem_entries_iff]
  constructor
  · rintro ⟨⟨blockId, found⟩, ⟨inside, unreachable, ⟨entry, exit⟩, filled⟩, rfl⟩
    exact ⟨blockId, inside, unreachable, entry, exit, filled⟩
  · rintro ⟨blockId, inside, unreachable, entry, exit, filled⟩
    exact ⟨(blockId, block), ⟨inside, unreachable, ⟨entry, exit⟩, filled⟩, rfl⟩

theorem statementsOf_of_get {cfg : ControlFlowGraph} {blockId : BlockId} {block : BasicBlock}
    (found : cfg.blocks.get? blockId = some block) : cfg.statementsOf blockId = block.statements := by
  simp [statementsOf, found]

end ControlFlowGraph

end MisraPlatform
