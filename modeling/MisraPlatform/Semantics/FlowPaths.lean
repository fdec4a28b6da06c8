import MisraPlatform.Construction.DataFlowEngineV2

/-
This file is what the data flow analyses claim about the paths of a graph.
-/

namespace MisraPlatform
open DataFlowEngineV2

namespace ControlFlowGraph

/-- Every edge joins two blocks of the graph. -/
def Closed (cfg : ControlFlowGraph) : Prop :=
  ∀ edge ∈ cfg.edges, edge.source ∈ cfg.blocks.keys ∧ edge.target ∈ cfg.blocks.keys

/-- A block is stored under its own id, an edge joins two blocks, and a statement has one block. -/
structure WellFormed (cfg : ControlFlowGraph) : Prop where
  keyed : cfg.Keyed
  closed : cfg.Closed
  placed : ∀ first ∈ cfg.blocks.entries, ∀ second ∈ cfg.blocks.entries,
    ∀ left ∈ first.2.statements, ∀ right ∈ second.2.statements,
      left.nodeId = right.nodeId → first = second

/-- The two graphs only differ in the order of their blocks. -/
structure Reordered (cfg other : ControlFlowGraph) : Prop where
  blocks : cfg.blocks.entries.Perm other.blocks.entries
  edges : other.edges = cfg.edges

/-- An edge leads from one block to the next. -/
def Leads (cfg : ControlFlowGraph) (source target : BlockId) : Prop :=
  ∃ edge ∈ cfg.edges, edge.source = source ∧ edge.target = target

/-- A nonempty path leads from the source to a block, and every block strictly between is clear. -/
inductive PathBetween (cfg : ControlFlowGraph) (clear : BlockId → Prop) (source : BlockId) :
    BlockId → Prop
  | single {target : BlockId} (leads : cfg.Leads source target) : PathBetween cfg clear source target
  | further {middle target : BlockId} (before : PathBetween cfg clear source middle)
      (passes : clear middle) (leads : cfg.Leads middle target) : PathBetween cfg clear source target

end ControlFlowGraph

/-! ### Events of a block -/

/-- No event of the list writes the name. -/
def Unwritten (events : List Event) (name : String) : Prop :=
  ∀ event ∈ events, event.isWrite = true → event.name ≠ name

instance (events : List Event) (name : String) : Decidable (Unwritten events name) :=
  inferInstanceAs (Decidable (∀ event ∈ events, _))

/-- The name is read before the list writes it. -/
def Exposed (events : List Event) (name : String) : Prop :=
  ∃ before event after, events = before ++ event :: after ∧ event.reads = true ∧ event.name = name ∧
    Unwritten before name

/-- The event is the last one of the list that writes its name. -/
def LastWrite (events : List Event) (event : Event) : Prop :=
  ∃ before after, events = before ++ event :: after ∧ event.isWrite = true ∧
    Unwritten after event.name

/-- Every item of a list stands with the items before it. -/
def occurrencesFrom {α : Type} : List α → List α → List (List α × α)
  | _, [] => []
  | before, item :: rest => (before, item) :: occurrencesFrom (before ++ [item]) rest

def occurrences {α : Type} (list : List α) : List (List α × α) := occurrencesFrom [] list

namespace ControlFlowGraph

variable (functionNode : AstNode) (cfg : ControlFlowGraph) (graph : AstGraph)

def events (blockId : BlockId) : List Event := blockEvents (cfg.blockAt blockId) graph

/-- The block lists a declaration of the name that has no initializer. -/
def Declares (blockId : BlockId) (name : String) : Prop :=
  name ≠ "" ∧ ∃ varDecl ∈ uninitializedLocalDecls functionNode graph, declRefName varDecl = name ∧
    ∃ statement ∈ cfg.statementsOf blockId, statement.nodeId = varDecl.nodeId

/-- The definition holds at the end of its own block. -/
def Generated (definition : Definition) : Prop :=
  definition.blockId ∈ cfg.blocks.keys ∧
    ((∃ event, LastWrite (cfg.events graph definition.blockId) event ∧
        event.name = definition.variableName ∧ event.ref.nodeId = definition.siteNodeId) ∨
      (cfg.Declares functionNode graph definition.blockId definition.variableName ∧
        definition.siteNodeId = UNINIT ∧
        Unwritten (cfg.events graph definition.blockId) definition.variableName))

/-- An edge leads to a block that does not write the name. -/
def Preserves (name : String) (source target : BlockId) : Prop :=
  cfg.Leads source target ∧ Unwritten (cfg.events graph target) name

/-- The definition comes to the end of a block on a path without another write. -/
def ReachesEnd (definition : Definition) (blockId : BlockId) : Prop :=
  cfg.Generated functionNode graph definition ∧
    Relation.ReflTransGen (cfg.Preserves graph definition.variableName) definition.blockId blockId

/-- Some path after the block reads the name before a block writes it. -/
def LiveAfter (blockId : BlockId) (name : String) : Prop :=
  ∃ user, cfg.PathBetween (fun middle => Unwritten (cfg.events graph middle) name) blockId user ∧
    Exposed (cfg.events graph user) name

/-- The name may be uninitialized where the block begins. -/
def UninitAt (blockId : BlockId) (name : String) : Prop :=
  cfg.Declares functionNode graph blockId name ∨
    ∃ source, cfg.Declares functionNode graph source name ∧
      Unwritten (cfg.events graph source) name ∧
      cfg.PathBetween (fun middle => Unwritten (cfg.events graph middle) name) source blockId

/-- The events of all blocks stand with their block and the events before them. -/
def eventOccurrences : List (BlockId × List Event × Event) :=
  cfg.blocks.keys.flatMap fun blockId =>
    (occurrences (cfg.events graph blockId)).map fun occurrence => (blockId, occurrence)

/-- The event reads a name that no path to it has written. -/
def UninitRead (occurrence : BlockId × List Event × Event) : Prop :=
  occurrence.2.2.reads = true ∧ Unwritten occurrence.2.1 occurrence.2.2.name ∧
    cfg.UninitAt functionNode graph occurrence.1 occurrence.2.2.name

/-! ### Taint -/

variable (sources sinks : Finset String)

/-- The taint arrives at a block over a path that starts without any. -/
abbrev TaintArrives : BlockId → Finset String → Prop :=
  RoundRobin.Arrives (fun blockId tainted =>
    (taintTransfer (cfg.blockAt blockId) tainted graph sources sinks).1) cfg.Leads cfg.blocks.keys

/-- The scan goes over each node of the AST once. -/
def ScansOnce : Prop :=
  (cfg.blocks.keys.flatMap fun blockId =>
    (scannedNodes (cfg.blockAt blockId) graph).map AstNode.nodeId).Nodup

/-- This is one argument of a sink call in the scan of a block. -/
structure SinkArgument where
  blockId : BlockId
  scanned : List AstNode
  call : AstNode
  position : Nat
  argument : AstNode
  deriving DecidableEq

/-- The arguments of the sink calls stand in the order of the scan. -/
def sinkArguments : List SinkArgument :=
  cfg.blocks.keys.flatMap fun blockId =>
    (occurrences (scannedNodes (cfg.blockAt blockId) graph)).flatMap fun occurrence =>
      if occurrence.2.nodeKind = .callExpr ∧ callee occurrence.2 ∈ sinks then
        (graph.children occurrence.2.nodeId).zipIdx.map fun child =>
          ⟨blockId, occurrence.1, occurrence.2, child.2, child.1⟩
      else []

def SinkArgument.finding (argument : SinkArgument) : TaintFinding :=
  taintFinding argument.call (declRefName argument.argument)

/-- Some path leaves the argument tainted when the scan of its block arrives at the call. -/
def TaintedArgument (argument : SinkArgument) : Prop :=
  declRefName argument.argument ≠ "" ∧
    ∃ tainted, cfg.TaintArrives graph sources sinks argument.blockId tainted ∧
      declRefName argument.argument ∈
        argument.scanned.foldl (fun tainted node => taintNode graph sources node tainted) tainted

end ControlFlowGraph
end MisraPlatform
