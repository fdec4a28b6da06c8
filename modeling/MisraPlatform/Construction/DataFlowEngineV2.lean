import MisraPlatform.Construction.ControlFlowGraph
import MisraPlatform.Library.RoundRobin
import Mathlib.Data.Finset.Union
import Mathlib.Data.List.Sort

/-
This file is the data flow analyses over the control-flow graph of one function.
-/

namespace MisraPlatform

/-- A key of the dictionary always has a block. -/
def ControlFlowGraph.blockAt (cfg : ControlFlowGraph) (blockId : BlockId) : BasicBlock :=
  (cfg.blocks.get? blockId).getD { blockId := blockId }

namespace DataFlowEngineV2

/-- This text stands for the node id of a definition that is no store. -/
def UNINIT : String := "<uninit>"

structure Definition where
  variableName : String
  siteNodeId : String
  blockId : BlockId
  deriving DecidableEq, Repr

structure TaintFinding where
  sinkCallNodeId : String
  sinkFunctionName : String
  taintedArgument : String
  sourceDescription : String
  deriving DecidableEq, Repr

inductive NullState where
  | null | nonNull
  deriving DecidableEq, Repr

structure NullCheckFact where
  blockId : BlockId
  variableName : String
  state : NullState
  deriving DecidableEq, Repr

/-- An event is one reference to a variable. A compound assignment writes and reads. -/
structure Event where
  name : String
  isWrite : Bool
  isReadToo : Bool
  ref : AstNode
  deriving DecidableEq, Repr

def Event.reads (event : Event) : Bool := !event.isWrite || event.isReadToo

/-! ### Definitions and uses -/

def declRefName (node : AstNode) : String := node.property "name" ""

def opcode (node : AstNode) : String := node.property "opcode" ""

/-- The suffix is that of every compound assignment and of four comparisons. -/
def isCompoundAssignment (opcode : String) : Bool :=
  opcode.toList.getLast? = some '=' && opcode ∉ ["==", "!=", "<=", ">="]

/-- The pair tells whether a reference is written and whether it is read too. -/
def isWriteTarget (declRef : AstNode) (graph : AstGraph) : Bool × Bool :=
  match graph.get declRef.parentId with
  | none => (false, false)
  | some parent =>
      let isLhs := (graph.children parent.nodeId).head?.any fun child => child.nodeId = declRef.nodeId
      if parent.nodeKind = .binaryOperator ∧ opcode parent = "=" ∧ isLhs then (true, false)
      else if parent.nodeKind = .binaryOperator ∧ isCompoundAssignment (opcode parent) ∧ isLhs then
        (true, true)
      else if parent.nodeKind = .unaryOperator ∧ opcode parent ∈ ["++", "--"] then (true, true)
      else (false, false)

/-- The conditions of a branch, a loop and a switch belong to its block and the bodies do not. -/
def ownChildren (statement : AstNode) (children : List AstNode) : List AstNode :=
  match statement.nodeKind with
  | .ifStmt => children.take 1
  | .whileStmt | .forStmt | .switchStmt => children.dropLast
  | .doStmt => children.drop 1
  | _ => children

def statementOwnDescendants (statement : AstNode) (graph : AstGraph) : List AstNode :=
  match statement.nodeKind with
  | .ifStmt | .whileStmt | .forStmt | .switchStmt | .doStmt =>
      statement :: (ownChildren statement (graph.children statement.nodeId)).flatMap fun child =>
        child :: graph.descendants child.nodeId
  | _ => statement :: graph.descendants statement.nodeId

/-- The key of the sort is the pair of the first line and the first column. -/
def precedes (first second : AstNode) : Prop :=
  first.sourceRange.lineStart < second.sourceRange.lineStart ∨
    first.sourceRange.lineStart = second.sourceRange.lineStart ∧
      first.sourceRange.columnStart ≤ second.sourceRange.columnStart

instance : DecidableRel precedes := fun _ _ => inferInstanceAs (Decidable (_ ∨ _))

instance : Std.Total precedes := ⟨fun first second => by unfold precedes; omega⟩

instance : IsTrans AstNode precedes := ⟨fun first second third => by unfold precedes; omega⟩

/-- The sort is stable. -/
def linearize (nodes : List AstNode) : List AstNode := nodes.insertionSort precedes

def isDeclRef (node : AstNode) : Bool := node.nodeKind = .declRefExpr

def eventOf (graph : AstGraph) (ref : AstNode) : Event :=
  let target := isWriteTarget ref graph
  { name := declRefName ref, isWrite := target.1, isReadToo := target.2, ref := ref }

/-- A reference without a name is left out. -/
def blockEvents (block : BasicBlock) (graph : AstGraph) : List Event :=
  let refs := linearize (block.statements.flatMap fun statement =>
    (statementOwnDescendants statement graph).filter isDeclRef)
  (refs.filter fun ref => declRefName ref ≠ "").map (eventOf graph)

structure DefUse where
  writes : List (String × AstNode) := []
  exposedReads : Finset String := ∅
  locallyDefined : Finset String := ∅

/-- A read is exposed when no write of the block comes before it. -/
def DefUse.next (defUse : DefUse) (event : Event) : DefUse where
  exposedReads :=
    if event.reads ∧ event.name ∉ defUse.locallyDefined then insert event.name defUse.exposedReads
    else defUse.exposedReads
  writes := if event.isWrite then defUse.writes ++ [(event.name, event.ref)] else defUse.writes
  locallyDefined :=
    if event.isWrite then insert event.name defUse.locallyDefined else defUse.locallyDefined

def blockDefUse (block : BasicBlock) (graph : AstGraph) : DefUse :=
  (blockEvents block graph).foldl DefUse.next {}

/-! ### Reaching definitions -/

/-- A child of one of these kinds is the type of a declaration and no initializer. -/
def isTypeNode (node : AstNode) : Bool :=
  node.nodeKind ∈ [NodeKind.builtinType, .recordType, .pointerType]

def uninitializedLocalDecls (functionNode : AstNode) (graph : AstGraph) : List AstNode :=
  (graph.descendants functionNode.nodeId).filter fun node =>
    node.nodeKind = .varDecl ∧ (graph.children node.nodeId).all isTypeNode

/-- A declaration counts in the block that lists it as a statement. -/
def declSites (functionNode : AstNode) (cfg : ControlFlowGraph) (graph : AstGraph) :
    List (String × BlockId) :=
  (uninitializedLocalDecls functionNode graph).filterMap fun varDecl =>
    match cfg.blockContaining varDecl.nodeId with
    | none => none
    | some declBlock =>
        if declRefName varDecl = "" then none else some (declRefName varDecl, declBlock.blockId)

def uninitDefinitions (functionNode : AstNode) (cfg : ControlFlowGraph) (graph : AstGraph)
    (blockId : BlockId) : Finset Definition :=
  ((declSites functionNode cfg graph).filter fun site => site.2 = blockId).map
    (fun site => ⟨site.1, UNINIT, site.2⟩) |>.toFinset

/-- A write replaces the earlier definitions of its variable. -/
def genWrite (blockId : BlockId) (gen : Finset Definition) (write : String × AstNode) :
    Finset Definition :=
  insert ⟨write.1, write.2.nodeId, blockId⟩ (gen.filter fun definition => definition.variableName ≠ write.1)

def blockGen (functionNode : AstNode) (cfg : ControlFlowGraph) (graph : AstGraph) (blockId : BlockId) :
    Finset Definition :=
  (blockDefUse (cfg.blockAt blockId) graph).writes.foldl (genWrite blockId)
    (uninitDefinitions functionNode cfg graph blockId)

def writtenNames (cfg : ControlFlowGraph) (graph : AstGraph) (blockId : BlockId) : Finset String :=
  ((blockDefUse (cfg.blockAt blockId) graph).writes.map Prod.fst).toFinset

/-- The union goes over the sources of the incoming edges. -/
def inSet {α : Type} [DecidableEq α] (blockId : BlockId) (cfg : ControlFlowGraph)
    (outSets : BlockId → Finset α) : Finset α :=
  (cfg.predecessors blockId).foldl (fun incoming edge => incoming ∪ outSets edge.source) ∅

def reachingOut (functionNode : AstNode) (cfg : ControlFlowGraph) (graph : AstGraph)
    (blockId : BlockId) (outSets : BlockId → Finset Definition) : Finset Definition :=
  blockGen functionNode cfg graph blockId ∪ (inSet blockId cfg outSets).filter fun definition =>
    definition.variableName ∉ writtenNames cfg graph blockId

/-- A definition in a set is generated by a block, which bounds the number of rounds. -/
def reachingDefinitions (functionNode : AstNode) (cfg : ControlFlowGraph) (graph : AstGraph) :
    Option (OrderedDict BlockId (Finset Definition)) :=
  let blockIds := cfg.blocks.keys
  let definitions := blockIds.toFinset.biUnion (blockGen functionNode cfg graph)
  RoundRobin.iterate (reachingOut functionNode cfg graph) blockIds
    (blockIds.length * definitions.card + 1) (RoundRobin.initial blockIds)

/-- The replay starts with the names that may be uninitialized and drops a name that is written. -/
def replayReads : Finset String → List Event → List AstNode
  | _, [] => []
  | reachingUninit, event :: rest =>
      if event.name ∉ reachingUninit then replayReads reachingUninit rest
      else
        (if event.reads then [event.ref] else []) ++
          replayReads (if event.isWrite then reachingUninit.erase event.name else reachingUninit) rest

def declNames (functionNode : AstNode) (cfg : ControlFlowGraph) (graph : AstGraph)
    (blockId : BlockId) : Finset String :=
  (((declSites functionNode cfg graph).filter fun site => site.2 = blockId).map Prod.fst).toFinset

def uninitializedReads (functionNode : AstNode) (cfg : ControlFlowGraph) (graph : AstGraph) :
    Option (List AstNode) := do
  let outSets ← reachingDefinitions functionNode cfg graph
  some (cfg.blocks.entries.flatMap fun entry =>
    let reaching := (inSet entry.1 cfg (RoundRobin.read outSets)).filter fun definition =>
      definition.siteNodeId = UNINIT
    replayReads (reaching.image Definition.variableName ∪ declNames functionNode cfg graph entry.1)
      (blockEvents entry.2 graph))

/-! ### Liveness -/

/-- The names that are live before a block stand before those that are live after it. -/
def liveSets (cfg : ControlFlowGraph) (graph : AstGraph) (blockId : BlockId)
    (live : BlockId → Finset String × Finset String) : Finset String × Finset String :=
  let outSet := (cfg.successors blockId).foldl (fun out edge => out ∪ (live edge.target).1) ∅
  ((blockDefUse (cfg.blockAt blockId) graph).exposedReads ∪ (outSet \ writtenNames cfg graph blockId),
    outSet)

def readNames (cfg : ControlFlowGraph) (graph : AstGraph) : Finset String :=
  cfg.blocks.keys.toFinset.biUnion fun blockId =>
    (blockDefUse (cfg.blockAt blockId) graph).exposedReads

/-- The source returns the names that are live after each block. -/
def liveness (cfg : ControlFlowGraph) (graph : AstGraph) :
    Option (OrderedDict BlockId (Finset String × Finset String)) :=
  let blockIds := cfg.blocks.keys
  let names := readNames cfg graph
  RoundRobin.iterate (liveSets cfg graph) blockIds
    (blockIds.length * (names.card + names.card) + 1) (RoundRobin.initial blockIds)

def liveOut (live : OrderedDict BlockId (Finset String × Finset String)) (blockId : BlockId) :
    Finset String := (RoundRobin.read live blockId).2

/-- The scan goes backwards through the events of a block. -/
def replayStores : Finset String → List Event → List AstNode
  | _, [] => []
  | liveAfter, event :: earlier =>
      let isStore := event.isWrite && !event.isReadToo
      let remaining := if isStore then liveAfter.erase event.name else liveAfter
      (if isStore ∧ event.name ∉ liveAfter then [event.ref] else []) ++
        replayStores (if event.reads then insert event.name remaining else remaining) earlier

def deadStores (cfg : ControlFlowGraph) (graph : AstGraph) : Option (List AstNode) := do
  let live ← liveness cfg graph
  some (cfg.blocks.entries.flatMap fun entry =>
    replayStores (liveOut live entry.1) (blockEvents entry.2 graph).reverse)

/-! ### Taint -/

def defaultTaintSources : Finset String :=
  {"recv", "read", "scanf", "sscanf", "getenv", "HAL_UART_Receive", "gets"}

def defaultTaintSinks : Finset String :=
  {"memcpy", "memmove", "strcpy", "strcat", "malloc", "system", "HAL_UART_Transmit"}

def callee (node : AstNode) : String := node.property "callee" ""

/-- An assignment taints its left name or clears it. The scan of other nodes changes nothing. -/
def taintNode (graph : AstGraph) (sources : Finset String) (node : AstNode) (tainted : Finset String) :
    Finset String :=
  if node.nodeKind = .binaryOperator ∧ opcode node = "=" then
    match graph.children node.nodeId with
    | lhs :: rhs :: _ =>
        let rhsDescendants := rhs :: graph.descendants rhs.nodeId
        let isTaintedSource := rhsDescendants.any fun inner =>
          inner.nodeKind = .callExpr && callee inner ∈ sources
        let readsTaintedVar := rhsDescendants.any fun inner =>
          inner.nodeKind = .declRefExpr && declRefName inner ∈ tainted
        if declRefName lhs = "" then tainted
        else if isTaintedSource || readsTaintedVar then insert (declRefName lhs) tainted
        else tainted.erase (declRefName lhs)
    | _ => tainted
  else tainted

def taintFinding (call : AstNode) (argument : String) : TaintFinding where
  sinkCallNodeId := call.nodeId
  sinkFunctionName := callee call
  taintedArgument := argument
  sourceDescription :=
    "'" ++ argument ++ "' is tainted by a designated source on every path reaching this call"

/-- A sink call reports its tainted arguments in their order. -/
def sinkFindings (graph : AstGraph) (sinks : Finset String) (node : AstNode) (tainted : Finset String) :
    List TaintFinding :=
  if node.nodeKind = .callExpr ∧ callee node ∈ sinks then
    ((graph.children node.nodeId).filter fun argument =>
      declRefName argument ≠ "" ∧ declRefName argument ∈ tainted).map fun argument =>
        taintFinding node (declRefName argument)
  else []

/-- The nodes of a block are scanned in this order. -/
def scannedNodes (block : BasicBlock) (graph : AstGraph) : List AstNode :=
  block.statements.flatMap fun statement => statementOwnDescendants statement graph

/-- The scan returns the taint at the end of the block and the findings on the way. -/
def taintTransfer (block : BasicBlock) (incomingTainted : Finset String) (graph : AstGraph)
    (sources sinks : Finset String) : Finset String × List TaintFinding :=
  (scannedNodes block graph).foldl (fun scan node =>
    let tainted := taintNode graph sources node scan.1
    (tainted, scan.2 ++ sinkFindings graph sinks node tainted)) (incomingTainted, [])

def taintOut (cfg : ControlFlowGraph) (graph : AstGraph) (sources sinks : Finset String)
    (blockId : BlockId) (outSets : BlockId → Finset String) : Finset String :=
  (taintTransfer (cfg.blockAt blockId) (inSet blockId cfg outSets) graph sources sinks).1

/-- A tainted name is the name of a node, which bounds the number of rounds. -/
def taintSets (cfg : ControlFlowGraph) (graph : AstGraph) (sources sinks : Finset String) :
    Option (OrderedDict BlockId (Finset String)) :=
  let blockIds := cfg.blocks.keys
  RoundRobin.iterate (taintOut cfg graph sources sinks) blockIds
    (blockIds.length * (graph.nodes.map declRefName).toFinset.card + 1) (RoundRobin.initial blockIds)

def propagateTaint (cfg : ControlFlowGraph) (graph : AstGraph) (sources sinks : Finset String) :
    Option (List TaintFinding) := do
  let outSets ← taintSets cfg graph sources sinks
  some (cfg.blocks.keys.flatMap fun blockId =>
    (taintTransfer (cfg.blockAt blockId) (inSet blockId cfg (RoundRobin.read outSets)) graph sources
      sinks).2)

/-! ### Null checks -/

def isNullLiteral (node : AstNode) : Bool :=
  node.nodeKind = .other "IntegerLiteral" && node.property "value" "" ∈ ["0", "0x0", "NULL"]

/-- The pair is the tested name and whether it is null when the condition is true. -/
def parseNullCheck (condition : AstNode) (graph : AstGraph) : Option (String × Bool) :=
  let children := graph.children condition.nodeId
  if condition.nodeKind = .unaryOperator ∧ opcode condition = "!" then
    match children with
    | operand :: _ => if isDeclRef operand then some (declRefName operand, true) else none
    | [] => none
  else if isDeclRef condition then some (declRefName condition, false)
  else if condition.nodeKind = .binaryOperator ∧ opcode condition ∈ ["==", "!="] then
    match children with
    | lhs :: rhs :: _ =>
        let varSide := if isDeclRef lhs then lhs else rhs
        let otherSide := if isDeclRef lhs then rhs else lhs
        if isDeclRef varSide ∧ isNullLiteral otherSide then
          some (declRefName varSide, opcode condition = "==")
        else none
    | _ => none
  else none

/-- The state holds on the edge of a condition with this value. -/
def nullState (nullWhenTrue value : Bool) : NullState :=
  if nullWhenTrue = value then .null else .nonNull

def edgeFact (variableName : String) (nullWhenTrue : Bool) (edge : CFGEdge) : Option NullCheckFact :=
  match edge.kind with
  | .trueEdge => some ⟨edge.target, variableName, nullState nullWhenTrue true⟩
  | .falseEdge => some ⟨edge.target, variableName, nullState nullWhenTrue false⟩
  | _ => none

/-- A recognized condition states a fact about the target of each of its edges. -/
def statementFacts (cfg : ControlFlowGraph) (graph : AstGraph) (blockId : BlockId)
    (statement : AstNode) : List NullCheckFact :=
  if statement.nodeKind ≠ .ifStmt then []
  else
    match (graph.children statement.nodeId).head?.bind fun condition => parseNullCheck condition graph with
    | none => []
    | some (variableName, nullWhenTrue) =>
        (cfg.successors blockId).filterMap (edgeFact variableName nullWhenTrue)

def nullCheckFacts (cfg : ControlFlowGraph) (graph : AstGraph) : List NullCheckFact :=
  cfg.blocks.entries.flatMap fun entry =>
    entry.2.statements.flatMap (statementFacts cfg graph entry.1)

/-! ### Parameters -/

def paramNames (functionNode : AstNode) (graph : AstGraph) : List String :=
  (((graph.children functionNode.nodeId).filter fun param => param.nodeKind = .parmVarDecl).map declRefName).filter
    fun name => name ≠ ""

/-- A reference counts as one to a parameter when it has the name of one. -/
def modifiedParameters (functionNode : AstNode) (cfg : ControlFlowGraph) (graph : AstGraph) : List AstNode :=
  if paramNames functionNode graph = [] then []
  else
    cfg.blocks.values.flatMap fun block =>
      ((blockEvents block graph).filter fun event =>
        event.isWrite ∧ event.name ∈ paramNames functionNode graph).map Event.ref

end DataFlowEngineV2

end MisraPlatform
