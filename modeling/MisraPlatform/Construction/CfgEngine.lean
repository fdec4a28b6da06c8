import MisraPlatform.Construction.ControlFlowGraph

/-
This file is the builder of the control-flow graph of one function.
-/

namespace MisraPlatform.CFGEngine

/-- The factory counter and the tables live for one call of `build`. -/
structure BuildState where
  cfg : ControlFlowGraph
  counter : Nat
  labelTargets : OrderedDict String BlockId
  pendingGotos : List (BlockId × String)
  sequenceTails : OrderedDict BlockId BlockId

/-- The pairs are the continue target and the break target, the innermost pair first. -/
abbrev LoopStack := List (BlockId × BlockId)

/-- The handlers receive the sequence builder that they call back. -/
abbrev SequenceBuilder := List AstNode → LoopStack → BuildState → Option (BlockId × BuildState)

namespace BuildState

def newBlock (state : BuildState) (kind : BlockKind) : BlockId × BuildState :=
  let blockId := BlockId.block (state.counter + 1)
  (blockId, { state with
    counter := state.counter + 1
    cfg := { state.cfg with
      blocks := state.cfg.blocks.insert blockId { blockId := blockId, kind := kind } } })

def appendStatement (state : BuildState) (blockId : BlockId) (statement : AstNode) : BuildState :=
  { state with cfg := { state.cfg with
      blocks := state.cfg.blocks.modify blockId fun block =>
        { block with statements := block.statements ++ [statement] } } }

def addEdge (state : BuildState) (source target : BlockId) (kind : EdgeKind)
    (label : Option String) : BuildState :=
  { state with cfg := { state.cfg with edges := state.cfg.edges ++ [⟨source, target, kind, label⟩] } }

/-- The tail of a sequence is recorded once under its first block. -/
def recordTail (state : BuildState) (entryBlockId tail : BlockId) : BuildState :=
  { state with sequenceTails := state.sequenceTails.setDefault entryBlockId tail }

def tailOf (state : BuildState) (entryBlockId : BlockId) : BlockId :=
  (state.sequenceTails.get? entryBlockId).getD entryBlockId

/-- A tail terminates when an edge of one of these kinds leaves it. -/
def terminates (state : BuildState) (blockId : BlockId) : Bool :=
  (state.cfg.successors blockId).any fun edge =>
    edge.kind ∈ [EdgeKind.returnEdge, EdgeKind.breakEdge, EdgeKind.gotoEdge]

/-- The tail of the previous case group is linked unless it has terminated. -/
def linkTail (state : BuildState) (previousTail : Option BlockId) (target : BlockId)
    (kind : EdgeKind) : BuildState :=
  match previousTail with
  | none => state
  | some tail => if state.terminates tail then state else state.addEdge tail target kind none

end BuildState

/-- A label without a name is known by its node id. -/
def labelName (statement : AstNode) : String := statement.property "name" statement.nodeId

def targetLabel (statement : AstNode) : String := statement.property "target_label" ""

/-- A branch that is not a compound statement is a sequence of one statement. -/
def asSequenceEntry (build : SequenceBuilder) (graph : AstGraph) (node : AstNode)
    (loopStack : LoopStack) (state : BuildState) : Option (BlockId × BuildState) :=
  if node.nodeKind = .compoundStmt then build (graph.children node.nodeId) loopStack state
  else build [node] loopStack state

/-- One edge enters the sequence of a node and one edge leaves its tail. -/
def linkSequence (build : SequenceBuilder) (graph : AstGraph) (node : AstNode)
    (source target : BlockId) (entryKind tailKind : EdgeKind) (loopStack : LoopStack)
    (state : BuildState) : Option BuildState := do
  let (entry, state) ← asSequenceEntry build graph node loopStack state
  let state := state.addEdge source entry entryKind none
  some (state.addEdge (state.tailOf entry) target tailKind none)

/-- Both branches of an `if` are linked in this way, and an absent one goes straight to the join. -/
def linkBranch (build : SequenceBuilder) (graph : AstGraph) (branch : Option AstNode)
    (branchBlock joinBlock : BlockId) (kind : EdgeKind) (loopStack : LoopStack)
    (state : BuildState) : Option BuildState :=
  match branch with
  | none => some (state.addEdge branchBlock joinBlock kind none)
  | some node => linkSequence build graph node branchBlock joinBlock kind .fallthrough loopStack state

def handleIf (build : SequenceBuilder) (graph : AstGraph) (statement : AstNode)
    (loopStack : LoopStack) (current : BlockId) (state : BuildState) :
    Option (BlockId × BuildState) := do
  let state := state.appendStatement current statement
  let children := graph.children statement.nodeId
  let (joinBlock, state) := state.newBlock .normal
  let state ← linkBranch build graph children[1]? current joinBlock .trueEdge loopStack state
  let state ← linkBranch build graph children[2]? current joinBlock .falseEdge loopStack state
  some (joinBlock, state)

/-- The body comes first under a `do` and last under the other loops. -/
def loopBody (statement : AstNode) (children : List AstNode) : Option AstNode :=
  if statement.nodeKind = .doStmt then children.head? else children.getLast?

def loopEntryKind (statement : AstNode) : EdgeKind :=
  if statement.nodeKind = .doStmt then .fallthrough else .trueEdge

/-- The tail of the body goes back to the header. A loop without a child has no body. -/
def linkBody (build : SequenceBuilder) (graph : AstGraph) (statement : AstNode) (header : BlockId)
    (loopStack : LoopStack) (state : BuildState) : Option BuildState :=
  match loopBody statement (graph.children statement.nodeId) with
  | none => some state
  | some node =>
      linkSequence build graph node header header (loopEntryKind statement) .loopBack loopStack state

def handleLoop (build : SequenceBuilder) (graph : AstGraph) (statement : AstNode)
    (loopStack : LoopStack) (current : BlockId) (state : BuildState) :
    Option (BlockId × BuildState) := do
  let (header, state) := state.newBlock .loopHeader
  let state := state.appendStatement header statement
  let (afterLoop, state) := state.newBlock .normal
  let state := state.addEdge current header .fallthrough none
  let state ← linkBody build graph statement header ((header, afterLoop) :: loopStack) state
  some (afterLoop, state.addEdge header afterLoop .falseEdge none)

def isCaseLabel (statement : AstNode) : Bool :=
  statement.nodeKind = .caseStmt || statement.nodeKind = .defaultStmt

/-- The statements that follow the last open label and the groups that are already closed. -/
structure CaseScan where
  currentCase : Option AstNode := none
  currentGroup : List AstNode := []
  closed : List (AstNode × List AstNode) := []

def CaseScan.close (scan : CaseScan) : List (AstNode × List AstNode) :=
  match scan.currentCase with
  | none => scan.closed
  | some label => scan.closed ++ [(label, scan.currentGroup)]

/-- A label closes the open group and drops the statements that stand before the first label. -/
def CaseScan.next (scan : CaseScan) (statement : AstNode) : CaseScan :=
  if isCaseLabel statement then { currentCase := some statement, currentGroup := [], closed := scan.close }
  else { scan with currentGroup := scan.currentGroup ++ [statement] }

def caseGroups (statements : List AstNode) : List (AstNode × List AstNode) :=
  (statements.foldl CaseScan.next {}).close

def caseEdgeKind (label : AstNode) : EdgeKind :=
  if label.nodeKind = .defaultStmt then .defaultEdge else .caseEdge

/-- The loop over the groups threads the tail of the previous group. -/
def buildCaseGroups (build : SequenceBuilder) (switchBlock : BlockId) (loopStack : LoopStack) :
    List (AstNode × List AstNode) → Option BlockId → BuildState →
      Option (Option BlockId × BuildState)
  | [], previousTail, state => some (previousTail, state)
  | (label, group) :: rest, previousTail, state => do
      let (groupEntry, state) ← build (label :: group) loopStack state
      let state := state.addEdge switchBlock groupEntry (caseEdgeKind label) none
      let state := state.linkTail previousTail groupEntry .switchFallthrough
      buildCaseGroups build switchBlock loopStack rest (some (state.tailOf groupEntry)) state

def handleSwitch (build : SequenceBuilder) (graph : AstGraph) (statement : AstNode)
    (loopStack : LoopStack) (current : BlockId) (state : BuildState) :
    Option (BlockId × BuildState) := do
  let state := state.appendStatement current statement
  let (afterSwitch, state) := state.newBlock .normal
  match (graph.children statement.nodeId).find? fun child => child.nodeKind = .compoundStmt with
  | none => some (afterSwitch, state.addEdge current afterSwitch .fallthrough none)
  | some body => do
      let groups := caseGroups (graph.children body.nodeId)
      let (previousTail, state) ←
        buildCaseGroups build current ((current, afterSwitch) :: loopStack) groups none state
      let state := state.linkTail previousTail afterSwitch .fallthrough
      let state :=
        if groups.any fun group => group.1.nodeKind = .defaultStmt then state
        else state.addEdge current afterSwitch .noMatch none
      some (afterSwitch, state)

/-- One round of the statement loop returns the block where the next statement goes. -/
def buildStatement (build : SequenceBuilder) (graph : AstGraph) (exitTarget : BlockId)
    (loopStack : LoopStack) (statement : AstNode) (current : BlockId) (state : BuildState) :
    Option (BlockId × BuildState) :=
  match statement.nodeKind with
  | .labelStmt =>
      let (current, state) :=
        if state.cfg.statementsOf current = [] then (current, state)
        else
          let (nextBlock, state) := state.newBlock .normal
          (nextBlock, state.addEdge current nextBlock .fallthrough none)
      let state := { state with
        labelTargets := state.labelTargets.insert (labelName statement) current }
      some (current, state.appendStatement current statement)
  | .ifStmt => handleIf build graph statement loopStack current state
  | .forStmt | .whileStmt | .doStmt => handleLoop build graph statement loopStack current state
  | .switchStmt => handleSwitch build graph statement loopStack current state
  | .compoundStmt => do
      let (nestedEntry, state) ← build (graph.children statement.nodeId) loopStack state
      let state := state.addEdge current nestedEntry .fallthrough none
      some (state.newBlock .normal)
  | .returnStmt =>
      let state := state.appendStatement current statement
      let state := state.addEdge current exitTarget .returnEdge none
      some (state.newBlock .normal)
  | .breakStmt =>
      let state := state.appendStatement current statement
      let state := match loopStack.head? with
        | none => state
        | some (_, breakTarget) => state.addEdge current breakTarget .breakEdge none
      some (state.newBlock .normal)
  | .continueStmt =>
      let state := state.appendStatement current statement
      let state := match loopStack.head? with
        | none => state
        | some (continueTarget, _) => state.addEdge current continueTarget .continueEdge none
      some (state.newBlock .normal)
  | .gotoStmt =>
      let state := state.appendStatement current statement
      let state := { state with
        pendingGotos := state.pendingGotos ++ [(current, targetLabel statement)] }
      some (state.newBlock .normal)
  | _ => some (current, state.appendStatement current statement)

def buildStatements (build : SequenceBuilder) (graph : AstGraph) (exitTarget : BlockId)
    (loopStack : LoopStack) : List AstNode → BlockId → BuildState → Option (BlockId × BuildState)
  | [], current, state => some (current, state)
  | statement :: rest, current, state => do
      let (current, state) ←
        buildStatement build graph exitTarget loopStack statement current state
      buildStatements build graph exitTarget loopStack rest current state

/-- The fuel bounds the nesting depth, which the source leaves to the call stack. -/
def buildBlockSequence (graph : AstGraph) (exitTarget : BlockId) : Nat → SequenceBuilder
  | 0, _, _, _ => none
  | fuel + 1, statements, loopStack, state => do
      let (first, state) := state.newBlock .normal
      let (current, state) ←
        buildStatements (buildBlockSequence graph exitTarget fuel) graph exitTarget loopStack
          statements first state
      some (first, state.recordTail first current)

/-- This set is `_NON_STATEMENT_KINDS`. -/
def nonStatementKinds : List NodeKind :=
  [.parmVarDecl, .builtinType, .pointerType, .recordType, .enumDecl]

/-- A function without a compound child is read as a flat statement list. -/
def bodyStatements (functionNode : AstNode) (graph : AstGraph) : List AstNode :=
  let children := graph.children functionNode.nodeId
  match children.find? fun child => child.nodeKind = .compoundStmt with
  | some body => graph.children body.nodeId
  | none => children.filter fun child => child.nodeKind ∉ nonStatementKinds

/-- An unknown label leaves the goto with an edge to the exit. -/
def gotoEdge (labelTargets : OrderedDict String BlockId) (pending : BlockId × String) : CFGEdge :=
  ⟨pending.1, (labelTargets.get? pending.2).getD .exit, .gotoEdge, some pending.2⟩

/-- A block collapses when it is empty and one fallthrough edge to another block leaves it. -/
def collapseTarget (cfg : ControlFlowGraph) (blockId : BlockId) : Option BlockId :=
  if blockId = .entry ∨ blockId = .exit then none
  else
    match cfg.blocks.get? blockId with
    | none => none
    | some block =>
        if block.statements ≠ [] then none
        else
          match cfg.successors blockId with
          | [outgoing] =>
              if outgoing.kind ≠ .fallthrough then none
              else if outgoing.target = blockId then none
              else some outgoing.target
          | _ => none

/-- The incoming edges move to the target, then the one outgoing edge and the block go. -/
def collapse (cfg : ControlFlowGraph) (blockId target : BlockId) : ControlFlowGraph where
  functionNodeId := cfg.functionNodeId
  blocks := cfg.blocks.erase blockId
  edges := (cfg.edges.map fun edge =>
    if edge.target = blockId then { edge with target := target } else edge).filter
      fun edge => edge.source ≠ blockId

/-- A block that collapses changes the graph. -/
def pruneBlock (pruned : ControlFlowGraph × Bool) (blockId : BlockId) : ControlFlowGraph × Bool :=
  match collapseTarget pruned.1 blockId with
  | none => pruned
  | some target => (collapse pruned.1 blockId target, true)

/-- One pass visits a snapshot of the block ids and records whether it changed the graph. -/
def prunePass (cfg : ControlFlowGraph) : ControlFlowGraph × Bool :=
  cfg.blocks.keys.foldl pruneBlock (cfg, false)

def pruneLoop : Nat → ControlFlowGraph → Option ControlFlowGraph
  | 0, _ => none
  | fuel + 1, cfg =>
      let pass := prunePass cfg
      if pass.2 then pruneLoop fuel pass.1 else some pass.1

/-- Every changing pass deletes a block, so one more pass than blocks is enough. -/
def pruneEmptyPassThroughBlocks (cfg : ControlFlowGraph) : Option ControlFlowGraph :=
  pruneLoop (cfg.blocks.size + 1) cfg

def initialState (functionNode : AstNode) : BuildState where
  cfg :=
    { functionNodeId := functionNode.nodeId
      blocks := (OrderedDict.empty.insert .entry { blockId := .entry, kind := .entry }).insert .exit
        { blockId := .exit, kind := .exit }
      edges := [] }
  counter := 0
  labelTargets := .empty
  pendingGotos := []
  sequenceTails := .empty

/-- The fall-off edge is added only when the last block has a predecessor at this point. -/
def linkEnd (entryOfBody : BlockId) (state : BuildState) : BuildState :=
  let state := state.addEdge .entry entryOfBody .fallthrough none
  let topTail := state.tailOf entryOfBody
  if state.cfg.successors topTail = [] ∧ state.cfg.predecessors topTail ≠ [] then
    state.addEdge topTail .exit .implicitReturn none
  else state

def linkGotos (state : BuildState) : ControlFlowGraph :=
  { state.cfg with
    edges := state.cfg.edges ++ state.pendingGotos.map (gotoEdge state.labelTargets) }

/-- A node of a forest is nested no deeper than there are nodes. -/
def buildUnpruned (functionNode : AstNode) (graph : AstGraph) : Option ControlFlowGraph :=
  let state := initialState functionNode
  let statements := bodyStatements functionNode graph
  if statements = [] then
    some (state.addEdge .entry .exit .fallthrough none).cfg
  else do
    let (entryOfBody, state) ←
      buildBlockSequence graph .exit (graph.nodes.length + 1) statements [] state
    some (linkGotos (linkEnd entryOfBody state))

def build (functionNode : AstNode) (graph : AstGraph) : Option ControlFlowGraph := do
  let cfg ← buildUnpruned functionNode graph
  if bodyStatements functionNode graph = [] then some cfg
  else pruneEmptyPassThroughBlocks cfg

end MisraPlatform.CFGEngine
