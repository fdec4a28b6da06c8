import MisraPlatform.Construction.CfgEngine
import MisraPlatform.Proof.Relabeling

/-
This file is the builder on an AST whose variables have other names.
-/

namespace MisraPlatform
open CFGEngine DataFlowEngineV2

namespace CFGEngine

/-! ### States of the builder -/

def BuildState.relabel (state : BuildState) (relabel : AstNode → AstNode) : BuildState :=
  { state with cfg := state.cfg.relabel relabel }

abbrev relabelResult (relabel : AstNode → AstNode) (result : Option (BlockId × BuildState)) :
    Option (BlockId × BuildState) :=
  result.map fun both => (both.1, both.2.relabel relabel)

section States

variable {relabel : AstNode → AstNode} (state : BuildState)

theorem relabel_newBlock (kind : BlockKind) : (state.relabel relabel).newBlock kind =
    ((state.newBlock kind).1, (state.newBlock kind).2.relabel relabel) := by
  simp only [BuildState.newBlock, BuildState.relabel, ControlFlowGraph.relabel, OrderedDict.mapValues_insert,
    BasicBlock.relabel, List.map_nil]

theorem relabel_appendStatement (blockId : BlockId) (statement : AstNode) :
    (state.relabel relabel).appendStatement blockId (relabel statement) =
      (state.appendStatement blockId statement).relabel relabel := by
  simp only [BuildState.appendStatement, BuildState.relabel, ControlFlowGraph.relabel]
  rw [OrderedDict.mapValues_modify]
  intro block
  simp [BasicBlock.relabel]

theorem relabel_addEdge (source target : BlockId) (kind : EdgeKind) (label : Option String) :
    (state.relabel relabel).addEdge source target kind label =
      (state.addEdge source target kind label).relabel relabel := rfl

theorem relabel_linkTail (previous : Option BlockId) (target : BlockId) (kind : EdgeKind) :
    (state.relabel relabel).linkTail previous target kind =
      (state.linkTail previous target kind).relabel relabel := by
  cases previous with
  | none => rfl
  | some tail =>
      simp only [BuildState.linkTail]
      change (if state.terminates tail = true then _ else _) = _
      split <;> rfl

end States

/-! ### Handlers -/

/-- Two builders make the same graph of the relabelled statements. -/
def BuildsAlike (relabel : AstNode → AstNode) (build other : SequenceBuilder) : Prop :=
  ∀ statements stack state, other (statements.map relabel) stack (state.relabel relabel) =
    relabelResult relabel (build statements stack state)

section Handlers

variable {relabel : AstNode → AstNode} (relabels : Relabels relabel) (graph : AstGraph) {build other : SequenceBuilder}
  (alike : BuildsAlike relabel build other)

include relabels alike

theorem relabel_linkSequence (node : AstNode) (source target : BlockId) (entryKind tailKind : EdgeKind)
    (stack : LoopStack) (state : BuildState) :
    linkSequence other (graph.relabel relabel) (relabel node) source target entryKind tailKind stack
        (state.relabel relabel) =
      (linkSequence build graph node source target entryKind tailKind stack state).map
        fun state => state.relabel relabel := by
  have entered : asSequenceEntry other (graph.relabel relabel) (relabel node) stack (state.relabel relabel) =
      relabelResult relabel (asSequenceEntry build graph node stack state) := by
    unfold asSequenceEntry
    rw [relabels.nodeKind, relabels.nodeId, relabels.children]
    split
    · exact alike _ stack state
    · exact alike [node] stack state
  unfold linkSequence
  rw [entered]
  cases asSequenceEntry build graph node stack state <;> rfl

theorem relabel_linkBranch (branch : Option AstNode) (source join : BlockId) (kind : EdgeKind)
    (stack : LoopStack) (state : BuildState) :
    linkBranch other (graph.relabel relabel) (branch.map relabel) source join kind stack
        (state.relabel relabel) =
      (linkBranch build graph branch source join kind stack state).map
        fun state => state.relabel relabel := by
  cases branch with
  | none => rfl
  | some node => exact relabel_linkSequence relabels graph alike node source join kind .fallthrough stack state

theorem relabel_handleIf (statement : AstNode) (stack : LoopStack) (current : BlockId)
    (state : BuildState) :
    handleIf other (graph.relabel relabel) (relabel statement) stack current (state.relabel relabel) =
      relabelResult relabel (handleIf build graph statement stack current state) := by
  simp only [handleIf, relabel_appendStatement, relabel_newBlock, relabels.nodeId, relabels.children,
    List.getElem?_map, relabel_linkBranch relabels graph alike]
  cases linkBranch build graph (graph.children statement.nodeId)[1]? current _ .trueEdge stack _ with
  | none => rfl
  | some middle =>
      simp only [Option.map_some, Option.bind_eq_bind, Option.bind_some,
        relabel_linkBranch relabels graph alike]
      cases linkBranch build graph (graph.children statement.nodeId)[2]? current _ .falseEdge stack middle <;>
        rfl

theorem relabel_handleLoop (statement : AstNode) (stack : LoopStack) (current : BlockId)
    (state : BuildState) :
    handleLoop other (graph.relabel relabel) (relabel statement) stack current (state.relabel relabel) =
      relabelResult relabel (handleLoop build graph statement stack current state) := by
  have linked : ∀ header stack state,
      linkBody other (graph.relabel relabel) (relabel statement) header stack (state.relabel relabel) =
        (linkBody build graph statement header stack state).map fun state => state.relabel relabel := by
    intro header stack state
    have body : loopBody (relabel statement) ((graph.children statement.nodeId).map relabel) =
        (loopBody statement (graph.children statement.nodeId)).map relabel := by
      unfold loopBody
      rw [relabels.nodeKind]
      split <;> simp
    unfold linkBody loopEntryKind
    rw [relabels.nodeKind, relabels.nodeId, relabels.children, body]
    cases loopBody statement (graph.children statement.nodeId) with
    | none => rfl
    | some node => exact relabel_linkSequence relabels graph alike node _ _ _ _ _ _
  simp only [handleLoop, relabel_newBlock, relabel_appendStatement, relabel_addEdge, linked]
  cases linkBody build graph statement _ _ _ <;> rfl

omit alike in
theorem relabel_isCaseLabel (statement : AstNode) : isCaseLabel (relabel statement) = isCaseLabel statement := by
  simp only [isCaseLabel, relabels.nodeKind]

omit alike in
theorem relabel_caseGroups (statements : List AstNode) : caseGroups (statements.map relabel) =
    (caseGroups statements).map fun group => (relabel group.1, group.2.map relabel) := by
  let onScan : CaseScan → CaseScan := fun scan =>
    ⟨scan.currentCase.map relabel, scan.currentGroup.map relabel,
      scan.closed.map fun group => (relabel group.1, group.2.map relabel)⟩
  have closes : ∀ scan : CaseScan, (onScan scan).close =
      scan.close.map fun group => (relabel group.1, group.2.map relabel) := by
    intro scan
    simp only [onScan, CaseScan.close]
    cases scan.currentCase <;> simp
  have next : ∀ scan statement, (onScan scan).next (relabel statement) = onScan (scan.next statement) := by
    intro scan statement
    unfold CaseScan.next
    rw [relabel_isCaseLabel relabels]
    split
    · simp [onScan, ← closes]
    · simp [onScan]
  have scans : ∀ scan : CaseScan, (statements.map relabel).foldl CaseScan.next (onScan scan) =
      onScan (statements.foldl CaseScan.next scan) := by
    induction statements with
    | nil => exact fun _ => rfl
    | cons statement rest ih =>
        intro scan
        rw [List.map_cons, List.foldl_cons, List.foldl_cons, next, ih]
  unfold caseGroups
  rw [← closes, ← scans]
  rfl

theorem relabel_buildCaseGroups (switchBlock : BlockId) (stack : LoopStack)
    (groups : List (AstNode × List AstNode)) (previous : Option BlockId) (state : BuildState) :
    buildCaseGroups other switchBlock stack
        (groups.map fun group => (relabel group.1, group.2.map relabel)) previous (state.relabel relabel) =
      (buildCaseGroups build switchBlock stack groups previous state).map
        fun both => (both.1, both.2.relabel relabel) := by
  induction groups generalizing previous state with
  | nil => rfl
  | cons group rest ih =>
      simp only [List.map_cons, buildCaseGroups]
      rw [← List.map_cons, alike]
      cases build (group.1 :: group.2) stack state with
      | none => rfl
      | some both =>
          simp only [Option.map_some, Option.bind_eq_bind, Option.bind_some, relabel_addEdge,
            relabel_linkTail, caseEdgeKind, relabels.nodeKind]
          exact ih _ _

theorem relabel_handleSwitch (statement : AstNode) (stack : LoopStack) (current : BlockId)
    (state : BuildState) :
    handleSwitch other (graph.relabel relabel) (relabel statement) stack current (state.relabel relabel) =
      relabelResult relabel (handleSwitch build graph statement stack current state) := by
  have body : ((graph.children statement.nodeId).map relabel).find?
      (fun child => child.nodeKind = .compoundStmt) =
        ((graph.children statement.nodeId).find? fun child => child.nodeKind = .compoundStmt).map relabel := by
    rw [List.find?_map]
    congr 2
    funext child
    simp only [Function.comp_apply, relabels.nodeKind]
  simp only [handleSwitch, relabel_newBlock, relabel_appendStatement, relabels.nodeId, relabels.children, body]
  cases (graph.children statement.nodeId).find? fun child => child.nodeKind = .compoundStmt with
  | none => rfl
  | some body =>
      simp only [Option.map_some, relabels.nodeId, relabel_caseGroups relabels,
        relabel_buildCaseGroups relabels alike]
      cases buildCaseGroups build current _ (caseGroups (graph.children body.nodeId)) none _ with
      | none => rfl
      | some both =>
          simp only [Option.map_some, Option.bind_eq_bind, Option.bind_some, relabel_linkTail,
            List.any_map, Function.comp_def, relabels.nodeKind]
          split <;> rfl

theorem relabel_buildStatement (exitTarget : BlockId) (stack : LoopStack) (statement : AstNode)
    (current : BlockId) (state : BuildState) :
    buildStatement other (graph.relabel relabel) exitTarget stack (relabel statement) current
        (state.relabel relabel) =
      relabelResult relabel (buildStatement build graph exitTarget stack statement current state) := by
  unfold buildStatement
  rw [relabels.nodeKind]
  split
  · rename_i kind
    have named : labelName (relabel statement) = labelName statement := by
      rw [relabels.others statement (by simp [kind])]
    have empty : ((state.relabel relabel).cfg.statementsOf current = []) ↔
        (state.cfg.statementsOf current = []) := by
      rw [BuildState.relabel, ControlFlowGraph.relabel_statementsOf, List.map_eq_nil_iff]
    by_cases fresh : state.cfg.statementsOf current = []
    · simp only [if_pos fresh, if_pos (empty.mpr fresh), named, Option.map_some]
      rw [← relabel_appendStatement]
      rfl
    · simp only [if_neg fresh, if_neg (fun filled => fresh (empty.mp filled)), named, relabel_newBlock,
        Option.map_some]
      rw [← relabel_appendStatement]
      rfl
  · exact relabel_handleIf relabels graph alike statement stack current state
  · exact relabel_handleLoop relabels graph alike statement stack current state
  · exact relabel_handleLoop relabels graph alike statement stack current state
  · exact relabel_handleLoop relabels graph alike statement stack current state
  · exact relabel_handleSwitch relabels graph alike statement stack current state
  · rw [relabels.nodeId, relabels.children, alike]
    cases build (graph.children statement.nodeId) stack state with
    | none => rfl
    | some both =>
        simp only [Option.map_some, Option.bind_eq_bind, Option.bind_some, relabel_addEdge, relabel_newBlock]
  · simp only [relabel_appendStatement, relabel_addEdge, relabel_newBlock, Option.map_some]
  · simp only [relabel_appendStatement]
    cases stack.head? <;> simp only [relabel_addEdge, relabel_newBlock, Option.map_some]
  · simp only [relabel_appendStatement]
    cases stack.head? <;> simp only [relabel_addEdge, relabel_newBlock, Option.map_some]
  · rename_i kind
    have target : targetLabel (relabel statement) = targetLabel statement :=
      relabels.property statement "target_label" "" (by decide)
    simp only [relabel_appendStatement, target, Option.map_some, ← relabel_newBlock]
    rfl
  · simp only [relabel_appendStatement, Option.map_some]

theorem relabel_buildStatements (exitTarget : BlockId) (stack : LoopStack) (statements : List AstNode)
    (current : BlockId) (state : BuildState) :
    buildStatements other (graph.relabel relabel) exitTarget stack (statements.map relabel) current
        (state.relabel relabel) =
      relabelResult relabel (buildStatements build graph exitTarget stack statements current state) := by
  induction statements generalizing current state with
  | nil => rfl
  | cons statement rest ih =>
      simp only [List.map_cons, buildStatements, relabel_buildStatement relabels graph alike]
      cases buildStatement build graph exitTarget stack statement current state with
      | none => rfl
      | some both =>
          simp only [Option.map_some, Option.bind_eq_bind, Option.bind_some]
          exact ih both.1 both.2

end Handlers

/-! ### The whole graph -/

section Whole

variable {relabel : AstNode → AstNode} (relabels : Relabels relabel) (graph : AstGraph)

include relabels

theorem relabel_buildBlockSequence (exitTarget : BlockId) (fuel : Nat) :
    BuildsAlike relabel (buildBlockSequence graph exitTarget fuel)
      (buildBlockSequence (graph.relabel relabel) exitTarget fuel) := by
  induction fuel with
  | zero => exact fun _ _ _ => rfl
  | succ fuel ih =>
      intro statements stack state
      simp only [buildBlockSequence, relabel_newBlock, relabel_buildStatements relabels graph ih]
      cases buildStatements (buildBlockSequence graph exitTarget fuel) graph exitTarget stack statements _ _ <;>
        rfl

omit relabels in
theorem relabel_pruneBlock (pruned : ControlFlowGraph × Bool) (blockId : BlockId) :
    pruneBlock (pruned.1.relabel relabel, pruned.2) blockId =
      ((pruneBlock pruned blockId).1.relabel relabel, (pruneBlock pruned blockId).2) := by
  have target : collapseTarget (pruned.1.relabel relabel) blockId = collapseTarget pruned.1 blockId := by
    unfold collapseTarget ControlFlowGraph.relabel
    rw [OrderedDict.get?_mapValues]
    cases pruned.1.blocks.get? blockId with
    | none => rfl
    | some block => simp only [Option.map_some, BasicBlock.relabel, ne_eq, List.map_eq_nil_iff]; rfl
  unfold pruneBlock
  simp only [target]
  cases collapseTarget pruned.1 blockId with
  | none => rfl
  | some target =>
      simp only [collapse, ControlFlowGraph.relabel, OrderedDict.mapValues_erase]

omit relabels in
theorem relabel_prune (cfg : ControlFlowGraph) :
    pruneEmptyPassThroughBlocks (cfg.relabel relabel) =
      (pruneEmptyPassThroughBlocks cfg).map fun cfg => cfg.relabel relabel := by
  have fold : ∀ (blockIds : List BlockId) (pruned : ControlFlowGraph × Bool),
      blockIds.foldl pruneBlock (pruned.1.relabel relabel, pruned.2) =
        ((blockIds.foldl pruneBlock pruned).1.relabel relabel, (blockIds.foldl pruneBlock pruned).2) := by
    intro blockIds
    induction blockIds with
    | nil => exact fun _ => rfl
    | cons blockId rest ih =>
        intro pruned
        rw [List.foldl_cons, List.foldl_cons, relabel_pruneBlock, ih]
  have pass : ∀ cfg : ControlFlowGraph, prunePass (cfg.relabel relabel) =
      ((prunePass cfg).1.relabel relabel, (prunePass cfg).2) := by
    intro cfg
    unfold prunePass
    rw [ControlFlowGraph.relabel_keys]
    exact fold cfg.blocks.keys (cfg, false)
  have loop : ∀ fuel (cfg : ControlFlowGraph), pruneLoop fuel (cfg.relabel relabel) =
      (pruneLoop fuel cfg).map fun cfg => cfg.relabel relabel := by
    intro fuel
    induction fuel with
    | zero => exact fun _ => rfl
    | succ fuel ih =>
        intro cfg
        simp only [pruneLoop, pass]
        split
        · exact ih _
        · rfl
  unfold pruneEmptyPassThroughBlocks
  rw [← OrderedDict.keys_length, ControlFlowGraph.relabel_keys, OrderedDict.keys_length]
  exact loop _ cfg

theorem relabel_bodyStatements (functionNode : AstNode) :
    bodyStatements (relabel functionNode) (graph.relabel relabel) =
      (bodyStatements functionNode graph).map relabel := by
  simp only [bodyStatements, relabels.nodeId, relabels.children, List.find?_map, List.filter_map,
    Function.comp_def, relabels.nodeKind]
  cases (graph.children functionNode.nodeId).find? fun child => child.nodeKind = .compoundStmt with
  | none => rfl
  | some body => simp only [Option.map_some, relabels.nodeId]

/-- The builder makes the same graph with other names. -/
theorem relabel_build (functionNode : AstNode) : build (relabel functionNode) (graph.relabel relabel) =
    (build functionNode graph).map fun cfg => cfg.relabel relabel := by
  have initial : initialState (relabel functionNode) = (initialState functionNode).relabel relabel := by
    simp only [initialState, relabels.nodeId, BuildState.relabel, ControlFlowGraph.relabel]
    rfl
  have unpruned : buildUnpruned (relabel functionNode) (graph.relabel relabel) =
      (buildUnpruned functionNode graph).map fun cfg => cfg.relabel relabel := by
    have count : (graph.relabel relabel).nodes.length = graph.nodes.length := by
      simp [AstGraph.relabel]
    simp only [buildUnpruned, initial, relabel_bodyStatements relabels, List.map_eq_nil_iff, count,
      relabel_buildBlockSequence relabels graph .exit _ _ _ _]
    split
    · rfl
    · cases buildBlockSequence graph .exit (graph.nodes.length + 1) (bodyStatements functionNode graph) []
        (initialState functionNode) with
      | none => rfl
      | some both =>
          simp only [Option.map_some, Option.bind_eq_bind, Option.bind_some, Option.some.injEq]
          have linked : linkEnd both.1 (both.2.relabel relabel) =
              (linkEnd both.1 both.2).relabel relabel := by
            unfold linkEnd
            dsimp only
            rw [apply_ite fun state => BuildState.relabel state relabel]
            rfl
          rw [linked]
          rfl
  simp only [build, unpruned, relabel_bodyStatements relabels, List.map_eq_nil_iff]
  cases buildUnpruned functionNode graph with
  | none => rfl
  | some cfg =>
      simp only [Option.map_some, Option.bind_eq_bind, Option.bind_some, relabel_prune]
      split <;> rfl

end Whole

end CFGEngine
end MisraPlatform
