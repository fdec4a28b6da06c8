import MisraPlatform.Proof.Forest
import MisraPlatform.Proof.ReachingDefinitions

/-
This file is the exactness of the taint findings.
-/

namespace MisraPlatform
open DataFlowEngineV2 RoundRobin

/-! ### The scan of a block -/

section Scan

variable (graph : AstGraph) (sources sinks : Finset String)

/-- The right side calls a source. -/
def CallsSource (rhs : AstNode) : Prop :=
  ∃ inner ∈ rhs :: graph.descendants rhs.nodeId, inner.nodeKind = .callExpr ∧ callee inner ∈ sources

/-- The right side refers to a name. -/
def RefersTo (rhs : AstNode) (name : String) : Prop :=
  ∃ inner ∈ rhs :: graph.descendants rhs.nodeId, inner.nodeKind = .declRefExpr ∧ declRefName inner = name

variable {graph sources} in
/-- An assignment gives its left name the taint of its right side, and other names keep their own. -/
theorem mem_taintNode {node lhs rhs : AstNode} {more : List AstNode}
    (assigns : node.nodeKind = .binaryOperator ∧ opcode node = "=")
    (children : graph.children node.nodeId = lhs :: rhs :: more) (named : declRefName lhs ≠ "")
    (tainted : Finset String) (name : String) : name ∈ taintNode graph sources node tainted ↔
      if name = declRefName lhs then
        CallsSource graph sources rhs ∨ ∃ read ∈ tainted, RefersTo graph rhs read
      else name ∈ tainted := by
  have flows : ((rhs :: graph.descendants rhs.nodeId).any (fun inner =>
        inner.nodeKind = .callExpr && callee inner ∈ sources) ||
      (rhs :: graph.descendants rhs.nodeId).any (fun inner =>
        inner.nodeKind = .declRefExpr && declRefName inner ∈ tainted)) = true ↔
      CallsSource graph sources rhs ∨ ∃ read ∈ tainted, RefersTo graph rhs read := by
    simp only [Bool.or_eq_true, List.any_eq_true, Bool.and_eq_true, decide_eq_true_eq, CallsSource,
      RefersTo]
    apply or_congr Iff.rfl
    constructor
    · rintro ⟨inner, inside, kind, known⟩
      exact ⟨_, known, inner, inside, kind, rfl⟩
    · rintro ⟨_, known, inner, inside, kind, rfl⟩
      exact ⟨inner, inside, kind, known⟩
  simp only [taintNode, if_pos assigns, children, if_neg named]
  rw [← flows]
  split
  · rename_i gains
    by_cases same : name = declRefName lhs
    · rw [if_pos same, same]
      exact iff_of_true (Finset.mem_insert_self _ _) gains
    · rw [if_neg same, Finset.mem_insert, or_iff_right same]
  · rename_i clears
    by_cases same : name = declRefName lhs
    · rw [if_pos same, same]
      exact iff_of_false (Finset.notMem_erase _ _) clears
    · rw [if_neg same, Finset.mem_erase, and_iff_right same]

theorem distributes_taintNode (node : AstNode) : Distributes (taintNode graph sources node) := by
  have unchanged : (∀ tainted, taintNode graph sources node tainted = tainted) →
      Distributes (taintNode graph sources node) := by
    intro same
    rw [show taintNode graph sources node = id from funext same]
    exact distributes_id
  by_cases assigns : node.nodeKind = .binaryOperator ∧ opcode node = "="
  · rcases children : graph.children node.nodeId with _ | ⟨lhs, _ | ⟨rhs, more⟩⟩
    · exact unchanged fun tainted => by rw [taintNode, if_pos assigns, children]
    · exact unchanged fun tainted => by rw [taintNode, if_pos assigns, children]
    · by_cases named : declRefName lhs = ""
      · exact unchanged fun tainted => by
          simp only [taintNode, if_pos assigns, children, if_pos named]
      · intro tainted name
        simp only [mem_taintNode assigns children named]
        split
        · constructor
          · rintro (calls | ⟨read, known, refers⟩)
            · exact .inl (.inl calls)
            · exact .inr ⟨read, known, .inr ⟨read, Finset.mem_singleton_self read, refers⟩⟩
          · rintro ((calls | ⟨read, known, _⟩) | ⟨before, known, calls | ⟨read, same, refers⟩⟩)
            · exact .inl calls
            · exact absurd known (Finset.notMem_empty read)
            · exact .inl calls
            · exact .inr ⟨read, Finset.mem_singleton.mp same ▸ known, refers⟩
        · simp
  · exact unchanged fun tainted => if_neg assigns

def taintScan (nodes : List AstNode) (tainted : Finset String) : Finset String :=
  nodes.foldl (fun tainted node => taintNode graph sources node tainted) tainted

theorem distributes_taintScan (nodes : List AstNode) : Distributes (taintScan graph sources nodes) :=
  distributes_foldl (distributes_taintNode graph sources) nodes

/-- A call changes no taint, so its arguments are looked up in what the scan arrives with. -/
theorem sinkFindings_taintNode (node : AstNode) (tainted : Finset String) :
    sinkFindings graph sinks node (taintNode graph sources node tainted) =
      sinkFindings graph sinks node tainted := by
  unfold sinkFindings
  split
  · rename_i sink
    rw [taintNode, if_neg (by simp [sink.1])]
  · rfl

theorem taintTransfer_from (nodes before : List AstNode) (incoming : Finset String)
    (findings : List TaintFinding) :
    nodes.foldl (fun scan node =>
        let tainted := taintNode graph sources node scan.1
        (tainted, scan.2 ++ sinkFindings graph sinks node tainted))
        (taintScan graph sources before incoming, findings) =
      (taintScan graph sources (before ++ nodes) incoming,
        findings ++ (occurrencesFrom before nodes).flatMap fun occurrence =>
          sinkFindings graph sinks occurrence.2 (taintScan graph sources occurrence.1 incoming)) := by
  induction nodes generalizing before findings with
  | nil => simp [occurrencesFrom]
  | cons node rest ih =>
      have scanned : taintNode graph sources node (taintScan graph sources before incoming) =
          taintScan graph sources (before ++ [node]) incoming := by simp [taintScan]
      have next := ih (before ++ [node])
        (findings ++ sinkFindings graph sinks node (taintScan graph sources before incoming))
      rw [List.foldl_cons]
      simp only [sinkFindings_taintNode]
      simp only [sinkFindings_taintNode] at next
      rw [scanned, next, occurrencesFrom, List.flatMap_cons]
      simp [List.append_assoc]

/-- The transfer is the scan, and the findings of a call depend on the scan up to the call. -/
theorem taintTransfer_eq (block : BasicBlock) (incoming : Finset String) :
    taintTransfer block incoming graph sources sinks =
      (taintScan graph sources (scannedNodes block graph) incoming,
        (occurrences (scannedNodes block graph)).flatMap fun occurrence =>
          sinkFindings graph sinks occurrence.2 (taintScan graph sources occurrence.1 incoming)) :=
  taintTransfer_from graph sources sinks (scannedNodes block graph) [] incoming []

end Scan

/-- A finding is an argument of a sink call that the scan finds tainted. -/
theorem sinkFindings_eq (graph : AstGraph) (sinks : Finset String) (blockId : BlockId)
    (scanned : List AstNode) (call : AstNode) (tainted : Finset String) :
    sinkFindings graph sinks call tainted =
      ((if call.nodeKind = .callExpr ∧ callee call ∈ sinks then
          (graph.children call.nodeId).zipIdx.map fun child =>
            (⟨blockId, scanned, call, child.2, child.1⟩ : ControlFlowGraph.SinkArgument)
        else []).filter fun argument =>
          declRefName argument.argument ≠ "" ∧ declRefName argument.argument ∈ tainted).map
            ControlFlowGraph.SinkArgument.finding := by
  rw [sinkFindings]
  split
  · rw [List.filter_map, List.map_map]
    conv_lhs => rw [← List.zipIdx_map_fst 0 (graph.children call.nodeId), List.filter_map, List.map_map]
    rfl
  · rfl

namespace ControlFlowGraph

variable {cfg : ControlFlowGraph} {graph : AstGraph} {sources sinks : Finset String}

/-! ### The fixed point -/

theorem taintOut_eq (blockId : BlockId) (outSets : BlockId → Finset String) :
    taintOut cfg graph sources sinks blockId outSets =
      taintScan graph sources (scannedNodes (cfg.blockAt blockId) graph) (inSet blockId cfg outSets) := by
  rw [taintOut, taintTransfer_eq]

/-- This is the transfer of a block without its findings. -/
abbrev taintBlock (cfg : ControlFlowGraph) (graph : AstGraph) (sources : Finset String)
    (blockId : BlockId) : Finset String → Finset String :=
  taintScan graph sources (scannedNodes (cfg.blockAt blockId) graph)

theorem taintArrives_eq : cfg.TaintArrives graph sources sinks =
    Arrives (cfg.taintBlock graph sources) cfg.Leads cfg.blocks.keys := by
  unfold TaintArrives
  simp only [taintTransfer_eq]

theorem distributes_taintBlock (blockId : BlockId) : Distributes (cfg.taintBlock graph sources blockId) :=
  distributes_taintScan graph sources _

theorem taint_computes (closed : cfg.Closed) :
    Computes (taintOut cfg graph sources sinks) id
      (transferFlow (cfg.taintBlock graph sources) cfg.Leads) cfg.blocks.keys where
  empty := rfl
  mem outSets blockId name := by
    rw [id_eq, taintOut_eq, distributes_taintBlock blockId]
    apply or_congr Iff.rfl
    constructor
    · rintro ⟨before, known, carried⟩
      obtain ⟨source, leads, found⟩ := (mem_inSet blockId outSets before).mp known
      exact ⟨source, before, leads, found, carried⟩
    · rintro ⟨source, before, leads, found, carried⟩
      exact ⟨before, (mem_inSet blockId outSets before).mpr ⟨source, leads, found⟩, carried⟩
  listed source target leads := closed.leads leads

/-- An assignment only taints the name of a node. -/
theorem taintNode_below (node : AstNode) (tainted : Finset String)
    (bounded : tainted ⊆ (graph.nodes.map declRefName).toFinset) :
    taintNode graph sources node tainted ⊆ (graph.nodes.map declRefName).toFinset := by
  rw [taintNode]
  split
  · split
    · rename_i lhs rhs more children
      have listed : lhs ∈ graph.nodes := by
        have inside : lhs ∈ graph.children node.nodeId := by simp [children]
        exact (AstGraph.mem_children inside).1
      have known : declRefName lhs ∈ (graph.nodes.map declRefName).toFinset :=
        List.mem_toFinset.mpr (List.mem_map_of_mem listed)
      dsimp only
      split
      · exact bounded
      · split
        · exact Finset.insert_subset known bounded
        · exact (Finset.erase_subset _ _).trans bounded
    · exact bounded
  · exact bounded

theorem taintScan_below (nodes : List AstNode) (tainted : Finset String)
    (bounded : tainted ⊆ (graph.nodes.map declRefName).toFinset) :
    taintScan graph sources nodes tainted ⊆ (graph.nodes.map declRefName).toFinset := by
  induction nodes generalizing tainted with
  | nil => exact bounded
  | cons node rest ih => exact ih _ (taintNode_below node tainted bounded)

theorem taint_climbs (cfg : ControlFlowGraph) (graph : AstGraph) (sources sinks : Finset String) :
    Climbs (taintOut cfg graph sources sinks) cfg.blocks.keys Finset.card
      (graph.nodes.map declRefName).toFinset where
  mono low high smaller blockId := by
    rw [taintOut_eq, taintOut_eq]
    exact (distributes_taintBlock blockId).mono (inSet_mono smaller blockId)
  below outSets bounded blockId _ := by
    rw [taintOut_eq]
    apply taintScan_below
    intro name known
    obtain ⟨source, _, found⟩ := (mem_inSet blockId outSets name).mp known
    exact bounded source found
  strict := Finset.card_strictMono

theorem taintSets_terminates (cfg : ControlFlowGraph) (graph : AstGraph) (sources sinks : Finset String) :
    ∃ outSets, taintSets cfg graph sources sinks = some outSets :=
  (taint_climbs cfg graph sources sinks).solves

/-- The set of a block holds the names that some path leaves tainted at its end. -/
theorem mem_taintSets (closed : cfg.Closed)
    {outSets : OrderedDict BlockId (Finset String)}
    (found : taintSets cfg graph sources sinks = some outSets) {blockId : BlockId}
    (inside : blockId ∈ cfg.blocks.keys) (name : String) : name ∈ read outSets blockId ↔
      ∃ tainted, cfg.TaintArrives graph sources sinks blockId tainted ∧
        name ∈ cfg.taintBlock graph sources blockId tainted := by
  have computes : Computes (taintOut cfg graph sources sinks) id
      (transferFlow (cfg.taintBlock graph sources) cfg.Leads) cfg.blocks.keys :=
    taint_computes closed
  rw [taintArrives_eq]
  exact (computes.mem_iff found inside name).trans
    (transferFlow_derives distributes_taintBlock computes.listed inside name)

/-- The scan of a block finds an argument tainted when some path does. -/
theorem taintedArgument_iff (closed : cfg.Closed)
    {outSets : OrderedDict BlockId (Finset String)}
    (found : taintSets cfg graph sources sinks = some outSets) {argument : SinkArgument}
    (inside : argument.blockId ∈ cfg.blocks.keys) :
    declRefName argument.argument ≠ "" ∧ declRefName argument.argument ∈
        taintScan graph sources argument.scanned (inSet argument.blockId cfg (read outSets)) ↔
      cfg.TaintedArgument graph sources sinks argument := by
  have solved := fun blockId (listed : blockId ∈ cfg.blocks.keys) => mem_taintSets closed found listed
  rw [taintArrives_eq] at solved
  rw [TaintedArgument, taintArrives_eq]
  apply and_congr Iff.rfl
  exact mem_transfer_joined (fun _ _ => closed.leads) solved inside
    (mem_inSet argument.blockId (read outSets)) (distributes_taintScan graph sources argument.scanned) _

/-! ### The findings -/

/-- These are the arguments of one node of the scan. -/
def callArguments (graph : AstGraph) (sinks : Finset String) (blockId : BlockId)
    (occurrence : List AstNode × AstNode) : List SinkArgument :=
  if occurrence.2.nodeKind = .callExpr ∧ callee occurrence.2 ∈ sinks then
    (graph.children occurrence.2.nodeId).zipIdx.map fun child =>
      ⟨blockId, occurrence.1, occurrence.2, child.2, child.1⟩
  else []

theorem sinkArguments_eq : cfg.sinkArguments graph sinks = cfg.blocks.keys.flatMap fun blockId =>
    (occurrences (scannedNodes (cfg.blockAt blockId) graph)).flatMap
      (callArguments graph sinks blockId) := rfl

theorem mem_callArguments {blockId : BlockId} {occurrence : List AstNode × AstNode}
    {argument : SinkArgument} (inside : argument ∈ callArguments graph sinks blockId occurrence) :
    argument.blockId = blockId ∧ argument.scanned = occurrence.1 := by
  unfold callArguments at inside
  split at inside
  · obtain ⟨child, _, rfl⟩ := List.mem_map.mp inside
    exact ⟨rfl, rfl⟩
  · exact absurd inside List.not_mem_nil

open Classical in
theorem propagateTaint_eq (closed : cfg.Closed) :
    propagateTaint cfg graph sources sinks = some (((cfg.sinkArguments graph sinks).filter
      fun argument => decide (cfg.TaintedArgument graph sources sinks argument)).map
        SinkArgument.finding) := by
  obtain ⟨outSets, found⟩ := taintSets_terminates cfg graph sources sinks
  simp only [propagateTaint, found, Option.bind_eq_bind, Option.bind_some, sinkArguments_eq,
    List.filter_flatMap, List.map_flatMap]
  congr 1
  apply List.flatMap_congr
  intro blockId inside
  rw [taintTransfer_eq]
  apply List.flatMap_congr
  intro occurrence _
  rw [sinkFindings_eq graph sinks blockId occurrence.1]
  congr 1
  apply List.filter_congr
  intro argument listed
  obtain ⟨rfl, same⟩ := mem_callArguments listed
  apply decide_eq_decide.mpr
  rw [← same]
  exact taintedArgument_iff closed found inside

end ControlFlowGraph

theorem occurrencesFrom_map {α : Type} (before list : List α) :
    (occurrencesFrom before list).map Prod.snd = list := by
  induction list generalizing before with
  | nil => rfl
  | cons item rest ih => rw [occurrencesFrom, List.map_cons, ih]

namespace ControlFlowGraph

variable {cfg : ControlFlowGraph} {graph : AstGraph} {sources sinks : Finset String}

/-- A node that is scanned once has each of its arguments once. -/
theorem ScansOnce.arguments (once : cfg.ScansOnce graph) :
    ((cfg.sinkArguments graph sinks).map fun argument =>
      (argument.call.nodeId, argument.position)).Nodup := by
  let positions : AstNode → List (String × Nat) := fun node =>
    if node.nodeKind = .callExpr ∧ callee node ∈ sinks then
      (graph.children node.nodeId).zipIdx.map fun child => (node.nodeId, child.2)
    else []
  have flat : (cfg.sinkArguments graph sinks).map (fun argument =>
      (argument.call.nodeId, argument.position)) =
      (cfg.blocks.keys.flatMap fun blockId => scannedNodes (cfg.blockAt blockId) graph).flatMap
        positions := by
    rw [sinkArguments_eq, List.map_flatMap, List.flatMap_assoc]
    apply List.flatMap_congr
    intro blockId _
    conv_rhs => rw [← occurrencesFrom_map [] (scannedNodes (cfg.blockAt blockId) graph)]
    rw [List.map_flatMap, List.flatMap_map]
    apply List.flatMap_congr
    intro occurrence _
    simp only [callArguments, positions]
    split
    · rw [List.map_map]
      rfl
    · rfl
  rw [flat, List.nodup_flatMap]
  constructor
  · intro node _
    simp only [positions]
    split
    · have indices : ((graph.children node.nodeId).zipIdx.map Prod.snd).Nodup := by
        rw [List.zipIdx_map_snd]
        exact List.nodup_range'
      rw [show (fun child : AstNode × Nat => (node.nodeId, child.2)) =
        (fun index => (node.nodeId, index)) ∘ Prod.snd from rfl, ← List.map_map]
      exact indices.map fun first second same => (Prod.mk.inj same).2
    · exact List.nodup_nil
  · unfold ScansOnce at once
    rw [← List.map_flatMap, List.Nodup, List.pairwise_map] at once
    apply once.imp
    intro first second distinct position left right
    have owner : ∀ node, position ∈ positions node → position.1 = node.nodeId := by
      intro node inside
      simp only [positions] at inside
      split at inside
      · obtain ⟨child, _, rfl⟩ := List.mem_map.mp inside
        rfl
      · exact absurd inside List.not_mem_nil
    exact distinct ((owner first left).symm.trans (owner second right))

theorem Reordered.taintedArgument {other : ControlFlowGraph} (reordered : cfg.Reordered other)
    (argument : SinkArgument) : other.TaintedArgument graph sources sinks argument ↔
      cfg.TaintedArgument graph sources sinks argument := by
  have same : other.taintBlock graph sources = cfg.taintBlock graph sources := by
    funext blockId
    rw [taintBlock, reordered.blockAt]
  simp only [TaintedArgument, taintArrives_eq, same, reordered.leads]
  have arrives : ∀ tainted, Arrives (cfg.taintBlock graph sources) cfg.Leads other.blocks.keys
      argument.blockId tainted ↔ Arrives (cfg.taintBlock graph sources) cfg.Leads cfg.blocks.keys
      argument.blockId tainted := fun tainted =>
    ⟨Arrives.widen fun _ => reordered.keys.mem_iff.mpr, Arrives.widen fun _ => reordered.keys.mem_iff.mp⟩
  simp only [arrives]

open Classical in
/-- The findings are the arguments that some path leaves tainted. Each argument is reported at most
once, and the order of the blocks only moves the findings. -/
theorem propagateTaint_exact (cfg : ControlFlowGraph) (graph : AstGraph) (sources sinks : Finset String)
    (closed : cfg.Closed) :
    ∃ findings, propagateTaint cfg graph sources sinks = some findings ∧
      findings = ((cfg.sinkArguments graph sinks).filter fun argument =>
        decide (cfg.TaintedArgument graph sources sinks argument)).map SinkArgument.finding ∧
      (cfg.ScansOnce graph → ((cfg.sinkArguments graph sinks).map fun argument =>
        (argument.call.nodeId, argument.position)).Nodup) ∧
      ∀ other, cfg.Reordered other → ∃ again,
        propagateTaint other graph sources sinks = some again ∧ again.Perm findings := by
  refine ⟨_, propagateTaint_eq closed, rfl, ScansOnce.arguments, fun other reordered => ?_⟩
  refine ⟨_, propagateTaint_eq (reordered.closed closed), ?_⟩
  apply List.Perm.map
  simp only [reordered.taintedArgument]
  apply List.Perm.filter
  simp only [sinkArguments_eq, reordered.blockAt]
  exact reordered.keys.symm.flatMap_right _

open Classical in
theorem propagateTaint_loop :
    ∃ findings, propagateTaint loopFlow loopAst defaultTaintSources defaultTaintSinks = some findings ∧
      findings = ((loopFlow.sinkArguments loopAst defaultTaintSinks).filter fun argument =>
        decide (loopFlow.TaintedArgument loopAst defaultTaintSources defaultTaintSinks argument)).map
          SinkArgument.finding ∧
      (loopFlow.ScansOnce loopAst → ((loopFlow.sinkArguments loopAst defaultTaintSinks).map fun argument =>
        (argument.call.nodeId, argument.position)).Nodup) ∧
      ∀ other, loopFlow.Reordered other → ∃ again,
        propagateTaint other loopAst defaultTaintSources defaultTaintSinks = some again ∧
          again.Perm findings :=
  propagateTaint_exact loopFlow loopAst defaultTaintSources defaultTaintSinks loopFlow_closed

end ControlFlowGraph
end MisraPlatform
