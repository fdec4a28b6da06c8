import MisraPlatform.Library.Bypass
import MisraPlatform.Proof.FlowGraph
import MisraPlatform.Proof.Liveness

/-
This file is what the pruning keeps: the blocks, the paths and the data flow.
-/

namespace MisraPlatform
open CFGEngine DataFlowEngineV2 RoundRobin

/-! ### One collapse -/

namespace Collapsible

variable {cfg : ControlFlowGraph} {blockId target : BlockId} (collapsible : Collapsible cfg blockId target)

include collapsible

theorem bypass : Bypass cfg.Leads (collapse cfg blockId target).Leads blockId target where
  leaves key := by
    obtain ⟨label, leaves⟩ := collapsible.leaves
    constructor
    · rintro ⟨edge, inside, source, rfl⟩
      have listed : edge ∈ cfg.successors blockId :=
        List.mem_filter.mpr ⟨inside, decide_eq_true source⟩
      rw [leaves, List.mem_singleton] at listed
      rw [listed]
    · rintro rfl
      have listed : (⟨blockId, key, .fallthrough, label⟩ : CFGEdge) ∈ cfg.successors blockId := by
        rw [leaves]
        exact List.mem_singleton_self _
      exact ⟨_, (List.mem_filter.mp listed).1, rfl, rfl⟩
  other := collapsible.other
  after source key := by
    constructor
    · rintro ⟨edge, inside, rfl, rfl⟩
      obtain ⟨old, listed, kept, rfl⟩ := (mem_collapse_edges cfg blockId target edge).mp inside
      rw [redirect_source]
      exact ⟨kept, old.target, ⟨old, listed, rfl, rfl⟩, (redirect_target blockId target old).symm⟩
    · rintro ⟨kept, _, ⟨old, listed, rfl, rfl⟩, rfl⟩
      exact ⟨old.redirect blockId target,
        (mem_collapse_edges cfg blockId target _).mpr ⟨old, listed, kept, rfl⟩,
        redirect_source blockId target old, redirect_target blockId target old⟩

theorem backward (graph : AstGraph) :
    Bypass (flip (cfg.liveFlow graph).edge) (flip ((collapse cfg blockId target).liveFlow graph).edge)
      blockId target := collapsible.bypass

theorem closed (closed : cfg.Closed) : (collapse cfg blockId target).Closed := by
  intro edge inside
  obtain ⟨old, listed, kept, rfl⟩ := (mem_collapse_edges cfg blockId target edge).mp inside
  obtain ⟨sourceInside, targetInside⟩ := closed old listed
  have into : target ∈ cfg.blocks.keys := (closed.leads ((collapsible.bypass.leaves target).mpr rfl)).2
  rw [collapse_keys, redirect_source, redirect_target]
  simp only [List.mem_filter, decide_eq_true_eq]
  refine ⟨⟨sourceInside, kept⟩, ?_⟩
  unfold renameBlock
  split
  · exact ⟨into, collapsible.other⟩
  · exact ⟨targetInside, by assumption⟩

omit collapsible in
theorem get?_kept {other : BlockId} (kept : other ≠ blockId) :
    (collapse cfg blockId target).blocks.get? other = cfg.blocks.get? other := by
  simp [collapse, OrderedDict.get?_erase, kept]

omit collapsible in
theorem blockAt_kept {other : BlockId} (kept : other ≠ blockId) :
    (collapse cfg blockId target).blockAt other = cfg.blockAt other := by
  rw [ControlFlowGraph.blockAt, get?_kept kept, ControlFlowGraph.blockAt]

omit collapsible in
theorem events_kept (graph : AstGraph) {other : BlockId} (kept : other ≠ blockId) :
    (collapse cfg blockId target).events graph other = cfg.events graph other := by
  rw [ControlFlowGraph.events, blockAt_kept kept, ControlFlowGraph.events]

theorem scanned_gone (graph : AstGraph) : scannedNodes (cfg.blockAt blockId) graph = [] := by
  rw [scanned_eq, collapsible.empty]
  rfl

theorem events_gone (graph : AstGraph) : cfg.events graph blockId = [] := by
  unfold ControlFlowGraph.events blockEvents
  rw [statements_blockAt, collapsible.empty]
  rfl

/-- The search for a statement passes by an empty block. -/
theorem blockContaining (nodeId : String) :
    (collapse cfg blockId target).blockContaining nodeId = cfg.blockContaining nodeId := by
  have empty : ∀ entry ∈ cfg.blocks.entries, entry.1 = blockId → entry.2.statements = [] := by
    rintro entry inside rfl
    rw [← ControlFlowGraph.statementsOf_of_get ((OrderedDict.mem_entries_iff _ _ _).mp inside)]
    exact collapsible.empty
  change ((cfg.blocks.entries.filter fun entry => entry.1 ≠ blockId).map Prod.snd).find? _ =
    (cfg.blocks.entries.map Prod.snd).find? _
  revert empty
  induction cfg.blocks.entries with
  | nil => exact fun _ => rfl
  | cons entry rest ih =>
      intro empty
      have further := ih fun other inside => empty other (List.mem_cons_of_mem _ inside)
      by_cases same : entry.1 = blockId
      · have none := empty entry List.mem_cons_self same
        rw [List.filter_cons, if_neg (by simpa using same), further, List.map_cons, List.find?_cons, none]
        rfl
      · rw [List.filter_cons, if_pos (by simpa using same), List.map_cons, List.map_cons, List.find?_cons,
          List.find?_cons, further]

theorem blockGen_kept (functionNode : AstNode) (graph : AstGraph) {other : BlockId}
    (kept : other ≠ blockId) : blockGen functionNode (collapse cfg blockId target) graph other =
      blockGen functionNode cfg graph other := by
  have sites : declSites functionNode (collapse cfg blockId target) graph =
      declSites functionNode cfg graph := by
    simp only [declSites, collapsible.blockContaining]
  rw [blockGen, blockAt_kept kept, uninitDefinitions, sites, blockGen, uninitDefinitions]

theorem blockGen_gone (keyed : cfg.Keyed) (functionNode : AstNode) (graph : AstGraph) :
    blockGen functionNode cfg graph blockId = ∅ := by
  have written : (blockDefUse (cfg.blockAt blockId) graph).writes = [] := by
    have none := collapsible.events_gone graph
    rw [ControlFlowGraph.events] at none
    rw [blockDefUse, none]
    rfl
  have sites : (declSites functionNode cfg graph).filter (fun site => site.2 = blockId) = [] := by
    rw [List.filter_eq_nil_iff]
    intro site listed same
    rw [decide_eq_true_eq] at same
    obtain ⟨varDecl, _, found⟩ := List.mem_filterMap.mp listed
    split at found
    · exact absurd found (by simp)
    · rename_i block contains
      split at found
      · exact absurd found (by simp)
      · obtain rfl := Option.some.inj found
        have some := List.find?_some contains
        obtain ⟨entry, inside, rfl⟩ := List.mem_map.mp (List.mem_of_find?_eq_some contains)
        have named : entry.1 = blockId := (keyed entry inside).symm.trans same
        subst named
        have same := ControlFlowGraph.statementsOf_of_get ((OrderedDict.mem_entries_iff _ _ _).mp inside)
        rw [collapsible.empty] at same
        rw [← same] at some
        exact absurd some (by simp)
  rw [blockGen, written, uninitDefinitions, sites]
  rfl

/-! ### The flows of the analyses -/

theorem definitions_agree (keyed : cfg.Keyed) (functionNode : AstNode) (graph : AstGraph) :
    (cfg.definitionFlow functionNode graph).Agrees
      ((collapse cfg blockId target).definitionFlow functionNode graph) blockId where
  gen key kept definition := by
    change _ ∈ blockGen _ _ _ _ ↔ _ ∈ blockGen _ _ _ _
    rw [collapsible.blockGen_kept functionNode graph kept]
  pass key kept old definition := by
    change _ ∧ Unwritten _ _ ↔ _ ∧ Unwritten _ _
    rw [events_kept graph kept]
  silent definition := by
    change definition ∉ blockGen _ _ _ _
    rw [collapsible.blockGen_gone keyed]
    exact Finset.notMem_empty definition
  through old definition := by
    change _ ∧ Unwritten _ _ ↔ _
    rw [collapsible.events_gone graph]
    exact and_iff_left (unwritten_nil _)

theorem live_agrees (graph : AstGraph) :
    (cfg.liveFlow graph).Agrees ((collapse cfg blockId target).liveFlow graph) blockId where
  gen key kept name := by
    change Exposed _ _ ↔ Exposed _ _
    rw [events_kept graph kept]
  pass key kept old name := by
    change _ ∧ Unwritten _ _ ↔ _ ∧ Unwritten _ _
    rw [events_kept graph kept]
  silent name := by
    change ¬ Exposed _ _
    rw [collapsible.events_gone graph]
    exact not_exposed_nil name
  through old name := by
    change _ ∧ Unwritten _ _ ↔ _
    rw [collapsible.events_gone graph]
    exact and_iff_left (unwritten_nil name)

theorem taint_agrees (graph : AstGraph) (sources : Finset String) :
    (transferFlow (cfg.taintBlock graph sources) cfg.Leads).Agrees
      (transferFlow ((collapse cfg blockId target).taintBlock graph sources)
        (collapse cfg blockId target).Leads) blockId where
  gen key kept name := by
    change name ∈ taintScan _ _ _ _ ↔ name ∈ taintScan _ _ _ _
    rw [blockAt_kept kept]
  pass key kept old name := by
    change name ∈ taintScan _ _ _ _ ↔ name ∈ taintScan _ _ _ _
    rw [blockAt_kept kept]
  silent name := by
    change name ∉ taintScan _ _ _ _
    rw [collapsible.scanned_gone graph]
    exact Finset.notMem_empty name
  through old name := by
    change name ∈ taintScan _ _ _ _ ↔ _
    rw [collapsible.scanned_gone graph]
    exact Finset.mem_singleton.trans eq_comm

end Collapsible

/-! ### All collapses -/

/-- This is what the pruned graph keeps of the graph. -/
structure Keeps (functionNode : AstNode) (graph : AstGraph) (sources : Finset String)
    (cfg pruned : ControlFlowGraph) : Prop where
  closed : pruned.Closed
  keyed : pruned.Keyed
  blocks : ∀ blockId ∈ pruned.blocks.keys, blockId ∈ cfg.blocks.keys ∧
    pruned.blocks.get? blockId = cfg.blocks.get? blockId
  stays : ∀ blockId ∈ cfg.blocks.keys, blockId = .entry ∨ blockId = .exit ∨ cfg.statementsOf blockId ≠ [] →
    blockId ∈ pruned.blocks.keys
  paths : ∀ first ∈ pruned.blocks.keys, ∀ last ∈ pruned.blocks.keys,
    (Relation.ReflTransGen pruned.Leads first last ↔ Relation.ReflTransGen cfg.Leads first last)
  definitions : ∀ blockId ∈ pruned.blocks.keys, ∀ definition,
    ((pruned.definitionFlow functionNode graph).Derives blockId definition ↔
      (cfg.definitionFlow functionNode graph).Derives blockId definition)
  live : ∀ blockId ∈ pruned.blocks.keys, ∀ name,
    ((∃ next, pruned.Leads blockId next ∧ (pruned.liveFlow graph).Derives next name) ↔
      ∃ next, cfg.Leads blockId next ∧ (cfg.liveFlow graph).Derives next name)
  taint : ∀ blockId ∈ pruned.blocks.keys, ∀ name,
    ((transferFlow (pruned.taintBlock graph sources) pruned.Leads).Derives blockId name ↔
      (transferFlow (cfg.taintBlock graph sources) cfg.Leads).Derives blockId name)

theorem Keeps.refl (functionNode : AstNode) (graph : AstGraph) (sources : Finset String)
    {cfg : ControlFlowGraph} (closed : cfg.Closed) (keyed : cfg.Keyed) :
    Keeps functionNode graph sources cfg cfg where
  closed := closed
  keyed := keyed
  blocks _ inside := ⟨inside, rfl⟩
  stays _ inside _ := inside
  paths _ _ _ _ := Iff.rfl
  definitions _ _ _ := Iff.rfl
  live _ _ _ := Iff.rfl
  taint _ _ _ := Iff.rfl

/-- One more collapse keeps the same. -/
theorem Keeps.collapse {functionNode : AstNode} {graph : AstGraph} {sources : Finset String}
    {cfg pruned : ControlFlowGraph} {blockId target : BlockId}
    (keeps : Keeps functionNode graph sources cfg pruned) (collapsible : Collapsible pruned blockId target) :
    Keeps functionNode graph sources cfg (collapse pruned blockId target) := by
  have survives : ∀ {other}, other ∈ (CFGEngine.collapse pruned blockId target).blocks.keys →
      other ∈ pruned.blocks.keys ∧ other ≠ blockId := by
    intro other inside
    rw [collapse_keys, List.mem_filter, decide_eq_true_eq] at inside
    exact inside
  exact
    { closed := collapsible.closed keeps.closed
      keyed := keyed_collapse pruned blockId target keeps.keyed
      blocks := by
        intro other inside
        obtain ⟨before, kept⟩ := survives inside
        rw [Collapsible.get?_kept kept]
        exact keeps.blocks other before
      stays := by
        intro other inside reason
        have before := keeps.stays other inside reason
        rw [collapse_keys, List.mem_filter, decide_eq_true_eq]
        refine ⟨before, ?_⟩
        rintro rfl
        obtain first | last | filled := reason
        · exact collapsible.inner.1 first
        · exact collapsible.inner.2 last
        · apply filled
          have empty := collapsible.empty
          rw [ControlFlowGraph.statementsOf, (keeps.blocks other before).2] at empty
          exact empty
      paths := by
        intro first firstInside last lastInside
        obtain ⟨firstBefore, firstKept⟩ := survives firstInside
        obtain ⟨lastBefore, lastKept⟩ := survives lastInside
        exact (collapsible.bypass.path_iff firstKept lastKept).trans
          (keeps.paths first firstBefore last lastBefore)
      definitions := by
        intro other inside definition
        obtain ⟨before, kept⟩ := survives inside
        exact (Bypass.forward collapsible.bypass (collapsible.definitions_agree keeps.keyed functionNode graph)
          kept definition).trans (keeps.definitions other before definition)
      live := by
        intro other inside name
        obtain ⟨before, kept⟩ := survives inside
        exact ((collapsible.backward graph).backward_next (collapsible.live_agrees graph) kept name).trans
          (keeps.live other before name)
      taint := by
        intro other inside name
        obtain ⟨before, kept⟩ := survives inside
        exact (Bypass.forward collapsible.bypass (collapsible.taint_agrees graph sources) kept name).trans
          (keeps.taint other before name) }

/-- The pruning loop ends with a graph that keeps all this. -/
theorem prune_keeps (functionNode : AstNode) (graph : AstGraph) (sources : Finset String)
    {cfg : ControlFlowGraph} (closed : cfg.Closed) (keyed : cfg.Keyed) :
    ∃ pruned, pruneEmptyPassThroughBlocks cfg = some pruned ∧
      Keeps functionNode graph sources cfg pruned := by
  obtain ⟨pruned, found, collapses⟩ := prune_collapses cfg
  exact ⟨pruned, found, collapses.keeps (Keeps functionNode graph sources cfg)
    (fun _ _ _ keeps collapsible => keeps.collapse collapsible)
    (Keeps.refl functionNode graph sources closed keyed)⟩

/-! ### The sets of the analyses -/

section Sets

variable {functionNode : AstNode} {graph : AstGraph} {sources sinks : Finset String}
  {cfg pruned : ControlFlowGraph} (keeps : Keeps functionNode graph sources cfg pruned)
  (closed : cfg.Closed) {blockId : BlockId} (inside : blockId ∈ pruned.blocks.keys)

include keeps closed inside

theorem Keeps.reachingDefinitions {before after : OrderedDict BlockId (Finset Definition)}
    (first : DataFlowEngineV2.reachingDefinitions functionNode cfg graph = some before)
    (second : DataFlowEngineV2.reachingDefinitions functionNode pruned graph = some after) :
    read after blockId = read before blockId := by
  ext definition
  exact (keeps.closed.reaching_computes.mem_iff second inside definition).trans
    ((keeps.definitions blockId inside definition).trans
      (closed.reaching_computes.mem_iff first (keeps.blocks blockId inside).1 definition).symm)

theorem Keeps.taintSets {before after : OrderedDict BlockId (Finset String)}
    (first : DataFlowEngineV2.taintSets cfg graph sources sinks = some before)
    (second : DataFlowEngineV2.taintSets pruned graph sources sinks = some after) :
    read after blockId = read before blockId := by
  ext name
  exact ((ControlFlowGraph.taint_computes keeps.closed).mem_iff second inside name).trans
    ((keeps.taint blockId inside name).trans
      ((ControlFlowGraph.taint_computes closed).mem_iff first (keeps.blocks blockId inside).1 name).symm)

theorem Keeps.liveOut {before after : OrderedDict BlockId (Finset String × Finset String)}
    (first : liveness cfg graph = some before) (second : liveness pruned graph = some after) :
    liveOut after blockId = liveOut before blockId := by
  ext name
  rw [ControlFlowGraph.mem_liveOut_iff keeps.closed second inside,
    ControlFlowGraph.mem_liveOut_iff closed first (keeps.blocks blockId inside).1]
  exact keeps.live blockId inside name

end Sets

/-- The pruning loop ends, keeps the blocks that matter with their statements, the paths between
them, and the sets of all three analyses. -/
theorem prune_preserves (functionNode : AstNode) (cfg : ControlFlowGraph) (graph : AstGraph)
    (sources sinks : Finset String) (closed : cfg.Closed) (keyed : cfg.Keyed) :
    ∃ pruned, pruneEmptyPassThroughBlocks cfg = some pruned ∧
      (∀ blockId ∈ cfg.blocks.keys,
        blockId = .entry ∨ blockId = .exit ∨ cfg.statementsOf blockId ≠ [] →
          blockId ∈ pruned.blocks.keys) ∧
      (∀ blockId ∈ pruned.blocks.keys, blockId ∈ cfg.blocks.keys ∧
        pruned.statementsOf blockId = cfg.statementsOf blockId) ∧
      (∀ first ∈ pruned.blocks.keys, ∀ last ∈ pruned.blocks.keys,
        (Relation.ReflTransGen pruned.Leads first last ↔ Relation.ReflTransGen cfg.Leads first last)) ∧
      (∃ before after, reachingDefinitions functionNode cfg graph = some before ∧
        reachingDefinitions functionNode pruned graph = some after ∧
        ∀ blockId ∈ pruned.blocks.keys, read after blockId = read before blockId) ∧
      (∃ before after, liveness cfg graph = some before ∧ liveness pruned graph = some after ∧
        ∀ blockId ∈ pruned.blocks.keys, liveOut after blockId = liveOut before blockId) ∧
      (∃ before after, taintSets cfg graph sources sinks = some before ∧
        taintSets pruned graph sources sinks = some after ∧
        ∀ blockId ∈ pruned.blocks.keys, read after blockId = read before blockId) := by
  obtain ⟨pruned, found, keeps⟩ := prune_keeps functionNode graph sources closed keyed
  refine ⟨pruned, found, keeps.stays, ?_, keeps.paths, ?_, ?_, ?_⟩
  · intro blockId inside
    obtain ⟨before, same⟩ := keeps.blocks blockId inside
    exact ⟨before, by rw [ControlFlowGraph.statementsOf, same, ControlFlowGraph.statementsOf]⟩
  · obtain ⟨before, first⟩ := ControlFlowGraph.reachingDefinitions_terminates functionNode cfg graph
    obtain ⟨after, second⟩ := ControlFlowGraph.reachingDefinitions_terminates functionNode pruned graph
    exact ⟨before, after, first, second, fun _ inside =>
      keeps.reachingDefinitions closed inside first second⟩
  · obtain ⟨before, first⟩ := ControlFlowGraph.liveness_terminates cfg graph
    obtain ⟨after, second⟩ := ControlFlowGraph.liveness_terminates pruned graph
    exact ⟨before, after, first, second, fun _ inside => keeps.liveOut closed inside first second⟩
  · obtain ⟨before, first⟩ := ControlFlowGraph.taintSets_terminates cfg graph sources sinks
    obtain ⟨after, second⟩ := ControlFlowGraph.taintSets_terminates pruned graph sources sinks
    exact ⟨before, after, first, second, fun _ inside => keeps.taintSets closed inside first second⟩

theorem prune_preserves_loop :
    ∃ pruned, pruneEmptyPassThroughBlocks ControlFlowGraph.loopFlow = some pruned ∧
      (∀ blockId ∈ ControlFlowGraph.loopFlow.blocks.keys,
        blockId = .entry ∨ blockId = .exit ∨ ControlFlowGraph.loopFlow.statementsOf blockId ≠ [] →
          blockId ∈ pruned.blocks.keys) ∧
      (∀ blockId ∈ pruned.blocks.keys, blockId ∈ ControlFlowGraph.loopFlow.blocks.keys ∧
        pruned.statementsOf blockId = ControlFlowGraph.loopFlow.statementsOf blockId) ∧
      (∀ first ∈ pruned.blocks.keys, ∀ last ∈ pruned.blocks.keys,
        (Relation.ReflTransGen pruned.Leads first last ↔
          Relation.ReflTransGen ControlFlowGraph.loopFlow.Leads first last)) ∧
      (∃ before after,
        reachingDefinitions ControlFlowGraph.loopFunction ControlFlowGraph.loopFlow
          ControlFlowGraph.loopAst = some before ∧
        reachingDefinitions ControlFlowGraph.loopFunction pruned ControlFlowGraph.loopAst = some after ∧
        ∀ blockId ∈ pruned.blocks.keys, read after blockId = read before blockId) ∧
      (∃ before after, liveness ControlFlowGraph.loopFlow ControlFlowGraph.loopAst = some before ∧
        liveness pruned ControlFlowGraph.loopAst = some after ∧
        ∀ blockId ∈ pruned.blocks.keys, liveOut after blockId = liveOut before blockId) ∧
      (∃ before after,
        taintSets ControlFlowGraph.loopFlow ControlFlowGraph.loopAst defaultTaintSources
          defaultTaintSinks = some before ∧
        taintSets pruned ControlFlowGraph.loopAst defaultTaintSources defaultTaintSinks = some after ∧
        ∀ blockId ∈ pruned.blocks.keys, read after blockId = read before blockId) :=
  prune_preserves ControlFlowGraph.loopFunction ControlFlowGraph.loopFlow ControlFlowGraph.loopAst
    defaultTaintSources defaultTaintSinks ControlFlowGraph.loopFlow_closed
    ControlFlowGraph.loopFlow_wellFormed.keyed

end MisraPlatform
