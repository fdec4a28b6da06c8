import MisraPlatform.Proof.BlockEvents

/-
This file is the exactness of the reaching definitions and of the uninitialized reads.
-/

namespace MisraPlatform
open DataFlowEngineV2

namespace ControlFlowGraph

variable {functionNode : AstNode} {cfg : ControlFlowGraph} {graph : AstGraph}

/-! ### Blocks -/

theorem blockAt_of_mem {blockId : BlockId} {block : BasicBlock}
    (inside : (blockId, block) ∈ cfg.blocks.entries) : cfg.blockAt blockId = block := by
  rw [blockAt, (cfg.blocks.mem_entries_iff blockId block).mp inside]
  rfl

theorem statementsOf_of_mem {blockId : BlockId} {block : BasicBlock}
    (inside : (blockId, block) ∈ cfg.blocks.entries) : cfg.statementsOf blockId = block.statements :=
  statementsOf_of_get ((cfg.blocks.mem_entries_iff blockId block).mp inside)

/-- A block with a statement is in the graph. -/
theorem entry_of_statement {blockId : BlockId} {statement : AstNode}
    (inside : statement ∈ cfg.statementsOf blockId) :
    ∃ block, (blockId, block) ∈ cfg.blocks.entries ∧ statement ∈ block.statements := by
  cases found : cfg.blocks.get? blockId with
  | none => simp [statementsOf, found] at inside
  | some block =>
      rw [statementsOf_of_get found] at inside
      exact ⟨block, (cfg.blocks.mem_entries_iff blockId block).mpr found, inside⟩

/-- The block that contains a node is the only one that lists it. -/
theorem WellFormed.blockContaining (wellFormed : cfg.WellFormed) (nodeId : String) (block : BasicBlock) :
    cfg.blockContaining nodeId = some block ↔
      ∃ statement ∈ cfg.statementsOf block.blockId, statement.nodeId = nodeId ∧
        (block.blockId, block) ∈ cfg.blocks.entries := by
  constructor
  · intro found
    have listed := List.mem_of_find?_eq_some found
    obtain ⟨⟨blockId, same⟩, inside, rfl⟩ := List.mem_map.mp listed
    have keyed := wellFormed.keyed _ inside
    have holds := List.find?_some found
    obtain ⟨statement, here, named⟩ := List.any_eq_true.mp holds
    dsimp only at keyed here ⊢
    subst keyed
    exact ⟨statement, (statementsOf_of_mem inside).symm ▸ here, of_decide_eq_true named, inside⟩
  · rintro ⟨statement, here, named, inside⟩
    rw [statementsOf_of_mem inside] at here
    have holds : (block.statements.any fun statement => statement.nodeId = nodeId) = true :=
      List.any_eq_true.mpr ⟨statement, here, decide_eq_true named⟩
    have answers : ((cfg.blocks.values.find? fun block =>
        block.statements.any fun statement => statement.nodeId = nodeId)).isSome := by
      rw [List.find?_isSome]
      exact ⟨block, List.mem_map.mpr ⟨_, inside, rfl⟩, holds⟩
    obtain ⟨other, found⟩ := Option.isSome_iff_exists.mp answers
    obtain ⟨entry, listed, rfl⟩ := List.mem_map.mp (List.mem_of_find?_eq_some found)
    have lists := List.find?_some found
    obtain ⟨twin, there, same⟩ := List.any_eq_true.mp lists
    have equal := wellFormed.placed entry listed (block.blockId, block) inside twin there statement here
      ((of_decide_eq_true same).trans named.symm)
    rw [equal] at found
    exact found

/-- A site is a name that a block declares. -/
theorem WellFormed.mem_declSites (wellFormed : cfg.WellFormed) (name : String) (blockId : BlockId) :
    (name, blockId) ∈ declSites functionNode cfg graph ↔ cfg.Declares functionNode graph blockId name := by
  simp only [declSites, List.mem_filterMap]
  constructor
  · rintro ⟨varDecl, local_, found⟩
    cases contained : cfg.blockContaining varDecl.nodeId with
    | none => simp [contained] at found
    | some block =>
        obtain ⟨statement, here, named, _⟩ := (wellFormed.blockContaining _ _).mp contained
        by_cases empty : declRefName varDecl = ""
        · simp [contained, empty] at found
        · simp only [contained, if_neg empty, Option.some.injEq, Prod.mk.injEq] at found
          obtain ⟨rfl, rfl⟩ := found
          exact ⟨empty, varDecl, local_, rfl, statement, here, named⟩
  · rintro ⟨nonempty, varDecl, local_, rfl, statement, here, named⟩
    obtain ⟨block, inside, _⟩ := entry_of_statement here
    have keyed : block.blockId = blockId := wellFormed.keyed _ inside
    subst keyed
    refine ⟨varDecl, local_, ?_⟩
    rw [(wellFormed.blockContaining _ block).mpr ⟨statement, here, named, inside⟩]
    simp [nonempty]

theorem WellFormed.mem_declNames (wellFormed : cfg.WellFormed) (blockId : BlockId) (name : String) :
    name ∈ declNames functionNode cfg graph blockId ↔ cfg.Declares functionNode graph blockId name := by
  rw [← wellFormed.mem_declSites, declNames]
  simp only [List.mem_toFinset, List.mem_map, List.mem_filter, decide_eq_true_eq]
  constructor
  · rintro ⟨⟨_, _⟩, ⟨inside, rfl⟩, rfl⟩
    exact inside
  · intro inside
    exact ⟨(name, blockId), ⟨inside, rfl⟩, rfl⟩

theorem WellFormed.mem_uninitDefinitions (wellFormed : cfg.WellFormed) (blockId : BlockId)
    (definition : Definition) :
    definition ∈ uninitDefinitions functionNode cfg graph blockId ↔ definition.blockId = blockId ∧
      definition.siteNodeId = UNINIT ∧
      cfg.Declares functionNode graph blockId definition.variableName := by
  rw [← wellFormed.mem_declSites, uninitDefinitions]
  simp only [List.mem_toFinset, List.mem_map, List.mem_filter, decide_eq_true_eq]
  constructor
  · rintro ⟨⟨_, _⟩, ⟨inside, rfl⟩, rfl⟩
    exact ⟨rfl, rfl, inside⟩
  · rintro ⟨rfl, site, inside⟩
    refine ⟨_, ⟨inside, rfl⟩, ?_⟩
    rw [← site]

end ControlFlowGraph

/-! ### Generated definitions -/

/-- The writes of a list leave the last one of each name and the old definitions of other names. -/
theorem mem_foldl_genWrite (blockId : BlockId) (start : Finset Definition) (events : List Event)
    (definition : Definition) :
    definition ∈ ((events.filter Event.isWrite).map fun event => (event.name, event.ref)).foldl
        (genWrite blockId) start ↔
      (∃ event, LastWrite events event ∧ definition = ⟨event.name, event.ref.nodeId, blockId⟩) ∨
        (definition ∈ start ∧ Unwritten events definition.variableName) := by
  induction events using List.reverseRecOn with
  | nil => simp [not_lastWrite_nil, unwritten_nil]
  | append_singleton events event ih =>
      rw [List.filter_append, List.map_append, List.foldl_append]
      simp only [lastWrite_concat, unwritten_append, unwritten_singleton]
      cases writes : event.isWrite
      · simp [writes, ih]
      · simp only [List.filter_singleton, writes, List.map_cons, List.map_nil, List.foldl_cons,
          List.foldl_nil, genWrite, Finset.mem_insert, Finset.mem_filter, ih, forall_const, and_true,
          cond_true]
        constructor
        · rintro (rfl | ⟨⟨found, last, rfl⟩ | ⟨old, unwritten⟩, other⟩)
          · exact .inl ⟨event, .inl rfl, rfl⟩
          · exact .inl ⟨found, .inr ⟨last, Ne.symm other⟩, rfl⟩
          · exact .inr ⟨old, unwritten, Ne.symm other⟩
        · rintro (⟨found, rfl | ⟨last, other⟩, rfl⟩ | ⟨old, unwritten, other⟩)
          · exact .inl rfl
          · exact .inr ⟨.inl ⟨found, last, rfl⟩, Ne.symm other⟩
          · exact .inr ⟨.inr ⟨old, unwritten⟩, Ne.symm other⟩

namespace ControlFlowGraph

variable {functionNode : AstNode} {cfg : ControlFlowGraph} {graph : AstGraph}

theorem WellFormed.mem_blockGen (wellFormed : cfg.WellFormed) {blockId : BlockId}
    (inside : blockId ∈ cfg.blocks.keys) (definition : Definition) :
    definition ∈ blockGen functionNode cfg graph blockId ↔
      definition.blockId = blockId ∧ cfg.Generated functionNode graph definition := by
  rw [blockGen, (blockDefUse_summarizes (cfg.blockAt blockId) graph).writes, mem_foldl_genWrite,
    wellFormed.mem_uninitDefinitions]
  constructor
  · rintro (⟨event, last, rfl⟩ | ⟨⟨rfl, site, declares⟩, unwritten⟩)
    · exact ⟨rfl, inside, .inl ⟨event, last, rfl, rfl⟩⟩
    · exact ⟨rfl, inside, .inr ⟨declares, site, unwritten⟩⟩
  · rintro ⟨rfl, _, ⟨event, last, named, site⟩ | ⟨declares, site, unwritten⟩⟩
    · exact .inl ⟨event, last, by rw [named, site]⟩
    · exact .inr ⟨⟨rfl, site, declares⟩, unwritten⟩

/-! ### The fixed point -/

/-- A definition comes over an edge into a block that does not write its variable. -/
def definitionFlow (functionNode : AstNode) (cfg : ControlFlowGraph) (graph : AstGraph) :
    RoundRobin.Flow BlockId Definition where
  edge := cfg.Leads
  gen blockId definition := definition ∈ blockGen functionNode cfg graph blockId
  pass blockId before definition :=
    before = definition ∧ Unwritten (cfg.events graph blockId) definition.variableName

theorem Closed.leads (closed : cfg.Closed) {source target : BlockId}
    (leads : cfg.Leads source target) : source ∈ cfg.blocks.keys ∧ target ∈ cfg.blocks.keys := by
  obtain ⟨edge, inside, rfl, rfl⟩ := leads
  exact closed edge inside

theorem Closed.reaching_computes (closed : cfg.Closed) :
    RoundRobin.Computes (reachingOut functionNode cfg graph) id (definitionFlow functionNode cfg graph)
      cfg.blocks.keys where
  empty := rfl
  mem values blockId definition := by
    simp only [reachingOut, id_eq, Finset.mem_union, Finset.mem_filter, mem_inSet, mem_writtenNames,
      definitionFlow]
    constructor
    · rintro (generated | ⟨⟨source, leads, known⟩, unwritten⟩)
      · exact .inl generated
      · exact .inr ⟨source, definition, leads, known, rfl, unwritten⟩
    · rintro (generated | ⟨source, before, leads, known, rfl, unwritten⟩)
      · exact .inl generated
      · exact .inr ⟨⟨source, leads, known⟩, unwritten⟩
  listed source target leads := closed.leads leads

theorem reaching_climbs (functionNode : AstNode) (cfg : ControlFlowGraph) (graph : AstGraph) :
    RoundRobin.Climbs (reachingOut functionNode cfg graph) cfg.blocks.keys Finset.card
      (cfg.blocks.keys.toFinset.biUnion (blockGen functionNode cfg graph)) where
  mono low high smaller blockId := by
    apply Finset.union_subset_union (Finset.Subset.refl _)
    exact Finset.filter_subset_filter _ (inSet_mono smaller blockId)
  below values bounded blockId inside := by
    apply Finset.union_subset
    · exact Finset.subset_biUnion_of_mem _ (List.mem_toFinset.mpr inside)
    · intro definition known
      obtain ⟨source, _, found⟩ := (mem_inSet blockId values definition).mp (Finset.mem_filter.mp known).1
      exact bounded source found
  strict := Finset.card_strictMono

theorem reachingDefinitions_terminates (functionNode : AstNode) (cfg : ControlFlowGraph)
    (graph : AstGraph) : ∃ outSets, reachingDefinitions functionNode cfg graph = some outSets :=
  (reaching_climbs functionNode cfg graph).solves

/-- A definition that the flow derives comes over a path, and the other way around. -/
theorem WellFormed.derives_iff (wellFormed : cfg.WellFormed) {blockId : BlockId}
    (inside : blockId ∈ cfg.blocks.keys) (definition : Definition) :
    (definitionFlow functionNode cfg graph).Derives blockId definition ↔
      cfg.ReachesEnd functionNode graph definition blockId := by
  constructor
  · intro derives
    induction derives with
    | gen generated =>
        obtain ⟨rfl, known⟩ := (wellFormed.mem_blockGen inside _).mp generated
        exact ⟨known, .refl⟩
    | pass _ leads passes ih =>
        obtain ⟨rfl, unwritten⟩ := passes
        have before := ih (wellFormed.closed.leads leads).1
        exact ⟨before.1, before.2.tail ⟨leads, unwritten⟩⟩
  · rintro ⟨generated, path⟩
    induction path with
    | refl => exact .gen ((wellFormed.mem_blockGen generated.1 definition).mpr ⟨rfl, generated⟩)
    | tail _ step ih => exact .pass (ih (wellFormed.closed.leads step.1).1) step.1 ⟨rfl, step.2⟩

theorem WellFormed.mem_reachingDefinitions (wellFormed : cfg.WellFormed)
    {outSets : OrderedDict BlockId (Finset Definition)}
    (found : reachingDefinitions functionNode cfg graph = some outSets) {blockId : BlockId}
    (inside : blockId ∈ cfg.blocks.keys) (definition : Definition) :
    definition ∈ RoundRobin.read outSets blockId ↔
      cfg.ReachesEnd functionNode graph definition blockId := by
  rw [← wellFormed.derives_iff inside]
  exact wellFormed.closed.reaching_computes.mem_iff found inside definition

/-! ### The order of the blocks -/

namespace Reordered

variable {other : ControlFlowGraph} (reordered : cfg.Reordered other)

include reordered

theorem blockAt (blockId : BlockId) : other.blockAt blockId = cfg.blockAt blockId := by
  rw [ControlFlowGraph.blockAt, OrderedDict.get?_perm reordered.blocks, ControlFlowGraph.blockAt]

theorem statementsOf (blockId : BlockId) : other.statementsOf blockId = cfg.statementsOf blockId := by
  rw [ControlFlowGraph.statementsOf, OrderedDict.get?_perm reordered.blocks,
    ControlFlowGraph.statementsOf]

theorem events (blockId : BlockId) : other.events graph blockId = cfg.events graph blockId := by
  rw [ControlFlowGraph.events, reordered.blockAt, ControlFlowGraph.events]

theorem keys : cfg.blocks.keys.Perm other.blocks.keys := reordered.blocks.map Prod.fst

theorem leads : other.Leads = cfg.Leads := by
  funext source target
  rw [Leads, reordered.edges, Leads]

theorem closed (closed : cfg.Closed) : other.Closed := by
  intro edge inside
  have ends := closed edge (reordered.edges ▸ inside)
  exact ⟨reordered.keys.mem_iff.mp ends.1, reordered.keys.mem_iff.mp ends.2⟩

theorem wellFormed (formed : cfg.WellFormed) : other.WellFormed where
  keyed entry inside := formed.keyed entry (reordered.blocks.mem_iff.mpr inside)
  closed := reordered.closed formed.closed
  placed first firstInside second secondInside :=
    formed.placed first (reordered.blocks.mem_iff.mpr firstInside) second
      (reordered.blocks.mem_iff.mpr secondInside)

theorem declares (blockId : BlockId) (name : String) :
    other.Declares functionNode graph blockId name ↔ cfg.Declares functionNode graph blockId name := by
  rw [Declares, reordered.statementsOf, Declares]

theorem reachesEnd (definition : Definition) (blockId : BlockId) :
    other.ReachesEnd functionNode graph definition blockId ↔
      cfg.ReachesEnd functionNode graph definition blockId := by
  have preserves : other.Preserves graph definition.variableName =
      cfg.Preserves graph definition.variableName := by
    funext source target
    rw [Preserves, reordered.leads, reordered.events, Preserves]
  rw [ReachesEnd, Generated, reordered.declares, reordered.events, preserves, ReachesEnd, Generated,
    reordered.keys.mem_iff]

end Reordered

/-- The result has a set for each block, and it holds the definitions that reach the end of it. The
order of the blocks does not matter. -/
theorem reachingDefinitions_exact (functionNode : AstNode) (cfg : ControlFlowGraph) (graph : AstGraph)
    (wellFormed : cfg.WellFormed) :
    ∃ outSets, reachingDefinitions functionNode cfg graph = some outSets ∧
      outSets.keys = cfg.blocks.keys ∧
      (∀ blockId ∈ cfg.blocks.keys, ∀ definition, definition ∈ RoundRobin.read outSets blockId ↔
        cfg.ReachesEnd functionNode graph definition blockId) ∧
      ∀ other, cfg.Reordered other → ∃ again, reachingDefinitions functionNode other graph = some again ∧
        ∀ blockId ∈ cfg.blocks.keys, RoundRobin.read again blockId = RoundRobin.read outSets blockId := by
  obtain ⟨outSets, found⟩ := reachingDefinitions_terminates functionNode cfg graph
  have members := fun blockId (inside : blockId ∈ cfg.blocks.keys) =>
    wellFormed.mem_reachingDefinitions found inside
  refine ⟨outSets, found, RoundRobin.iterate_initial_keys cfg.blocks.keys_nodup found, members, ?_⟩
  intro other reordered
  obtain ⟨again, refound⟩ := reachingDefinitions_terminates functionNode other graph
  refine ⟨again, refound, fun blockId inside => ?_⟩
  ext definition
  rw [(reordered.wellFormed wellFormed).mem_reachingDefinitions refound
    (reordered.keys.mem_iff.mp inside), members blockId inside, reordered.reachesEnd]

/-! ### A loop -/

/-- This is the AST of `f() { int x; while (x) x = 1; }`. -/
def loopAst : AstGraph where
  nodes :=
    [{ nodeId := "f", nodeKind := .functionDecl, childrenIds := ["b"] },
      { nodeId := "b", nodeKind := .compoundStmt, parentId := "f", childrenIds := ["d", "w"] },
      { nodeId := "d", nodeKind := .varDecl, parentId := "b", semanticProperties := [("name", "x")] },
      { nodeId := "w", nodeKind := .whileStmt, parentId := "b", childrenIds := ["c", "a"] },
      { nodeId := "c", nodeKind := .declRefExpr, parentId := "w", semanticProperties := [("name", "x")] },
      { nodeId := "a", nodeKind := .binaryOperator, parentId := "w", childrenIds := ["l", "r"],
        semanticProperties := [("opcode", "=")] },
      { nodeId := "l", nodeKind := .declRefExpr, parentId := "a", semanticProperties := [("name", "x")] },
      { nodeId := "r", nodeKind := .other "IntegerLiteral", parentId := "a" }]

def loopFunction : AstNode := { nodeId := "f", nodeKind := .functionDecl, childrenIds := ["b"] }

/-- The body of the loop goes back to its header. -/
def loopFlow : ControlFlowGraph where
  functionNodeId := "f"
  blocks :=
    { entries :=
        [(.entry, { blockId := .entry, kind := .entry }), (.exit, { blockId := .exit, kind := .exit }),
          (.block 1, { blockId := .block 1, statements := (loopAst.get "d").toList }),
          (.block 2, { blockId := .block 2, kind := .loopHeader, statements := (loopAst.get "w").toList }),
          (.block 3, { blockId := .block 3, statements := (loopAst.get "a").toList })]
      distinct := by decide }
  edges :=
    [{ source := .entry, target := .block 1 }, { source := .block 1, target := .block 2 },
      { source := .block 2, target := .block 3, kind := .trueEdge },
      { source := .block 3, target := .block 2, kind := .loopBack },
      { source := .block 2, target := .exit, kind := .falseEdge }]

theorem loopFlow_closed : loopFlow.Closed := by
  unfold Closed
  decide

theorem loopFlow_wellFormed : loopFlow.WellFormed where
  keyed := by
    unfold Keyed
    decide
  closed := loopFlow_closed
  placed := by decide

theorem reachingDefinitions_loop :
    ∃ outSets, reachingDefinitions loopFunction loopFlow loopAst = some outSets ∧
      outSets.keys = loopFlow.blocks.keys ∧
      (∀ blockId ∈ loopFlow.blocks.keys, ∀ definition,
        definition ∈ RoundRobin.read outSets blockId ↔
          loopFlow.ReachesEnd loopFunction loopAst definition blockId) ∧
      ∀ other, loopFlow.Reordered other → ∃ again,
        reachingDefinitions loopFunction other loopAst = some again ∧
        ∀ blockId ∈ loopFlow.blocks.keys, RoundRobin.read again blockId = RoundRobin.read outSets blockId :=
  reachingDefinitions_exact loopFunction loopFlow loopAst loopFlow_wellFormed

end ControlFlowGraph
end MisraPlatform
