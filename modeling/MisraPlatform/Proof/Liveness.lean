import MisraPlatform.Proof.ReachingDefinitions

/-
This file is the exactness of the live names of a graph.
-/

namespace MisraPlatform
open DataFlowEngineV2

namespace ControlFlowGraph

variable {cfg : ControlFlowGraph} {graph : AstGraph}

/-- A name comes back over an edge into a block that does not write it. -/
def liveFlow (cfg : ControlFlowGraph) (graph : AstGraph) : RoundRobin.Flow BlockId String where
  edge target source := cfg.Leads source target
  gen blockId name := Exposed (cfg.events graph blockId) name
  pass blockId before name := before = name ∧ Unwritten (cfg.events graph blockId) name

theorem mem_exposedReads (blockId : BlockId) (name : String) :
    name ∈ (blockDefUse (cfg.blockAt blockId) graph).exposedReads ↔
      Exposed (cfg.events graph blockId) name :=
  (blockDefUse_summarizes (cfg.blockAt blockId) graph).exposed name

/-- The second set of a block is the union over the blocks that its edges lead to. -/
theorem mem_liveSets_out (graph : AstGraph) (live : BlockId → Finset String × Finset String) (blockId : BlockId)
    (name : String) : name ∈ (liveSets cfg graph blockId live).2 ↔
      ∃ target, cfg.Leads blockId target ∧ name ∈ (live target).1 := by
  simp only [liveSets, mem_foldl_union, Finset.notMem_empty, false_or, successors, List.mem_filter,
    decide_eq_true_eq, Leads]
  constructor
  · rintro ⟨edge, ⟨inside, source⟩, known⟩
    exact ⟨edge.target, ⟨edge, inside, source, rfl⟩, known⟩
  · rintro ⟨_, ⟨edge, inside, source, rfl⟩, known⟩
    exact ⟨edge, ⟨inside, source⟩, known⟩

theorem mem_liveSets_in (live : BlockId → Finset String × Finset String) (blockId : BlockId)
    (name : String) : name ∈ (liveSets cfg graph blockId live).1 ↔
      Exposed (cfg.events graph blockId) name ∨
        (∃ target, cfg.Leads blockId target ∧ name ∈ (live target).1) ∧
          Unwritten (cfg.events graph blockId) name := by
  rw [← mem_liveSets_out graph, ← mem_exposedReads, ← mem_writtenNames]
  simp only [liveSets, Finset.mem_union, Finset.mem_sdiff]

theorem live_computes (closed : cfg.Closed) :
    RoundRobin.Computes (liveSets cfg graph) Prod.fst (liveFlow cfg graph) cfg.blocks.keys where
  empty := rfl
  mem live blockId name := by
    rw [mem_liveSets_in]
    constructor
    · rintro (exposed | ⟨⟨target, leads, known⟩, unwritten⟩)
      · exact .inl exposed
      · exact .inr ⟨target, name, leads, known, rfl, unwritten⟩
    · rintro (exposed | ⟨target, before, leads, known, rfl, unwritten⟩)
      · exact .inl exposed
      · exact .inr ⟨⟨target, leads, known⟩, unwritten⟩
  listed target source leads := (closed.leads leads).symm

theorem card_pair_strictMono :
    StrictMono fun pair : Finset String × Finset String => pair.1.card + pair.2.card := by
  intro low high smaller
  rcases Prod.lt_iff.mp smaller with ⟨first, second⟩ | ⟨first, second⟩
  · exact Nat.add_lt_add_of_lt_of_le (Finset.card_lt_card first) (Finset.card_le_card second)
  · exact Nat.add_lt_add_of_le_of_lt (Finset.card_le_card first) (Finset.card_lt_card second)

theorem live_climbs (cfg : ControlFlowGraph) (graph : AstGraph) :
    RoundRobin.Climbs (liveSets cfg graph) cfg.blocks.keys
      (fun pair : Finset String × Finset String => pair.1.card + pair.2.card)
      (readNames cfg graph, readNames cfg graph) where
  mono low high smaller blockId := by
    have outs : ∀ name, (∃ target, cfg.Leads blockId target ∧ name ∈ (low target).1) →
        ∃ target, cfg.Leads blockId target ∧ name ∈ (high target).1 := by
      rintro name ⟨target, leads, known⟩
      exact ⟨target, leads, (smaller target).1 known⟩
    constructor
    · intro name known
      rw [mem_liveSets_in] at known ⊢
      exact known.imp id fun both => ⟨outs name both.1, both.2⟩
    · intro name known
      rw [mem_liveSets_out] at known ⊢
      exact outs name known
  below live bounded blockId inside := by
    constructor
    · intro name known
      rcases (mem_liveSets_in live blockId name).mp known with exposed | ⟨⟨target, _, found⟩, _⟩
      · exact Finset.mem_biUnion.mpr
          ⟨blockId, List.mem_toFinset.mpr inside, (mem_exposedReads blockId name).mpr exposed⟩
      · exact (bounded target).1 found
    · intro name known
      obtain ⟨target, _, found⟩ := (mem_liveSets_out graph live blockId name).mp known
      exact (bounded target).1 found
  strict := card_pair_strictMono

theorem liveness_terminates (cfg : ControlFlowGraph) (graph : AstGraph) :
    ∃ live, liveness cfg graph = some live := (live_climbs cfg graph).solves

/-- A derived name is read on a path that begins with the block itself. -/
theorem live_derives_iff (blockId : BlockId) (name : String) :
    (liveFlow cfg graph).Derives blockId name ↔ ∃ user,
      Relation.ReflTransGen (fun source target =>
        cfg.Leads source target ∧ Unwritten (cfg.events graph source) name) blockId user ∧
        Exposed (cfg.events graph user) name := by
  constructor
  · intro derives
    induction derives with
    | gen exposed => exact ⟨_, .refl, exposed⟩
    | pass _ leads passes ih =>
        obtain ⟨rfl, unwritten⟩ := passes
        obtain ⟨user, path, exposed⟩ := ih
        exact ⟨user, path.head ⟨leads, unwritten⟩, exposed⟩
  · rintro ⟨user, path, exposed⟩
    induction path using Relation.ReflTransGen.head_induction_on with
    | refl => exact .gen exposed
    | head step _ ih => exact .pass ih step.1 ⟨rfl, step.2⟩

/-- The first edge of a path leads to a block from which clear blocks go on to its end. -/
theorem pathBetween_head (clear : BlockId → Prop) (source target : BlockId) :
    cfg.PathBetween clear source target ↔ ∃ first, cfg.Leads source first ∧
      Relation.ReflTransGen (fun before after => cfg.Leads before after ∧ clear before) first target := by
  constructor
  · intro path
    induction path with
    | single leads => exact ⟨_, leads, .refl⟩
    | further _ passes leads ih =>
        obtain ⟨first, start, path⟩ := ih
        exact ⟨first, start, path.tail ⟨leads, passes⟩⟩
  · rintro ⟨first, start, path⟩
    induction path with
    | refl => exact .single start
    | tail _ step ih => exact .further ih step.2 step.1

/-- The names after a block are those that its edges bring back. -/
theorem mem_liveOut_iff (closed : cfg.Closed)
    {live : OrderedDict BlockId (Finset String × Finset String)}
    (found : liveness cfg graph = some live) {blockId : BlockId} (inside : blockId ∈ cfg.blocks.keys)
    (name : String) : name ∈ liveOut live blockId ↔
      ∃ next, cfg.Leads blockId next ∧ (liveFlow cfg graph).Derives next name := by
  rw [liveOut, ← RoundRobin.iterate_fixed cfg.blocks.keys found blockId inside, mem_liveSets_out]
  constructor
  · rintro ⟨next, leads, known⟩
    exact ⟨next, leads, ((live_computes closed).mem_iff found (closed.leads leads).2 name).mp known⟩
  · rintro ⟨next, leads, derives⟩
    exact ⟨next, leads, ((live_computes closed).mem_iff found (closed.leads leads).2 name).mpr derives⟩

theorem mem_liveOut (closed : cfg.Closed)
    {live : OrderedDict BlockId (Finset String × Finset String)}
    (found : liveness cfg graph = some live) {blockId : BlockId} (inside : blockId ∈ cfg.blocks.keys)
    (name : String) : name ∈ liveOut live blockId ↔ cfg.LiveAfter graph blockId name := by
  rw [mem_liveOut_iff closed found inside, LiveAfter]
  simp only [pathBetween_head, live_derives_iff]
  constructor
  · rintro ⟨first, leads, user, path, exposed⟩
    exact ⟨user, ⟨first, leads, path⟩, exposed⟩
  · rintro ⟨user, ⟨first, leads, path⟩, exposed⟩
    exact ⟨first, leads, user, path, exposed⟩

/-- The result has a set for each block, and it holds the names that some path after the block reads
first. The order of the blocks does not matter. -/
theorem liveness_exact (cfg : ControlFlowGraph) (graph : AstGraph) (closed : cfg.Closed) :
    ∃ live, liveness cfg graph = some live ∧ live.keys = cfg.blocks.keys ∧
      (∀ blockId ∈ cfg.blocks.keys, ∀ name,
        name ∈ liveOut live blockId ↔ cfg.LiveAfter graph blockId name) ∧
      ∀ other, cfg.Reordered other → ∃ again, liveness other graph = some again ∧
        ∀ blockId ∈ cfg.blocks.keys, liveOut again blockId = liveOut live blockId := by
  obtain ⟨live, found⟩ := liveness_terminates cfg graph
  have members := fun blockId (inside : blockId ∈ cfg.blocks.keys) => mem_liveOut closed found inside
  refine ⟨live, found, RoundRobin.iterate_initial_keys cfg.blocks.keys_nodup found, members, ?_⟩
  intro other reordered
  obtain ⟨again, refound⟩ := liveness_terminates other graph
  refine ⟨again, refound, fun blockId inside => ?_⟩
  ext name
  rw [mem_liveOut (reordered.closed closed) refound (reordered.keys.mem_iff.mp inside), members blockId inside]
  simp only [LiveAfter, pathBetween_head, reordered.leads, reordered.events]

theorem liveness_loop :
    ∃ live, liveness loopFlow loopAst = some live ∧ live.keys = loopFlow.blocks.keys ∧
      (∀ blockId ∈ loopFlow.blocks.keys, ∀ name,
        name ∈ liveOut live blockId ↔ loopFlow.LiveAfter loopAst blockId name) ∧
      ∀ other, loopFlow.Reordered other → ∃ again, liveness other loopAst = some again ∧
        ∀ blockId ∈ loopFlow.blocks.keys, liveOut again blockId = liveOut live blockId :=
  liveness_exact loopFlow loopAst loopFlow_closed

end ControlFlowGraph
end MisraPlatform
