import MisraPlatform.Proof.ReachingDefinitions

/-
This file is the exactness of the uninitialized reads over the events of the blocks.
-/

namespace MisraPlatform
open DataFlowEngineV2

/-! ### The replay of a block -/

/-- The event reads a name of the set before the list writes it. -/
def ReadsFirst (start : Finset String) (occurrence : List Event × Event) : Prop :=
  occurrence.2.reads = true ∧ occurrence.2.name ∈ start ∧ Unwritten occurrence.1 occurrence.2.name

instance (start : Finset String) : DecidablePred (ReadsFirst start) :=
  fun _ => inferInstanceAs (Decidable (_ ∧ _ ∧ _))

theorem replayReads_from (start : Finset String) (events before : List Event) (uninit : Finset String)
    (left : ∀ name, name ∈ uninit ↔ name ∈ start ∧ Unwritten before name) :
    replayReads uninit events =
      ((occurrencesFrom before events).filter fun occurrence => ReadsFirst start occurrence).map
        fun occurrence => occurrence.2.ref := by
  induction events generalizing before uninit with
  | nil => rfl
  | cons event rest ih =>
      have next : ∀ remaining : Finset String,
          (∀ name, name ∈ remaining ↔ name ∈ uninit ∧ (event.isWrite = true → event.name ≠ name)) →
          ∀ name, name ∈ remaining ↔ name ∈ start ∧ Unwritten (before ++ [event]) name := by
        intro remaining same name
        rw [same, left, unwritten_append, unwritten_singleton, and_assoc]
      rw [occurrencesFrom, replayReads]
      by_cases known : event.name ∈ uninit
      · obtain ⟨listed, unwritten⟩ := (left event.name).mp known
        have following := ih (before ++ [event])
          (if event.isWrite then uninit.erase event.name else uninit) (next _ fun name => by
            cases writes : event.isWrite <;> simp [eq_comm, and_comm])
        rw [if_neg (not_not.mpr known), following]
        cases reads : event.reads <;> simp [ReadsFirst, reads, listed, unwritten]
      · have missed : ¬ ReadsFirst start (before, event) := fun both => known ((left _).mpr both.2)
        rw [if_pos known, List.filter_cons, if_neg (by simpa using missed)]
        apply ih (before ++ [event]) uninit
        apply next
        intro name
        refine ⟨fun inside => ⟨inside, fun _ same => known (same ▸ inside)⟩, fun both => both.1⟩

theorem replayReads_eq (start : Finset String) (events : List Event) :
    replayReads start events = ((occurrences events).filter fun occurrence =>
      ReadsFirst start occurrence).map fun occurrence => occurrence.2.ref :=
  replayReads_from start events [] start fun name => by simp [unwritten_nil]

namespace ControlFlowGraph

variable {functionNode : AstNode} {cfg : ControlFlowGraph} {graph : AstGraph}

/-- The last edge of a path leads to its end from a block that clear edges lead to. -/
theorem pathBetween_iff (clear : BlockId → Prop) (source target : BlockId) :
    cfg.PathBetween clear source target ↔ ∃ last,
      Relation.ReflTransGen (fun before after => cfg.Leads before after ∧ clear after) source last ∧
        cfg.Leads last target := by
  constructor
  · intro path
    induction path with
    | single leads => exact ⟨source, .refl, leads⟩
    | further _ passes leads ih =>
        obtain ⟨last, front, step⟩ := ih
        exact ⟨_, front.tail ⟨step, passes⟩, leads⟩
  · rintro ⟨last, front, leads⟩
    induction front generalizing target with
    | refl => exact .single leads
    | tail _ step ih => exact .further (ih _ step.1) step.2 leads

/-- The serializer numbers its nodes, so no reference has the id that stands for a missing store. -/
def SitesNamed (cfg : ControlFlowGraph) (graph : AstGraph) : Prop :=
  ∀ blockId ∈ cfg.blocks.keys, ∀ event ∈ cfg.events graph blockId, event.ref.nodeId ≠ UNINIT

/-- A definition without a store comes from a declaration. -/
theorem SitesNamed.reachesEnd (named : cfg.SitesNamed graph) (name : String) (blockId : BlockId) :
    (∃ definition, cfg.ReachesEnd functionNode graph definition blockId ∧
      definition.siteNodeId = UNINIT ∧ definition.variableName = name) ↔
      ∃ source ∈ cfg.blocks.keys, cfg.Declares functionNode graph source name ∧
        Unwritten (cfg.events graph source) name ∧
        Relation.ReflTransGen (cfg.Preserves graph name) source blockId := by
  constructor
  · rintro ⟨definition, ⟨⟨inside, ⟨event, last, _, same⟩ | ⟨declares, _, unwritten⟩⟩, path⟩, site, rfl⟩
    · obtain ⟨before, after, split, _⟩ := last
      have listed : event ∈ cfg.events graph definition.blockId := by
        rw [split]
        exact List.mem_append_right _ List.mem_cons_self
      exact absurd (same.trans site) (named _ inside event listed)
    · exact ⟨definition.blockId, inside, declares, unwritten, path⟩
  · rintro ⟨source, inside, declares, unwritten, path⟩
    exact ⟨⟨name, UNINIT, source⟩, ⟨⟨inside, .inr ⟨declares, rfl, unwritten⟩⟩, path⟩, rfl, rfl⟩

theorem declares_inside {blockId : BlockId} {name : String}
    (declares : cfg.Declares functionNode graph blockId name) : blockId ∈ cfg.blocks.keys := by
  obtain ⟨_, _, _, _, statement, here, _⟩ := declares
  obtain ⟨block, inside, _⟩ := entry_of_statement here
  exact List.mem_map.mpr ⟨_, inside, rfl⟩

/-- The replay of a block starts with the names that may be uninitialized there. -/
theorem WellFormed.mem_reachingUninit (wellFormed : cfg.WellFormed) (named : cfg.SitesNamed graph)
    {outSets : OrderedDict BlockId (Finset Definition)}
    (found : reachingDefinitions functionNode cfg graph = some outSets) (blockId : BlockId)
    (name : String) :
    name ∈ ((inSet blockId cfg (RoundRobin.read outSets)).filter fun definition =>
        definition.siteNodeId = UNINIT).image Definition.variableName ∪
        declNames functionNode cfg graph blockId ↔
      cfg.UninitAt functionNode graph blockId name := by
  simp only [Finset.mem_union, Finset.mem_image, Finset.mem_filter, mem_inSet, wellFormed.mem_declNames,
    UninitAt, pathBetween_iff]
  constructor
  · rintro (⟨definition, ⟨⟨last, leads, known⟩, site⟩, same⟩ | declares)
    · rw [wellFormed.mem_reachingDefinitions found (wellFormed.closed.leads leads).1] at known
      obtain ⟨source, _, declares, unwritten, path⟩ :=
        (named.reachesEnd name last).mp ⟨definition, known, site, same⟩
      exact .inr ⟨source, declares, unwritten, last, path, leads⟩
    · exact .inl declares
  · rintro (declares | ⟨source, declares, unwritten, last, path, leads⟩)
    · exact .inr declares
    · obtain ⟨definition, known, site, same⟩ := (named.reachesEnd name last).mpr
        ⟨source, declares_inside declares, declares, unwritten, path⟩
      rw [← wellFormed.mem_reachingDefinitions found (wellFormed.closed.leads leads).1] at known
      exact .inl ⟨definition, ⟨⟨last, leads, known⟩, site⟩, same⟩

open Classical in
/-- The findings are the events that read a name before any write on a path from a declaration
without an initializer. They stand in the order of the events, each of them once. -/
theorem uninitializedReads_exact (functionNode : AstNode) (cfg : ControlFlowGraph) (graph : AstGraph)
    (wellFormed : cfg.WellFormed) (named : cfg.SitesNamed graph) :
    uninitializedReads functionNode cfg graph =
      some (((cfg.eventOccurrences graph).filter fun occurrence =>
        decide (cfg.UninitRead functionNode graph occurrence)).map fun occurrence =>
          occurrence.2.2.ref) := by
  obtain ⟨outSets, found⟩ := reachingDefinitions_terminates functionNode cfg graph
  simp only [uninitializedReads, found, Option.bind_eq_bind, Option.bind_some, eventOccurrences,
    OrderedDict.keys, List.flatMap_map, List.filter_flatMap, List.map_flatMap]
  congr 1
  apply List.flatMap_congr
  rintro ⟨blockId, block⟩ inside
  rw [replayReads_eq, List.filter_map, List.map_map, events, blockAt_of_mem inside]
  congr 1
  apply List.filter_congr
  intro occurrence _
  simp only [Function.comp, ReadsFirst, UninitRead, wellFormed.mem_reachingUninit named found]
  apply decide_eq_decide.mpr
  constructor
  · rintro ⟨reads, known, unwritten⟩
    exact ⟨reads, unwritten, known⟩
  · rintro ⟨reads, unwritten, known⟩
    exact ⟨reads, known, unwritten⟩

theorem loopFlow_sitesNamed : loopFlow.SitesNamed loopAst := by
  unfold SitesNamed
  decide

open Classical in
theorem uninitializedReads_loop :
    uninitializedReads loopFunction loopFlow loopAst =
      some (((loopFlow.eventOccurrences loopAst).filter fun occurrence =>
        decide (loopFlow.UninitRead loopFunction loopAst occurrence)).map fun occurrence =>
          occurrence.2.2.ref) :=
  uninitializedReads_exact loopFunction loopFlow loopAst loopFlow_wellFormed loopFlow_sitesNamed

end ControlFlowGraph
end MisraPlatform
