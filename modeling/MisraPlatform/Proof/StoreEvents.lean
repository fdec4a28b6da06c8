import MisraPlatform.Proof.Liveness
import MisraPlatform.Proof.Scan

/-
This file is the exactness of the dead stores over the events of the blocks.
-/

namespace MisraPlatform
open DataFlowEngineV2

/-! ### The replay of a block -/

/-- The name is read in the rest of the block, or the rest leaves it alone and it is live after the block. -/
def LiveBefore (start : Finset String) (after : List Event) (name : String) : Prop :=
  Exposed after name ∨ (Unwritten after name ∧ name ∈ start)

theorem exposed_cons (event : Event) (rest : List Event) (name : String) :
    Exposed (event :: rest) name ↔ (event.reads = true ∧ event.name = name) ∨
      ((event.isWrite = true → event.name ≠ name) ∧ Exposed rest name) := by
  constructor
  · rintro ⟨before, found, after, same, reads, named, unwritten⟩
    cases before with
    | nil =>
        cases same
        exact .inl ⟨reads, named⟩
    | cons first before =>
        cases same
        obtain ⟨spared, rest⟩ := (unwritten_cons event before name).mp unwritten
        exact .inr ⟨spared, before, found, after, rfl, reads, named, rest⟩
  · rintro (⟨reads, named⟩ | ⟨spared, before, found, after, rfl, reads, named, unwritten⟩)
    · exact ⟨[], event, rest, rfl, reads, named, unwritten_nil name⟩
    · exact ⟨event :: before, found, after, rfl, reads, named,
        (unwritten_cons event before name).mpr ⟨spared, unwritten⟩⟩

theorem liveBefore_nil (start : Finset String) (name : String) :
    LiveBefore start [] name ↔ name ∈ start := by
  simp [LiveBefore, not_exposed_nil, unwritten_nil]

theorem liveBefore_cons (start : Finset String) (event : Event) (after : List Event) (name : String) :
    LiveBefore start (event :: after) name ↔ (event.reads = true ∧ event.name = name) ∨
      ((event.isWrite = true → event.name ≠ name) ∧ LiveBefore start after name) := by
  rw [LiveBefore, exposed_cons, unwritten_cons, LiveBefore, or_assoc, and_or_left, and_assoc]

/-- The event stores without reading and the rest of the list does not need its value. -/
def DeadStore (start : Finset String) (event : Event) (after : List Event) : Prop :=
  event.isWrite = true ∧ event.isReadToo = false ∧ ¬ LiveBefore start after event.name

theorem occurrencesFrom_concat {α : Type} (start list : List α) (item : α) :
    occurrencesFrom start (list ++ [item]) = occurrencesFrom start list ++ [(start ++ list, item)] := by
  induction list generalizing start with
  | nil => simp [occurrencesFrom]
  | cons first rest ih => simp [occurrencesFrom, ih]

theorem occurrences_concat {α : Type} (list : List α) (item : α) :
    occurrences (list ++ [item]) = occurrences list ++ [(list, item)] := occurrencesFrom_concat [] list item

/-- No two occurrences have the same items before them. -/
theorem occurrences_nodup {α : Type} (list : List α) : (occurrences list).Nodup := by
  induction list using List.reverseRecOn with
  | nil => exact List.nodup_nil
  | append_singleton list item ih =>
      rw [occurrences_concat]
      refine ih.append (List.nodup_singleton _) ?_
      rw [List.disjoint_singleton]
      intro inside
      obtain ⟨after, same⟩ := (mem_occurrences list list item).mp inside
      simpa using congrArg List.length same

/-- The items that stand behind an occurrence in its list. -/
def behind {α : Type} (list : List α) (occurrence : List α × α) : List α :=
  list.drop (occurrence.1.length + 1)

theorem behind_split {α : Type} (before after : List α) (item : α) :
    behind (before ++ item :: after) (before, item) = after := by
  simp [behind, List.drop_append]

theorem behind_concat {α : Type} {list : List α} {occurrence : List α × α}
    (inside : occurrence ∈ occurrences list) (item : α) :
    behind (list ++ [item]) occurrence = behind list occurrence ++ [item] := by
  obtain ⟨before, found⟩ := occurrence
  obtain ⟨after, rfl⟩ := (mem_occurrences list before found).mp inside
  rw [behind_split, List.append_assoc, List.cons_append, behind_split]

open Classical in
/-- The scan backwards reports the dead stores, each of them once. -/
theorem replayStores_eq (start : Finset String) (earlier after : List Event) (live : Finset String)
    (same : ∀ name, name ∈ live ↔ LiveBefore start after name) :
    replayStores live earlier.reverse = ((occurrences earlier).filter fun occurrence =>
      decide (DeadStore start occurrence.2 (behind earlier occurrence ++ after))).reverse.map
        fun occurrence => occurrence.2.ref := by
  induction earlier using List.reverseRecOn generalizing after live with
  | nil => simp [replayStores, occurrences, occurrencesFrom]
  | append_singleton earlier event ih =>
      rw [List.reverse_append, List.reverse_singleton, List.singleton_append, replayStores]
      have next : ∀ name, name ∈ (if event.reads then insert event.name
          (if event.isWrite && !event.isReadToo then live.erase event.name else live)
          else if event.isWrite && !event.isReadToo then live.erase event.name else live) ↔
          LiveBefore start (event :: after) name := by
        intro name
        rw [liveBefore_cons, ← same]
        cases writes : event.isWrite <;> cases reads : event.isReadToo <;> grind [Event.reads]
      have dead : (event.isWrite && !event.isReadToo) = true ∧ event.name ∉ live ↔
          DeadStore start event after := by
        rw [same, DeadStore, Bool.and_eq_true, Bool.not_eq_true', and_assoc]
      have others : (occurrences earlier).filter (fun occurrence =>
          decide (DeadStore start occurrence.2 (behind (earlier ++ [event]) occurrence ++ after))) =
          (occurrences earlier).filter fun occurrence =>
            decide (DeadStore start occurrence.2 (behind earlier occurrence ++ event :: after)) := by
        apply List.filter_congr
        intro occurrence inside
        rw [behind_concat inside, List.append_assoc, List.singleton_append]
      rw [ih (event :: after) _ next, occurrences_concat, List.filter_append, List.reverse_append,
        List.map_append, others]
      congr 1
      have last : behind (earlier ++ [event]) (earlier, event) = [] := behind_split earlier [] event
      by_cases reported : (event.isWrite && !event.isReadToo) = true ∧ event.name ∉ live
      · rw [if_pos reported, List.filter_cons, last, List.nil_append,
          if_pos (decide_eq_true (dead.mp reported))]
        rfl
      · rw [if_neg reported, List.filter_cons, last, List.nil_append,
          if_neg (by simpa using fun stored => reported (dead.mpr stored))]
        rfl

namespace ControlFlowGraph

variable {cfg : ControlFlowGraph} {graph : AstGraph}

/-! ### Reads that come next -/

/-- The first event of the name in the list reads it. -/
def ReadsFirstOf (events : List Event) (name : String) : Prop :=
  ∃ before event after, events = before ++ event :: after ∧ event.name = name ∧ event.reads = true ∧
    ∀ earlier ∈ before, earlier.name ≠ name

/-- From the rest of the block on, some way meets a read of the name before every other event of it. -/
def MeetsRead (cfg : ControlFlowGraph) (graph : AstGraph) (blockId : BlockId) (name : String)
    (after : List Event) : Prop :=
  ReadsFirstOf after name ∨ ((∀ event ∈ after, event.name ≠ name) ∧
    ∃ user, cfg.PathBetween (fun middle => Unwritten (cfg.events graph middle) name) blockId user ∧
      ReadsFirstOf (cfg.events graph user) name)

/-- The event stores, and no way from it meets a read of its name first. -/
def DeadWrite (cfg : ControlFlowGraph) (graph : AstGraph) (blockId : BlockId)
    (occurrence : List Event × Event) : Prop :=
  occurrence.2.isWrite = true ∧ occurrence.2.isReadToo = false ∧
    ¬ cfg.MeetsRead graph blockId occurrence.2.name (behind (cfg.events graph blockId) occurrence)

/-- A name is exposed when its first event reads it. -/
theorem exposed_iff_readsFirstOf (events : List Event) (name : String) :
    Exposed events name ↔ ReadsFirstOf events name := by
  constructor
  · intro exposed
    induction events with
    | nil => exact absurd exposed (not_exposed_nil name)
    | cons event rest ih =>
        obtain ⟨reads, named⟩ | ⟨spared, later⟩ := (exposed_cons event rest name).mp exposed
        · exact ⟨[], event, rest, rfl, named, reads, fun _ inside => absurd inside List.not_mem_nil⟩
        · by_cases named : event.name = name
          · have reads : event.reads = true := by
              cases writes : event.isWrite with
              | true => exact absurd named (spared writes)
              | false => simp [Event.reads, writes]
            exact ⟨[], event, rest, rfl, named, reads, fun _ inside => absurd inside List.not_mem_nil⟩
          · obtain ⟨before, found, after, rfl, same, reads, clear⟩ := ih later
            exact ⟨event :: before, found, after, rfl, same, reads, List.forall_mem_cons.mpr ⟨named, clear⟩⟩
  · rintro ⟨before, event, after, rfl, named, reads, clear⟩
    exact ⟨before, event, after, rfl, reads, named, fun earlier inside _ => clear earlier inside⟩

/-- A list that neither writes the name nor reads it first has no event of it. -/
theorem clear_iff (events : List Event) (name : String) :
    (∀ event ∈ events, event.name ≠ name) ↔ Unwritten events name ∧ ¬ Exposed events name := by
  constructor
  · intro clear
    refine ⟨fun event inside _ => clear event inside, ?_⟩
    rintro ⟨before, event, after, rfl, _, named, _⟩
    exact clear event (List.mem_append_right _ List.mem_cons_self) named
  · rintro ⟨unwritten, hidden⟩ event inside named
    obtain ⟨before, after, rfl⟩ := List.append_of_mem inside
    have reads : event.reads = true := by
      cases writes : event.isWrite with
      | true => exact absurd named (unwritten event inside writes)
      | false => simp [Event.reads, writes]
    exact hidden ⟨before, event, after, rfl, reads, named,
      ((unwritten_append before (event :: after) name).mp unwritten).1⟩

/-- The value of the event is read in the rest of its block or after it, in the order of the text. -/
def ReadLater (cfg : ControlFlowGraph) (graph : AstGraph) (blockId : BlockId) (event : Event)
    (after : List Event) : Prop :=
  Exposed after event.name ∨ (Unwritten after event.name ∧ cfg.LiveAfter graph blockId event.name)

theorem readLater_iff (blockId : BlockId) (event : Event) (after : List Event) :
    cfg.ReadLater graph blockId event after ↔ cfg.MeetsRead graph blockId event.name after := by
  simp only [ReadLater, MeetsRead, LiveAfter, clear_iff, ← exposed_iff_readsFirstOf]
  constructor
  · rintro (exposed | ⟨unwritten, later⟩)
    · exact .inl exposed
    · by_cases exposed : Exposed after event.name
      · exact .inl exposed
      · exact .inr ⟨⟨unwritten, exposed⟩, later⟩
  · rintro (exposed | ⟨⟨unwritten, _⟩, later⟩)
    · exact .inl exposed
    · exact .inr ⟨unwritten, later⟩

open Classical in
/-- The reports are the dead writes of all blocks, backwards in each block and each of them once. -/
theorem deadStores_exact (cfg : ControlFlowGraph) (graph : AstGraph) (closed : cfg.Closed) :
    deadStores cfg graph = some (cfg.blocks.keys.flatMap fun blockId =>
      ((occurrences (cfg.events graph blockId)).filter fun occurrence =>
        decide (cfg.DeadWrite graph blockId occurrence)).reverse.map fun occurrence =>
          occurrence.2.ref) ∧
      ∀ blockId, (occurrences (cfg.events graph blockId)).Nodup := by
  refine ⟨?_, fun blockId => occurrences_nodup _⟩
  obtain ⟨live, found⟩ := liveness_terminates cfg graph
  simp only [deadStores, found, Option.bind_eq_bind, Option.bind_some, OrderedDict.keys, List.flatMap_map]
  congr 1
  apply List.flatMap_congr
  rintro ⟨blockId, block⟩ inside
  have listed : blockId ∈ cfg.blocks.keys := List.mem_map_of_mem inside
  rw [← blockAt_of_mem inside]
  change replayStores _ (cfg.events graph blockId).reverse = _
  rw [replayStores_eq (liveOut live blockId) _ [] _ fun name => (liveBefore_nil _ name).symm]
  congr 2
  apply List.filter_congr
  intro occurrence _
  apply decide_eq_decide.mpr
  rw [DeadWrite, ← readLater_iff, DeadStore, List.append_nil, LiveBefore, mem_liveOut closed found listed,
    ReadLater]

/-- The loop is such a graph. -/
theorem deadStores_exact_loop :
    deadStores loopFlow loopAst = some (loopFlow.blocks.keys.flatMap fun blockId =>
      ((occurrences (loopFlow.events loopAst blockId)).filter fun occurrence =>
        @decide (loopFlow.DeadWrite loopAst blockId occurrence) (Classical.propDecidable _)).reverse.map
          fun occurrence => occurrence.2.ref) ∧
      ∀ blockId, (occurrences (loopFlow.events loopAst blockId)).Nodup :=
  deadStores_exact loopFlow loopAst loopFlow_closed

end ControlFlowGraph
end MisraPlatform
