import MisraPlatform.Semantics.FlowPaths

/-
This file gives the definitions and uses of a block in terms of its events.
-/

namespace MisraPlatform
open DataFlowEngineV2

/-! ### Lists of events -/

theorem unwritten_nil (name : String) : Unwritten [] name := by simp [Unwritten]

theorem unwritten_append (first second : List Event) (name : String) :
    Unwritten (first ++ second) name ↔ Unwritten first name ∧ Unwritten second name :=
  List.forall_mem_append

theorem unwritten_cons (event : Event) (rest : List Event) (name : String) :
    Unwritten (event :: rest) name ↔ (event.isWrite = true → event.name ≠ name) ∧ Unwritten rest name :=
  List.forall_mem_cons

theorem unwritten_singleton (event : Event) (name : String) :
    Unwritten [event] name ↔ (event.isWrite = true → event.name ≠ name) := by
  simp [Unwritten]

/-- A list that ends with an event exposes what it exposed before and what the event reads. -/
theorem exposed_concat (events : List Event) (event : Event) (name : String) :
    Exposed (events ++ [event]) name ↔
      Exposed events name ∨ (event.reads = true ∧ event.name = name ∧ Unwritten events name) := by
  constructor
  · rintro ⟨before, found, after, same, reads, named, unwritten⟩
    rcases List.eq_nil_or_concat after with rfl | ⟨front, last, rfl⟩
    · obtain ⟨rfl, final⟩ := List.append_inj' same rfl
      cases final
      exact .inr ⟨reads, named, unwritten⟩
    · have split : events ++ [event] = (before ++ found :: front) ++ [last] := by simpa using same
      obtain ⟨rfl, _⟩ := List.append_inj' split rfl
      exact .inl ⟨before, found, front, rfl, reads, named, unwritten⟩
  · rintro (⟨before, found, after, rfl, reads, named, unwritten⟩ | ⟨reads, named, unwritten⟩)
    · exact ⟨before, found, after ++ [event], by simp, reads, named, unwritten⟩
    · exact ⟨events, event, [], rfl, reads, named, unwritten⟩

theorem not_exposed_nil (name : String) : ¬ Exposed [] name := by
  rintro ⟨before, event, after, same, _⟩
  simp at same

/-- The last write of a list is its last event or the last write before that. -/
theorem lastWrite_concat (events : List Event) (event found : Event) :
    LastWrite (events ++ [event]) found ↔
      (found = event ∧ event.isWrite = true) ∨
        (LastWrite events found ∧ (event.isWrite = true → event.name ≠ found.name)) := by
  constructor
  · rintro ⟨before, after, same, writes, unwritten⟩
    rcases List.eq_nil_or_concat after with rfl | ⟨front, last, rfl⟩
    · obtain ⟨rfl, final⟩ := List.append_inj' same rfl
      cases final
      exact .inl ⟨rfl, writes⟩
    · have split : events ++ [event] = (before ++ found :: front) ++ [last] := by simpa using same
      obtain ⟨rfl, final⟩ := List.append_inj' split rfl
      cases final
      rw [List.concat_eq_append] at unwritten
      have parts := (unwritten_append front [event] found.name).mp unwritten
      exact .inr ⟨⟨before, front, rfl, writes, parts.1⟩,
        (unwritten_singleton event found.name).mp parts.2⟩
  · rintro (⟨rfl, writes⟩ | ⟨⟨before, after, rfl, writes, unwritten⟩, other⟩)
    · exact ⟨events, [], rfl, writes, unwritten_nil _⟩
    · refine ⟨before, after ++ [event], by simp, writes, ?_⟩
      exact (unwritten_append after [event] found.name).mpr
        ⟨unwritten, (unwritten_singleton event found.name).mpr other⟩

theorem not_lastWrite_nil (event : Event) : ¬ LastWrite [] event := by
  rintro ⟨before, after, same, _⟩
  simp at same

/-! ### Definitions and uses -/

/-- The fold over the events of a block collects its writes and its exposed reads. -/
structure Summarizes (defUse : DefUse) (events : List Event) : Prop where
  writes : defUse.writes = (events.filter Event.isWrite).map fun event => (event.name, event.ref)
  exposed : ∀ name, name ∈ defUse.exposedReads ↔ Exposed events name
  defined : ∀ name, name ∉ defUse.locallyDefined ↔ Unwritten events name

theorem Summarizes.next {defUse : DefUse} {events : List Event} (summary : Summarizes defUse events)
    (event : Event) : Summarizes (defUse.next event) (events ++ [event]) := by
  constructor
  · rw [List.filter_append, List.map_append, ← summary.writes]
    cases writes : event.isWrite <;> simp [DefUse.next, writes]
  · intro name
    rw [exposed_concat, ← summary.exposed, ← summary.defined]
    simp only [DefUse.next]
    split
    · rename_i both
      rw [Finset.mem_insert]
      constructor
      · rintro (rfl | old)
        · exact .inr ⟨both.1, rfl, both.2⟩
        · exact .inl old
      · rintro (old | ⟨_, rfl, _⟩)
        · exact .inr old
        · exact .inl rfl
    · rename_i neither
      constructor
      · exact .inl
      · rintro (old | ⟨reads, rfl, fresh⟩)
        · exact old
        · exact absurd ⟨reads, fresh⟩ neither
  · intro name
    rw [unwritten_append, unwritten_singleton, ← summary.defined]
    cases writes : event.isWrite
    · simp [DefUse.next, writes]
    · simp only [DefUse.next, writes, if_true, Finset.mem_insert, not_or, forall_const]
      exact ⟨fun both => ⟨both.2, Ne.symm both.1⟩, fun both => ⟨Ne.symm both.2, both.1⟩⟩

theorem foldl_summarizes (events : List Event) : Summarizes (events.foldl DefUse.next {}) events := by
  induction events using List.reverseRecOn with
  | nil =>
      refine ⟨rfl, fun name => ?_, fun name => ?_⟩
      · simp [not_exposed_nil]
      · simp [unwritten_nil]
  | append_singleton events event ih =>
      rw [List.foldl_append]
      exact ih.next event

theorem blockDefUse_summarizes (block : BasicBlock) (graph : AstGraph) :
    Summarizes (blockDefUse block graph) (blockEvents block graph) := foldl_summarizes _

theorem mem_writtenNames (cfg : ControlFlowGraph) (graph : AstGraph) (blockId : BlockId) (name : String) :
    name ∉ writtenNames cfg graph blockId ↔ Unwritten (cfg.events graph blockId) name := by
  rw [writtenNames, (blockDefUse_summarizes (cfg.blockAt blockId) graph).writes]
  simp only [List.map_map, List.mem_toFinset, List.mem_map, List.mem_filter, Function.comp, not_exists,
    not_and, and_imp, Unwritten, ControlFlowGraph.events]

/-! ### Edges -/

section Edges

variable {cfg : ControlFlowGraph} {α : Type} [DecidableEq α]

theorem mem_foldl_union {ι : Type} (items : List ι) (value : ι → Finset α) (start : Finset α) (fact : α) :
    fact ∈ items.foldl (fun sum item => sum ∪ value item) start ↔
      fact ∈ start ∨ ∃ item ∈ items, fact ∈ value item := by
  induction items generalizing start with
  | nil => simp
  | cons item rest ih => simp [ih, or_assoc]

theorem mem_inSet (blockId : BlockId) (outSets : BlockId → Finset α) (fact : α) :
    fact ∈ inSet blockId cfg outSets ↔ ∃ source, cfg.Leads source blockId ∧ fact ∈ outSets source := by
  simp only [inSet, mem_foldl_union, Finset.notMem_empty, false_or, ControlFlowGraph.predecessors,
    List.mem_filter, decide_eq_true_eq, ControlFlowGraph.Leads]
  constructor
  · rintro ⟨edge, ⟨inside, rfl⟩, known⟩
    exact ⟨edge.source, ⟨edge, inside, rfl, rfl⟩, known⟩
  · rintro ⟨_, ⟨edge, inside, rfl, target⟩, known⟩
    exact ⟨edge, ⟨inside, target⟩, known⟩

theorem inSet_mono {low high : BlockId → Finset α} (smaller : ∀ blockId, low blockId ≤ high blockId)
    (blockId : BlockId) : inSet blockId cfg low ⊆ inSet blockId cfg high := by
  intro fact inside
  obtain ⟨source, leads, known⟩ := (mem_inSet blockId low fact).mp inside
  exact (mem_inSet blockId high fact).mpr ⟨source, leads, smaller source known⟩

end Edges

end MisraPlatform
