import Mathlib.Data.List.Dedup
import MisraPlatform.Library.Components
import MisraPlatform.Construction.RecursionCycles

/-
This file proves that the recursion cycles are the functions with a call path to themselves.
-/

namespace MisraPlatform.LinkageIndex

open Relation

def Calls (graph : CallGraph) (caller callee : String) : Prop := callee ∈ graph.callees caller

namespace ComponentSearch

def visited (search : ComponentSearch) (name : String) : Prop := name ∈ search.indices.keys

def number (search : ComponentSearch) (name : String) : Nat := (search.indices.get? name).getD 0

/-- The stack is a frontier of the visited names and the cycles are those of the closed components. -/
structure Sound (graph : CallGraph) (opened : List String) (search : ComponentSearch) : Prop where
  frontier : Frontier (Calls graph) search.visited search.number opened search.stack
  below : ∀ name, search.visited name → search.number name < search.index
  onStack : ∀ name, name ∈ search.onStack ↔ name ∈ search.stack
  recorded : ∀ name, (∃ cycle ∈ search.cycles, name ∈ cycle) ↔
    search.visited name ∧ name ∉ search.stack ∧ TransGen (Calls graph) name name

/-- A visited name keeps its number and its lowlink. -/
structure Grown (search later : ComponentSearch) : Prop where
  visited : ∀ name, search.visited name → later.visited name
  number : ∀ name, search.visited name → later.number name = search.number name
  lowlink : ∀ name, search.visited name → later.lowlink.get? name = search.lowlink.get? name

theorem Grown.refl (search : ComponentSearch) : Grown search search :=
  ⟨fun _ seen => seen, fun _ _ => rfl, fun _ _ => rfl⟩

theorem Grown.trans {search later last : ComponentSearch} (first : Grown search later)
    (second : Grown later last) : Grown search last where
  visited name seen := second.visited name (first.visited name seen)
  number name seen := (second.number name (first.visited name seen)).trans (first.number name seen)
  lowlink name seen := (second.lowlink name (first.visited name seen)).trans (first.lowlink name seen)

section Steps

variable {graph : CallGraph} {opened : List String} {search : ComponentSearch} {node : String}

theorem visited_enter (name : String) :
    (search.enter node).visited name ↔ name = node ∨ search.visited name :=
  OrderedDict.mem_keys_insert _ _ _ _

theorem number_enter (name : String) :
    (search.enter node).number name = if name = node then search.index else search.number name := by
  rw [number, enter, OrderedDict.get?_insert]
  by_cases same : name = node <;> simp [same, number]

theorem Grown.enter (fresh : ¬ search.visited node) : Grown search (search.enter node) := by
  have other : ∀ name, search.visited name → name ≠ node := fun name seen same => fresh (same ▸ seen)
  constructor
  · intro name seen
    exact (visited_enter name).mpr (.inr seen)
  · intro name seen
    rw [number_enter, if_neg (other name seen)]
  · intro name seen
    change (search.lowlink.insert node search.index).get? name = _
    rw [OrderedDict.get?_insert, if_neg (other name seen)]

/-- The entered name is the newest open call. -/
theorem Sound.enter (sound : Sound graph opened search) (fresh : ¬ search.visited node)
    (leads : ∀ caller ∈ opened, ReflTransGen (Calls graph) caller node) :
    Sound graph (node :: opened) (search.enter node) := by
  have other : ∀ name, search.visited name → name ≠ node := fun name seen same => fresh (same ▸ seen)
  constructor
  · apply sound.frontier.enter fresh leads visited_enter
    · intro name seen
      rw [number_enter, if_neg (other name seen)]
    · intro name inside
      rw [number_enter, if_pos rfl]
      exact sound.below name (sound.frontier.stacked name inside)
  · intro name seen
    change (search.enter node).number name < search.index + 1
    rw [number_enter]
    cases (visited_enter name).mp seen with
    | inl same =>
        rw [if_pos same]
        omega
    | inr seen =>
        rw [if_neg (other name seen)]
        have := sound.below name seen
        omega
  · intro name
    change name ∈ search.onStack.insert node ↔ name ∈ node :: search.stack
    rw [List.mem_insert_iff, sound.onStack, List.mem_cons]
  · intro name
    change (∃ cycle ∈ search.cycles, name ∈ cycle) ↔ _ ∧ name ∉ node :: search.stack ∧ _
    rw [sound.recorded, visited_enter, List.mem_cons]
    constructor
    · intro closed
      exact ⟨.inr closed.1, fun inside => inside.elim (other name closed.1) closed.2.1, closed.2.2⟩
    · intro closed
      have differs : name ≠ node := fun same => closed.2.1 (.inl same)
      exact ⟨closed.1.resolve_left differs, fun inside => closed.2.1 (.inr inside), closed.2.2⟩

/-- A lowered lowlink leaves the stack and the numbers as they are. -/
theorem Sound.lower {low : Nat} (sound : Sound graph opened search) :
    Sound graph opened { search with lowlink := search.lowlink.insert node low } :=
  ⟨sound.frontier, sound.below, sound.onStack, sound.recorded⟩

theorem Grown.lower {later : ComponentSearch} {low : Nat} (grown : Grown search later)
    (fresh : ¬ search.visited node) :
    Grown search { later with lowlink := later.lowlink.insert node low } where
  visited := grown.visited
  number := grown.number
  lowlink name seen := by
    have other : name ≠ node := fun same => fresh (same ▸ seen)
    rw [OrderedDict.get?_insert, if_neg other]
    exact grown.lowlink name seen

theorem get?_indices (seen : search.visited node) : search.indices.get? node = some (search.number node) := by
  obtain ⟨index, found⟩ := (OrderedDict.mem_keys_iff _ _).mp seen
  rw [number, found, Option.getD_some]

/-- The component is popped from the newest name to the root. -/
theorem popComponent_eq (fresh older onStack component : List String)
    (distinct : (fresh ++ [node]).Nodup) (apart : ∀ name ∈ fresh ++ [node], name ∉ component) :
    popComponent node (fresh ++ node :: older) onStack component =
      some (older, onStack.filter (· ∉ fresh ++ [node]), (fresh ++ [node]).reverse ++ component) := by
  induction fresh generalizing onStack component with
  | nil => simp [popComponent, List.insert_of_not_mem (apart node (by simp))]
  | cons name fresh ih =>
      have split := List.nodup_cons.mp distinct
      have differs : name ≠ node := by
        intro same
        exact split.1 (by simp [same])
      have outside : name ∉ component := apart name (by simp)
      have next : ∀ other ∈ fresh ++ [node], other ∉ component.insert name := by
        intro other inside
        rw [List.mem_insert_iff, not_or]
        exact ⟨fun same => split.1 (same ▸ inside), apart other (List.mem_cons_of_mem _ inside)⟩
      rw [List.cons_append, popComponent, if_neg differs, ih _ _ split.2 next,
        List.insert_of_not_mem outside, List.filter_filter]
      simp only [List.cons_append, List.reverse_cons, List.append_assoc, List.nil_append,
        List.mem_cons, not_or]
      congr 3
      apply List.filter_congr
      intro other _
      rw [Bool.eq_iff_iff]
      simp
      tauto

end Steps

section Search

variable {graph : CallGraph} {opened : List String} {node : String}

/-- The call has visited its node and everything that it left on the stack. -/
structure Connected (graph : CallGraph) (opened : List String) (node : String)
    (search later : ComponentSearch) : Prop where
  sound : Sound graph opened later
  grown : Grown search later
  seen : later.visited node
  frame : ∃ fresh low, later.stack = fresh ++ search.stack ∧ later.lowlink.get? node = some low ∧
    (low = search.index ∨
      ∃ older ∈ later.stack, later.number older = low ∧ ReflTransGen (Calls graph) node older) ∧
    ∀ name ∈ fresh, ∀ older ∈ search.stack, Calls graph name older → low ≤ later.number older

/-- The loop has visited the scanned callees and bounds the numbers below that they lead to. -/
structure Scanned (graph : CallGraph) (opened : List String) (node : String) (scanned : List String)
    (search later : ComponentSearch) : Prop where
  sound : Sound graph (node :: opened) later
  grown : Grown search later
  seen : later.visited node
  numbered : later.number node = search.index
  callees : ∀ callee ∈ scanned, later.visited callee
  frame : ∃ fresh low, later.stack = fresh ++ node :: search.stack ∧
    later.lowlink.get? node = some low ∧ low ≤ search.index ∧
    (∃ older ∈ later.stack, later.number older = low ∧ ReflTransGen (Calls graph) node older) ∧
    (∀ name ∈ fresh, ∀ older ∈ search.stack, Calls graph name older → low ≤ later.number older) ∧
    ∀ callee ∈ scanned, callee ∈ search.stack → low ≤ later.number callee

theorem Scanned.start {search : ComponentSearch} (sound : Sound graph opened search)
    (fresh : ¬ search.visited node) (leads : ∀ caller ∈ opened, ReflTransGen (Calls graph) caller node) :
    Scanned graph opened node [] search (search.enter node) where
  sound := sound.enter fresh leads
  grown := Grown.enter fresh
  seen := (visited_enter node).mpr (.inl rfl)
  numbered := by rw [number_enter, if_pos rfl]
  callees := by simp
  frame := by
    refine ⟨[], search.index, rfl, ?_, le_rfl, ⟨node, ?_, ?_, .refl⟩, by simp, by simp⟩
    · change (search.lowlink.insert node search.index).get? node = _
      rw [OrderedDict.get?_insert, if_pos rfl]
    · exact List.mem_cons_self
    · rw [number_enter, if_pos rfl]

/-- A callee of an earlier component changes nothing. -/
theorem Scanned.skip {scanned : List String} {search later : ComponentSearch} {callee : String}
    (state : Scanned graph opened node scanned search later) (seen : later.visited callee)
    (off : callee ∉ later.stack) : Scanned graph opened node (scanned ++ [callee]) search later where
  sound := state.sound
  grown := state.grown
  seen := state.seen
  numbered := state.numbered
  callees := by
    intro other inside
    rw [List.mem_append, List.mem_singleton] at inside
    exact inside.elim (state.callees other) fun same => same ▸ seen
  frame := by
    obtain ⟨fresh, low, stack, found, bound, witness, escape, lower⟩ := state.frame
    refine ⟨fresh, low, stack, found, bound, witness, escape, ?_⟩
    intro other inside member
    rw [List.mem_append, List.mem_singleton] at inside
    cases inside with
    | inl inside => exact lower other inside member
    | inr same =>
        subst same
        exact absurd (stack ▸ by simp [member]) off

/-- A callee on the stack lowers the lowlink to its number. -/
theorem Scanned.lower {scanned : List String} {search later : ComponentSearch} {callee : String}
    (state : Scanned graph opened node scanned search later) (fresh : ¬ search.visited node)
    (calls : Calls graph node callee) (inside : callee ∈ later.stack) :
    ∃ last, later.lower node (later.number callee) = some last ∧
      Scanned graph opened node (scanned ++ [callee]) search last := by
  obtain ⟨added, low, stack, found, bound, witness, escape, lower⟩ := state.frame
  refine ⟨{ later with lowlink := later.lowlink.insert node (min low (later.number callee)) }, ?_, ?_⟩
  · rw [ComponentSearch.lower, found]
    rfl
  · constructor
    · exact state.sound.lower
    · exact state.grown.lower fresh
    · exact state.seen
    · exact state.numbered
    · intro other member
      rw [List.mem_append, List.mem_singleton] at member
      exact member.elim (state.callees other) fun same =>
        same ▸ state.sound.frontier.stacked callee inside
    · refine ⟨added, min low (later.number callee), stack, ?_, (min_le_left _ _).trans bound, ?_, ?_, ?_⟩
      · change (later.lowlink.insert node _).get? node = _
        rw [OrderedDict.get?_insert, if_pos rfl]
      · by_cases less : low ≤ later.number callee
        · rw [min_eq_left less]
          exact witness
        · rw [min_eq_right (le_of_not_ge less)]
          exact ⟨callee, inside, rfl, .single calls⟩
      · intro name member older below edge
        exact (min_le_left _ _).trans (escape name member older below edge)
      · intro other member below
        rw [List.mem_append, List.mem_singleton] at member
        cases member with
        | inl member => exact (min_le_left _ _).trans (lower other member below)
        | inr same =>
            subst same
            exact min_le_right _ _

/-- A returned call of a new callee lowers the lowlink to that of the callee. -/
theorem Scanned.descend {scanned : List String} {search later returned : ComponentSearch}
    {callee : String} (state : Scanned graph opened node scanned search later)
    (fresh : ¬ search.visited node) (stacked : ∀ name ∈ search.stack, search.visited name)
    (calls : Calls graph node callee) (unseen : ¬ later.visited callee)
    (connected : Connected graph (node :: opened) callee later returned) :
    ∃ low last, returned.lowlink.get? callee = some low ∧ returned.lower node low = some last ∧
      Scanned graph opened node (scanned ++ [callee]) search last := by
  obtain ⟨added, low, stack, found, bound, witness, escape, lower⟩ := state.frame
  obtain ⟨newer, calleeLow, newStack, calleeFound, calleeWitness, newEscape⟩ := connected.frame
  have grown := connected.grown
  have kept : ∀ name ∈ later.stack, returned.number name = later.number name :=
    fun name inside => grown.number name (state.sound.frontier.stacked name inside)
  have below : ∀ name ∈ search.stack, name ∈ later.stack := fun name inside => by simp [stack, inside]
  have nodeFound : returned.lowlink.get? node = some low := (grown.lowlink node state.seen).trans found
  have nodeBelow : search.index < later.index := by
    have := state.sound.below node state.seen
    rw [state.numbered] at this
    exact this
  refine ⟨calleeLow, { returned with lowlink := returned.lowlink.insert node (min low calleeLow) },
    calleeFound, ?_, ?_⟩
  · rw [ComponentSearch.lower, nodeFound]
    rfl
  · constructor
    · exact connected.sound.lower
    · exact (state.grown.trans grown).lower fresh
    · exact grown.visited node state.seen
    · exact (grown.number node state.seen).trans state.numbered
    · intro other member
      rw [List.mem_append, List.mem_singleton] at member
      exact member.elim (fun member => grown.visited other (state.callees other member))
        fun same => same ▸ connected.seen
    · refine ⟨newer ++ added, min low calleeLow, ?_, ?_, (min_le_left _ _).trans bound, ?_, ?_, ?_⟩
      · change returned.stack = _
        rw [newStack, stack, List.append_assoc]
      · change (returned.lowlink.insert node _).get? node = _
        rw [OrderedDict.get?_insert, if_pos rfl]
      · by_cases less : low ≤ calleeLow
        · rw [min_eq_left less]
          obtain ⟨older, inside, same, path⟩ := witness
          refine ⟨older, ?_, (kept older inside).trans same, path⟩
          change older ∈ returned.stack
          rw [newStack]
          exact List.mem_append_right _ inside
        · rw [min_eq_right (le_of_not_ge less)]
          cases calleeWitness with
          | inl popped => omega
          | inr reached =>
              obtain ⟨older, inside, same, path⟩ := reached
              exact ⟨older, inside, same, .head calls path⟩
      · intro name member older inside edge
        cases List.mem_append.mp member with
        | inl member => exact (min_le_right _ _).trans (newEscape name member older (below older inside) edge)
        | inr member =>
            change min low calleeLow ≤ returned.number older
            rw [kept older (below older inside)]
            exact (min_le_left _ _).trans (escape name member older inside edge)
      · intro other member inside
        rw [List.mem_append, List.mem_singleton] at member
        cases member with
        | inl member =>
            change min low calleeLow ≤ returned.number other
            rw [kept other (below other inside)]
            exact (min_le_left _ _).trans (lower other member inside)
        | inr same => exact absurd (state.grown.visited other (stacked other inside)) (same ▸ unseen)

/-- A component of several names, or of one name that calls itself, is a cycle. -/
theorem isCycle_iff (fresh : List String) :
    isCycle graph node (fresh ++ [node]).reverse = true ↔ fresh ≠ [] ∨ Calls graph node node := by
  cases fresh with
  | nil => simp [isCycle, Calls]
  | cons name rest => simp [isCycle]

/-- No name of the component leads to an older one when the lowlink is the number of the root. -/
theorem Scanned.escapeless {search later : ComponentSearch} {fresh : List String} {low : Nat}
    (state : Scanned graph opened node (graph.callees node) search later)
    (sound : Sound graph opened search) (root : low = search.index)
    (escape : ∀ name ∈ fresh, ∀ older ∈ search.stack, Calls graph name older → low ≤ later.number older)
    (lower : ∀ callee ∈ graph.callees node, callee ∈ search.stack → low ≤ later.number callee) :
    ∀ name ∈ fresh ++ [node], ∀ older ∈ search.stack, ¬ Calls graph name older := by
  intro name inside older member edge
  have seen := sound.frontier.stacked older member
  have below := sound.below older seen
  have kept := state.grown.number older seen
  have bound : low ≤ later.number older := by
    cases List.mem_append.mp inside with
    | inl inside => exact escape name inside older member edge
    | inr same => exact lower older (List.mem_singleton.mp same ▸ edge) member
  omega

/-- The pop closes the component of the node and records it when it is a cycle. -/
theorem Scanned.sound_pop {search later : ComponentSearch} {fresh : List String}
    (state : Scanned graph opened node (graph.callees node) search later)
    (sound : Sound graph opened search) (stack : later.stack = fresh ++ node :: search.stack)
    (escapeless : ∀ name ∈ fresh ++ [node], ∀ older ∈ search.stack, ¬ Calls graph name older) :
    Sound graph opened { later with
      stack := search.stack
      onStack := later.onStack.filter (· ∉ fresh ++ [node])
      cycles := if isCycle graph node (fresh ++ [node]).reverse then
        later.cycles ++ [(fresh ++ [node]).reverse] else later.cycles } := by
  have frontier := state.sound.frontier
  rw [stack] at frontier
  have openOlder := sound.frontier.openInside
  have distinct := frontier.nodup
  have apart : ∀ name ∈ search.stack, name ∉ fresh ++ [node] := by
    intro name older inside
    have shape : fresh ++ node :: search.stack = (fresh ++ [node]) ++ search.stack := by simp
    rw [shape] at distinct
    exact (List.nodup_append.mp distinct).2.2 name inside name older rfl
  constructor
  · exact frontier.close openOlder state.callees escapeless
  · exact state.sound.below
  · intro name
    rw [List.mem_filter, state.sound.onStack, stack]
    have := apart name
    simp only [List.mem_append, List.mem_cons, List.not_mem_nil, or_false, decide_eq_true_eq] at this ⊢
    tauto
  · intro name
    have earlier := state.sound.recorded name
    rw [stack] at earlier
    have closing : (∃ cycle ∈ (if isCycle graph node (fresh ++ [node]).reverse then
          later.cycles ++ [(fresh ++ [node]).reverse] else later.cycles), name ∈ cycle) ↔
        (∃ cycle ∈ later.cycles, name ∈ cycle) ∨
          (name ∈ fresh ++ [node] ∧ isCycle graph node (fresh ++ [node]).reverse = true) := by
      by_cases cycle : isCycle graph node (fresh ++ [node]).reverse = true
      · simp only [cycle, if_true, List.mem_append, List.mem_singleton, and_true, or_and_right, exists_or,
          exists_eq_left, List.mem_reverse]
      · simp only [cycle, and_false, or_false, Bool.false_eq_true, if_false]
    have seen : ∀ other ∈ fresh ++ [node], later.visited other := by
      intro other inside
      apply frontier.stacked
      simp only [List.mem_append, List.mem_cons, List.not_mem_nil, or_false] at inside ⊢
      tauto
    change (∃ cycle ∈ (if isCycle graph node (fresh ++ [node]).reverse then
      later.cycles ++ [(fresh ++ [node]).reverse] else later.cycles), name ∈ cycle) ↔
        later.visited name ∧ name ∉ search.stack ∧ TransGen (Calls graph) name name
    rw [closing, earlier, isCycle_iff]
    by_cases inside : name ∈ fresh ++ [node]
    · rw [← frontier.onCycle_iff openOlder state.callees escapeless inside]
      have onStack : name ∈ fresh ++ node :: search.stack := by
        simp only [List.mem_append, List.mem_cons, List.not_mem_nil, or_false] at inside ⊢
        tauto
      have := seen name inside
      have := fun older => apart name older inside
      tauto
    · have onStack : name ∈ fresh ++ node :: search.stack ↔ name ∈ search.stack := by
        simp only [List.mem_append, List.mem_cons, List.not_mem_nil, or_false] at inside ⊢
        tauto
      rw [onStack]
      tauto

/-- The end of a call keeps the component on the stack or closes it. -/
theorem Scanned.close {search later : ComponentSearch}
    (state : Scanned graph opened node (graph.callees node) search later)
    (sound : Sound graph opened search) :
    ∃ last, closeComponent graph node later = some last ∧ Connected graph opened node search last := by
  obtain ⟨fresh, low, stack, found, bound, witness, escape, lower⟩ := state.frame
  have numbered := get?_indices state.seen
  rw [state.numbered] at numbered
  by_cases root : low = search.index
  · have escapeless := state.escapeless sound root escape lower
    have distinct := state.sound.frontier.nodup
    rw [stack] at distinct
    have component : (fresh ++ [node]).Nodup := by
      have shape : fresh ++ node :: search.stack = (fresh ++ [node]) ++ search.stack := by simp
      rw [shape] at distinct
      exact (List.nodup_append.mp distinct).1
    have popped := popComponent_eq fresh search.stack later.onStack [] component (by simp)
    rw [← stack, List.append_nil] at popped
    have closed : closeComponent graph node later = some { later with
        stack := search.stack
        onStack := later.onStack.filter (· ∉ fresh ++ [node])
        cycles := if isCycle graph node (fresh ++ [node]).reverse then
          later.cycles ++ [(fresh ++ [node]).reverse] else later.cycles } := by
      simp only [closeComponent, found, numbered, Option.bind_eq_bind, Option.bind_some, root, if_true,
        popped]
      rfl
    refine ⟨_, closed, state.sound_pop sound stack escapeless, ?_, state.seen, ?_⟩
    · exact ⟨state.grown.visited, state.grown.number, state.grown.lowlink⟩
    · exact ⟨[], low, rfl, found, .inl root, by simp⟩
  · have less : low < search.index := lt_of_le_of_ne bound root
    have kept : closeComponent graph node later = some later := by
      simp only [closeComponent, found, numbered, Option.bind_eq_bind, Option.bind_some, root, if_false]
      rfl
    obtain ⟨older, inside, same, path⟩ := witness
    have escapes : ∃ older ∈ later.stack, later.number older < later.number node ∧
        ReflTransGen (Calls graph) node older :=
      ⟨older, inside, by rw [same, state.numbered]; exact less, path⟩
    refine ⟨later, kept, ?_, state.grown, state.seen, fresh ++ [node], low, ?_, found,
      .inr ⟨older, inside, same, path⟩, ?_⟩
    · exact ⟨state.sound.frontier.leave state.callees escapes, state.sound.below, state.sound.onStack,
        state.sound.recorded⟩
    · simp [stack]
    · intro name member other below edge
      cases List.mem_append.mp member with
      | inl member => exact escape name member other below edge
      | inr single => exact lower other (List.mem_singleton.mp single ▸ edge) below

end Search

section Depth

variable {graph : CallGraph}

theorem callees_names {name callee : String} (calls : Calls graph name callee) : callee ∈ graph.names := by
  rw [CallGraph.names, List.mem_dedup, List.mem_append, List.mem_flatten]
  rw [Calls, CallGraph.callees] at calls
  cases found : graph.get? name with
  | none => simp [found] at calls
  | some callees =>
      rw [found, Option.getD_some] at calls
      have entry := (OrderedDict.mem_entries_iff _ _ _).mpr found
      exact .inr ⟨callees, List.mem_map.mpr ⟨_, entry, rfl⟩, calls⟩

/-- The names that a search has not visited bound the depth of the calls to come. -/
def unvisited (graph : CallGraph) (search : ComponentSearch) : Nat :=
  graph.names.countP fun name => name ∉ search.indices.keys

theorem unvisited_enter {search : ComponentSearch} {node : String} (known : node ∈ graph.names)
    (fresh : ¬ search.visited node) :
    unvisited graph (search.enter node) < unvisited graph search := by
  have split : ∀ names : List String, node ∈ names →
      (names.countP fun name => name ∉ (search.enter node).indices.keys) <
        names.countP fun name => name ∉ search.indices.keys := by
    intro names inside
    have mono : ∀ rest : List String, (rest.countP fun name => name ∉ (search.enter node).indices.keys) ≤
        rest.countP fun name => name ∉ search.indices.keys := by
      intro rest
      apply List.countP_mono_left
      intro name _ unseen
      simp only [decide_eq_true_eq] at unseen ⊢
      exact fun seen => unseen ((visited_enter name).mpr (.inr seen))
    obtain ⟨before, after, rfl⟩ := List.append_of_mem inside
    have entered : node ∈ (search.enter node).indices.keys := (visited_enter node).mpr (.inl rfl)
    have absent : node ∉ search.indices.keys := fresh
    have first := mono before
    have second := mono after
    simp only [List.countP_append, List.countP_cons, entered, absent, not_true, not_false_iff,
      decide_true, decide_false, Bool.false_eq_true, if_true, if_false]
    omega
  exact split _ known

/-- The scan of the callees succeeds when the nested calls do. -/
theorem scan {opened : List String} {node : String} {search : ComponentSearch}
    (connect : String → ComponentSearch → Option ComponentSearch)
    (sound : Sound graph opened search) (fresh : ¬ search.visited node)
    (connects : ∀ callee inner, Calls graph node callee → Grown search inner → inner.visited node →
      Sound graph (node :: opened) inner → ¬ inner.visited callee →
      ∃ returned, connect callee inner = some returned ∧ Connected graph (node :: opened) callee inner returned)
    (rest scanned : List String) (later : ComponentSearch)
    (callees : ∀ callee ∈ rest, Calls graph node callee)
    (state : Scanned graph opened node scanned search later) :
    ∃ last, rest.foldlM (visitCallee connect node) later = some last ∧
      Scanned graph opened node (scanned ++ rest) search last := by
  induction rest generalizing scanned later with
  | nil => exact ⟨later, rfl, by rwa [List.append_nil]⟩
  | cons callee rest ih =>
      have calls := callees callee (by simp)
      have restCallees : ∀ other ∈ rest, Calls graph node other :=
        fun other inside => callees other (List.mem_cons_of_mem _ inside)
      have step : ∃ next, visitCallee connect node later callee = some next ∧
          Scanned graph opened node (scanned ++ [callee]) search next := by
        by_cases seen : later.visited callee
        · have seenKey : callee ∈ later.indices.keys := seen
          have index := get?_indices seen
          by_cases inside : callee ∈ later.stack
          · obtain ⟨next, lowered, scannedNext⟩ := state.lower fresh calls inside
            refine ⟨next, ?_, scannedNext⟩
            simp only [visitCallee, seenKey, not_true, if_false, (state.sound.onStack callee).mpr inside,
              if_true, index, Option.bind_eq_bind, Option.bind_some]
            exact lowered
          · have off := (state.sound.onStack callee).not.mpr inside
            exact ⟨later, by simp [visitCallee, seenKey, off], state.skip seen inside⟩
        · have unseenKey : callee ∉ later.indices.keys := seen
          obtain ⟨returned, connected, result⟩ :=
            connects callee later calls state.grown state.seen state.sound seen
          obtain ⟨low, next, found, lowered, scannedNext⟩ :=
            state.descend fresh sound.frontier.stacked calls seen result
          refine ⟨next, ?_, scannedNext⟩
          simp only [visitCallee, unseenKey, not_false_iff, if_true, connected, Option.bind_eq_bind,
            Option.bind_some, found]
          exact lowered
      obtain ⟨next, visits, scannedNext⟩ := step
      obtain ⟨last, folded, scannedLast⟩ := ih (scanned ++ [callee]) next restCallees scannedNext
      refine ⟨last, ?_, ?_⟩
      · rw [List.foldlM_cons, visits]
        exact folded
      · rwa [List.append_assoc] at scannedLast

/-- The induction is on the depth, every nested call visits one more name. -/
theorem strongconnect_connected (depth : Nat) (opened : List String) (node : String)
    (search : ComponentSearch) (room : unvisited graph search < depth) (known : node ∈ graph.names)
    (sound : Sound graph opened search) (fresh : ¬ search.visited node)
    (leads : ∀ caller ∈ opened, ReflTransGen (Calls graph) caller node) :
    ∃ last, strongconnect graph depth node search = some last ∧
      Connected graph opened node search last := by
  induction depth generalizing opened node search with
  | zero => omega
  | succ depth ih =>
      have less := unvisited_enter known fresh
      have connects : ∀ callee inner, Calls graph node callee → Grown search inner → inner.visited node →
          Sound graph (node :: opened) inner → ¬ inner.visited callee →
          ∃ returned, strongconnect graph depth callee inner = some returned ∧
            Connected graph (node :: opened) callee inner returned := by
        intro callee inner calls grown seen innerSound unseen
        apply ih (node :: opened) callee inner _ (callees_names calls) innerSound unseen
        · intro caller inside
          cases List.mem_cons.mp inside with
          | inl same => exact same ▸ .single calls
          | inr inside => exact (leads caller inside).tail calls
        · have entered : unvisited graph inner ≤ unvisited graph (search.enter node) := by
            apply List.countP_mono_left
            intro name _ unseenName
            simp only [decide_eq_true_eq] at unseenName ⊢
            intro enteredName
            cases (visited_enter name).mp enteredName with
            | inl same => exact unseenName (same ▸ seen)
            | inr earlier => exact unseenName (grown.visited name earlier)
          omega
      obtain ⟨later, scanned, state⟩ := scan (strongconnect graph depth) sound fresh connects
        (graph.callees node) [] (search.enter node) (fun _ inside => inside)
        (Scanned.start sound fresh leads)
      obtain ⟨last, closed, connected⟩ := state.close sound
      refine ⟨last, ?_, connected⟩
      rw [strongconnect, scanned]
      exact closed

theorem initial_sound : Sound graph [] initial where
  frontier := Frontier.start _ (by simp [visited, initial, OrderedDict.keys, OrderedDict.empty])
  below := by simp [visited, initial, OrderedDict.keys, OrderedDict.empty]
  onStack := by simp [initial]
  recorded := by simp [visited, initial, OrderedDict.keys, OrderedDict.empty]

/-- The loop over the names leaves an empty stack and every name visited. -/
theorem visitNames (depth : Nat) (room : graph.names.length < depth) (names : List String)
    (known : ∀ name ∈ names, name ∈ graph.names) (search : ComponentSearch)
    (sound : Sound graph [] search) :
    ∃ last, names.foldlM (visitName graph depth) search = some last ∧ Sound graph [] last ∧
      Grown search last ∧ ∀ name ∈ names, last.visited name := by
  induction names generalizing search with
  | nil => exact ⟨search, rfl, sound, Grown.refl search, by simp⟩
  | cons name rest ih =>
      have restKnown : ∀ other ∈ rest, other ∈ graph.names :=
        fun other inside => known other (List.mem_cons_of_mem _ inside)
      have step : ∃ next, visitName graph depth search name = some next ∧ Sound graph [] next ∧
          Grown search next ∧ next.visited name := by
        by_cases seen : search.visited name
        · have seenKey : name ∈ search.indices.keys := seen
          exact ⟨search, by simp [visitName, seenKey], sound, Grown.refl search, seen⟩
        · have unseenKey : name ∉ search.indices.keys := seen
          have bound : unvisited graph search < depth := lt_of_le_of_lt List.countP_le_length room
          obtain ⟨next, connected, result⟩ := strongconnect_connected depth [] name search bound
            (known name (by simp)) sound seen (by simp)
          exact ⟨next, by simpa [visitName, unseenKey] using connected, result.sound, result.grown,
            result.seen⟩
      obtain ⟨next, visits, nextSound, grown, seen⟩ := step
      obtain ⟨last, folded, lastSound, lastGrown, all⟩ := ih restKnown next nextSound
      refine ⟨last, ?_, lastSound, grown.trans lastGrown, ?_⟩
      · rw [List.foldlM_cons, visits]
        exact folded
      · intro other inside
        cases List.mem_cons.mp inside with
        | inl same => exact same ▸ lastGrown.visited name seen
        | inr inside => exact all other inside

end Depth

end ComponentSearch

section Result

open ComponentSearch

theorem mem_foldl_union (sets : List (List String)) (start : List String) (name : String) :
    name ∈ sets.foldl (fun found set => set ∪ found) start ↔ name ∈ start ∨ ∃ set ∈ sets, name ∈ set := by
  induction sets generalizing start with
  | nil => simp
  | cons set rest ih =>
      rw [List.foldl_cons, ih, List.mem_union_iff]
      simp only [List.mem_cons, exists_eq_or_imp]
      tauto

theorem nodup_foldl_union (sets : List (List String)) (start : List String) (distinct : start.Nodup) :
    (sets.foldl (fun found set => set ∪ found) start).Nodup := by
  induction sets generalizing start with
  | nil => exact distinct
  | cons set rest ih => exact ih _ (distinct.union set)

/-- A caller has an entry in the graph. -/
theorem Calls.key {graph : CallGraph} {caller callee : String} (calls : Calls graph caller callee) :
    caller ∈ graph.keys := by
  rw [OrderedDict.mem_keys_iff]
  rw [Calls, CallGraph.callees] at calls
  cases found : graph.get? caller with
  | none => simp [found] at calls
  | some callees => exact ⟨callees, rfl⟩

/-- The search ends with the sorted names on a call cycle when the call stack is deep enough. -/
theorem recursionCyclesWithin_spec (graph : CallGraph) (depth : Nat) (room : graph.names.length < depth) :
    ∃ names, recursionCyclesWithin depth graph = some names ∧ names.Pairwise (· < ·) ∧
      ∀ name, name ∈ names ↔ TransGen (Calls graph) name name := by
  by_cases empty : graph.keys = []
  · refine ⟨[], by simp [recursionCyclesWithin, empty], List.Pairwise.nil, ?_⟩
    intro name
    simp only [List.not_mem_nil, false_iff]
    intro cycle
    obtain ⟨callee, calls, _⟩ := TransGen.head'_iff.mp cycle
    have key := Calls.key calls
    rw [empty] at key
    cases key
  · have known : ∀ name ∈ graph.keys, name ∈ graph.names := by
      intro name inside
      rw [CallGraph.names, List.mem_dedup]
      exact List.mem_append_left _ inside
    obtain ⟨last, visits, sound, _, seen⟩ := visitNames depth room graph.keys known .initial initial_sound
    have stack := sound.frontier.stack_nil
    refine ⟨_, by rw [recursionCyclesWithin, if_neg empty, visits]; rfl, ?_, ?_⟩
    · have ordered := List.pairwise_insertionSort (· ≤ ·)
        (last.cycles.foldl (fun inCycle cycle => cycle ∪ inCycle) [])
      have distinct := (List.perm_insertionSort (· ≤ ·)
        (last.cycles.foldl (fun inCycle cycle => cycle ∪ inCycle) [])).nodup_iff.mpr
          (nodup_foldl_union last.cycles [] List.nodup_nil)
      exact (ordered.and distinct).imp fun both => lt_of_le_of_ne both.1 both.2
    · intro name
      rw [List.mem_insertionSort, mem_foldl_union, sound.recorded, stack]
      simp only [List.not_mem_nil, false_or, not_false_iff, true_and]
      constructor
      · exact And.right
      · intro cycle
        obtain ⟨callee, calls, _⟩ := TransGen.head'_iff.mp cycle
        exact ⟨seen name calls.key, cycle⟩

/-- The search lists exactly the names on a call cycle, in order and once, and terminates on a stack that is deep enough. -/
theorem functionsInRecursionCycles_exact (graph : CallGraph) :
    (∀ depth, graph.names.length < depth →
      recursionCyclesWithin depth graph = some (functionsInRecursionCycles graph)) ∧
    (functionsInRecursionCycles graph).Pairwise (· < ·) ∧
    ∀ name, name ∈ functionsInRecursionCycles graph ↔ TransGen (Calls graph) name name := by
  obtain ⟨names, answered, sorted, exact⟩ := recursionCyclesWithin_spec graph _ (Nat.lt_succ_self _)
  have same : functionsInRecursionCycles graph = names := by
    rw [functionsInRecursionCycles, answered, Option.getD_some]
  rw [same]
  refine ⟨?_, sorted, exact⟩
  intro depth room
  obtain ⟨other, otherAnswered, otherSorted, otherExact⟩ := recursionCyclesWithin_spec graph depth room
  have members : other.Perm names := by
    apply (List.perm_ext_iff_of_nodup (otherSorted.imp ne_of_lt) (sorted.imp ne_of_lt)).mpr
    intro name
    rw [otherExact, exact]
  have equal : other = names :=
    members.eq_of_pairwise (fun _ _ _ _ first second => (first.asymm second).elim) otherSorted sorted
  rw [otherAnswered, equal]

end Result

end MisraPlatform.LinkageIndex
