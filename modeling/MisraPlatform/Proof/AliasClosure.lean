import MisraPlatform.Semantics.PointsToAssignments

/-
This file shows that the bounded passes of the points-to analysis end in a closed state.
-/

namespace MisraPlatform
open DataFlowEngineV2

namespace AliasAnalyzer

variable {graph : AstGraph}

/-! ### Sets of names -/

/-- A name with a set has a member in it. -/
def Filled (pointsTo : PointsTo) : Prop := ∀ name set, pointsTo.get? name = some set → set ≠ ∅

theorem filled_empty : Filled .empty := by
  intro name set found
  simp at found

theorem Filled.addAll {pointsTo : PointsTo} (filled : Filled pointsTo) (name : String)
    (added : Finset Pointee) : Filled (addAll pointsTo name added) := by
  unfold AliasAnalyzer.addAll
  by_cases empty : added = ∅
  · rwa [if_pos empty]
  · rw [if_neg empty]
    intro query set found
    rw [OrderedDict.get?_insert] at found
    split at found
    · obtain rfl := Option.some.inj found
      exact fun all => empty (Finset.union_eq_empty.mp all).2
    · exact filled query set found

theorem pointees_addAll (pointsTo : PointsTo) (name : String) (added : Finset Pointee) :
    pointees (addAll pointsTo name added) =
      Function.update (pointees pointsTo) name (pointees pointsTo name ∪ added) := by
  funext query
  unfold addAll
  by_cases empty : added = ∅
  · rw [if_pos empty, empty, Finset.union_empty, Function.update_eq_self]
  · rw [if_neg empty, Function.update_apply, pointees, OrderedDict.get?_insert]
    by_cases same : query = name
    · simp [same, pointees]
    · rw [if_neg same, if_neg same, pointees]

/-- Members that are there already add nothing. -/
theorem addAll_same {pointsTo : PointsTo} {name : String} {added : Finset Pointee}
    (inside : added ⊆ pointees pointsTo name) : addAll pointsTo name added = pointsTo := by
  unfold addAll
  by_cases empty : added = ∅
  · rw [if_pos empty]
  · rw [if_neg empty]
    cases found : pointsTo.get? name with
    | none =>
        rw [pointees, found] at inside
        exact absurd (Finset.subset_empty.mp inside) empty
    | some existing =>
        rw [pointees, found] at inside
        rw [show (some existing).getD ∅ ∪ added = existing from Finset.union_eq_left.mpr inside]
        exact pointsTo.insert_same found

theorem Filled.copied {pointsTo : PointsTo} (filled : Filled pointsTo) (name : String) :
    copied pointsTo name = copiedSet (pointees pointsTo name) := by
  unfold AliasAnalyzer.copied copiedSet pointees
  cases found : pointsTo.get? name with
  | none => rw [Option.getD_none, if_pos rfl]
  | some existing => rw [Option.getD_some, if_neg (filled name existing found)]

theorem Filled.resolveRhs {pointsTo : PointsTo} (filled : Filled pointsTo) (rhs : AstNode) :
    resolveRhs pointsTo rhs graph = (originOf rhs graph).value (pointees pointsTo) := by
  unfold AliasAnalyzer.resolveRhs originOf
  by_cases address : rhs.nodeKind = .unaryOperator ∧ opcode rhs = "&"
  · rw [if_pos address, if_pos address]
    rfl
  · rw [if_neg address, if_neg address]
    generalize rhs.nodeKind = kind
    cases kind with
    | declRefExpr =>
        dsimp only
        split
        · rfl
        · split
          · rfl
          · exact filled.copied _
    | _ => rfl

/-- A node adds the value of its assignment to the set of its target. -/
theorem Filled.handle {pointsTo : PointsTo} (filled : Filled pointsTo) (node : AstNode) :
    handle graph pointsTo node = AliasAnalyzer.addAll pointsTo ((rules graph).target node)
      ((rules graph).value node (pointees pointsTo)) := by
  unfold AliasAnalyzer.handle rules assignmentOf
  by_cases declares : node.nodeKind = .varDecl
  · simp only [if_pos declares, handleVarDecl]
    split
    · rfl
    · cases (graph.children node.nodeId).find? fun child => !isTypeNode child with
      | none => rfl
      | some initializer => simp only [filled.resolveRhs, Option.map_some, Option.getD_some]
  · simp only [if_neg declares, handleAssignment]
    cases graph.children node.nodeId with
    | nil => rfl
    | cons lhs others =>
        cases others with
        | nil => rfl
        | cons rhs rest =>
            dsimp only
            split
            · rfl
            · simp only [filled.resolveRhs, Option.map_some, Option.getD_some]

theorem Filled.step {pointsTo : PointsTo} (filled : Filled pointsTo) (graph : AstGraph) (node : AstNode) :
    Filled (AliasAnalyzer.handle graph pointsTo node) ∧
      pointees (AliasAnalyzer.handle graph pointsTo node) = (rules graph).step (pointees pointsTo) node := by
  rw [filled.handle]
  exact ⟨filled.addAll _ _, pointees_addAll _ _ _⟩

theorem Filled.pass {pointsTo : PointsTo} (filled : Filled pointsTo) (graph : AstGraph) (nodes : List AstNode) :
    Filled (pass graph nodes pointsTo) ∧
      pointees (pass graph nodes pointsTo) = (rules graph).sweep nodes (pointees pointsTo) := by
  induction nodes generalizing pointsTo with
  | nil => exact ⟨filled, rfl⟩
  | cons node rest ih =>
      obtain ⟨onward, same⟩ := filled.step graph node
      obtain ⟨last, whole⟩ := ih onward
      refine ⟨last, whole.trans ?_⟩
      rw [same]
      rfl

/-- A node whose value is in the set of its target changes nothing. -/
theorem Filled.handle_same {pointsTo : PointsTo} (filled : Filled pointsTo) {node : AstNode}
    (fixed : (rules graph).step (pointees pointsTo) node = pointees pointsTo) :
    AliasAnalyzer.handle graph pointsTo node = pointsTo := by
  rw [filled.handle]
  apply addAll_same
  have same := congrFun fixed ((rules graph).target node)
  rw [Sweep.Rules.step_target] at same
  exact Finset.union_eq_left.mp same

/-- The loop ends in a state that a pass leaves alone, or it has made all of its passes. -/
theorem Filled.iterate {pointsTo : PointsTo} (filled : Filled pointsTo) (graph : AstGraph) (nodes : List AstNode)
    (bound : ℕ) :
    Filled (iterate graph nodes bound pointsTo) ∧
      ((rules graph).sweep nodes (pointees (AliasAnalyzer.iterate graph nodes bound pointsTo)) =
          pointees (AliasAnalyzer.iterate graph nodes bound pointsTo) ∨
        pointees (AliasAnalyzer.iterate graph nodes bound pointsTo) =
          ((rules graph).sweep nodes)^[bound] (pointees pointsTo)) := by
  induction bound generalizing pointsTo with
  | zero => exact ⟨filled, .inr rfl⟩
  | succ bound ih =>
      obtain ⟨onward, same⟩ := filled.pass graph nodes
      unfold AliasAnalyzer.iterate
      dsimp only
      split
      · rename_i unchanged
        have fixed : AliasAnalyzer.pass graph nodes pointsTo = pointsTo := OrderedDict.ext unchanged
        rw [fixed] at same ⊢
        exact ⟨filled, .inl same.symm⟩
      · obtain ⟨last, closed | reached⟩ := ih onward
        · exact ⟨last, .inl closed⟩
        · refine ⟨last, .inr ?_⟩
          rw [reached, same, ← Function.iterate_succ_apply]

/-! ### Copies -/

theorem downgrade_definite {several : Bool} {pointee : Pointee}
    (definite : (downgrade several pointee).confidence = .definite) :
    several = false ∧ downgrade several pointee = pointee := by
  unfold downgrade at definite ⊢
  split at definite
  · exact absurd definite (by simp)
  · rename_i kept
    rw [if_neg kept]
    refine ⟨?_, rfl⟩
    cases several with
    | false => rfl
    | true => exact absurd ⟨rfl, definite⟩ kept

theorem downgrade_same {several : Bool} {pointee : Pointee} (vague : pointee.confidence ≠ .definite) :
    downgrade several pointee = pointee := if_neg fun both => vague both.2

@[simp] theorem downgrade_false (pointee : Pointee) : downgrade false pointee = pointee :=
  if_neg fun both => Bool.false_ne_true both.1

theorem copiedSet_nonempty (existing : Finset Pointee) : copiedSet existing ≠ ∅ := by
  unfold copiedSet
  split
  · exact Finset.singleton_ne_empty _
  · rename_i filled
    exact fun empty => filled (Finset.image_eq_empty.mp empty)

theorem mem_copiedSet {existing : Finset Pointee} {pointee : Pointee} (inside : pointee ∈ existing) :
    downgrade (1 < existing.card) pointee ∈ copiedSet existing := by
  rw [copiedSet, if_neg (Finset.ne_empty_of_mem inside)]
  exact Finset.mem_image_of_mem _ inside

theorem copiedSet_singleton (pointee : Pointee) : copiedSet {pointee} = {pointee} := by
  rw [copiedSet, if_neg (Finset.singleton_ne_empty _), Finset.card_singleton, Finset.image_singleton]
  simp

/-- A definite member of a copy is the only member of its source. -/
theorem copiedSet_definite {existing : Finset Pointee} {pointee : Pointee}
    (inside : pointee ∈ copiedSet existing) (definite : pointee.confidence = .definite) :
    existing = {pointee} := by
  unfold copiedSet at inside
  split at inside
  · rw [Finset.mem_singleton.mp inside] at definite
    simp [unknownPointee] at definite
  · obtain ⟨source, here, rfl⟩ := Finset.mem_image.mp inside
    obtain ⟨single, same⟩ := downgrade_definite definite
    rw [same]
    have small : existing.card ≤ 1 := by simpa using single
    exact Finset.eq_singleton_iff_unique_mem.mpr
      ⟨here, fun other there => Finset.card_le_one.mp small other there source here⟩

/-- What a copy adds is in its source, or the source has had a single definite member. -/
theorem copy_source {before after : Finset Pointee} (grows : before ⊆ after) {fact : Pointee}
    (valued : fact ∈ copiedSet after) (missed : fact ∉ copiedSet before) (filled : before ≠ ∅) :
    (fact ∈ after ∧ fact ∉ before) ∨ ∃ source, source ∈ after ∧ source.confidence = .definite ∧
      1 < after.card ∧ fact = downgrade true source := by
  have nonempty : after ≠ ∅ := fun empty => filled (Finset.subset_empty.mp (empty ▸ grows))
  rw [copiedSet, if_neg nonempty] at valued
  obtain ⟨source, here, rfl⟩ := Finset.mem_image.mp valued
  by_cases single : 1 < after.card
  · by_cases definite : source.confidence = .definite
    · exact .inr ⟨source, here, definite, single, by simp [single]⟩
    · rw [downgrade_same definite] at missed ⊢
      refine .inl ⟨here, fun early => missed ?_⟩
      have copy := mem_copiedSet early
      rwa [downgrade_same definite] at copy
  · have whole : downgrade (decide (1 < after.card)) source = source := by simp [single]
    rw [whole] at missed ⊢
    refine .inl ⟨here, fun early => missed ?_⟩
    have small : ¬ 1 < before.card := fun several => single (several.trans_le (Finset.card_le_card grows))
    have copy := mem_copiedSet early
    rwa [show downgrade (decide (1 < before.card)) source = source by simp [small]] at copy

/-! ### Late arrivals -/

/-- The node copies the set of a name. -/
def Copies (graph : AstGraph) (node : AstNode) (name : String) : Prop :=
  ∃ target, assignmentOf graph node = some ⟨target, .copy name⟩

theorem Copies.value {node : AstNode} {name : String} (copies : Copies graph node name)
    (sets : String → Finset Pointee) : (rules graph).value node sets = copiedSet (sets name) := by
  obtain ⟨target, same⟩ := copies
  simp [rules, same, Origin.value]

/-- A node that copies nothing has the same value at all times. -/
theorem value_constant {node : AstNode} (other : ∀ name, ¬ Copies graph node name)
    (first second : String → Finset Pointee) :
    (rules graph).value node first = (rules graph).value node second := by
  simp only [rules]
  cases same : assignmentOf graph node with
  | none => rfl
  | some assignment =>
      obtain ⟨target, origin⟩ := assignment
      cases origin with
      | found => rfl
      | copy name => exact absurd ⟨target, same⟩ (other name)

section Turns

variable {turn : ℕ → AstNode} {start : String → Finset Pointee} {period : ℕ}
  (periodic : ∀ time, turn (time + period) = turn time)

include periodic

/-- After a round, every value of a turn that never changes is in its set. -/
theorem not_arrives_constant {time : ℕ} (late : period ≤ time) (positive : 0 < period)
    (other : ∀ name, ¬ Copies graph (turn time) name) (fact : Pointee) :
    ¬ (rules graph).Arrives turn start fact time := by
  rintro ⟨valued, absent⟩
  have again : turn (time - period) = turn time := by
    rw [← periodic, Nat.sub_add_cancel late]
  apply absent
  have before := (rules graph).value_subset turn start
    (Nat.sub_lt (Nat.lt_of_lt_of_le positive late) positive : time - period < time)
  rw [again, value_constant other _ ((rules graph).timeline turn start time)] at before
  exact before valued

theorem arrives_copies {time : ℕ} (late : period ≤ time) (positive : 0 < period) {fact : Pointee}
    (arrives : (rules graph).Arrives turn start fact time) : ∃ name, Copies graph (turn time) name := by
  by_contra none_
  exact not_arrives_constant periodic late positive (not_exists.mp none_) fact arrives

/-- A name that is empty after a round stays empty. -/
theorem empty_stays {name : String} {early late : ℕ} (order : early ≤ late) (round : period ≤ early)
    (positive : 0 < period) (empty : (rules graph).timeline turn start early name = ∅) :
    (rules graph).timeline turn start late name = ∅ := by
  by_contra filled
  obtain ⟨fact, present⟩ := Finset.nonempty_iff_ne_empty.mpr filled
  obtain ⟨time, after, _, same, arrives⟩ :=
    Sweep.Rules.exists_arrives order (by rw [empty]; exact Finset.notMem_empty fact) present
  obtain ⟨source, copies⟩ := arrives_copies periodic (round.trans after) positive arrives
  have slot := Sweep.Rules.periodic_mod periodic time
  have early_ : time % period < early := (Nat.mod_lt time positive).trans_le round
  have before := (rules graph).value_subset turn start early_
  rw [slot, same, empty, copies.value] at before
  exact copiedSet_nonempty _ (Finset.subset_empty.mp before)

/-- A copy has added the copy of its source one round before. -/
theorem copied_before (start : String → Finset Pointee) {time later : ℕ} (late : period ≤ time) (after : time - period < later) {name : String}
    (copies : Copies graph (turn time) name) :
    copiedSet ((rules graph).timeline turn start (time - period) name) ⊆
      (rules graph).timeline turn start later ((rules graph).target (turn time)) := by
  have again : turn (time - period) = turn time := by rw [← periodic, Nat.sub_add_cancel late]
  have before := (rules graph).value_subset turn start after
  rwa [again, copies.value] at before

/-- A single definite member and the member that joins it have come over the same copy, which has
downgraded the first one. -/
theorem downgraded_before (positive : 0 < period) {time : ℕ} (late : 2 * period ≤ time) {name : String}
    {source : Pointee} (definite : source.confidence = .definite)
    (alone : (rules graph).timeline turn start (time - period) name = {source})
    (several : 1 < ((rules graph).timeline turn start time name).card) :
    downgrade true source ∈ (rules graph).timeline turn start time name := by
  obtain ⟨other, joined, differs⟩ := Finset.exists_mem_ne several source
  have absent : other ∉ (rules graph).timeline turn start (time - period) name := by
    rw [alone, Finset.mem_singleton]
    exact differs
  obtain ⟨moment, after, before, same, arrives⟩ :=
    Sweep.Rules.exists_arrives (Nat.sub_le time period) absent joined
  obtain ⟨origin, copies⟩ := arrives_copies periodic (by omega) positive arrives
  have previous := copied_before periodic start (by omega)
    (show moment - period < time - period by omega) copies
  rw [same, alone] at previous
  have only := (Finset.subset_singleton_iff.mp previous).resolve_left (copiedSet_nonempty _)
  have single := copiedSet_definite (only ▸ Finset.mem_singleton_self source) definite
  have still : source ∈ (rules graph).timeline turn start moment origin :=
    Sweep.Rules.timeline_mono (Nat.sub_le moment period) origin (single ▸ Finset.mem_singleton_self source)
  have added := (rules graph).value_subset turn start before
  rw [copies.value, same] at added
  by_cases crowded : 1 < ((rules graph).timeline turn start moment origin).card
  · have copy := mem_copiedSet still
    rw [decide_eq_true crowded] at copy
    exact added copy
  · have small : (rules graph).timeline turn start moment origin = {source} :=
      Finset.eq_singleton_iff_unique_mem.mpr
        ⟨still, fun member there => Finset.card_le_one.mp (Nat.le_of_not_lt crowded) member there source still⟩
    have valued := arrives.1
    rw [copies.value, small, copiedSet_singleton, Finset.mem_singleton] at valued
    exact absurd valued differs

/-- A definite pointee does not come late. -/
theorem definite_before (positive : 0 < period) {time : ℕ} (late : 3 * period ≤ time) {name : String}
    {source : Pointee} (definite : source.confidence = .definite)
    (present : source ∈ (rules graph).timeline turn start time name) :
    source ∈ (rules graph).timeline turn start (time - period) name := by
  by_contra absent
  obtain ⟨moment, after, before, same, arrives⟩ :=
    Sweep.Rules.exists_arrives (Nat.sub_le time period) absent present
  obtain ⟨origin, copies⟩ := arrives_copies periodic (by omega) positive arrives
  have valued := arrives.1
  rw [copies.value] at valued
  have single := copiedSet_definite valued definite
  have previous := copied_before periodic start (by omega)
    (show moment - period < time - period by omega) copies
  rw [same] at previous
  have smaller : (rules graph).timeline turn start (moment - period) origin ⊆ {source} :=
    single ▸ Sweep.Rules.timeline_mono (Nat.sub_le moment period) origin
  rcases Finset.subset_singleton_iff.mp smaller with empty | whole
  · have still := empty_stays periodic (Nat.sub_le moment period) (by omega) positive empty
    rw [single] at still
    exact Finset.singleton_ne_empty _ still
  · rw [whole, copiedSet_singleton] at previous
    exact absent (previous (Finset.mem_singleton_self source))

/-- A pointee that is added by a late copy has come to the source of the copy within the last round. -/
theorem recent_arrival (positive : 0 < period) {time : ℕ} (late : 3 * period ≤ time) {fact : Pointee}
    (arrives : (rules graph).Arrives turn start fact time) :
    ∃ earlier, earlier < time ∧ time ≤ earlier + period ∧ (rules graph).Arrives turn start fact earlier := by
  obtain ⟨name, copies⟩ := arrives_copies periodic (by omega) positive arrives
  obtain ⟨valued, absent⟩ := arrives
  rw [copies.value] at valued
  have grows : (rules graph).timeline turn start (time - period) name ⊆
      (rules graph).timeline turn start time name :=
    Sweep.Rules.timeline_mono (Nat.sub_le time period) name
  have missed : fact ∉ copiedSet ((rules graph).timeline turn start (time - period) name) := fun inside =>
    absent (copied_before periodic start (by omega) (by omega) copies inside)
  have filled : (rules graph).timeline turn start (time - period) name ≠ ∅ := by
    intro empty
    rw [empty_stays periodic (Nat.sub_le time period) (by omega) positive empty] at valued
    exact missed (empty ▸ valued)
  have moves : fact ∈ (rules graph).timeline turn start time name →
      fact ∉ (rules graph).timeline turn start (time - period) name →
      ∃ earlier, earlier < time ∧ time ≤ earlier + period ∧
        (rules graph).Arrives turn start fact earlier := by
    intro here new
    obtain ⟨moment, after, before, _, arrives⟩ := Sweep.Rules.exists_arrives (Nat.sub_le time period) new here
    exact ⟨moment, before, by omega, arrives⟩
  obtain ⟨here, new⟩ | ⟨source, here, definite, several, rfl⟩ := copy_source grows valued missed filled
  · exact moves here new
  · have vague : (downgrade true source).confidence ≠ .definite := fun same =>
      absurd (downgrade_definite same).1 (by simp)
    have early := definite_before periodic positive late definite here
    have alone : (rules graph).timeline turn start (time - period) name = {source} := by
      refine Finset.eq_singleton_iff_unique_mem.mpr ⟨early, fun other there => ?_⟩
      by_contra differs
      have crowded := Finset.one_lt_card.mpr ⟨other, there, source, early, differs⟩
      have copy := mem_copiedSet early
      rw [decide_eq_true crowded] at copy
      exact missed copy
    refine moves (downgraded_before periodic positive (by omega) definite alone several) fun inside => ?_
    have copy := mem_copiedSet inside
    rw [downgrade_same vague] at copy
    exact missed copy

end Turns

/-! ### The last pass -/

theorem seed_unknown (functionNode : AstNode) (graph : AstGraph) :
    Filled (seedPointerParameters functionNode graph) ∧
      ∀ name, pointees (seedPointerParameters functionNode graph) name ⊆ {unknownPointee} := by
  unfold seedPointerParameters
  generalize (graph.children functionNode.nodeId).filter _ = parameters
  have fold : ∀ pointsTo : PointsTo, Filled pointsTo → (∀ name, pointees pointsTo name ⊆ {unknownPointee}) →
      Filled (parameters.foldl (fun pointsTo node =>
          addAll pointsTo (declRefName node) {unknownPointee}) pointsTo) ∧
        ∀ name, pointees (parameters.foldl (fun pointsTo node =>
          addAll pointsTo (declRefName node) {unknownPointee}) pointsTo) name ⊆ {unknownPointee} := by
    induction parameters with
    | nil => exact fun _ filled only => ⟨filled, only⟩
    | cons node rest ih =>
        intro pointsTo filled only
        refine ih _ (filled.addAll _ _) fun name => ?_
        rw [pointees_addAll, Function.update_apply]
        split
        · exact Finset.union_subset (only _) (Finset.Subset.refl _)
        · exact only name
  exact fold .empty filled_empty fun name => Finset.empty_subset _

section Bound

variable {nodes : List AstNode} {start : String → Finset Pointee}

/-- When every node copies and the seeds are unknown, every set is unknown. -/
theorem timeline_unknown {turn : ℕ → AstNode} (all : ∀ time, ∃ name, Copies graph (turn time) name)
    (seeds : ∀ name, start name ⊆ {unknownPointee}) (time : ℕ) (name : String) :
    (rules graph).timeline turn start time name ⊆ {unknownPointee} := by
  induction time generalizing name with
  | zero => exact seeds name
  | succ time ih =>
      by_cases same : name = (rules graph).target (turn time)
      · subst same
        obtain ⟨source, copies⟩ := all time
        rw [Sweep.Rules.timeline, Sweep.Rules.step_target, copies.value]
        refine Finset.union_subset (ih _) ?_
        rcases Finset.subset_singleton_iff.mp (ih source) with empty | single
        · rw [empty, copiedSet, if_pos rfl]
        · rw [single, copiedSet_singleton]
      · rw [Sweep.Rules.timeline, Sweep.Rules.step_other _ _ same]
        exact ih name

/-- With as many passes as nodes and one more, nothing is left to arrive. -/
theorem not_arrives_last (nonempty : nodes ≠ []) (seeds : ∀ name, start name ⊆ {unknownPointee})
    {fact : Pointee} {time : ℕ} (late : (nodes.length + 1) * nodes.length ≤ time) :
    ¬ (rules graph).Arrives (Sweep.Rules.turns nodes nonempty) start fact time := by
  intro arrives
  have positive : 0 < nodes.length := List.length_pos_of_ne_nil nonempty
  have periodic := Sweep.Rules.turns_periodic nodes nonempty
  have round : nodes.length ≤ time := (Nat.le_mul_of_pos_left _ (Nat.succ_pos _)).trans late
  by_cases all : ∀ time, ∃ name, Copies graph (Sweep.Rules.turns nodes nonempty time) name
  · obtain ⟨name, copies⟩ := all time
    obtain ⟨valued, absent⟩ := arrives
    have whole := timeline_unknown all seeds
    have known : ∀ moment, (rules graph).value (Sweep.Rules.turns nodes nonempty time)
        ((rules graph).timeline (Sweep.Rules.turns nodes nonempty) start moment) = {unknownPointee} := by
      intro moment
      rw [copies.value]
      rcases Finset.subset_singleton_iff.mp (whole moment name) with empty | single
      · rw [empty, copiedSet, if_pos rfl]
      · rw [single, copiedSet_singleton]
    have again : Sweep.Rules.turns nodes nonempty (time - nodes.length) =
        Sweep.Rules.turns nodes nonempty time := by rw [← periodic, Nat.sub_add_cancel round]
    have before := (rules graph).value_subset (Sweep.Rules.turns nodes nonempty) start
      (Nat.sub_lt (Nat.lt_of_lt_of_le positive round) positive : time - nodes.length < time)
    rw [again, known] at before
    rw [known] at valued
    exact absent (before valued)
  · obtain ⟨moment, other⟩ := not_forall.mp all
    have slot := Sweep.Rules.periodic_mod periodic moment
    rw [← slot] at other
    have bound := arrives.round_le 2 periodic
      (fun time late arrives => recent_arrival periodic positive late arrives)
      (Nat.mod_lt moment positive) (fun time late same => by
        have here := Sweep.Rules.periodic_mod periodic time
        rw [same] at here
        exact not_arrives_constant periodic (by omega) positive (not_exists.mp (here ▸ other)) fact)
    have rounds : nodes.length + 1 ≤ time / nodes.length := (Nat.le_div_iff_mul_le positive).mpr late
    omega

end Bound

/-- The last pass of the loop leaves every set as it is. -/
theorem sweep_analyze (functionNode : AstNode) (graph : AstGraph) :
    Filled (analyze functionNode graph) ∧
      (rules graph).sweep (relevant functionNode graph) (pointees (analyze functionNode graph)) =
        pointees (analyze functionNode graph) := by
  obtain ⟨filled, seeds⟩ := seed_unknown functionNode graph
  obtain ⟨last, closed | reached⟩ := filled.iterate graph (relevant functionNode graph)
    ((relevant functionNode graph).length + 1)
  · exact ⟨last, closed⟩
  · refine ⟨last, ?_⟩
    unfold analyze
    dsimp only
    rw [reached, ← Function.iterate_succ_apply' ((rules graph).sweep (relevant functionNode graph))]
    by_cases nonempty : relevant functionNode graph = []
    · rw [nonempty]
      rfl
    · rw [Sweep.Rules.sweep_iterate _ nonempty, Sweep.Rules.sweep_iterate _ nonempty]
      refine Sweep.Rules.timeline_eq (Nat.mul_le_mul_right _ (Nat.le_succ _)) fun fact time late => ?_
      exact not_arrives_last nonempty seeds late

/-- After the passes of the loop, every declaration and assignment leaves the points-to sets as they
are, and so does one more pass. -/
theorem analyze_closed (functionNode : AstNode) (graph : AstGraph) :
    (∀ node ∈ relevant functionNode graph,
      handle graph (analyze functionNode graph) node = analyze functionNode graph) ∧
      pass graph (relevant functionNode graph) (analyze functionNode graph) =
        analyze functionNode graph := by
  obtain ⟨filled, closed⟩ := sweep_analyze functionNode graph
  have fixed := Sweep.Rules.step_of_sweep closed
  have still : ∀ node ∈ relevant functionNode graph,
      handle graph (analyze functionNode graph) node = analyze functionNode graph :=
    fun node inside => filled.handle_same (fixed node inside)
  refine ⟨still, ?_⟩
  unfold pass
  generalize relevant functionNode graph = nodes at still
  induction nodes with
  | nil => rfl
  | cons node rest ih =>
      rw [List.foldl_cons, still node List.mem_cons_self]
      exact ih fun other later => still other (List.mem_cons_of_mem _ later)

end AliasAnalyzer
end MisraPlatform
