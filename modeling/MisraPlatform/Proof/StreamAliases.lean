import MisraPlatform.Proof.AliasOrder
import MisraPlatform.Proof.BooleanIndependence
import MisraPlatform.Semantics.StreamUses

/-
This file computes the points-to sets and the aliases of a straight-line function.
-/

namespace MisraPlatform
open DataFlowEngineV2

namespace AliasAnalyzer

variable {functionNode : AstNode} {graph : AstGraph} {program : List (AstNode × StreamStmt)}

/-! ### Statements as assignments -/

def StreamValue.origin : StreamValue → Origin
  | .result callee => .found {⟨"<heap:" ++ callee ++ ">", .heapKind, .possible⟩}
  | .copy source => .copy source
  | .plain => .found ∅

theorem StreamValue.origin_ne {value : StreamValue} (bound : value ≠ .plain) : value.origin ≠ .found ∅ := by
  cases value with
  | result callee =>
      intro same
      exact Finset.singleton_ne_empty _ (Origin.found.inj same)
  | copy source => exact Origin.noConfusion
  | plain => exact absurd rfl bound

theorem StreamValue.Reads.originOf {value : StreamValue} {rhs : AstNode} (reads : value.Reads graph rhs) :
    originOf rhs graph = value.origin := by
  unfold AliasAnalyzer.originOf
  cases value with
  | result name =>
      obtain ⟨kind, rfl⟩ := reads
      simp [kind, origin]
  | copy source =>
      obtain ⟨kind, function, array, rfl, _⟩ := reads
      simp [kind, function, array, origin]
  | plain =>
      obtain ⟨kind, address, _⟩ := reads
      rw [if_neg address]
      cases same : rhs.nodeKind with
      | declRefExpr | callExpr => simp [same] at kind
      | _ => rfl

theorem AssignsTo.assignmentOf {node rhs : AstNode} {name : String} (assigns : AssignsTo graph node name rhs) :
    isRelevant node = true ∧ assignmentOf graph node = some ⟨name, originOf rhs graph⟩ := by
  obtain ⟨named, form⟩ := assigns
  rcases form with ⟨kind, pointer, same, found⟩ | ⟨kind, equals, lhs, rest, children, left, same⟩
  · subst same
    simp [isRelevant, AliasAnalyzer.assignmentOf, kind, pointer, named, found]
  · subst same
    simp [isRelevant, AliasAnalyzer.assignmentOf, kind, equals, children, left, named]

theorem assignsTo_of_assignmentOf {node : AstNode} {assignment : Assignment} (relevant : isRelevant node = true)
    (found : assignmentOf graph node = some assignment) :
    ∃ rhs, AssignsTo graph node assignment.target rhs ∧ assignment.origin = originOf rhs graph := by
  unfold assignmentOf at found
  split at found
  · rename_i kind
    split at found
    · cases found
    · rename_i eligible
      obtain ⟨named, pointer⟩ := not_or.mp eligible
      obtain ⟨rhs, initial, rfl⟩ := Option.map_eq_some_iff.mp found
      exact ⟨rhs, ⟨named, .inl ⟨kind, by simpa using pointer, rfl, initial⟩⟩, rfl⟩
  · rename_i kind
    have equals : node.nodeKind = .binaryOperator ∧ opcode node = "=" := by simpa [isRelevant, kind] using relevant
    split at found
    · rename_i lhs rhs rest children
      split at found
      · cases found
      · rename_i eligible
        obtain ⟨left, named⟩ := not_or.mp eligible
        obtain rfl := Option.some.inj found
        exact ⟨rhs, ⟨named, .inr ⟨equals.1, equals.2, lhs, rest, children, not_not.mp left, rfl⟩⟩, rfl⟩
    · cases found

theorem assigning_of_relevant {node : AstNode} {assignment : Assignment}
    (inside : node ∈ relevant functionNode graph)
    (found : assignmentOf graph node = some assignment) : Assigning graph node := by
  rw [relevant, linearize, List.mem_insertionSort] at inside
  obtain ⟨rhs, assigns, _⟩ := assignsTo_of_assignmentOf (List.mem_filter.mp inside).2 found
  exact ⟨_, rhs, assigns⟩

namespace StreamBody

variable (body : StreamBody functionNode graph program) (wellFormed : graph.WellFormed)

include body

theorem listed {entry : AstNode × StreamStmt} (inside : entry ∈ program) :
    entry.1 ∈ CFGEngine.bodyStatements functionNode graph :=
  body.statements ▸ List.mem_map_of_mem inside

include wellFormed

/-- What stands under a statement stands in the function. -/
theorem mem_descendants {entry : AstNode × StreamStmt} (inside : entry ∈ program) {node : AstNode}
    (under : graph.Under entry.1 node) : node ∈ graph.descendants functionNode.nodeId := by
  have listed := body.listed inside
  unfold CFGEngine.bodyStatements at listed
  dsimp only at listed
  rw [wellFormed.mem_descendants]
  split at listed
  · rename_i block found
    have child := List.mem_of_find?_eq_some found
    exact ⟨block, child, under.head ⟨(AstGraph.mem_children child).1, listed⟩⟩
  · exact ⟨entry.1, (List.mem_filter.mp listed).1, under⟩

theorem known {entry : AstNode × StreamStmt} (inside : entry ∈ program) : entry.1 ∈ graph.nodes := by
  obtain ⟨child, there, under⟩ := wellFormed.mem_descendants.mp (body.mem_descendants wellFormed inside .refl)
  exact under.present (AstGraph.mem_children there).1

/-- An assignment of a statement is an assignment of the points-to analysis. -/
theorem assigned {entry : AstNode × StreamStmt} (inside : entry ∈ program) {name : String} {value : StreamValue}
    (assigns : entry.2.assigns = some (name, value)) : ∃ node ∈ relevant functionNode graph,
      graph.Under entry.1 node ∧ assignmentOf graph node = some ⟨name, value.origin⟩ := by
  obtain ⟨node, rhs, under, assigned, reads, _⟩ := (body.reads entry inside).assigned name value assigns
  obtain ⟨relevant_, same⟩ := assigned.assignmentOf
  rw [reads.originOf] at same
  refine ⟨node, ?_, under, same⟩
  rw [relevant, linearize, List.mem_insertionSort]
  exact List.mem_filter.mpr ⟨body.mem_descendants wellFormed inside under, relevant_⟩

omit wellFormed in
/-- The points-to analysis has no other assignments. -/
theorem assignment {node : AstNode} (inside : node ∈ relevant functionNode graph) {target : String}
    {origin : Origin} (found : assignmentOf graph node = some ⟨target, origin⟩) :
    ∃ entry ∈ program, graph.Under entry.1 node ∧
      ∃ value, entry.2.assigns = some (target, value) ∧ value.origin = origin := by
  rw [relevant, linearize, List.mem_insertionSort] at inside
  obtain ⟨there, relevant_⟩ := List.mem_filter.mp inside
  obtain ⟨rhs, assigns, same⟩ := assignsTo_of_assignmentOf relevant_ found
  obtain ⟨entry, listed, under⟩ := body.inside node there (.inr (.inr ⟨target, rhs, assigns⟩))
  have reads := body.reads entry listed
  cases effect : entry.2.assigns with
  | none => exact absurd ⟨target, rhs, assigns⟩ (reads.unassigned effect node under)
  | some pair =>
      obtain ⟨name, value⟩ := pair
      obtain ⟨other, right, _, assigned, valued, only⟩ := reads.assigned name value effect
      obtain rfl := only node under ⟨target, rhs, assigns⟩
      have equal := assigned.assignmentOf.2
      rw [found, valued.originOf] at equal
      obtain ⟨rfl, rfl⟩ := Assignment.mk.inj (Option.some.inj equal)
      exact ⟨entry, listed, under, value, effect, rfl⟩

end StreamBody

/-! ### Points-to sets -/

theorem mem_seed (name : String) (fact : Pointee) :
    fact ∈ pointees (seedPointerParameters functionNode graph) name ↔
      fact = unknownPointee ∧ IsParameter functionNode graph name := by
  have fold : ∀ (parameters : List AstNode) (pointsTo : PointsTo),
      fact ∈ pointees (parameters.foldl (fun pointsTo node =>
          addAll pointsTo (declRefName node) {unknownPointee}) pointsTo) name ↔
        fact ∈ pointees pointsTo name ∨
          fact = unknownPointee ∧ ∃ node ∈ parameters, declRefName node = name := by
    intro parameters
    induction parameters with
    | nil => simp
    | cons node rest ih =>
        intro pointsTo
        rw [List.foldl_cons, ih, pointees_addAll, Function.update_apply]
        by_cases same : name = declRefName node
        · by_cases known : fact = unknownPointee
          · simp [same, known]
          · simp [same, known]
        · simp [same, Ne.symm same]
  have start : pointees (.empty : PointsTo) name = ∅ := by simp [pointees]
  unfold seedPointerParameters
  rw [fold, start]
  unfold IsParameter
  simp only [Finset.notMem_empty, false_or, List.mem_filter, decide_eq_true_eq, and_congr_right_iff]
  refine fun _ => exists_congr fun node => ?_
  constructor
  · rintro ⟨⟨child, kind, pointer, named⟩, same⟩
    exact ⟨child, kind, pointer, same, same ▸ named⟩
  · rintro ⟨child, kind, pointer, same, named⟩
    exact ⟨⟨child, kind, pointer, same ▸ named⟩, same⟩

def heapPair (callee : String) : String × PointeeKind := ("<heap:" ++ callee ++ ">", .heapKind)

/-- The program tells where the pointee of the name comes from. -/
def Traced (parameters : String → Prop) (effects : List StreamStmt) (name : String) (fact : Pointee) : Prop :=
  fact.pair = unknownPointee.pair ∧ Unclear parameters effects name ∨
    ∃ callee, fact.pair = heapPair callee ∧ Returned effects name callee

/-- Every pointee is traced, and the names that have been bound so far have one. -/
structure Steady (functionNode : AstNode) (graph : AstGraph) (program : List (AstNode × StreamStmt))
    (handled : List AstNode) (sets : String → Finset Pointee) : Prop where
  traced : ∀ name, ∀ fact ∈ sets name, Traced (IsParameter functionNode graph) (effects program) name fact
  seeded : ∀ name, IsParameter functionNode graph name → sets name ≠ ∅
  filled : ∀ node ∈ handled, ∀ name origin, assignmentOf graph node = some ⟨name, origin⟩ →
    origin ≠ .found ∅ → sets name ≠ ∅

theorem steady_start : Steady functionNode graph program []
    (pointees (seedPointerParameters functionNode graph)) := by
  constructor
  · intro name fact inside
    obtain ⟨rfl, given⟩ := (mem_seed name fact).mp inside
    exact .inl ⟨rfl, .parameter given⟩
  · intro name given
    exact Finset.ne_empty_of_mem ((mem_seed name unknownPointee).mpr ⟨rfl, given⟩)
  · exact fun _ inside => absurd inside List.not_mem_nil

/-- What the first pass adds stays. -/
theorem mem_analyze_of_sweep {name : String} {fact : Pointee} (added : fact ∈ (rules graph).sweep
      (relevant functionNode graph) (pointees (seedPointerParameters functionNode graph)) name) :
    fact ∈ pointees (analyze functionNode graph) name :=
  (seed_unknown functionNode graph).1.iterate_induct (fun sets => fact ∈ sets name)
    (fun sets inside node _ => Sweep.Rules.step_grows sets node name inside) _ added

/-- The last sets have the value of every assignment. -/
theorem origin_subset {node : AstNode} (inside : node ∈ relevant functionNode graph) {name : String}
    {origin : Origin} (same : assignmentOf graph node = some ⟨name, origin⟩) :
    origin.value (pointees (analyze functionNode graph)) ⊆ pointees (analyze functionNode graph) name := by
  have closed := Sweep.Rules.step_of_sweep (sweep_analyze functionNode graph).2 node inside
  intro fact valued
  rw [← closed]
  exact mem_step.mpr (.inr ⟨_, same, valued⟩)

theorem parameter_unknown {name : String} (given : IsParameter functionNode graph name) :
    unknownPointee ∈ pointees (analyze functionNode graph) name :=
  mem_analyze_of_sweep (Sweep.Rules.sweep_grows _ _ _ ((mem_seed _ unknownPointee).mpr ⟨rfl, given⟩))

section Body

variable (body : StreamBody functionNode graph program) (wellFormed : graph.WellFormed)

include body wellFormed

/-- A step keeps the sets steady when the assignments that stand before it in the text are handled. -/
theorem Steady.step {handled : List AstNode} {sets : String → Finset Pointee}
    (steady : Steady functionNode graph program handled sets) {node : AstNode}
    (inside : node ∈ relevant functionNode graph)
    (ready : ∀ other ∈ relevant functionNode graph, ¬ precedes node other → other ∈ handled) :
    Steady functionNode graph program (handled ++ [node]) ((rules graph).step sets node) := by
  have grows : ∀ name, sets name ≠ ∅ → (rules graph).step sets node name ≠ ∅ := by
    intro name some_ empty
    exact some_ (Finset.subset_empty.mp (empty ▸ Sweep.Rules.step_grows sets node name))
  refine ⟨?_, fun name given => grows name (steady.seeded name given), ?_⟩
  · intro name fact added
    rcases mem_step.mp added with earlier | ⟨origin, same, valued⟩
    · exact steady.traced name fact earlier
    obtain ⟨entry, listed, under, value, assigns, rfl⟩ := body.assignment inside same
    have here : entry.2 ∈ effects program := List.mem_map_of_mem listed
    cases value with
    | plain => exact absurd valued (Finset.notMem_empty fact)
    | result callee =>
        obtain rfl := Finset.mem_singleton.mp valued
        exact .inr ⟨callee, rfl, .called here assigns⟩
    | copy source =>
        rcases pair_copiedSet valued with ⟨empty, rfl⟩ | ⟨origin, there, pair⟩
        · -- The source has no set yet, so no earlier statement binds it.
          obtain ⟨before, after, rfl⟩ := List.append_of_mem listed
          have split : effects (before ++ entry :: after) = effects before ++ entry.2 :: effects after := by
            simp [effects]
          refine .inl ⟨rfl, .early split assigns ⟨fun given => steady.seeded source given empty, ?_⟩⟩
          rintro other earlier ⟨value, binds, bound⟩
          obtain ⟨early, place, rfl⟩ := List.mem_map.mp earlier
          obtain ⟨first, member, above, assigned⟩ :=
            body.assigned wellFormed (List.mem_append_left _ place) binds
          have order := (List.pairwise_append.mp body.ordered).2.2 early place entry List.mem_cons_self
          have done := ready first member (order first node above under)
          exact steady.filled first done source _ assigned (StreamValue.origin_ne bound) empty
        · unfold Traced
          rw [pair]
          exact (steady.traced source origin there).imp (And.imp_right (.copied here assigns))
            (Exists.imp fun _ => And.imp_right (.copied here assigns))
  · exact filled_step steady.filled

/-- The first pass handles the assignments in the order of the text. -/
theorem steady_sweep {handled : List AstNode} (rest : List AstNode)
    (split : relevant functionNode graph = handled ++ rest) : Steady functionNode graph program handled
      ((rules graph).sweep handled (pointees (seedPointerParameters functionNode graph))) := by
  induction handled using List.reverseRecOn generalizing rest with
  | nil => exact steady_start
  | append_singleton handled node ih =>
      rw [List.append_assoc] at split
      have steady := ih ([node] ++ rest) split
      rw [Sweep.Rules.sweep, List.foldl_append]
      refine steady.step body wellFormed (by rw [split]; simp) fun other there late => ?_
      rcases List.mem_append.mp (split ▸ there) with earlier | later
      · exact earlier
      · have sorted : (relevant functionNode graph).Pairwise precedes := List.pairwise_insertionSort precedes _
        rw [split] at sorted
        rcases List.mem_cons.mp later with rfl | after
        · exact absurd ((total_of precedes other other).elim id id) late
        · exact absurd ((List.pairwise_cons.mp (List.pairwise_append.mp sorted).2.1).1 other after) late

theorem steady_analyze : Steady functionNode graph program (relevant functionNode graph)
    (pointees (analyze functionNode graph)) := by
  have first := steady_sweep body wellFormed [] (List.append_nil (relevant functionNode graph)).symm
  refine (seed_unknown functionNode graph).1.iterate_induct _ (fun sets steady node inside => ?_) _ first
  obtain ⟨traced, seeded, filled⟩ := steady.step body wellFormed inside fun other there _ => there
  exact ⟨traced, seeded, fun other there => filled other (List.mem_append_left _ there)⟩

/-- The last sets have the value of every statement. -/
theorem value_subset {entry : AstNode × StreamStmt} (inside : entry ∈ program) {name : String}
    {value : StreamValue} (assigns : entry.2.assigns = some (name, value)) :
    value.origin.value (pointees (analyze functionNode graph)) ⊆ pointees (analyze functionNode graph) name := by
  obtain ⟨node, there, _, same⟩ := body.assigned wellFormed inside assigns
  exact origin_subset there same

theorem copied_pair {effect : StreamStmt} (inside : effect ∈ effects program) {target source : String}
    (copies : effect.assigns = some (target, .copy source)) {pair : String × PointeeKind}
    (held : pair ∈ pairs (analyze functionNode graph) source) :
    pair ∈ pairs (analyze functionNode graph) target := by
  obtain ⟨entry, there, rfl⟩ := List.mem_map.mp inside
  obtain ⟨fact, here, rfl⟩ := Finset.mem_image.mp held
  rw [← pair_downgrade (1 < (pointees (analyze functionNode graph) source).card) fact]
  exact Finset.mem_image_of_mem _ (value_subset body wellFormed there copies (mem_copiedSet here))

theorem mem_pairs_returned (name callee : String) :
    heapPair callee ∈ pairs (analyze functionNode graph) name ↔ Returned (effects program) name callee := by
  constructor
  · intro held
    obtain ⟨fact, inside, same⟩ := Finset.mem_image.mp held
    have traced := (steady_analyze body wellFormed).traced name fact inside
    rcases traced with ⟨unknown, _⟩ | ⟨other, heap, returned⟩
    · rw [unknown] at same
      exact absurd (congrArg Prod.snd same) (by simp [heapPair, Pointee.pair, unknownPointee])
    · rw [heap] at same
      have equal : other = callee := by simpa [heapPair] using same
      exact equal ▸ returned
  · intro returned
    induction returned with
    | called inside calls =>
        obtain ⟨entry, there, rfl⟩ := List.mem_map.mp inside
        exact Finset.mem_image_of_mem Pointee.pair
          (value_subset body wellFormed there calls (Finset.mem_singleton_self _))
    | copied inside copies _ ih => exact copied_pair body wellFormed inside copies ih

/-- The first pass finds no set for a name that no earlier statement binds. -/
theorem sweep_unbound {before after : List (AstNode × StreamStmt)} {entry : AstNode × StreamStmt}
    (place : program = before ++ entry :: after) {source : String} (given : ¬ IsParameter functionNode graph source)
    (unbound : ∀ other ∈ before, ¬ other.2.binds source) {handled rest : List AstNode} {node : AstNode}
    (under : graph.Under entry.1 node) (assigns : Assigning graph node)
    (split : relevant functionNode graph = handled ++ node :: rest) :
    (rules graph).sweep handled (pointees (seedPointerParameters functionNode graph)) source = ∅ := by
  have sorted : (relevant functionNode graph).Pairwise precedes := List.pairwise_insertionSort precedes _
  have distinct : (relevant functionNode graph).Nodup := by
    rw [relevant, linearize]
    exact (List.perm_insertionSort precedes _).nodup_iff.mpr ((wellFormed.descendants_spec _).1.filter _)
  rw [split] at sorted distinct
  have start : pointees (seedPointerParameters functionNode graph) source = ∅ := by
    refine Finset.eq_empty_iff_forall_notMem.mpr fun fact inside => ?_
    exact given ((mem_seed source fact).mp inside).2
  have kept : ∀ sets : String → Finset Pointee, sets source = ∅ → ∀ other ∈ handled,
      (rules graph).step sets other source = ∅ := by
    intro sets empty other done
    rw [← Finset.subset_empty, ← empty]
    intro fact added
    rcases mem_step.mp added with earlier | ⟨origin, same, valued⟩
    · exact earlier
    obtain ⟨owner, listed, above, value, binds, rfl⟩ :=
      body.assignment (split ▸ List.mem_append_left _ done) same
    have earlier := (List.pairwise_append.mp sorted).2.2 other done node List.mem_cons_self
    rw [place] at listed
    rcases List.mem_append.mp listed with first | last
    · cases value with
      | plain => exact absurd valued (Finset.notMem_empty fact)
      | result callee => exact absurd ⟨_, binds, StreamValue.noConfusion⟩ (unbound owner first)
      | copy name => exact absurd ⟨_, binds, StreamValue.noConfusion⟩ (unbound owner first)
    rcases List.mem_cons.mp last with rfl | later
    · -- A statement has only one assignment.
      obtain ⟨only, _, _, _, _, unique⟩ :=
        (body.reads owner (place ▸ List.mem_append_right _ List.mem_cons_self)).assigned _ _ binds
      have also := assigning_of_relevant (split ▸ List.mem_append_left _ done) same
      have equal : other = node := (unique other above also).trans (unique node under assigns).symm
      exact absurd List.mem_cons_self ((List.disjoint_of_nodup_append distinct) (equal ▸ done))
    · have order := (List.pairwise_cons.mp (List.pairwise_append.mp (place ▸ body.ordered)).2.1).1 owner later
      exact absurd earlier (order node other under above)
  exact Sweep.Rules.sweep_induct kept start

theorem mem_pairs_unclear (name : String) : unknownPointee.pair ∈ pairs (analyze functionNode graph) name ↔
    Unclear (IsParameter functionNode graph) (effects program) name := by
  constructor
  · intro held
    obtain ⟨fact, inside, same⟩ := Finset.mem_image.mp held
    rcases (steady_analyze body wellFormed).traced name fact inside with ⟨_, unclear⟩ | ⟨callee, heap, _⟩
    · exact unclear
    · rw [heap] at same
      exact absurd (congrArg Prod.snd same) (by simp [heapPair, Pointee.pair, unknownPointee])
  · intro unclear
    induction unclear with
    | parameter given =>
        exact Finset.mem_image_of_mem Pointee.pair (parameter_unknown given)
    | @early before after effect target source split copies unbound =>
        obtain ⟨first, others, rfl, rfl, tail⟩ := List.map_eq_append_iff.mp split
        obtain ⟨entry, rest, rfl, rfl, rfl⟩ := List.map_eq_cons_iff.mp tail
        obtain ⟨node, there, under, same⟩ :=
          body.assigned wellFormed (List.mem_append_right _ List.mem_cons_self) copies
        obtain ⟨handled, later, order⟩ := List.append_of_mem there
        have empty := sweep_unbound body wellFormed rfl unbound.1
          (fun other inside => unbound.2 other.2 (List.mem_map_of_mem inside)) under
          (assigning_of_relevant there same) order
        refine Finset.mem_image_of_mem Pointee.pair (mem_analyze_of_sweep ?_)
        rw [order, Sweep.Rules.sweep, List.foldl_append, List.foldl_cons]
        refine Sweep.Rules.sweep_grows later _ target (mem_step.mpr (.inr ⟨_, same, ?_⟩))
        have copy : copiedSet ∅ = {unknownPointee} := if_pos rfl
        rw [StreamValue.origin, Origin.value, ← Sweep.Rules.sweep, empty, copy]
        exact Finset.mem_singleton_self _
    | copied inside copies _ ih => exact copied_pair body wellFormed inside copies ih

/-! ### Aliases -/

theorem pointees_ne_empty (name : String) : pointees (analyze functionNode graph) name ≠ ∅ ↔
    Bound (IsParameter functionNode graph) (effects program) name := by
  have image : pointees (analyze functionNode graph) name ≠ ∅ ↔
      (pairs (analyze functionNode graph) name).Nonempty := by
    rw [pairs, Finset.image_nonempty, Finset.nonempty_iff_ne_empty]
  rw [image, Bound]
  simp only [← mem_pairs_unclear body wellFormed, ← mem_pairs_returned body wellFormed]
  constructor
  · rintro ⟨pair, inside⟩
    obtain ⟨fact, there, rfl⟩ := Finset.mem_image.mp inside
    rcases (steady_analyze body wellFormed).traced name fact there with ⟨same, _⟩ | ⟨callee, same, _⟩
    · exact .inl (same ▸ inside)
    · exact .inr ⟨callee, same ▸ inside⟩
  · rintro (unknown | ⟨callee, heap⟩)
    · exact ⟨_, unknown⟩
    · exact ⟨_, heap⟩

theorem hasUnknown_iff (name : String) : hasUnknown (pointees (analyze functionNode graph) name) ↔
    Unclear (IsParameter functionNode graph) (effects program) name := by
  constructor
  · rintro ⟨fact, inside, kind⟩
    rcases (steady_analyze body wellFormed).traced name fact inside with ⟨_, unclear⟩ | ⟨callee, heap, _⟩
    · exact unclear
    · have other : fact.kind = .heapKind := congrArg Prod.snd heap
      exact absurd (kind.symm.trans other) (by decide)
  · intro unclear
    obtain ⟨fact, inside, same⟩ := Finset.mem_image.mp ((mem_pairs_unclear body wellFormed name).mpr unclear)
    exact ⟨fact, inside, congrArg Prod.snd same⟩

/-- Names without an unknown pointee share a target when both come from calls of one function. -/
theorem targets_inter (first second : String)
    (clear : ¬ (Unclear (IsParameter functionNode graph) (effects program) first ∨
      Unclear (IsParameter functionNode graph) (effects program) second)) :
    (targetsOf (pointees (analyze functionNode graph) first) ∩
        targetsOf (pointees (analyze functionNode graph) second)).Nonempty ↔
      ∃ callee, Returned (effects program) first callee ∧ Returned (effects program) second callee := by
  have heap : ∀ {name fact}, ¬ Unclear (IsParameter functionNode graph) (effects program) name →
      fact ∈ pointees (analyze functionNode graph) name →
        ∃ callee, fact.pair = heapPair callee ∧ Returned (effects program) name callee :=
    fun known inside => ((steady_analyze body wellFormed).traced _ _ inside).resolve_left fun both => known both.2
  obtain ⟨left, right⟩ := not_or.mp clear
  constructor
  · rintro ⟨target, shared⟩
    obtain ⟨here, there⟩ := Finset.mem_inter.mp shared
    obtain ⟨fact, inside, rfl⟩ := Finset.mem_image.mp here
    obtain ⟨other, also, same⟩ := Finset.mem_image.mp there
    obtain ⟨callee, pair, returned⟩ := heap left inside
    obtain ⟨callee', pair', returned'⟩ := heap right also
    have texts : (heapPair callee').1 = (heapPair callee).1 := by
      rw [← pair, ← pair']
      exact same
    have equal : callee' = callee := by simpa [heapPair] using texts
    exact ⟨callee, returned, equal ▸ returned'⟩
  · rintro ⟨callee, returned, returned'⟩
    obtain ⟨fact, inside, pair⟩ :=
      Finset.mem_image.mp ((mem_pairs_returned body wellFormed first callee).mpr returned)
    obtain ⟨other, also, pair'⟩ :=
      Finset.mem_image.mp ((mem_pairs_returned body wellFormed second callee).mpr returned')
    have same : other.target = fact.target := congrArg Prod.fst (pair'.trans pair.symm)
    exact ⟨fact.target, Finset.mem_inter.mpr
      ⟨Finset.mem_image_of_mem _ inside, same ▸ Finset.mem_image_of_mem _ also⟩⟩

omit body wellFormed in
theorem mayAlias_iff (pointsTo : PointsTo) (first second : String) : (mayAlias pointsTo first second).1 = true ↔
    (pointees pointsTo first ≠ ∅ ∧ pointees pointsTo second ≠ ∅) ∧
      ((hasUnknown (pointees pointsTo first) ∨ hasUnknown (pointees pointsTo second)) ∨
        (targetsOf (pointees pointsTo first) ∩ targetsOf (pointees pointsTo second)).Nonempty) := by
  unfold mayAlias
  dsimp only
  split_ifs with missing unknown disjoint definite
  · exact iff_of_false not_false fun both => missing.elim both.1.1 both.1.2
  · simp [not_or.mp missing, unknown]
  · simp [disjoint, unknown]
  · simp [not_or.mp missing, Finset.nonempty_iff_ne_empty.mpr disjoint]
  · simp [not_or.mp missing, Finset.nonempty_iff_ne_empty.mpr disjoint]

omit body wellFormed in
theorem mem_aliasesOf (pointsTo : PointsTo) (first second : String) :
    second ∈ aliasesOf pointsTo first ↔ first = second ∨ (mayAlias pointsTo first second).1 = true := by
  have known : (mayAlias pointsTo first second).1 = true → second ∈ pointsTo.keys := by
    intro aliased
    by_contra absent
    have missing : pointsTo.get? second = none := (OrderedDict.get?_eq_none pointsTo second).mpr absent
    exact ((mayAlias_iff pointsTo first second).mp aliased).1.2 (by simp [pointees, missing])
  rw [aliasesOf, Finset.mem_insert, List.mem_toFinset, List.mem_filter]
  by_cases same : second = first
  · simp [same]
  · simp only [same, Ne.symm same, false_or, ne_eq, not_false_eq_true, true_and, decide_eq_true_eq]
    exact and_iff_right_of_imp known

/-- The aliases of a name are the related names. -/
theorem mem_aliases_iff (first second : String) : second ∈ aliasesOf (analyze functionNode graph) first ↔
    Related (IsParameter functionNode graph) (effects program) first second := by
  rw [mem_aliasesOf, mayAlias_iff, pointees_ne_empty body wellFormed, pointees_ne_empty body wellFormed,
    hasUnknown_iff body wellFormed, hasUnknown_iff body wellFormed, Related]
  refine or_congr_right ?_
  constructor
  · rintro ⟨⟨left, right⟩, related⟩
    by_cases unclear : Unclear (IsParameter functionNode graph) (effects program) first ∨
        Unclear (IsParameter functionNode graph) (effects program) second
    · exact unclear.imp (fun first => ⟨first, right⟩) fun second => .inl ⟨left, second⟩
    · have shared := related.resolve_left unclear
      exact .inr (.inr ((targets_inter body wellFormed first second unclear).mp shared))
  · rintro (⟨left, right⟩ | ⟨left, right⟩ | ⟨callee, left, right⟩)
    · exact ⟨⟨.inl left, right⟩, .inl (.inl left)⟩
    · exact ⟨⟨left, .inl right⟩, .inl (.inr right)⟩
    · refine ⟨⟨.inr ⟨callee, left⟩, .inr ⟨callee, right⟩⟩, ?_⟩
      by_cases unclear : Unclear (IsParameter functionNode graph) (effects program) first ∨
          Unclear (IsParameter functionNode graph) (effects program) second
      · exact .inl unclear
      · exact .inr ((targets_inter body wellFormed first second unclear).mpr ⟨callee, left, right⟩)

end Body

end AliasAnalyzer
end MisraPlatform
