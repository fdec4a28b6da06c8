import MisraPlatform.Proof.AliasClosure
import MisraPlatform.Proof.Relabeling

/-
This file shows when the targets of the pointers do not depend on the order of the text.
-/

namespace MisraPlatform
open DataFlowEngineV2

namespace AliasAnalyzer

variable {functionNode : AstNode} {graph : AstGraph}

/-! ### Additions of one node -/

@[simp] theorem pair_downgrade (several : Bool) (pointee : Pointee) :
    (downgrade several pointee).pair = pointee.pair := by
  unfold downgrade
  split <;> rfl

/-- A copy has the pairs of its source. The copy of an empty set is unknown. -/
theorem pair_copiedSet {existing : Finset Pointee} {pointee : Pointee}
    (inside : pointee ∈ copiedSet existing) :
    (existing = ∅ ∧ pointee = unknownPointee) ∨ ∃ source ∈ existing, pointee.pair = source.pair := by
  unfold copiedSet at inside
  split at inside
  · rename_i empty
    exact .inl ⟨empty, Finset.mem_singleton.mp inside⟩
  · obtain ⟨source, here, rfl⟩ := Finset.mem_image.mp inside
    exact .inr ⟨source, here, pair_downgrade _ source⟩

/-- A step adds the value of the assignment of the node. -/
theorem mem_step {sets : String → Finset Pointee} {node : AstNode} {name : String} {fact : Pointee} :
    fact ∈ (rules graph).step sets node name ↔ fact ∈ sets name ∨
      ∃ origin, assignmentOf graph node = some ⟨name, origin⟩ ∧ fact ∈ origin.value sets := by
  rw [Sweep.Rules.step, Function.update_apply]
  cases same : assignmentOf graph node with
  | none =>
      have idle : (rules graph).value node sets = ∅ := by simp [rules, same]
      rw [idle, Finset.union_empty]
      by_cases here : name = (rules graph).target node
      · simp [here]
      · simp [here]
  | some assignment =>
      obtain ⟨target, origin⟩ := assignment
      have value : (rules graph).value node sets = origin.value sets := by simp [rules, same]
      have goal : (rules graph).target node = target := by simp [rules, same]
      rw [value, goal]
      by_cases here : name = target
      · subst here
        simp
      · simp [here, Ne.symm here]

/-- The first pass and every later step keep what holds of the sets at the end. -/
theorem Filled.iterate_induct (invariant : (String → Finset Pointee) → Prop) {nodes : List AstNode}
    (kept : ∀ sets, invariant sets → ∀ node ∈ nodes, invariant ((rules graph).step sets node))
    (bound : ℕ) {pointsTo : PointsTo} (filled : Filled pointsTo)
    (first : invariant ((rules graph).sweep nodes (pointees pointsTo))) :
    invariant (pointees (AliasAnalyzer.iterate graph nodes (bound + 1) pointsTo)) := by
  induction bound generalizing pointsTo with
  | zero =>
      have passed := (filled.pass graph nodes).2
      rw [← passed] at first
      unfold AliasAnalyzer.iterate
      dsimp only
      split
      · exact first
      · exact first
  | succ bound ih =>
      obtain ⟨onward, passed⟩ := filled.pass graph nodes
      rw [← passed] at first
      unfold AliasAnalyzer.iterate
      dsimp only
      split
      · exact first
      · exact ih onward (Sweep.Rules.sweep_induct kept first)

/-! ### Bounds of the sets -/

section Bounds

variable {start : String → Finset Pointee} {nodes : List AstNode}

/-- The nodes make these assignments. -/
def MadeBy (graph : AstGraph) (nodes : List AstNode) (assignment : Assignment) : Prop :=
  ∃ node ∈ nodes, assignmentOf graph node = some assignment

/-- A name that is not grounded has at most unknown pointees. -/
def Vague (start : String → Finset Pointee) (assigns : Assignment → Prop)
    (sets : String → Finset Pointee) : Prop :=
  ∀ name, ¬ Grounded start assigns name → ∀ fact ∈ sets name, fact.pair = unknownPointee.pair

theorem vague_start (assigns : Assignment → Prop) : Vague start assigns start := by
  intro name missing fact inside
  exact absurd (Grounded.seeded (Finset.ne_empty_of_mem inside)) missing

theorem Vague.step {sets : String → Finset Pointee} (vague : Vague start (MadeBy graph nodes) sets)
    {node : AstNode} (inside : node ∈ nodes) :
    Vague start (MadeBy graph nodes) ((rules graph).step sets node) := by
  intro name missing fact added
  rcases mem_step.mp added with earlier | ⟨origin, same, valued⟩
  · exact vague name missing fact earlier
  · have made : MadeBy graph nodes ⟨name, origin⟩ := ⟨node, inside, same⟩
    cases origin with
    | found pointees => exact absurd (Grounded.found made (Finset.ne_empty_of_mem valued)) missing
    | copy source =>
        have distant : ¬ Grounded start (MadeBy graph nodes) source := fun near => missing (.copied made near)
        rcases pair_copiedSet valued with ⟨_, unknown⟩ | ⟨origin, there, pair⟩
        · rw [unknown]
        · exact pair.trans (vague source distant origin there)

/-- A closed state has every pair that holds in all orders. -/
theorem Holds.mem_closed {sets : String → Finset Pointee} (seeded : ∀ name, start name ⊆ sets name)
    (vague : Vague start (MadeBy graph nodes) sets)
    (closed : ∀ node ∈ nodes, (rules graph).step sets node = sets) {name : String}
    {pair : String × PointeeKind} (holds : Holds start (MadeBy graph nodes) name pair) :
    pair ∈ (sets name).image Pointee.pair := by
  have valued : ∀ {target origin}, MadeBy graph nodes ⟨target, origin⟩ → origin.value sets ⊆ sets target := by
    intro target origin made fact inside
    obtain ⟨node, here, same⟩ := made
    rw [← closed node here]
    exact mem_step.mpr (.inr ⟨origin, same, inside⟩)
  induction holds with
  | seeded inside => exact Finset.mem_image_of_mem _ (seeded _ inside)
  | found assigned inside => exact Finset.mem_image_of_mem _ (valued assigned inside)
  | copied assigned held ih =>
      obtain ⟨fact, there, rfl⟩ := Finset.mem_image.mp ih
      rw [← pair_downgrade (1 < (sets _).card) fact]
      exact Finset.mem_image_of_mem _ (valued assigned (mem_copiedSet there))
  | @unset target name assigned missing =>
      obtain ⟨fact, inside⟩ := Finset.nonempty_iff_ne_empty.mpr (copiedSet_nonempty (sets name))
      have unknown : fact.pair = unknownPointee.pair := by
        rcases pair_copiedSet inside with ⟨_, same⟩ | ⟨source, there, same⟩
        · rw [same]
        · exact same.trans (vague name missing source there)
      rw [← unknown]
      exact Finset.mem_image_of_mem _ (valued assigned inside)

/-- The sets contain the start, and every pair of them holds in all orders. -/
structure Within (start : String → Finset Pointee) (assigns : Assignment → Prop)
    (sets : String → Finset Pointee) : Prop where
  seeded : ∀ name, start name ⊆ sets name
  holds : ∀ name, ∀ fact ∈ sets name, Holds start assigns name fact.pair

theorem within_start (assigns : Assignment → Prop) : Within start assigns start :=
  ⟨fun _ => Finset.Subset.refl _, fun _ _ inside => .seeded inside⟩

/-- A step stays within when a grounded name that it copies has something in its set. -/
theorem Within.step {sets : String → Finset Pointee} (within : Within start (MadeBy graph nodes) sets)
    {node : AstNode} (inside : node ∈ nodes)
    (settled : ∀ target name, assignmentOf graph node = some ⟨target, .copy name⟩ →
      Grounded start (MadeBy graph nodes) name → sets name = ∅ →
        Holds start (MadeBy graph nodes) target unknownPointee.pair) :
    Within start (MadeBy graph nodes) ((rules graph).step sets node) := by
  refine ⟨fun name => (within.seeded name).trans (Sweep.Rules.step_grows _ _ name), ?_⟩
  intro name fact added
  rcases mem_step.mp added with earlier | ⟨origin, same, valued⟩
  · exact within.holds name fact earlier
  · have made : MadeBy graph nodes ⟨name, origin⟩ := ⟨node, inside, same⟩
    cases origin with
    | found pointees => exact .found made valued
    | copy source =>
        rcases pair_copiedSet valued with ⟨empty, unknown⟩ | ⟨origin, there, pair⟩
        · rw [unknown]
          by_cases near : Grounded start (MadeBy graph nodes) source
          · exact settled name source same near empty
          · exact .unset made near
        · rw [pair]
          exact .copied made (within.holds source origin there)

/-! ### An order without early copies -/

/-- The name is grounded over this number of copies. -/
inductive Level (start : String → Finset Pointee) (assigns : Assignment → Prop) : ℕ → String → Prop
  | seeded {name : String} (filled : start name ≠ ∅) : Level start assigns 0 name
  | found {target : String} {pointees : Finset Pointee} (assigned : assigns ⟨target, .found pointees⟩)
      (filled : pointees ≠ ∅) : Level start assigns 0 target
  | copied {target name : String} {count : ℕ} (assigned : assigns ⟨target, .copy name⟩)
      (source : Level start assigns count name) : Level start assigns (count + 1) target

theorem Grounded.level {assigns : Assignment → Prop} {name : String} (grounded : Grounded start assigns name) :
    ∃ count, Level start assigns count name := by
  induction grounded with
  | seeded filled => exact ⟨0, .seeded filled⟩
  | found assigned filled => exact ⟨0, .found assigned filled⟩
  | copied assigned source ih =>
      obtain ⟨count, level⟩ := ih
      exact ⟨count + 1, .copied assigned level⟩

noncomputable def height (start : String → Finset Pointee) (assigns : Assignment → Prop) (name : String) : ℕ :=
  sInf {count | Level start assigns count name}

/-- A copy comes after what fills its source. -/
noncomputable def rank (start : String → Finset Pointee) (assigns : Assignment → Prop) (graph : AstGraph)
    (node : AstNode) : ℕ :=
  match assignmentOf graph node with
  | some ⟨_, .copy name⟩ => height start assigns name + 1
  | _ => 0

theorem rank_copy {assigns : Assignment → Prop} {node : AstNode} {target name : String}
    (same : assignmentOf graph node = some ⟨target, .copy name⟩) :
    rank start assigns graph node = height start assigns name + 1 := by
  simp only [rank, same]

theorem rank_found {assigns : Assignment → Prop} {node : AstNode} {target : String} {pointees : Finset Pointee}
    (same : assignmentOf graph node = some ⟨target, .found pointees⟩) : rank start assigns graph node = 0 := by
  simp only [rank, same]

/-- A node of a lower rank fills a grounded name that is empty at the start. -/
theorem Grounded.filler {name : String} (grounded : Grounded start (MadeBy graph nodes) name)
    (unseeded : start name = ∅) :
    ∃ node ∈ nodes, ∃ origin, assignmentOf graph node = some ⟨name, origin⟩ ∧ origin ≠ .found ∅ ∧
      rank start (MadeBy graph nodes) graph node ≤ height start (MadeBy graph nodes) name := by
  have least : Level start (MadeBy graph nodes) (height start (MadeBy graph nodes) name) name :=
    Nat.sInf_mem grounded.level
  generalize at_ : height start (MadeBy graph nodes) name = count at least ⊢
  cases least with
  | seeded filled => exact absurd unseeded filled
  | @found _ pointees assigned filled =>
      obtain ⟨node, inside, same⟩ := assigned
      refine ⟨node, inside, .found pointees, same, fun empty => filled (Origin.found.inj empty), ?_⟩
      rw [rank_found same]
  | @copied _ source count assigned level =>
      obtain ⟨node, inside, same⟩ := assigned
      refine ⟨node, inside, .copy source, same, Origin.noConfusion, ?_⟩
      rw [rank_copy same]
      exact Nat.succ_le_succ (Nat.sInf_le level)

/-- The sets stay within and the nodes up to here have filled their targets. -/
structure Settled (start : String → Finset Pointee) (graph : AstGraph) (nodes handled : List AstNode)
    (sets : String → Finset Pointee) : Prop where
  within : Within start (MadeBy graph nodes) sets
  filled : ∀ node ∈ handled, ∀ name origin, assignmentOf graph node = some ⟨name, origin⟩ →
    origin ≠ .found ∅ → sets name ≠ ∅

/-- A step fills the target of its node, and no set becomes empty. -/
theorem filled_step {handled : List AstNode} {sets : String → Finset Pointee} {node : AstNode}
    (filled : ∀ other ∈ handled, ∀ name origin, assignmentOf graph other = some ⟨name, origin⟩ →
      origin ≠ .found ∅ → sets name ≠ ∅) :
    ∀ other ∈ handled ++ [node], ∀ name origin, assignmentOf graph other = some ⟨name, origin⟩ →
      origin ≠ .found ∅ → (rules graph).step sets node name ≠ ∅ := by
  intro other there name origin same some_ empty
  rcases List.mem_append.mp there with earlier | last
  · apply filled other earlier name origin same some_
    exact Finset.subset_empty.mp (empty ▸ Sweep.Rules.step_grows sets node name)
  · obtain rfl := List.mem_singleton.mp last
    have valued : origin.value sets = ∅ := by
      rw [← Finset.subset_empty, ← empty]
      exact fun fact present => mem_step.mpr (.inr ⟨origin, same, present⟩)
    cases origin with
    | found pointees => exact some_ (congrArg Origin.found valued)
    | copy source => exact copiedSet_nonempty _ valued

theorem Settled.step {handled : List AstNode} {sets : String → Finset Pointee}
    (settled : Settled start graph nodes handled sets) {node : AstNode} (inside : node ∈ nodes)
    (ready : ∀ other ∈ nodes, rank start (MadeBy graph nodes) graph other <
      rank start (MadeBy graph nodes) graph node → other ∈ handled) :
    Settled start graph nodes (handled ++ [node]) ((rules graph).step sets node) := by
  constructor
  · refine settled.within.step inside fun target name same near empty => ?_
    have unseeded : start name = ∅ := Finset.subset_empty.mp (empty ▸ settled.within.seeded name)
    obtain ⟨other, there, origin, fills, some_, lower⟩ := near.filler unseeded
    have earlier := ready other there (by rw [rank_copy same]; exact Nat.lt_succ_of_le lower)
    exact absurd empty (settled.filled other earlier name origin fills some_)
  · exact filled_step settled.filled

/-- In the order of the ranks, the first pass copies no grounded name before its set is filled. -/
theorem settled_sweep (sorted : nodes.Pairwise fun first second =>
      rank start (MadeBy graph nodes) graph first ≤ rank start (MadeBy graph nodes) graph second)
    {handled : List AstNode} (rest : List AstNode) (split : nodes = handled ++ rest) :
    Settled start graph nodes handled ((rules graph).sweep handled start) := by
  induction handled using List.reverseRecOn generalizing rest with
  | nil => exact ⟨within_start _, fun _ inside => absurd inside List.not_mem_nil⟩
  | append_singleton handled node ih =>
      rw [List.append_assoc] at split
      have settled := ih ([node] ++ rest) split
      rw [Sweep.Rules.sweep, List.foldl_append]
      refine settled.step (by rw [split]; simp) fun other there lower => ?_
      rcases List.mem_append.mp (split ▸ there) with earlier | later
      · exact earlier
      · refine absurd lower (Nat.not_lt.mpr ?_)
        rcases List.mem_cons.mp later with rfl | after
        · exact Nat.le_refl _
        · have tail : ([node] ++ rest).Sublist nodes := split ▸ List.sublist_append_right handled _
          exact (List.pairwise_cons.mp (sorted.sublist tail)).1 other after

end Bounds

/-! ### Results of a list of nodes -/

section Results

variable {nodes : List AstNode} {pointsTo : PointsTo}

/-- Without early copies of grounded names, the pairs are those that hold in all orders. -/
theorem Filled.pairs_iterate (filled : Filled pointsTo)
    (free : OrderFree (pointees pointsTo) (MadeBy graph nodes)) (bound : ℕ)
    (closed : ∀ node ∈ nodes,
      (rules graph).step (pointees (AliasAnalyzer.iterate graph nodes (bound + 1) pointsTo)) node =
        pointees (AliasAnalyzer.iterate graph nodes (bound + 1) pointsTo)) (name : String)
    (pair : String × PointeeKind) :
    pair ∈ pairs (AliasAnalyzer.iterate graph nodes (bound + 1) pointsTo) name ↔
      Holds (pointees pointsTo) (MadeBy graph nodes) name pair := by
  have vague : Vague (pointees pointsTo) (MadeBy graph nodes)
      (pointees (AliasAnalyzer.iterate graph nodes (bound + 1) pointsTo)) :=
    Filled.iterate_induct _ (fun _ holds _ inside => holds.step inside) bound filled
      (Sweep.Rules.sweep_induct (fun _ holds _ inside => holds.step inside) (vague_start _))
  have kept : ∀ sets, Within (pointees pointsTo) (MadeBy graph nodes) sets → ∀ node ∈ nodes,
      Within (pointees pointsTo) (MadeBy graph nodes) ((rules graph).step sets node) := by
    intro sets within node inside
    refine within.step inside fun target source same near empty => ?_
    exact free target source ⟨node, inside, same⟩ near
      (Finset.subset_empty.mp (empty ▸ within.seeded source))
  have within := Filled.iterate_induct _ kept bound filled (Sweep.Rules.sweep_induct kept (within_start _))
  constructor
  · intro present
    obtain ⟨fact, inside, rfl⟩ := Finset.mem_image.mp present
    exact within.holds name fact inside
  · intro holds
    exact holds.mem_closed within.seeded vague closed

/-- A copy of an empty set at the head of the list adds the unknown pointee. -/
theorem Filled.unknown_iterate {node : AstNode} {target name : String} (filled : Filled pointsTo)
    (same : assignmentOf graph node = some ⟨target, .copy name⟩) (empty : pointees pointsTo name = ∅)
    (rest : List AstNode) (bound : ℕ) :
    unknownPointee.pair ∈ pairs (AliasAnalyzer.iterate graph (node :: rest) (bound + 1) pointsTo) target := by
  apply Finset.mem_image_of_mem
  refine Filled.iterate_induct (fun sets => unknownPointee ∈ sets target) ?_ bound filled ?_
  · intro sets present other _
    exact Sweep.Rules.step_grows sets other target present
  · apply Sweep.Rules.sweep_grows rest
    refine mem_step.mpr (.inr ⟨.copy name, same, ?_⟩)
    rw [Origin.value, empty, copiedSet, if_pos rfl]
    exact Finset.mem_singleton_self _

/-- In the order of the ranks, every pair holds in all orders. -/
theorem Filled.holds_iterate (filled : Filled pointsTo)
    (sorted : nodes.Pairwise fun first second =>
      rank (pointees pointsTo) (MadeBy graph nodes) graph first ≤
        rank (pointees pointsTo) (MadeBy graph nodes) graph second)
    (bound : ℕ) {name : String} {pair : String × PointeeKind}
    (present : pair ∈ pairs (AliasAnalyzer.iterate graph nodes (bound + 1) pointsTo) name) :
    Holds (pointees pointsTo) (MadeBy graph nodes) name pair := by
  have settled : Settled (pointees pointsTo) graph nodes nodes
      (pointees (AliasAnalyzer.iterate graph nodes (bound + 1) pointsTo)) := by
    refine Filled.iterate_induct _ (fun sets holds node inside => ?_) bound filled
      (settled_sweep sorted [] (List.append_nil nodes).symm)
    have further := holds.step inside fun _ there _ => there
    exact ⟨further.within, fun other there => further.filled other (List.mem_append_left _ there)⟩
  obtain ⟨fact, inside, rfl⟩ := Finset.mem_image.mp present
  exact settled.within.holds name fact inside

end Results

/-! ### Other positions -/

section Positions

variable (positions : AstNode → SourceRange)

theorem reposition_keepsTree : KeepsTree (reposition positions) := ⟨fun _ => rfl, fun _ => rfl⟩

theorem addressOf_reposition (operand : Option AstNode) :
    addressOf (operand.map (reposition positions)) = addressOf operand := by cases operand <;> rfl

theorem resolveRhs_reposition (pointsTo : PointsTo) (rhs : AstNode) :
    resolveRhs pointsTo (reposition positions rhs) (graph.relabel (reposition positions)) =
      resolveRhs pointsTo rhs graph := by
  unfold resolveRhs
  rw [show (reposition positions rhs).nodeId = rhs.nodeId from rfl,
    (reposition_keepsTree positions).children, List.head?_map, addressOf_reposition]
  rfl

theorem handle_reposition (pointsTo : PointsTo) (node : AstNode) :
    handle (graph.relabel (reposition positions)) pointsTo (reposition positions node) =
      handle graph pointsTo node := by
  have tree := (reposition_keepsTree positions).children graph node.nodeId
  have named : ∀ node, declRefName (reposition positions node) = declRefName node := fun _ => rfl
  have kind : ∀ node, (reposition positions node).nodeKind = node.nodeKind := fun _ => rfl
  have pointer : (reposition positions node).isPointer = node.isPointer := rfl
  have declared : handleVarDecl pointsTo (reposition positions node) (graph.relabel (reposition positions)) =
      handleVarDecl pointsTo node graph := by
    unfold handleVarDecl
    rw [named, pointer, show (reposition positions node).nodeId = node.nodeId from rfl, tree, List.find?_map]
    cases found : (graph.children node.nodeId).find? fun child => !isTypeNode child with
    | none =>
        rw [show (graph.children node.nodeId).find? ((fun child => !isTypeNode child) ∘ reposition positions) =
          none from found]
        rfl
    | some initializer =>
        rw [show (graph.children node.nodeId).find? ((fun child => !isTypeNode child) ∘ reposition positions) =
          some initializer from found]
        simp only [Option.map_some, resolveRhs_reposition]
  have assigned : handleAssignment pointsTo (reposition positions node) (graph.relabel (reposition positions)) =
      handleAssignment pointsTo node graph := by
    unfold handleAssignment
    rw [show (reposition positions node).nodeId = node.nodeId from rfl, tree]
    cases graph.children node.nodeId with
    | nil => rfl
    | cons lhs others =>
        cases others with
        | nil => rfl
        | cons rhs rest => simp only [List.map_cons, resolveRhs_reposition, named, kind]
  unfold handle
  rw [kind, declared, assigned]

theorem seed_reposition (functionNode : AstNode) :
    seedPointerParameters functionNode (graph.relabel (reposition positions)) =
      seedPointerParameters functionNode graph := by
  unfold seedPointerParameters
  rw [(reposition_keepsTree positions).children, List.filter_map, List.foldl_map]
  rfl

theorem iterate_reposition (nodes : List AstNode) (bound : ℕ) (pointsTo : PointsTo) :
    iterate (graph.relabel (reposition positions)) (nodes.map (reposition positions)) bound pointsTo =
      iterate graph nodes bound pointsTo := by
  have passed : ∀ before, pass (graph.relabel (reposition positions)) (nodes.map (reposition positions)) before =
      pass graph nodes before := by
    intro before
    unfold pass
    rw [List.foldl_map]
    simp only [handle_reposition]
  induction bound generalizing pointsTo with
  | zero => rfl
  | succ bound ih =>
      unfold iterate
      simp only [passed, ih]

/-- The positions put the nodes in this order. -/
def ordered (functionNode : AstNode) (graph : AstGraph) : List AstNode :=
  ((graph.descendants functionNode.nodeId).filter isRelevant).insertionSort fun first second =>
    precedes (reposition positions first) (reposition positions second)

theorem relevant_reposition (functionNode : AstNode) (graph : AstGraph) :
    relevant functionNode (graph.relabel (reposition positions)) =
      (ordered positions functionNode graph).map (reposition positions) := by
  unfold relevant linearize ordered
  rw [(reposition_keepsTree positions).descendants, List.filter_map,
    List.map_insertionSort _ precedes _ _ fun _ _ _ _ => Iff.rfl]
  rfl

theorem analyze_reposition (functionNode : AstNode) (graph : AstGraph) :
    analyze functionNode (graph.relabel (reposition positions)) =
      iterate graph (ordered positions functionNode graph)
        ((ordered positions functionNode graph).length + 1) (seedPointerParameters functionNode graph) := by
  unfold analyze
  dsimp only
  rw [relevant_reposition, seed_reposition, List.length_map, iterate_reposition]

theorem ordered_perm (functionNode : AstNode) (graph : AstGraph) :
    (ordered positions functionNode graph).Perm (relevant functionNode graph) :=
  (List.perm_insertionSort _ _).trans (List.perm_insertionSort _ _).symm

theorem madeBy_ordered (functionNode : AstNode) (graph : AstGraph) :
    MadeBy graph (ordered positions functionNode graph) = Assigns functionNode graph := by
  funext assignment
  unfold MadeBy Assigns
  simp only [(ordered_perm positions functionNode graph).mem_iff]

theorem pairwise_ordered (functionNode : AstNode) (graph : AstGraph) :
    (ordered positions functionNode graph).Pairwise fun first second =>
      precedes (reposition positions first) (reposition positions second) := by
  have total : Std.Total fun first second => precedes (reposition positions first) (reposition positions second) :=
    ⟨fun first second => total_of precedes _ _⟩
  have transitive : IsTrans AstNode fun first second =>
      precedes (reposition positions first) (reposition positions second) :=
    ⟨fun _ _ _ => trans_of precedes⟩
  exact List.pairwise_insertionSort _ _

/-- Positions in the order of a list put the nodes in this order. -/
theorem ordered_eq {nodes : List AstNode} (perm : nodes.Perm (relevant functionNode graph))
    (apart : nodes.Pairwise fun first second =>
      ¬ (precedes (reposition positions first) (reposition positions second) ∧
        precedes (reposition positions second) (reposition positions first)))
    (sorted : nodes.Pairwise fun first second =>
      precedes (reposition positions first) (reposition positions second)) :
    ordered positions functionNode graph = nodes := by
  have same := (ordered_perm positions functionNode graph).trans perm.symm
  refine List.Perm.eq_of_pairwise (fun first second here there before after => ?_)
    (pairwise_ordered positions functionNode graph) sorted same
  by_contra other
  have symmetric : Std.Symm fun first second =>
      ¬ (precedes (reposition positions first) (reposition positions second) ∧
        precedes (reposition positions second) (reposition positions first)) :=
    ⟨fun _ _ separate both => separate both.symm⟩
  exact apart.forall (same.mem_iff.mp here) there other ⟨before, after⟩

end Positions

/-- Nodes that stand apart can be put in every order by a permutation of their positions. -/
theorem Apart.exists_positions (apart : Apart functionNode graph) {nodes : List AstNode}
    (perm : nodes.Perm (relevant functionNode graph)) :
    ∃ positions, Permutes positions functionNode graph ∧ ordered positions functionNode graph = nodes := by
  let later (first second : SourceRange) : Prop := first.lineStart < second.lineStart ∨
    first.lineStart = second.lineStart ∧ first.columnStart ≤ second.columnStart
  have distinct : (relevant functionNode graph).Nodup := by
    refine apart.imp fun {first second} separate same => separate ?_
    rw [same]
    exact ⟨.inr ⟨rfl, le_rfl⟩, .inr ⟨rfl, le_rfl⟩⟩
  let places := (relevant functionNode graph).map AstNode.sourceRange
  let positions (node : AstNode) : SourceRange := (places[nodes.idxOf node]?).getD {}
  have moved : nodes.map positions = places := by
    have size : nodes.length = places.length := by rw [List.length_map, perm.length_eq]
    apply List.ext_getElem (by rw [List.length_map, size])
    intro index before after
    rw [List.length_map] at before
    rw [List.getElem_map]
    simp only [positions, (perm.nodup_iff.mpr distinct).idxOf_getElem index before,
      List.getElem?_eq_getElem after, Option.getD_some]
  refine ⟨positions, (perm.symm.map positions).trans (.of_eq moved), ordered_eq positions perm ?_ ?_⟩
  · have separate : places.Pairwise fun first second => ¬ (later first second ∧ later second first) :=
      List.pairwise_map.mpr apart
    rw [← moved] at separate
    exact List.pairwise_map.mp separate
  · have sorted : places.Pairwise later :=
      List.pairwise_map.mpr (List.pairwise_insertionSort precedes _)
    rw [← moved] at sorted
    exact (List.pairwise_map (R := later)).mp sorted

/-! ### The exact condition -/

theorem relabel_sourceRange (graph : AstGraph) : graph.relabel (reposition AstNode.sourceRange) = graph := by
  unfold AstGraph.relabel
  rw [show reposition AstNode.sourceRange = id from rfl, List.map_id]

/-- Without early copies of grounded names, the sets are the same at all positions. -/
theorem OrderFree.pairs (free : OrderFree (seeds functionNode graph) (Assigns functionNode graph))
    (positions : AstNode → SourceRange) (name : String) (pair : String × PointeeKind) :
    pair ∈ AliasAnalyzer.pairs (analyze functionNode (graph.relabel (reposition positions))) name ↔
      Holds (seeds functionNode graph) (Assigns functionNode graph) name pair := by
  obtain ⟨last, _⟩ := sweep_analyze functionNode (graph.relabel (reposition positions))
  obtain ⟨closed, _⟩ := analyze_closed functionNode (graph.relabel (reposition positions))
  rw [relevant_reposition, List.forall_mem_map] at closed
  simp only [handle_reposition] at closed
  have fixed : ∀ node ∈ ordered positions functionNode graph,
      (rules graph).step (pointees (analyze functionNode (graph.relabel (reposition positions)))) node =
        pointees (analyze functionNode (graph.relabel (reposition positions))) := by
    intro node inside
    rw [← (last.step graph node).2, closed node inside]
  rw [← madeBy_ordered positions] at free ⊢
  rw [analyze_reposition] at fixed ⊢
  exact (seed_unknown functionNode graph).1.pairs_iterate free _ fixed name pair

/-- The pairs agree between the orders that begin with a copy and an order of the ranks only when the
target of the copy is unknown anyway. -/
theorem orderFree_of_orders
    (early : ∀ node ∈ relevant functionNode graph, ∃ positions rest,
      ordered positions functionNode graph = node :: rest ∧ SamePairs positions functionNode graph)
    (ranked : ∃ positions, SamePairs positions functionNode graph ∧
      (ordered positions functionNode graph).Pairwise fun first second =>
        rank (seeds functionNode graph) (Assigns functionNode graph) graph first ≤
          rank (seeds functionNode graph) (Assigns functionNode graph) graph second) :
    OrderFree (seeds functionNode graph) (Assigns functionNode graph) := by
  intro target name assigned near unseeded
  obtain ⟨node, inside, assignment⟩ := assigned
  obtain ⟨front, rest, head, frontSame⟩ := early node inside
  obtain ⟨positions, same, sorted⟩ := ranked
  have filled := (seed_unknown functionNode graph).1
  have unknown := filled.unknown_iterate assignment unseeded rest (ordered front functionNode graph).length
  rw [← head, ← analyze_reposition, frontSame target, ← same target, analyze_reposition] at unknown
  rw [← madeBy_ordered positions] at sorted ⊢
  exact filled.holds_iterate sorted _ unknown

/-- A node alone on the first line is the first one. -/
theorem exists_front {node : AstNode} (inside : node ∈ relevant functionNode graph) :
    ∃ rest, ordered (fun other => { lineStart := if other = node then 0 else 1 }) functionNode graph =
      node :: rest := by
  generalize at_ : (fun other : AstNode => ({ lineStart := if other = node then 0 else 1 } : SourceRange)) = positions
  have member := (ordered_perm positions functionNode graph).mem_iff.mpr inside
  have sorted := pairwise_ordered positions functionNode graph
  cases same : ordered positions functionNode graph with
  | nil => exact absurd (same ▸ member) List.not_mem_nil
  | cons first rest =>
      rw [same] at member sorted
      rcases List.mem_cons.mp member with rfl | later
      · exact ⟨rest, rfl⟩
      · have before := (List.pairwise_cons.mp sorted).1 node later
        have line : ∀ other, (reposition positions other).sourceRange.lineStart = if other = node then 0 else 1 := by
          intro other
          rw [← at_]
          rfl
        unfold precedes at before
        rw [line, line, if_pos rfl] at before
        have equal : first = node := by
          by_contra other
          rw [if_neg other] at before
          omega
        exact ⟨rest, equal ▸ rfl⟩

theorem orderFree_of_everywhere (same : ∀ positions, SamePairs positions functionNode graph) :
    OrderFree (seeds functionNode graph) (Assigns functionNode graph) := by
  refine orderFree_of_orders (fun node inside => ?_) ⟨fun node =>
    { lineStart := rank (seeds functionNode graph) (Assigns functionNode graph) graph node }, same _, ?_⟩
  · obtain ⟨rest, head⟩ := exists_front inside
    exact ⟨_, rest, head, same _⟩
  · refine (pairwise_ordered _ functionNode graph).imp fun {first second} before => ?_
    rcases before with lower | ⟨equal, _⟩
    · exact Nat.le_of_lt lower
    · exact Nat.le_of_eq equal

theorem orderFree_of_permutations (apart : Apart functionNode graph)
    (same : ∀ positions, Permutes positions functionNode graph → SamePairs positions functionNode graph) :
    OrderFree (seeds functionNode graph) (Assigns functionNode graph) := by
  refine orderFree_of_orders (fun node inside => ?_) ?_
  · obtain ⟨positions, permutes, order⟩ :=
      apart.exists_positions (List.perm_cons_erase inside).symm
    exact ⟨positions, _, order, same positions permutes⟩
  · let lower (first second : AstNode) : Prop :=
      rank (seeds functionNode graph) (Assigns functionNode graph) graph first ≤
        rank (seeds functionNode graph) (Assigns functionNode graph) graph second
    have total : Std.Total lower := ⟨fun _ _ => Nat.le_total _ _⟩
    have transitive : IsTrans AstNode lower := ⟨fun _ _ _ => Nat.le_trans⟩
    have decidable : DecidableRel lower := fun _ _ => Nat.decLe _ _
    obtain ⟨positions, permutes, order⟩ :=
      apart.exists_positions (List.perm_insertionSort lower (relevant functionNode graph))
    refine ⟨positions, same positions permutes, ?_⟩
    rw [order]
    exact List.pairwise_insertionSort lower _

/-- The targets and kinds of every name are the same at all positions exactly when no copy of a grounded
name that is no parameter adds an unknown pointee that the target does not have in all orders. The
permutations of the positions decide the same when no two nodes stand at one place. -/
theorem samePairs_iff (functionNode : AstNode) (graph : AstGraph) :
    ((∀ positions, SamePairs positions functionNode graph) ↔
        OrderFree (seeds functionNode graph) (Assigns functionNode graph)) ∧
      (Apart functionNode graph →
        ((∀ positions, Permutes positions functionNode graph → SamePairs positions functionNode graph) ↔
          OrderFree (seeds functionNode graph) (Assigns functionNode graph))) := by
  have everywhere : OrderFree (seeds functionNode graph) (Assigns functionNode graph) →
      ∀ positions, SamePairs positions functionNode graph := by
    intro free positions name
    ext pair
    have unmoved := free.pairs AstNode.sourceRange name pair
    rw [relabel_sourceRange] at unmoved
    exact (free.pairs positions name pair).trans unmoved.symm
  exact ⟨⟨orderFree_of_everywhere, everywhere⟩, fun apart =>
    ⟨orderFree_of_permutations apart, fun free positions _ => everywhere free positions⟩⟩

/-! ### A copy before the address -/

/-- The function is `int x; int *p; int *q; q = p; p = &x;`. -/
def earlyCopyFunction : AstNode := { nodeId := "f", nodeKind := .functionDecl, childrenIds := ["body"] }

def earlyCopyGraph : AstGraph := ⟨[earlyCopyFunction,
  { nodeId := "body", nodeKind := .compoundStmt, parentId := "f",
    childrenIds := ["x", "p", "q", "copy", "address"] },
  { nodeId := "x", nodeKind := .varDecl, parentId := "body", sourceRange := { lineStart := 1 },
    semanticProperties := [("name", "x")] },
  { nodeId := "p", nodeKind := .varDecl, parentId := "body", sourceRange := { lineStart := 2 },
    semanticProperties := [("name", "p")], isPointer := true },
  { nodeId := "q", nodeKind := .varDecl, parentId := "body", sourceRange := { lineStart := 3 },
    semanticProperties := [("name", "q")], isPointer := true },
  { nodeId := "copy", nodeKind := .binaryOperator, parentId := "body", childrenIds := ["q1", "p1"],
    sourceRange := { lineStart := 4 }, semanticProperties := [("opcode", "=")] },
  { nodeId := "q1", nodeKind := .declRefExpr, parentId := "copy", semanticProperties := [("name", "q")] },
  { nodeId := "p1", nodeKind := .declRefExpr, parentId := "copy", semanticProperties := [("name", "p")] },
  { nodeId := "address", nodeKind := .binaryOperator, parentId := "body", childrenIds := ["p2", "and"],
    sourceRange := { lineStart := 5 }, semanticProperties := [("opcode", "=")] },
  { nodeId := "p2", nodeKind := .declRefExpr, parentId := "address", semanticProperties := [("name", "p")] },
  { nodeId := "and", nodeKind := .unaryOperator, parentId := "address", childrenIds := ["x1"],
    semanticProperties := [("opcode", "&")] },
  { nodeId := "x1", nodeKind := .declRefExpr, parentId := "and", semanticProperties := [("name", "x")] }]⟩

/-- The two assignments exchange their lines. -/
def exchanged (node : AstNode) : SourceRange :=
  if node.nodeId = "copy" then { lineStart := 5 }
  else if node.nodeId = "address" then { lineStart := 4 }
  else node.sourceRange

/-- The exchange of the assignments takes the unknown pointee away. -/
theorem earlyCopy_order : Permutes exchanged earlyCopyFunction earlyCopyGraph ∧
    ¬ SamePairs exchanged earlyCopyFunction earlyCopyGraph := by
  refine ⟨by unfold Permutes; decide, fun same => ?_⟩
  have differs : pairs (analyze earlyCopyFunction (earlyCopyGraph.relabel (reposition exchanged))) "q" ≠
      pairs (analyze earlyCopyFunction earlyCopyGraph) "q" := by decide
  exact differs (same "q")

end AliasAnalyzer
end MisraPlatform
