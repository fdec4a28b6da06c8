import Mathlib.Data.Set.Card
import MisraPlatform.Proof.Descendants
import MisraPlatform.Semantics.Traversals

/-
This file shows that the two traversals of a forest are complete and agree with each other.
-/

namespace MisraPlatform.AstGraph

variable {graph : AstGraph}

/-! ### Forests -/

/-- The number of nodes strictly below a node decreases from a parent to its children. -/
theorem Forest.rank (forest : graph.Forest) : ∃ rank : String → ℕ,
    ∀ parent child, graph.ParentOf parent child → rank child.nodeId < rank parent.nodeId := by
  let below (nodeId : String) : Set AstNode :=
    {node | ∃ top ∈ graph.nodes, top.nodeId = nodeId ∧ graph.StrictlyBelow top node}
  refine ⟨fun nodeId => (below nodeId).ncard, fun parent child step => ?_⟩
  have unique : ∀ top ∈ graph.nodes, top.nodeId = child.nodeId → top = child := fun top present same =>
    List.inj_on_of_nodup_map forest.ids present step.2.1 same
  have inside : below parent.nodeId ⊆ {node | node ∈ graph.nodes} := by
    rintro node ⟨top, _, _, lower⟩
    obtain ⟨_, _, last⟩ := Relation.TransGen.tail'_iff.mp lower
    exact last.2.1
  apply Set.ncard_lt_ncard _ ((List.finite_toSet graph.nodes).subset inside)
  apply Set.ssubset_iff_of_subset _ |>.mpr
  · refine ⟨child, ⟨parent, step.1, rfl, .single step⟩, ?_⟩
    rintro ⟨top, present, same, lower⟩
    rw [unique top present same] at lower
    exact forest.acyclic child lower
  · rintro node ⟨top, present, same, lower⟩
    rw [unique top present same] at lower
    exact ⟨parent, step.1, rfl, lower.head step⟩

/-- A list of nodes in which a parent stands before its children has no cycle. -/
theorem Forest.of_order (ids : (graph.nodes.map AstNode.nodeId).Nodup)
    (parents : ∀ node ∈ graph.nodes, node.parentId ≠ "" → node.parentId ∈ graph.nodes.map AstNode.nodeId)
    (children : ∀ node ∈ graph.nodes, node.childrenIds =
      (graph.nodes.filter fun child => child.parentId = node.nodeId).map AstNode.nodeId)
    (order : ∀ node ∈ graph.nodes, ∀ child ∈ graph.nodes, child.parentId = node.nodeId →
      (graph.nodes.map AstNode.nodeId).idxOf node.nodeId < (graph.nodes.map AstNode.nodeId).idxOf child.nodeId) :
    graph.Forest where
  ids := ids
  parents node present named := by
    obtain ⟨parent, above, same⟩ := List.mem_map.mp (parents node present named)
    exact ⟨parent, above, present, same.symm⟩
  once node present := by
    rw [children node present]
    exact ids.sublist (List.filter_sublist.map _)
  children node present childId := by
    rw [children node present]
    simp [ParentOf, present, and_assoc]
  acyclic node cycle := by
    have later : ∀ {first last}, Relation.TransGen graph.ParentOf first last →
        (graph.nodes.map AstNode.nodeId).idxOf first.nodeId <
          (graph.nodes.map AstNode.nodeId).idxOf last.nodeId := by
      intro first last path
      induction path with
      | single step => exact order _ step.1 _ step.2.1 step.2.2
      | tail _ step ih => exact ih.trans (order _ step.1 _ step.2.1 step.2.2)
    exact (later cycle).false

theorem Forest.listed_iff (forest : graph.Forest) {parent child : AstNode} (above : parent ∈ graph.nodes)
    (present : child ∈ graph.nodes) :
    child.nodeId ∈ parent.childrenIds ↔ graph.ParentOf parent child := by
  rw [forest.children parent above]
  constructor
  · rintro ⟨other, step, same⟩
    exact List.inj_on_of_nodup_map forest.ids step.2.1 present same ▸ step
  · intro step
    exact ⟨child, step, rfl⟩

theorem Forest.wellFormed (forest : graph.Forest) : graph.WellFormed where
  ids := forest.ids
  childIds := forest.once
  parents parent above child present listed := ((forest.listed_iff above present).mp listed).2.2
  acyclic := by
    obtain ⟨rank, decreases⟩ := forest.rank
    exact ⟨rank, fun parent above child present listed =>
      decreases parent child ((forest.listed_iff above present).mp listed)⟩

theorem Forest.child_iff (forest : graph.Forest) {parent child : AstNode} :
    graph.Child parent child ↔ graph.ParentOf parent child := by
  constructor
  · intro step
    obtain ⟨present, other, above, named, listed⟩ := mem_children step.2
    rw [forest.wellFormed.unique above step.1 named] at listed
    exact (forest.listed_iff step.1 present).mp listed
  · intro step
    refine ⟨step.1, ?_⟩
    rw [AstGraph.children, forest.wellFormed.get step.1]
    exact List.mem_filterMap.mpr ⟨child.nodeId, (forest.listed_iff step.1 step.2.1).mpr step,
      forest.wellFormed.get step.2.1⟩

theorem Forest.below_iff (forest : graph.Forest) {top node : AstNode} :
    graph.Below top node ↔ graph.StrictlyBelow top node := by
  have same : graph.Child = graph.ParentOf := by
    funext parent child
    exact propext forest.child_iff
  rw [Below, StrictlyBelow, same]

/-- A child is deeper than its parent, and no node is deeper than the number of nodes. -/
theorem Forest.depth (forest : graph.Forest) : ∃ depth : String → ℕ,
    (∀ parent child, graph.ParentOf parent child → depth child.nodeId < depth parent.nodeId) ∧
      ∀ node ∈ graph.nodes, depth node.nodeId < graph.nodes.length := by
  obtain ⟨depth, decreases, bounded⟩ := forest.wellFormed.depth
  exact ⟨depth, fun parent child step => decreases _ child (forest.child_iff.mpr step).2, bounded⟩

/-- With a node of empty id every node had a parent, and no climb would end. -/
theorem Forest.nodeId_ne_empty (forest : graph.Forest) {node : AstNode} (present : node ∈ graph.nodes) :
    node.nodeId ≠ "" := by
  intro empty
  have above : ∀ child ∈ graph.nodes, ∃ parent, graph.ParentOf parent child := by
    intro child inside
    by_cases top : child.parentId = ""
    · exact ⟨node, present, inside, top.trans empty.symm⟩
    · exact forest.parents child inside top
  obtain ⟨depth, decreases, bounded⟩ := forest.depth
  have unbounded : ∀ count, ∃ other ∈ graph.nodes, count ≤ depth other.nodeId := by
    intro count
    induction count with
    | zero => exact ⟨node, present, Nat.zero_le _⟩
    | succ count ih =>
        obtain ⟨child, inside, deep⟩ := ih
        obtain ⟨parent, step⟩ := above child inside
        have smaller := decreases parent child step
        exact ⟨parent, step.1, by omega⟩
  obtain ⟨other, inside, deep⟩ := unbounded graph.nodes.length
  have bound := bounded other inside
  omega

/-! ### Descendants -/

theorem Forest.descendsExactly (forest : graph.Forest) {node : AstNode} (present : node ∈ graph.nodes) :
    graph.DescendsExactly node := by
  have wellFormed := forest.wellFormed
  constructor
  · obtain ⟨result, found, _⟩ := wellFormed.descendants_ends node.nodeId
    rw [descendants, found, Option.getD_some]
  · exact (wellFormed.descendants_spec node.nodeId).1
  · intro other
    rw [wellFormed.mem_descendants, ← forest.below_iff]
    constructor
    · rintro ⟨child, inside, under⟩
      exact Relation.TransGen.head' ⟨present, inside⟩ under
    · intro lower
      obtain ⟨child, step, under⟩ := Relation.TransGen.head'_iff.mp lower
      exact ⟨child, step.2, under⟩

/-! ### Paths -/

theorem RootPath.present {path : List String} {node : AstNode} (down : graph.RootPath path node) :
    node ∈ graph.nodes := by
  cases down with
  | root present => exact present
  | child _ step => exact step.2.1

theorem Forest.exists_rootPath (forest : graph.Forest) {node : AstNode} (present : node ∈ graph.nodes) :
    ∃ path, graph.RootPath path node := by
  obtain ⟨depth, decreases, bounded⟩ := forest.depth
  generalize height : graph.nodes.length - depth node.nodeId = room
  induction room using Nat.strong_induction_on generalizing node with
  | _ room ih =>
      by_cases top : ∃ parent, graph.ParentOf parent node
      · obtain ⟨parent, step⟩ := top
        have smaller := decreases parent node step
        have bound := bounded parent step.1
        obtain ⟨path, above⟩ := ih _ (by omega) step.1 rfl
        exact ⟨_, .child above step⟩
      · exact ⟨_, .root present (not_exists.mp top)⟩

/-- The ids above a node are less deep than the node. -/
theorem RootPath.depth_le {depth : String → ℕ}
    (decreases : ∀ parent child, graph.ParentOf parent child → depth child.nodeId < depth parent.nodeId)
    {path : List String} {node : AstNode} (down : graph.RootPath path node) :
    ∀ nodeId ∈ path, depth node.nodeId ≤ depth nodeId := by
  induction down with
  | root => simp
  | @child path parent node above step ih =>
      have smaller := decreases parent node step
      intro nodeId inside
      rcases List.mem_append.mp inside with higher | last
      · have bound := ih nodeId higher
        omega
      · rw [List.mem_singleton.mp last]

theorem RootPath.nodup (forest : graph.Forest) {path : List String} {node : AstNode}
    (down : graph.RootPath path node) : path.Nodup := by
  obtain ⟨depth, decreases, _⟩ := forest.depth
  induction down with
  | root => exact List.nodup_singleton _
  | @child path parent node above step ih =>
      have smaller := decreases parent node step
      refine List.Nodup.append ih (List.nodup_singleton _) (List.disjoint_singleton.mpr fun higher => ?_)
      have bound := above.depth_le decreases _ higher
      omega

theorem RootPath.subset {path : List String} {node : AstNode} (down : graph.RootPath path node) :
    path ⊆ graph.nodes.map AstNode.nodeId := by
  induction down with
  | root present => simpa using ⟨_, present, rfl⟩
  | child _ step ih => exact List.append_subset.mpr ⟨ih, by simpa using ⟨_, step.2.1, rfl⟩⟩

theorem RootPath.length_le (forest : graph.Forest) {path : List String} {node : AstNode}
    (down : graph.RootPath path node) : path.length ≤ graph.nodes.length := by
  have bound := (List.subperm_of_subset (down.nodup forest) down.subset).length_le
  rwa [List.length_map] at bound

/-- The climb from a node reads the path to it backwards. -/
theorem RootPath.climb (forest : graph.Forest) {path : List String} {node : AstNode}
    (down : graph.RootPath path node) {fuel : ℕ} (enough : path.length < fuel) :
    graph.climb fuel node.nodeId = path.reverse := by
  induction down generalizing fuel with
  | @root node present top =>
      obtain ⟨fuel, rfl⟩ : ∃ more, fuel = more + 2 := ⟨fuel - 2, by simp at enough; omega⟩
      have empty : node.parentId = "" := by
        by_contra named
        obtain ⟨parent, step⟩ := forest.parents node present named
        exact top parent step
      rw [AstGraph.climb, if_neg (forest.nodeId_ne_empty present), forest.wellFormed.get present]
      simp [AstGraph.climb, empty]
  | @child path parent node above step ih =>
      obtain ⟨fuel, rfl⟩ : ∃ more, fuel = more + 1 := ⟨fuel - 1, by omega⟩
      rw [List.length_append, List.length_singleton] at enough
      rw [AstGraph.climb, if_neg (forest.nodeId_ne_empty step.2.1), forest.wellFormed.get step.2.1]
      simp [step.2.2, ih (show path.length < fuel by omega)]

theorem RootPath.eq_nodePath (forest : graph.Forest) {path : List String} {node : AstNode}
    (down : graph.RootPath path node) : path = graph.nodePath node.nodeId := by
  have bound := down.length_le forest
  rw [nodePath, down.climb forest (by omega), List.reverse_reverse]

theorem Forest.climbsExactly (forest : graph.Forest) {node : AstNode} (present : node ∈ graph.nodes) :
    graph.ClimbsExactly node := by
  obtain ⟨path, down⟩ := forest.exists_rootPath present
  constructor
  · exact down.eq_nodePath forest ▸ down
  · intro other also
    exact also.eq_nodePath forest

/-- The ids on the path are those of the node and of the nodes above it. -/
theorem RootPath.mem_iff (forest : graph.Forest) {path : List String} {node top : AstNode}
    (down : graph.RootPath path node) (present : top ∈ graph.nodes) :
    top.nodeId ∈ path ↔ top = node ∨ graph.StrictlyBelow top node := by
  have same : ∀ other ∈ graph.nodes, top.nodeId = other.nodeId ↔ top = other := fun other inside =>
    ⟨forest.wellFormed.unique present inside, congrArg _⟩
  induction down with
  | @root node inside highest =>
      rw [List.mem_singleton, same node inside]
      refine ⟨.inl, fun either => either.resolve_right fun lower => ?_⟩
      obtain ⟨parent, _, last⟩ := Relation.TransGen.tail'_iff.mp lower
      exact highest parent last
  | @child path parent node above step ih =>
      rw [List.mem_append, List.mem_singleton, same node step.2.1]
      refine (or_congr ih Iff.rfl).trans ?_
      constructor
      · rintro ((rfl | lower) | here)
        · exact .inr (.single step)
        · exact .inr (lower.tail step)
        · exact .inl here
      · rintro (here | lower)
        · exact .inr here
        · obtain ⟨other, further, last⟩ := Relation.TransGen.tail'_iff.mp lower
          have named : other = parent :=
            forest.wellFormed.unique last.1 step.1 (last.2.2.symm.trans step.2.2)
          rcases Relation.reflTransGen_iff_eq_or_transGen.mp further with here | lower
          · exact .inl (.inl (here.symm.trans named))
          · exact .inl (.inr (named ▸ lower))

/-! ### The two traversals -/

/-- A node is among the descendants of every other node on its path and of no more. -/
theorem traversals_exact (forest : graph.Forest) :
    (∀ node ∈ graph.nodes, graph.DescendsExactly node ∧ graph.ClimbsExactly node) ∧
      ∀ top, ∀ node ∈ graph.nodes,
        node ∈ graph.descendants top ↔ top ∈ graph.nodePath node.nodeId ∧ node.nodeId ≠ top := by
  refine ⟨fun node present => ⟨forest.descendsExactly present, forest.climbsExactly present⟩, ?_⟩
  intro top node present
  have down := (forest.climbsExactly present).path
  by_cases known : top ∈ graph.nodes.map AstNode.nodeId
  · obtain ⟨upper, above, rfl⟩ := List.mem_map.mp known
    rw [(forest.descendsExactly above).members, down.mem_iff forest above]
    constructor
    · intro lower
      refine ⟨.inr lower, fun same => ?_⟩
      rw [forest.wellFormed.unique present above same] at lower
      exact forest.acyclic upper lower
    · rintro ⟨here | lower, different⟩
      · exact absurd (congrArg AstNode.nodeId here.symm) different
      · exact lower
  · constructor
    · intro inside
      obtain ⟨child, listed, _⟩ := forest.wellFormed.mem_descendants.mp inside
      obtain ⟨_, parent, above, named, _⟩ := mem_children listed
      exact absurd (named ▸ List.mem_map_of_mem above) known
    · intro both
      exact absurd (down.subset both.1) known

/-- Two trees, and one of them is three levels deep. -/
def sampleTrees : AstGraph where
  nodes := [{ nodeId := "n1", nodeKind := .functionDecl, childrenIds := ["n2"] },
    { nodeId := "n2", nodeKind := .compoundStmt, parentId := "n1", childrenIds := ["n3", "n4"] },
    { nodeId := "n3", nodeKind := .returnStmt, parentId := "n2" },
    { nodeId := "n4", nodeKind := .returnStmt, parentId := "n2" }, { nodeId := "n5", nodeKind := .varDecl }]

theorem traversals_exact_sample :
    (∀ node ∈ sampleTrees.nodes, sampleTrees.DescendsExactly node ∧ sampleTrees.ClimbsExactly node) ∧
      ∀ top, ∀ node ∈ sampleTrees.nodes, node ∈ sampleTrees.descendants top ↔
        top ∈ sampleTrees.nodePath node.nodeId ∧ node.nodeId ≠ top :=
  traversals_exact (.of_order (by decide) (by decide) (by decide) (by decide))

example : (sampleTrees.descendants "n2").map AstNode.nodeId = ["n4", "n3"] ∧
    sampleTrees.nodePath "n4" = ["n1", "n2", "n4"] := by decide

end MisraPlatform.AstGraph
