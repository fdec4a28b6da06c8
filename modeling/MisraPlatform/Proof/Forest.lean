import MisraPlatform.Semantics.Statement
import Mathlib.Data.List.Count
import Mathlib.Logic.Relation

/-
This file shows that a well-formed AST is read to the end and that no statement is read twice.
-/

namespace MisraPlatform
open CFGEngine

namespace AstGraph

/-- The nodes form a forest. The ids are unique, a child knows its only parent, and no node is
below itself. -/
structure WellFormed (graph : AstGraph) : Prop where
  ids : (graph.nodes.map AstNode.nodeId).Nodup
  childIds : ∀ node ∈ graph.nodes, node.childrenIds.Nodup
  parents : ∀ node ∈ graph.nodes, ∀ child ∈ graph.nodes, child.nodeId ∈ node.childrenIds →
    child.parentId = node.nodeId
  acyclic : ∃ rank : String → Nat, ∀ node ∈ graph.nodes, ∀ child ∈ graph.nodes,
    child.nodeId ∈ node.childrenIds → rank child.nodeId < rank node.nodeId

/-- The serializer lists every node before its children, which rules a cycle out. -/
theorem WellFormed.of_order (graph : AstGraph) (ids : (graph.nodes.map AstNode.nodeId).Nodup)
    (childIds : ∀ node ∈ graph.nodes, node.childrenIds.Nodup)
    (linked : ∀ node ∈ graph.nodes, ∀ child ∈ graph.nodes, child.nodeId ∈ node.childrenIds →
      child.parentId = node.nodeId ∧
        (graph.nodes.map AstNode.nodeId).idxOf node.nodeId <
          (graph.nodes.map AstNode.nodeId).idxOf child.nodeId) : graph.WellFormed where
  ids := ids
  childIds := childIds
  parents node present child known inside := (linked node present child known inside).1
  acyclic := by
    refine ⟨fun nodeId => graph.nodes.length - (graph.nodes.map AstNode.nodeId).idxOf nodeId, ?_⟩
    intro node present child known inside
    have later := (linked node present child known inside).2
    have bound := List.idxOf_lt_length_of_mem (List.mem_map_of_mem (f := AstNode.nodeId) known)
    rw [List.length_map] at bound
    dsimp only
    omega

def Child (graph : AstGraph) (parent child : AstNode) : Prop :=
  parent ∈ graph.nodes ∧ child ∈ graph.children parent.nodeId

/-- A node stands under itself and under the nodes above it. -/
abbrev Under (graph : AstGraph) : AstNode → AstNode → Prop := Relation.ReflTransGen graph.Child

/-- No node of the list stands under another one. -/
def Apart (graph : AstGraph) (nodes : List AstNode) : Prop :=
  nodes.Pairwise fun first second => ¬ graph.Under first second ∧ ¬ graph.Under second first

variable {graph : AstGraph}

theorem get_eq_some {nodeId : String} {node : AstNode} (found : graph.get nodeId = some node) :
    node ∈ graph.nodes ∧ node.nodeId = nodeId := by
  refine ⟨List.mem_reverse.mp (List.mem_of_find?_eq_some found), ?_⟩
  simpa using List.find?_some found

/-- A child is a node that an id of its parent names. -/
theorem mem_children {nodeId : String} {child : AstNode} (inside : child ∈ graph.children nodeId) :
    child ∈ graph.nodes ∧ ∃ parent ∈ graph.nodes, parent.nodeId = nodeId ∧
      child.nodeId ∈ parent.childrenIds := by
  unfold children at inside
  split at inside
  · exact absurd inside List.not_mem_nil
  · rename_i parent found
    obtain ⟨childId, listed, named⟩ := List.mem_filterMap.mp inside
    refine ⟨(get_eq_some named).1, parent, (get_eq_some found).1, (get_eq_some found).2, ?_⟩
    rw [(get_eq_some named).2]
    exact listed

section WellFormed

variable (wellFormed : graph.WellFormed)

include wellFormed

theorem WellFormed.unique {first second : AstNode} (left : first ∈ graph.nodes)
    (right : second ∈ graph.nodes) (same : first.nodeId = second.nodeId) : first = second :=
  List.inj_on_of_nodup_map wellFormed.ids left right same

theorem WellFormed.parent {nodeId : String} {child : AstNode}
    (inside : child ∈ graph.children nodeId) : child.parentId = nodeId := by
  obtain ⟨present, parent, above, named, listed⟩ := mem_children inside
  rw [wellFormed.parents parent above child present listed, named]

theorem WellFormed.children_nodup (nodeId : String) : (graph.children nodeId).Nodup := by
  unfold children
  split
  · exact List.nodup_nil
  · rename_i parent found
    refine List.Nodup.filterMap (fun first second child left right => ?_)
      (wellFormed.childIds parent (get_eq_some found).1)
    exact (get_eq_some left).2.symm.trans (get_eq_some right).2

/-- The number of nodes of smaller rank decreases from a node to its children. -/
theorem WellFormed.depth : ∃ depth : String → Nat,
    (∀ nodeId, ∀ child ∈ graph.children nodeId, depth child.nodeId < depth nodeId) ∧
      ∀ node ∈ graph.nodes, depth node.nodeId < graph.nodes.length := by
  obtain ⟨rank, decreases⟩ := wellFormed.acyclic
  refine ⟨fun nodeId => graph.nodes.countP fun node => rank node.nodeId < rank nodeId, ?_, ?_⟩
  · intro nodeId child inside
    obtain ⟨present, parent, above, rfl, listed⟩ := mem_children inside
    have smaller := decreases parent above child present listed
    have inner : (graph.nodes.countP fun node => rank node.nodeId < rank child.nodeId) =
        (graph.nodes.filter fun node => rank node.nodeId < rank parent.nodeId).countP fun node =>
          rank node.nodeId < rank child.nodeId := by
      rw [List.countP_filter]
      refine List.countP_congr fun node _ => ?_
      simp only [decide_eq_true_eq, Bool.and_eq_true]
      omega
    change List.countP _ _ < List.countP _ _
    rw [inner, @List.countP_eq_length_filter AstNode
      (fun node => decide (rank node.nodeId < rank parent.nodeId))]
    exact List.countP_lt_length_iff.mpr ⟨child, List.mem_filter.mpr ⟨present, by simpa using smaller⟩,
      by simp⟩
  · intro node inside
    exact List.countP_lt_length_iff.mpr ⟨node, inside, by simp⟩

theorem WellFormed.not_under_self {nodeId : String} {child node : AstNode}
    (inside : child ∈ graph.children nodeId) (named : node.nodeId = nodeId) :
    ¬ graph.Under child node := by
  obtain ⟨depth, decreases, _⟩ := wellFormed.depth
  have bound : ∀ {first second : AstNode}, graph.Under first second →
      depth second.nodeId ≤ depth first.nodeId := by
    intro first second under
    induction under with
    | refl => exact Nat.le_refl _
    | tail _ last ih => exact Nat.le_trans (Nat.le_of_lt (decreases _ _ last.2)) ih
  intro under
  have smaller := decreases nodeId child inside
  have larger := bound under
  rw [named] at larger
  omega

/-- The nodes above one node are in line. -/
theorem WellFormed.under_line {first second node : AstNode} (left : graph.Under first node)
    (right : graph.Under second node) : graph.Under first second ∨ graph.Under second first := by
  induction left with
  | refl => exact .inr right
  | @tail middle node before last ih =>
      rcases Relation.ReflTransGen.cases_tail right with same | ⟨other, further, step⟩
      · exact .inl (same ▸ before.tail last)
      · have named : other.nodeId = middle.nodeId := by
          rw [← wellFormed.parent step.2, ← wellFormed.parent last.2]
        rw [wellFormed.unique step.1 last.1 named] at further
        exact ih further

/-- No child of a node stands under another one. -/
theorem WellFormed.children_separate {nodeId : String} {first second : AstNode}
    (inside : first ∈ graph.children nodeId) (also : second ∈ graph.children nodeId)
    (different : first ≠ second) : ¬ graph.Under first second := by
  intro under
  rcases Relation.ReflTransGen.cases_tail under with same | ⟨other, further, step⟩
  · exact different same.symm
  · have named : other.nodeId = nodeId := by
      rw [← wellFormed.parent step.2, wellFormed.parent also]
    exact wellFormed.not_under_self inside named further

theorem WellFormed.children_apart (nodeId : String) : graph.Apart (graph.children nodeId) := by
  refine (wellFormed.children_nodup nodeId).pairwise_of_forall_ne ?_
  intro first inside second also different
  exact ⟨wellFormed.children_separate inside also different,
    wellFormed.children_separate also inside different.symm⟩

end WellFormed

end AstGraph

end MisraPlatform
