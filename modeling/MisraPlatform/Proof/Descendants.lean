import Mathlib.Data.List.Perm.Subperm
import MisraPlatform.Proof.Forest

/-
This file is the list of nodes that a traversal collects below a node of a forest, and the nodes above it.
-/

namespace MisraPlatform.AstGraph

variable {graph : AstGraph} (wellFormed : graph.WellFormed)

theorem Under.present {top node : AstNode} (under : graph.Under top node) (present : top ∈ graph.nodes) :
    node ∈ graph.nodes := by
  cases under with
  | refl => exact present
  | tail _ step => exact (mem_children step.2).1

include wellFormed

theorem WellFormed.antisymm {first second : AstNode} (down : graph.Under first second)
    (up : graph.Under second first) : first = second := by
  rcases Relation.ReflTransGen.cases_head down with same | ⟨child, step, further⟩
  · exact same
  · exact absurd (further.trans up) (wellFormed.not_under_self step.2 rfl)

/-- The children of a node stay apart from what the node stays apart from. -/
theorem WellFormed.expand_apart {top : AstNode} (present : top ∈ graph.nodes) {stack : List AstNode}
    (apart : graph.Apart (top :: stack)) :
    graph.Apart ((graph.children top.nodeId).reverse ++ stack) := by
  obtain ⟨separate, others⟩ := List.pairwise_cons.mp apart
  refine List.pairwise_append.mpr ⟨?_, others, ?_⟩
  · refine List.pairwise_reverse.mpr ((wellFormed.children_apart top.nodeId).imp ?_)
    exact fun both => both.symm
  · intro child inside other listed
    have below : graph.Under top child := .single ⟨present, List.mem_reverse.mp inside⟩
    obtain ⟨away, back⟩ := separate other listed
    refine ⟨fun under => away (below.trans under), fun under => ?_⟩
    rcases wellFormed.under_line below under with down | up
    · exact away down
    · exact back up

/-- What a traversal has collected so far stands apart from its stack. -/
structure Collecting (graph : AstGraph) (collected stack : List AstNode) : Prop where
  present : ∀ node ∈ stack, node ∈ graph.nodes
  apart : graph.Apart stack
  nodup : collected.Nodup
  known : collected ⊆ graph.nodes
  past : ∀ node ∈ collected, ∀ top ∈ stack, ¬ graph.Under top node

theorem Collecting.next {collected stack : List AstNode} {current : AstNode}
    (collecting : Collecting graph collected (current :: stack)) :
    Collecting graph (collected ++ [current]) ((graph.children current.nodeId).reverse ++ stack) := by
  have here := collecting.present current List.mem_cons_self
  have below : ∀ child ∈ graph.children current.nodeId, graph.Under current child := fun child inside =>
    .single ⟨here, inside⟩
  constructor
  · intro node inside
    rcases List.mem_append.mp inside with child | other
    · exact (mem_children (List.mem_reverse.mp child)).1
    · exact collecting.present node (List.mem_cons_of_mem _ other)
  · exact wellFormed.expand_apart here collecting.apart
  · refine List.Nodup.append collecting.nodup (List.nodup_singleton current) ?_
    refine List.disjoint_singleton.mpr fun old => ?_
    exact collecting.past current old current List.mem_cons_self .refl
  · intro node inside
    rcases List.mem_append.mp inside with old | new
    · exact collecting.known old
    · exact List.mem_singleton.mp new ▸ here
  · intro node inside top listed under
    rcases List.mem_append.mp inside with old | new
    · rcases List.mem_append.mp listed with child | other
      · have under' := (below top (List.mem_reverse.mp child)).trans under
        exact collecting.past node old current List.mem_cons_self under'
      · exact collecting.past node old top (List.mem_cons_of_mem _ other) under
    · rw [List.mem_singleton.mp new] at under
      rcases List.mem_append.mp listed with child | other
      · exact wellFormed.not_under_self (List.mem_reverse.mp child) rfl under
      · exact ((List.pairwise_cons.mp collecting.apart).1 top other).2 under

/-- The traversal ends, and it collects everything under its stack once. -/
theorem WellFormed.collect_spec (fuel : Nat) (collected stack : List AstNode)
    (collecting : Collecting graph collected stack)
    (enough : graph.nodes.length ≤ fuel + collected.length) :
    ∃ result, graph.collect fuel collected stack = some result ∧ result.Nodup ∧
      ∀ node, node ∈ result ↔ node ∈ collected ∨ ∃ top ∈ stack, graph.Under top node := by
  induction fuel generalizing collected stack with
  | zero =>
      cases stack with
      | nil => exact ⟨collected, rfl, collecting.nodup, by simp⟩
      | cons current stack =>
          -- All nodes are collected, the top of the stack among them.
          have whole := (List.subperm_of_subset collecting.nodup collecting.known).perm_of_length_le (by omega)
          have old := whole.mem_iff.mpr (collecting.present current List.mem_cons_self)
          exact absurd .refl (collecting.past current old current List.mem_cons_self)
  | succ fuel ih =>
      cases stack with
      | nil => exact ⟨collected, rfl, collecting.nodup, by simp⟩
      | cons current stack =>
          have here := collecting.present current List.mem_cons_self
          obtain ⟨result, found, nodup, members⟩ := ih (collected ++ [current])
            ((graph.children current.nodeId).reverse ++ stack) (collecting.next wellFormed)
            (by rw [List.length_append, List.length_singleton]; omega)
          refine ⟨result, found, nodup, fun node => (members node).trans ?_⟩
          constructor
          · rintro (old | ⟨top, listed, under⟩)
            · rcases List.mem_append.mp old with before | new
              · exact .inl before
              · exact .inr ⟨current, List.mem_cons_self, List.mem_singleton.mp new ▸ .refl⟩
            · rcases List.mem_append.mp listed with child | other
              · exact .inr ⟨current, List.mem_cons_self,
                  under.head ⟨here, List.mem_reverse.mp child⟩⟩
              · exact .inr ⟨top, List.mem_cons_of_mem _ other, under⟩
          · rintro (before | ⟨top, listed, under⟩)
            · exact .inl (List.mem_append_left _ before)
            · rcases List.mem_cons.mp listed with rfl | other
              · rcases Relation.ReflTransGen.cases_head under with same | ⟨child, step, further⟩
                · exact .inl (List.mem_append_right _ (List.mem_singleton.mpr same.symm))
                · exact .inr ⟨child, List.mem_append_left _ (List.mem_reverse.mpr step.2), further⟩
              · exact .inr ⟨top, List.mem_append_right _ other, under⟩

/-- The node count is enough fuel for the traversal below any id. -/
theorem WellFormed.descendants_ends (nodeId : String) : ∃ result,
    graph.collect graph.nodes.length [] (graph.children nodeId).reverse = some result ∧ result.Nodup ∧
      ∀ node, node ∈ result ↔ ∃ child ∈ graph.children nodeId, graph.Under child node := by
  obtain ⟨result, found, nodup, members⟩ := wellFormed.collect_spec graph.nodes.length []
    (graph.children nodeId).reverse
    ⟨fun node inside => (mem_children (List.mem_reverse.mp inside)).1,
      List.pairwise_reverse.mpr ((wellFormed.children_apart nodeId).imp fun both => both.symm),
      List.nodup_nil, List.nil_subset _, by simp⟩ (by simp)
  exact ⟨result, found, nodup, fun node => (members node).trans (by simp)⟩

theorem WellFormed.descendants_spec (nodeId : String) : (graph.descendants nodeId).Nodup ∧
    ∀ node, node ∈ graph.descendants nodeId ↔ ∃ child ∈ graph.children nodeId, graph.Under child node := by
  obtain ⟨result, found, spec⟩ := wellFormed.descendants_ends nodeId
  rw [descendants, found]
  exact spec

theorem WellFormed.mem_descendants {nodeId : String} {node : AstNode} :
    node ∈ graph.descendants nodeId ↔ ∃ child ∈ graph.children nodeId, graph.Under child node :=
  (wellFormed.descendants_spec nodeId).2 node

/-- A node and its descendants are what stands under it. -/
theorem WellFormed.mem_subtree {top node : AstNode} (present : top ∈ graph.nodes) :
    node ∈ top :: graph.descendants top.nodeId ↔ graph.Under top node := by
  rw [List.mem_cons, wellFormed.mem_descendants]
  constructor
  · rintro (rfl | ⟨child, inside, under⟩)
    · exact .refl
    · exact under.head ⟨present, inside⟩
  · intro under
    rcases Relation.ReflTransGen.cases_head under with same | ⟨child, step, further⟩
    · exact .inl same.symm
    · exact .inr ⟨child, step.2, further⟩

theorem WellFormed.subtree_nodup (top : AstNode) : (top :: graph.descendants top.nodeId).Nodup := by
  refine List.nodup_cons.mpr ⟨fun inside => ?_, (wellFormed.descendants_spec top.nodeId).1⟩
  obtain ⟨child, listed, under⟩ := wellFormed.mem_descendants.mp inside
  exact wellFormed.not_under_self listed rfl under

end MisraPlatform.AstGraph

namespace MisraPlatform.AstGraph

/-- The second node stands below the first one. -/
abbrev Below (graph : AstGraph) : AstNode → AstNode → Prop := Relation.TransGen graph.Child

/-- A parent lists its children. -/
def Linked (graph : AstGraph) : Prop :=
  ∀ node ∈ graph.nodes, ∀ parent, graph.get node.parentId = some parent → node.nodeId ∈ parent.childrenIds

variable {graph : AstGraph}

theorem Linked.of_named (named : ∀ node ∈ graph.nodes, ∀ parent ∈ graph.nodes, parent.nodeId = node.parentId →
    node.nodeId ∈ parent.childrenIds) : graph.Linked := by
  intro node present parent found
  exact named node present parent (get_eq_some found).1 (get_eq_some found).2

variable (wellFormed : graph.WellFormed)

theorem below_child {node statement : AstNode} (below : graph.Below node statement) :
    ∃ child ∈ graph.children node.nodeId, child = statement ∨ graph.Below child statement := by
  rcases Relation.TransGen.head'_iff.mp below with ⟨child, step, further⟩
  rcases Relation.reflTransGen_iff_eq_or_transGen.mp further with same | lower
  · exact ⟨child, step.2, .inl same.symm⟩
  · exact ⟨child, step.2, .inr lower⟩

include wellFormed

theorem WellFormed.get {node : AstNode} (present : node ∈ graph.nodes) : graph.get node.nodeId = some node := by
  cases found : graph.get node.nodeId with
  | none =>
      have absent := List.find?_eq_none.mp found node (List.mem_reverse.mpr present)
      simp at absent
  | some other =>
      obtain ⟨known, same⟩ := get_eq_some found
      rw [wellFormed.unique known present same]

/-- The parent id names the node that has this one as a child. -/
theorem WellFormed.get_parent (linked : graph.Linked) {node parent : AstNode} (present : node ∈ graph.nodes) :
    graph.get node.parentId = some parent ↔ graph.Child parent node := by
  constructor
  · intro found
    have listed := linked node present parent found
    have above := (get_eq_some found).1
    refine ⟨above, ?_⟩
    rw [children, wellFormed.get above]
    exact List.mem_filterMap.mpr ⟨node.nodeId, listed, wellFormed.get present⟩
  · intro step
    rw [wellFormed.parent step.2, wellFormed.get step.1]

/-- Nothing stands between a node and its child. -/
theorem WellFormed.adjacent {node child middle : AstNode} (inside : child ∈ graph.children node.nodeId)
    (lower : graph.Below node middle) : ¬ graph.Below middle child := by
  intro upper
  obtain ⟨other, further, step⟩ := Relation.TransGen.tail'_iff.mp upper
  obtain ⟨first, listed, below⟩ := below_child lower
  have under : graph.Under first other := by
    rcases below with same | below
    · exact same ▸ further
    · exact below.to_reflTransGen.trans further
  have named : other.nodeId = node.nodeId := by
    rw [← wellFormed.parent step.2, wellFormed.parent inside]
  exact wellFormed.not_under_self listed named under

/-- What stands between a node and a statement is the child on the way or stands below it. -/
theorem WellFormed.between {node child middle statement : AstNode} (inside : child ∈ graph.children node.nodeId)
    (lower : graph.Below child statement) (middleLower : graph.Below node middle)
    (upper : graph.Below middle statement) : middle = child ∨ graph.Below child middle := by
  rcases wellFormed.under_line lower.to_reflTransGen upper.to_reflTransGen with down | up
  · rcases Relation.reflTransGen_iff_eq_or_transGen.mp down with same | below
    · exact .inl same
    · exact .inr below
  · rcases Relation.reflTransGen_iff_eq_or_transGen.mp up with same | below
    · exact .inl same.symm
    · exact absurd below (wellFormed.adjacent inside middleLower)

theorem WellFormed.not_child_of_below {node child middle : AstNode} (inside : child ∈ graph.children node.nodeId)
    (present : node ∈ graph.nodes) (lower : graph.Below child middle) : middle ∉ graph.children node.nodeId :=
  fun listed => wellFormed.adjacent listed (.single ⟨present, inside⟩) lower

end MisraPlatform.AstGraph
