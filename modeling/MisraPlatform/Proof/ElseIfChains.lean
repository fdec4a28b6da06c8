import MisraPlatform.Proof.RuleResults
import MisraPlatform.Semantics.ControlStatements

/-
This file shows that every chain of `if` statements without a final else is reported once.
-/

namespace MisraPlatform
open Rule15_7

section Chains

variable {graph : AstGraph}

/-! ### Links -/

theorem HasElse.child {node branch : AstNode} (found : HasElse graph node branch) :
    branch ∈ graph.children node.nodeId := by
  obtain ⟨condition, thenBranch, same⟩ := found
  rw [same]
  simp

theorem HasElse.unique {node first second : AstNode} (left : HasElse graph node first)
    (right : HasElse graph node second) : first = second := by
  obtain ⟨_, _, same⟩ := left
  obtain ⟨_, _, other⟩ := right
  have equal := same.symm.trans other
  rw [List.cons.injEq, List.cons.injEq, List.cons.injEq] at equal
  exact equal.2.2.1

theorem ElseIf.child {first second : AstNode} (link : ElseIf graph first second) : graph.Child first second :=
  ⟨link.present, link.branch.child⟩

theorem ElseIf.second_mem {first second : AstNode} (link : ElseIf graph first second) : second ∈ graph.nodes :=
  (AstGraph.mem_children link.branch.child).1

theorem under_of_links {first last : AstNode} (links : Relation.ReflTransGen (ElseIf graph) first last) :
    graph.Under first last := by
  induction links with
  | refl => exact .refl
  | tail _ link ih => exact ih.tail link.child

theorem elseIf_rightUnique : Relator.RightUnique (ElseIf graph) :=
  fun _ _ _ left right => left.branch.unique right.branch

theorem elseBranch_iff (laidOut : IfsLaidOut graph) {node branch : AstNode} (inside : node ∈ graph.nodesByKind .ifStmt) :
    elseBranch graph node = some branch ↔ HasElse graph node branch := by
  rcases laidOut node inside with ⟨condition, thenBranch, same⟩ | ⟨other, condition, thenBranch, same⟩
  · simp [elseBranch, HasElse, same]
  · simp [elseBranch, HasElse, same]

theorem continues_iff (laidOut : IfsLaidOut graph) {node branch : AstNode} (inside : node ∈ graph.nodesByKind .ifStmt) :
    ((elseBranch graph node).filter fun branch => branch.nodeKind = .ifStmt) = some branch ↔
      ElseIf graph node branch := by
  rw [Option.filter_eq_some_iff, elseBranch_iff laidOut inside, decide_eq_true_eq]
  constructor
  · rintro ⟨found, kind⟩
    exact ⟨(AstGraph.mem_nodesByKind.mp inside).1, (AstGraph.mem_nodesByKind.mp inside).2, kind, found⟩
  · intro link
    exact ⟨link.branch, link.secondKind⟩

theorem hasFinalElse_iff (laidOut : IfsLaidOut graph) {node : AstNode} (inside : node ∈ graph.nodesByKind .ifStmt) :
    hasFinalElse node graph = true ↔ ∃ branch, HasElse graph node branch ∧ branch.nodeKind ≠ .ifStmt := by
  rw [hasFinalElse, Option.any_eq_true]
  simp only [elseBranch_iff laidOut inside, decide_eq_true_eq]

variable (wellFormed : graph.WellFormed)

include wellFormed

theorem elseIf_leftUnique : Relator.LeftUnique (ElseIf graph) := by
  intro first second other left right
  apply wellFormed.unique left.present right.present
  rw [← wellFormed.parent left.branch.child, ← wellFormed.parent right.branch.child]

theorem elseIf_acyclic {node : AstNode} : ¬ Relation.TransGen (ElseIf graph) node node := by
  intro cycle
  obtain ⟨child, link, back⟩ := Relation.TransGen.head'_iff.mp cycle
  exact wellFormed.not_under_self link.branch.child rfl (under_of_links back)

theorem continuesChain_iff (laidOut : IfsLaidOut graph) {node : AstNode} (inside : node ∈ graph.nodesByKind .ifStmt) :
    continuesChain graph node = true ↔ ∃ before, ElseIf graph before node := by
  have present := (AstGraph.mem_nodesByKind.mp inside).1
  unfold continuesChain isElseBranch
  simp only [Option.any_eq_true, Bool.and_eq_true, decide_eq_true_eq]
  constructor
  · rintro ⟨parent, found, kind, branch, last, same⟩
    have above : parent ∈ graph.nodesByKind .ifStmt :=
      AstGraph.mem_nodesByKind.mpr ⟨(AstGraph.get_eq_some found).1, kind⟩
    have branches := (elseBranch_iff laidOut above).mp last
    obtain rfl := wellFormed.unique (AstGraph.mem_children branches.child).1 present same
    exact ⟨parent, (AstGraph.get_eq_some found).1, kind, (AstGraph.mem_nodesByKind.mp inside).2, branches⟩
  · rintro ⟨parent, link⟩
    have above : parent ∈ graph.nodesByKind .ifStmt := AstGraph.mem_nodesByKind.mpr ⟨link.present, link.firstKind⟩
    refine ⟨parent, ?_, link.firstKind, node, (elseBranch_iff laidOut above).mpr link.branch, rfl⟩
    rw [wellFormed.parent link.branch.child]
    exact wellFormed.get link.present

/-! ### The search -/

/-- The depth of the `if` is enough fuel, and the search follows the chain to its end. -/
theorem finalElseIf_spec (laidOut : IfsLaidOut graph) {depth : String → ℕ}
    (decreases : ∀ nodeId, ∀ child ∈ graph.children nodeId, depth child.nodeId < depth nodeId) (fuel : ℕ)
    (foundChain : Bool) {current : AstNode} (inside : current ∈ graph.nodesByKind .ifStmt)
    (enough : depth current.nodeId < fuel) :
    ∃ last, Relation.ReflTransGen (ElseIf graph) current last ∧ (∀ behind, ¬ ElseIf graph last behind) ∧
      finalElseIf graph fuel foundChain current =
        some (if foundChain = true ∨ last ≠ current then some last else none) := by
  induction fuel generalizing foundChain current with
  | zero => exact absurd enough (Nat.not_lt_zero _)
  | succ fuel ih =>
      rw [finalElseIf]
      cases further : (elseBranch graph current).filter fun branch => branch.nodeKind = .ifStmt with
      | none =>
          refine ⟨current, .refl, fun behind link => ?_, by simp⟩
          rw [(continues_iff laidOut inside).mpr link] at further
          exact Option.some_ne_none _ further
      | some branch =>
          have link := (continues_iff laidOut inside).mp further
          have smaller := decreases _ branch link.branch.child
          obtain ⟨last, path, ends, result⟩ :=
            ih true (AstGraph.mem_nodesByKind.mpr ⟨link.second_mem, link.secondKind⟩) (by omega)
          refine ⟨last, .head link path, ends, ?_⟩
          have away : last ≠ current := fun same =>
            elseIf_acyclic wellFormed (Relation.TransGen.head' link (same ▸ path))
          dsimp only
          rw [result, if_pos (.inl rfl), if_pos (.inr away)]

/-- The search from the first `if` of a chain finds the last one, if it is another one and has no else. -/
theorem chainEnd_spec (laidOut : IfsLaidOut graph) {first : AstNode} (inside : first ∈ graph.nodesByKind .ifStmt) :
    ∃ found, chainEnd graph first = some found ∧ ∀ last, found = some last ↔
      MaximalChain graph first last ∧ ∀ branch, ¬ HasElse graph last branch := by
  obtain ⟨depth, decreases, bounded⟩ := wellFormed.depth
  by_cases continued : ∃ before, ElseIf graph before first
  · refine ⟨none, ?_, fun last => ?_⟩
    · rw [chainEnd, if_pos ((continuesChain_iff wellFormed laidOut inside).mpr continued)]
    · constructor
      · intro absent
        cases absent
      · rintro ⟨chain, _⟩
        obtain ⟨before, link⟩ := continued
        exact absurd link (chain.starts before)
  obtain ⟨last, path, ends, result⟩ := finalElseIf_spec wellFormed laidOut decreases graph.nodes.length false
    inside (bounded first (AstGraph.mem_nodesByKind.mp inside).1)
  have starts : continuesChain graph first ≠ true := fun found =>
    continued ((continuesChain_iff wellFormed laidOut inside).mp found)
  refine ⟨_, by rw [chainEnd, if_neg starts, result]; rfl, fun other => ?_⟩
  constructor
  · intro found
    obtain ⟨same, lacks⟩ := Option.filter_eq_some_iff.mp found
    split at same
    · rename_i away
      obtain rfl := Option.some.inj same
      have links := (Relation.reflTransGen_iff_eq_or_transGen.mp path).resolve_left (by simpa using away)
      refine ⟨⟨links, not_exists.mp continued, ends⟩, fun branch elseOf => ?_⟩
      obtain ⟨before, _, link⟩ := Relation.TransGen.tail'_iff.mp links
      have kind : last ∈ graph.nodesByKind .ifStmt := AstGraph.mem_nodesByKind.mpr ⟨link.second_mem, link.secondKind⟩
      by_cases nested : branch.nodeKind = .ifStmt
      · exact ends branch ⟨link.second_mem, link.secondKind, nested, elseOf⟩
      · have final := (hasFinalElse_iff laidOut kind).mpr ⟨branch, elseOf, nested⟩
        simp [final] at lacks
    · cases same
  · rintro ⟨chain, lacks⟩
    have same : other = last := by
      rcases Relation.ReflTransGen.total_of_right_unique elseIf_rightUnique chain.links.to_reflTransGen path with
        further | further
      · rcases Relation.ReflTransGen.cases_head further with same | ⟨behind, link, _⟩
        · exact same
        · exact absurd link (chain.ends behind)
      · rcases Relation.ReflTransGen.cases_head further with same | ⟨behind, link, _⟩
        · exact same.symm
        · exact absurd link (ends behind)
    obtain rfl := same
    have away : other ≠ first := fun same => elseIf_acyclic wellFormed (same ▸ chain.links)
    obtain ⟨before, _, link⟩ := Relation.TransGen.tail'_iff.mp chain.links
    have kind : other ∈ graph.nodesByKind .ifStmt := AstGraph.mem_nodesByKind.mpr ⟨link.second_mem, link.secondKind⟩
    have bare : hasFinalElse other graph = false := by
      rw [Bool.eq_false_iff, Ne, hasFinalElse_iff laidOut kind]
      rintro ⟨branch, elseOf, _⟩
      exact lacks branch elseOf
    rw [if_pos (.inr away)]
    simp [bare]

/-- Two maximal chains with the same end have the same start. -/
theorem MaximalChain.unique {first other last : AstNode} (left : MaximalChain graph first last)
    (right : MaximalChain graph other last) : first = other := by
  have unique : Relator.RightUnique (Function.swap (ElseIf graph)) :=
    fun _ _ _ up down => elseIf_leftUnique wellFormed up down
  have up := Relation.reflTransGen_swap.mpr left.links.to_reflTransGen
  have down := Relation.reflTransGen_swap.mpr right.links.to_reflTransGen
  rcases Relation.ReflTransGen.total_of_right_unique unique up down with further | further
  · rcases Relation.ReflTransGen.cases_head further with same | ⟨before, link, _⟩
    · exact same
    · exact absurd link (left.starts before)
  · rcases Relation.ReflTransGen.cases_head further with same | ⟨before, link, _⟩
    · exact same.symm
    · exact absurd link (right.starts before)

/-! ### The reports -/

theorem offending_eq (laidOut : IfsLaidOut graph) : offending graph =
    some ((graph.nodesByKind .ifStmt).filterMap fun node => (chainEnd graph node).getD none) := by
  obtain ⟨ends, found, related⟩ := mapM_answers (f := chainEnd graph) (graph.nodesByKind .ifStmt)
    fun node inside => (chainEnd_spec wellFormed laidOut inside).imp fun _ spec => spec.1
  rw [offending, found, Option.map_some, answers_eq related none, List.filterMap_map]
  rfl

theorem reported_iff (laidOut : IfsLaidOut graph) {first last : AstNode}
    (inside : first ∈ graph.nodesByKind .ifStmt) : (chainEnd graph first).getD none = some last ↔
      MaximalChain graph first last ∧ ∀ branch, ¬ HasElse graph last branch := by
  obtain ⟨found, result, spec⟩ := chainEnd_spec wellFormed laidOut inside
  rw [result, Option.getD_some, spec]

theorem startsChains : StartsChains graph where
  thenBranch node inside condition inner rest same before link := by
    have listed : inner ∈ graph.children node.nodeId := by
      rw [same]
      simp
    have parents : before = node := by
      apply wellFormed.unique link.present (AstGraph.mem_nodesByKind.mp inside).1
      rw [← wellFormed.parent link.branch.child, ← wellFormed.parent listed]
    obtain ⟨_, thenBranch, other⟩ := link.branch
    rw [parents, same, List.cons.injEq, List.cons.injEq] at other
    have distinct := wellFormed.children_nodup node.nodeId
    rw [same, other.2.2] at distinct
    simp at distinct
  braced block inside inner listed before link := by
    have kind : block.nodeKind = .compoundStmt := of_decide_eq_true (List.mem_filter.mp inside).2
    have parents : before = block := by
      apply wellFormed.unique link.present (List.mem_filter.mp inside).1
      rw [← wellFormed.parent link.branch.child, ← wellFormed.parent listed]
    have other := link.firstKind
    rw [parents, kind] at other
    cases other

end Chains

/-- The search ends, and the last `if` of every maximal chain without a final else is reported once. -/
theorem Rule15_7.chains_reported (context : RuleContext)
    (wellFormed : AstGraph.WellFormed ⟨context.astNodes⟩) (laidOut : IfsLaidOut ⟨context.astNodes⟩) :
    (∃ nodes, ChainsReported context nodes) ∧ StartsChains ⟨context.astNodes⟩ := by
  refine ⟨⟨(AstGraph.nodesByKind ⟨context.astNodes⟩ .ifStmt).filterMap fun node =>
    (chainEnd ⟨context.astNodes⟩ node).getD none, ?_, ?_, ?_⟩, startsChains wellFormed⟩
  · rw [detect, BaseRulePlugin.graph, offending_eq wellFormed laidOut]
    rfl
  · have distinct : (AstGraph.nodesByKind ⟨context.astNodes⟩ .ifStmt).Nodup := wellFormed.ids.of_map.filter _
    refine List.pairwise_filterMap.mpr (distinct.imp_of_mem ?_)
    intro first second left right apart last found other foundOther same
    subst same
    have chain := ((reported_iff wellFormed laidOut left).mp found).1
    exact apart (chain.unique wellFormed ((reported_iff wellFormed laidOut right).mp foundOther).1)
  · intro node
    rw [List.mem_filterMap]
    constructor
    · rintro ⟨first, inside, found⟩
      have both := (reported_iff wellFormed laidOut inside).mp found
      exact ⟨⟨first, both.1⟩, both.2⟩
    · rintro ⟨⟨first, chain⟩, lacks⟩
      obtain ⟨behind, link, _⟩ := Relation.TransGen.head'_iff.mp chain.links
      have inside := AstGraph.mem_nodesByKind.mpr ⟨link.present, link.firstKind⟩
      exact ⟨first, inside, (reported_iff wellFormed laidOut inside).mpr ⟨chain, lacks⟩⟩

theorem ifsLaidOut_of_length {graph : AstGraph} (lengths : ∀ node ∈ graph.nodesByKind .ifStmt,
    (graph.children node.nodeId).length = 2 ∨ (graph.children node.nodeId).length = 3) : IfsLaidOut graph := by
  intro node inside
  rcases lengths node inside with two | three
  · obtain ⟨condition, thenBranch, same⟩ := List.length_eq_two.mp two
    exact .inl ⟨condition, thenBranch, same⟩
  · obtain ⟨condition, thenBranch, branch, same⟩ := List.length_eq_three.mp three
    exact .inr ⟨branch, condition, thenBranch, same⟩

/-- An `else if` without a final else. -/
def openChain : RuleContext where
  filePath := "a.c"
  astNodes := [{ nodeId := "i", nodeKind := .ifStmt, childrenIds := ["a", "s", "j"] },
    { nodeId := "a", nodeKind := .declRefExpr, parentId := "i" },
    { nodeId := "s", nodeKind := .returnStmt, parentId := "i" },
    { nodeId := "j", nodeKind := .ifStmt, parentId := "i", childrenIds := ["b", "t"] },
    { nodeId := "b", nodeKind := .declRefExpr, parentId := "j" },
    { nodeId := "t", nodeKind := .returnStmt, parentId := "j" }]

theorem Rule15_7.chains_reported_open :
    (∃ nodes, ChainsReported openChain nodes) ∧ StartsChains ⟨openChain.astNodes⟩ :=
  Rule15_7.chains_reported openChain (.of_order _ (by decide) (by decide) (by decide))
    (ifsLaidOut_of_length (by decide))

example : (offending ⟨openChain.astNodes⟩).map (List.map AstNode.nodeId) = some ["j"] := by decide

end MisraPlatform
