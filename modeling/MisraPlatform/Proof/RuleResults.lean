import MisraPlatform.Construction.ControlFlowRules
import MisraPlatform.Proof.BlockShape
import MisraPlatform.Proof.Standing

/-
This file is the list of results that a rule returns for a whole translation unit.
-/

namespace MisraPlatform
open CFGEngine BaseRulePlugin

theorem AstGraph.mem_nodesByKind {graph : AstGraph} {kind : NodeKind} {node : AstNode} :
    node ∈ graph.nodesByKind kind ↔ node ∈ graph.nodes ∧ node.nodeKind = kind := by
  rw [AstGraph.nodesByKind, List.mem_filter, decide_eq_true_eq]

/-- A rule that answers for every function answers for the whole list. -/
theorem mapM_answers {α β : Type} {f : α → Option β} : ∀ (list : List α),
    (∀ item ∈ list, ∃ result, f item = some result) →
    ∃ results, list.mapM f = some results ∧
      List.Forall₂ (fun item result => f item = some result) list results
  | [], _ => ⟨[], rfl, .nil⟩
  | item :: rest, answers => by
      obtain ⟨result, found⟩ := answers item List.mem_cons_self
      obtain ⟨results, others, related⟩ := mapM_answers rest fun other inside =>
        answers other (List.mem_cons_of_mem _ inside)
      refine ⟨result :: results, ?_, .cons found related⟩
      rw [List.mapM_cons, found, others]
      rfl

theorem answers_eq {α β : Type} {f : α → Option β} {list : List α} {results : List β}
    (related : List.Forall₂ (fun item result => f item = some result) list results) (missing : β) :
    results = list.map fun item => (f item).getD missing := by
  induction related with
  | nil => rfl
  | cons here _ ih => rw [List.map_cons, here, ← ih, Option.getD_some]

/-- The result of one function is among the results of the list. -/
theorem mem_of_answers {α β : Type} {f : α → Option (List β)} {list : List α}
    {results : List (List β)} (related : List.Forall₂ (fun item result => f item = some result) list results)
    (result : β) :
    result ∈ results.flatten ↔ ∃ item ∈ list, ∃ found, f item = some found ∧ result ∈ found := by
  induction related with
  | nil => simp
  | @cons item found rest others here _ ih =>
      rw [List.flatten_cons, List.mem_append, ih]
      constructor
      · rintro (inside | ⟨other, listed, answer⟩)
        · exact ⟨item, List.mem_cons_self, found, here, inside⟩
        · exact ⟨other, List.mem_cons_of_mem _ listed, answer⟩
      · rintro ⟨other, listed, answer, known, inside⟩
        rcases List.mem_cons.mp listed with rfl | later
        · rw [here] at known
          exact .inl (Option.some.inj known ▸ inside)
        · exact .inr ⟨other, later, answer, known, inside⟩

/-- Every function over a forest has a graph. -/
theorem build_answers {graph : AstGraph} (wellFormed : graph.WellFormed) (functionNode : AstNode) :
    ∃ cfg, build functionNode graph = some cfg :=
  (build_shape wellFormed functionNode).imp fun _ shape => shape.1

/-- Rule 2.1 reports the first statement of every unreachable block of every function. -/
theorem Rule2_1.detect_iff {context : RuleContext} (wellFormed : (graph context).WellFormed) :
    ∃ results, Rule2_1.detect context = some results ∧ ∀ result, result ∈ results ↔
      ∃ functionNode ∈ (graph context).nodes, functionNode.nodeKind = .functionDecl ∧
        ∃ cfg block statement, build functionNode (graph context) = some cfg ∧
          block ∈ cfg.unreachableBlocks ∧ block.statements.head? = some statement ∧
          result = makeResult Rule2_1.ruleId context (graph context) statement Rule2_1.explanation
            Rule2_1.riskDescription Rule2_1.confidenceFactors (78 / 100) := by
  obtain ⟨results, found, related⟩ := mapM_answers (f := Rule2_1.detectFunction context)
    ((graph context).nodesByKind .functionDecl) fun functionNode _ => by
      obtain ⟨cfg, built⟩ := build_answers wellFormed functionNode
      exact ⟨_, by rw [Rule2_1.detectFunction, built]; rfl⟩
  refine ⟨results.flatten, by rw [Rule2_1.detect, found]; rfl, fun result => ?_⟩
  rw [mem_of_answers related]
  constructor
  · rintro ⟨functionNode, listed, answer, detected, inside⟩
    obtain ⟨present, kind⟩ := List.mem_filter.mp listed
    obtain ⟨cfg, built⟩ := build_answers wellFormed functionNode
    rw [Rule2_1.detectFunction, built] at detected
    cases detected
    obtain ⟨statement, offends, rfl⟩ := List.mem_map.mp inside
    obtain ⟨block, unreachable, first⟩ := List.mem_filterMap.mp offends
    exact ⟨functionNode, present, of_decide_eq_true kind, cfg, block, statement, built, unreachable,
      first, rfl⟩
  · rintro ⟨functionNode, present, kind, cfg, block, statement, built, unreachable, first, rfl⟩
    have offends : statement ∈ Rule2_1.offending cfg :=
      List.mem_filterMap.mpr ⟨block, unreachable, first⟩
    refine ⟨functionNode, List.mem_filter.mpr ⟨present, decide_eq_true kind⟩, _,
      by rw [Rule2_1.detectFunction, built]; rfl, ?_⟩
    exact List.mem_map_of_mem offends

end MisraPlatform
