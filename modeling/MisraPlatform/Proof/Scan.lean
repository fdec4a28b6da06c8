import MisraPlatform.Proof.ReachingDefinitions

/-
This file is about graphs whose blocks are scanned without meeting a node twice.
-/

namespace MisraPlatform
open DataFlowEngineV2

theorem mem_occurrencesFrom {α : Type} (start list before : List α) (item : α) :
    (before, item) ∈ occurrencesFrom start list ↔
      ∃ front after, before = start ++ front ∧ list = front ++ item :: after := by
  induction list generalizing start with
  | nil =>
      rw [occurrencesFrom]
      constructor
      · exact fun inside => absurd inside List.not_mem_nil
      · rintro ⟨front, after, _, same⟩
        simp at same
  | cons first rest ih =>
      rw [occurrencesFrom, List.mem_cons, ih]
      constructor
      · rintro (same | ⟨front, after, rfl, rfl⟩)
        · cases same
          exact ⟨[], rest, (List.append_nil _).symm, rfl⟩
        · exact ⟨first :: front, after, List.append_assoc _ _ _, rfl⟩
      · rintro ⟨front, after, rfl, same⟩
        cases front with
        | nil =>
            cases same
            exact .inl (by rw [List.append_nil])
        | cons other front =>
            cases same
            exact .inr ⟨front, after, (List.append_assoc _ [_] _).symm, rfl⟩

/-- An occurrence splits its list. -/
theorem mem_occurrences {α : Type} (list before : List α) (item : α) :
    (before, item) ∈ occurrences list ↔ ∃ after, list = before ++ item :: after := by
  rw [occurrences, mem_occurrencesFrom]
  constructor
  · rintro ⟨front, after, rfl, same⟩
    exact ⟨after, same⟩
  · rintro ⟨after, same⟩
    exact ⟨before, after, rfl, same⟩

/-- An item stands in one place of a list without duplicates. -/
theorem split_unique {α β : Type} {key : α → β} {front before back after : List α} {first second : α}
    (nodup : ((front ++ first :: back).map key).Nodup)
    (same : front ++ first :: back = before ++ second :: after) (keys : key first = key second) :
    front = before ∧ first = second ∧ back = after := by
  have index : front.length = before.length := by
    have left : ((front ++ first :: back).map key)[front.length]? = some (key first) := by simp
    have right : ((front ++ first :: back).map key)[before.length]? = some (key second) := by
      rw [same]
      simp
    exact (List.getElem?_inj (by simp) nodup).mp (left.trans (keys ▸ right.symm))
  obtain ⟨rfl, rest⟩ := List.append_inj same index
  obtain ⟨rfl, rfl⟩ := List.cons.inj rest
  exact ⟨rfl, rfl, rfl⟩

namespace ControlFlowGraph

variable {cfg : ControlFlowGraph} {graph : AstGraph}

theorem mem_scannedNodes (blockId : BlockId) (node : AstNode) :
    node ∈ scannedNodes (cfg.blockAt blockId) graph ↔
      ∃ statement ∈ cfg.statementsOf blockId, node ∈ statementOwnDescendants statement graph := by
  have same : (cfg.blockAt blockId).statements = cfg.statementsOf blockId := by
    unfold ControlFlowGraph.blockAt ControlFlowGraph.statementsOf
    cases cfg.blocks.get? blockId <;> rfl
  rw [scannedNodes, List.mem_flatMap, same]

theorem block_of_statement {blockId : BlockId} {statement : AstNode}
    (inside : statement ∈ cfg.statementsOf blockId) : blockId ∈ cfg.blocks.keys := by
  obtain ⟨block, listed, _⟩ := entry_of_statement inside
  exact List.mem_map_of_mem listed

variable (once : cfg.ScansOnce graph)

include once

theorem ScansOnce.block {blockId : BlockId} (inside : blockId ∈ cfg.blocks.keys) :
    ((scannedNodes (cfg.blockAt blockId) graph).map AstNode.nodeId).Nodup :=
  (List.nodup_flatMap.mp once).1 blockId inside

/-- Two scanned nodes of one id are the same node of the same block. -/
theorem ScansOnce.same {first second : BlockId} {left right : AstNode}
    (inFirst : left ∈ scannedNodes (cfg.blockAt first) graph)
    (inSecond : right ∈ scannedNodes (cfg.blockAt second) graph) (ids : left.nodeId = right.nodeId) :
    first = second ∧ left = right := by
  have listed : ∀ {blockId node}, node ∈ scannedNodes (cfg.blockAt blockId) graph →
      blockId ∈ cfg.blocks.keys := by
    intro blockId node inside
    obtain ⟨statement, here, _⟩ := (mem_scannedNodes blockId node).mp inside
    exact block_of_statement here
  have blocks : first = second := by
    by_contra distinct
    have symmetric : Std.Symm (Function.onFun List.Disjoint fun blockId : BlockId =>
        (scannedNodes (cfg.blockAt blockId) graph).map AstNode.nodeId) :=
      ⟨fun _ _ disjoint => disjoint.symm⟩
    have apart := (List.nodup_flatMap.mp once).2.forall (listed inFirst) (listed inSecond) distinct
    exact apart (List.mem_map_of_mem inFirst) (ids ▸ List.mem_map_of_mem inSecond)
  subst blocks
  exact ⟨rfl, List.inj_on_of_nodup_map (once.block (listed inFirst)) inFirst inSecond ids⟩

end ControlFlowGraph
end MisraPlatform
