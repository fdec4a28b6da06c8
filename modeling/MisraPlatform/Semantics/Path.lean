import MisraPlatform.Construction.ControlFlowGraph

/-
This file is the reading of a control-flow graph as the set of its paths.
-/

namespace MisraPlatform
namespace ControlFlowGraph

variable (cfg : ControlFlowGraph)

/-- A path starts at the entry and collects the statements of the blocks that it leaves. -/
inductive Path : List CFGEdge → List AstNode → BlockId → Prop
  | start : Path [] [] .entry
  | follow {edges : List CFGEdge} {left : List AstNode} {block : BlockId} {edge : CFGEdge}
      (before : Path edges left block) (leaves : edge ∈ cfg.successors block) :
      Path (edges ++ [edge]) (left ++ cfg.statementsOf block) edge.target

variable {cfg}

theorem mem_successors {block : BlockId} {edge : CFGEdge} :
    edge ∈ cfg.successors block ↔ edge ∈ cfg.edges ∧ edge.source = block := by
  simp [successors]

/-- A block is reachable when a path ends there. -/
theorem reachable_iff_path (block : BlockId) :
    cfg.Reachable block ↔ ∃ edges left, cfg.Path edges left block := by
  constructor
  · intro reachable
    induction reachable with
    | refl => exact ⟨[], [], .start⟩
    | @tail source target _ arrow ih =>
        obtain ⟨edges, left, path⟩ := ih
        obtain ⟨edge, inside, same⟩ := List.mem_map.mp arrow
        obtain ⟨rfl, rfl⟩ := Prod.mk.inj same
        exact ⟨_, _, path.follow (mem_successors.mpr ⟨inside, rfl⟩)⟩
  · rintro ⟨edges, left, path⟩
    induction path with
    | start => exact .refl
    | @follow edges left block edge _ leaves ih =>
        obtain ⟨inside, rfl⟩ := mem_successors.mp leaves
        exact ih.tail (List.mem_map.mpr ⟨edge, inside, rfl⟩)

end ControlFlowGraph
end MisraPlatform
