import MisraPlatform.Construction.CfgEngine

/-
This file splits the pruning loop into collapses of single blocks.
-/

namespace MisraPlatform
open CFGEngine

/-- An empty block with one fallthrough edge to another block can collapse into that block. -/
structure Collapsible (cfg : ControlFlowGraph) (blockId target : BlockId) : Prop where
  inner : blockId ≠ .entry ∧ blockId ≠ .exit
  present : blockId ∈ cfg.blocks.keys
  empty : cfg.statementsOf blockId = []
  leaves : ∃ label, cfg.successors blockId = [⟨blockId, target, .fallthrough, label⟩]
  other : target ≠ blockId

theorem collapsible_of_target {cfg : ControlFlowGraph} {blockId target : BlockId}
    (found : collapseTarget cfg blockId = some target) : Collapsible cfg blockId target := by
  unfold collapseTarget at found
  split at found
  · simp at found
  · rename_i inner
    split at found
    · simp at found
    · rename_i block present
      split at found
      · simp at found
      · rename_i empty
        split at found
        · rename_i outgoing leaves
          split at found
          · simp at found
          · rename_i kind
            split at found
            · simp at found
            · rename_i other
              simp only [Option.some.injEq] at found
              subst found
              have source : outgoing.source = blockId := by
                have inside : outgoing ∈ cfg.successors blockId := by simp [leaves]
                exact of_decide_eq_true (List.mem_filter.mp inside).2
              refine ⟨not_or.mp inner, (OrderedDict.mem_keys_iff _ _).mpr ⟨block, present⟩, ?_,
                ⟨outgoing.label, ?_⟩, other⟩
              · simpa [ControlFlowGraph.statementsOf, present] using empty
              · rw [leaves, ← source, ← not_not.mp kind]
        · simp at found

/-! ### One collapse -/

/-- The edges of the collapsed block go to its target instead. -/
def CFGEdge.redirect (blockId target : BlockId) (edge : CFGEdge) : CFGEdge :=
  if edge.target = blockId then { edge with target := target } else edge

/-- The collapsed block is named by its target. -/
def renameBlock (blockId target point : BlockId) : BlockId := if point = blockId then target else point

@[simp] theorem redirect_source (blockId target : BlockId) (edge : CFGEdge) :
    (edge.redirect blockId target).source = edge.source := by
  unfold CFGEdge.redirect
  split <;> rfl

@[simp] theorem redirect_kind (blockId target : BlockId) (edge : CFGEdge) :
    (edge.redirect blockId target).kind = edge.kind := by
  unfold CFGEdge.redirect
  split <;> rfl

@[simp] theorem redirect_target (blockId target : BlockId) (edge : CFGEdge) :
    (edge.redirect blockId target).target = renameBlock blockId target edge.target := by
  unfold CFGEdge.redirect renameBlock
  split <;> rfl

theorem redirect_mk (blockId target source destination : BlockId) (kind : EdgeKind)
    (label : Option String) :
    (⟨source, destination, kind, label⟩ : CFGEdge).redirect blockId target =
      ⟨source, renameBlock blockId target destination, kind, label⟩ := by
  unfold CFGEdge.redirect renameBlock
  split <;> rfl

theorem collapse_edges (cfg : ControlFlowGraph) (blockId target : BlockId) :
    (collapse cfg blockId target).edges =
      (cfg.edges.filter fun edge => edge.source ≠ blockId).map (CFGEdge.redirect blockId target) := by
  change (cfg.edges.map (CFGEdge.redirect blockId target)).filter _ = _
  rw [List.filter_map]
  congr 1
  apply List.filter_congr
  intro edge _
  simp

theorem mem_collapse_edges (cfg : ControlFlowGraph) (blockId target : BlockId) (edge : CFGEdge) :
    edge ∈ (collapse cfg blockId target).edges ↔
      ∃ old ∈ cfg.edges, old.source ≠ blockId ∧ old.redirect blockId target = edge := by
  simp [collapse_edges, and_assoc]

theorem collapse_keys (cfg : ControlFlowGraph) (blockId target : BlockId) :
    (collapse cfg blockId target).blocks.keys = cfg.blocks.keys.filter fun other => other ≠ blockId :=
  OrderedDict.keys_erase cfg.blocks blockId

theorem collapse_statements (cfg : ControlFlowGraph) (blockId target other : BlockId)
    (kept : other ≠ blockId) :
    (collapse cfg blockId target).statementsOf other = cfg.statementsOf other := by
  simp [ControlFlowGraph.statementsOf, collapse, OrderedDict.get?_erase, kept]

theorem collapse_successors (cfg : ControlFlowGraph) (blockId target other : BlockId)
    (kept : other ≠ blockId) :
    (collapse cfg blockId target).successors other =
      (cfg.successors other).map (CFGEdge.redirect blockId target) := by
  simp only [ControlFlowGraph.successors, collapse_edges, List.filter_map, List.filter_filter]
  congr 1
  apply List.filter_congr
  intro edge _
  by_cases same : edge.source = other <;> simp [same, kept]

theorem collapse_size (cfg : ControlFlowGraph) {blockId : BlockId} (target : BlockId)
    (present : blockId ∈ cfg.blocks.keys) :
    (collapse cfg blockId target).blocks.size < cfg.blocks.size := by
  rw [← OrderedDict.keys_length, ← OrderedDict.keys_length, collapse_keys]
  exact List.length_filter_lt_length_iff_exists.mpr ⟨blockId, present, by simp⟩

/-! ### The loop -/

/-- One collapse of the loop. -/
def CollapseStep (before after : ControlFlowGraph) : Prop :=
  ∃ blockId target, collapseTarget before blockId = some target ∧
    after = collapse before blockId target

/-- The pruned graph comes from the graph by collapses. -/
abbrev Collapses := Relation.ReflTransGen CollapseStep

/-- A pass that reports a change has deleted a block. -/
theorem prunePass_collapses (cfg : ControlFlowGraph) :
    Collapses cfg (prunePass cfg).1 ∧
      ((prunePass cfg).2 = true → (prunePass cfg).1.blocks.size < cfg.blocks.size) := by
  have visited : ∀ (keys : List BlockId) (pruned : ControlFlowGraph × Bool),
      Collapses cfg pruned.1 → pruned.1.blocks.size ≤ cfg.blocks.size →
      (pruned.2 = true → pruned.1.blocks.size < cfg.blocks.size) →
      Collapses cfg (keys.foldl pruneBlock pruned).1 ∧
        ((keys.foldl pruneBlock pruned).2 = true →
          (keys.foldl pruneBlock pruned).1.blocks.size < cfg.blocks.size) := by
    intro keys
    induction keys with
    | nil => exact fun pruned steps _ shrinks => ⟨steps, shrinks⟩
    | cons blockId rest ih =>
        intro pruned steps small shrinks
        rw [List.foldl_cons, pruneBlock]
        split
        · exact ih pruned steps small shrinks
        · rename_i target found
          have smaller := collapse_size pruned.1 target (collapsible_of_target found).present
          exact ih _ (steps.tail ⟨blockId, target, found, rfl⟩) (by simp only; omega)
            (fun _ => by simp only; omega)
  exact visited cfg.blocks.keys (cfg, false) .refl (Nat.le_refl _) (by simp)

theorem pruneLoop_collapses (fuel : Nat) (cfg : ControlFlowGraph) (enough : cfg.blocks.size < fuel) :
    ∃ result, pruneLoop fuel cfg = some result ∧ Collapses cfg result := by
  induction fuel generalizing cfg with
  | zero => omega
  | succ fuel ih =>
      obtain ⟨steps, shrinks⟩ := prunePass_collapses cfg
      rw [pruneLoop]
      split
      · rename_i changed
        obtain ⟨result, found, further⟩ := ih (prunePass cfg).1 (by have := shrinks changed; omega)
        exact ⟨result, found, steps.trans further⟩
      · exact ⟨_, rfl, steps⟩

/-- The pruning loop ends and only collapses blocks. -/
theorem prune_collapses (cfg : ControlFlowGraph) :
    ∃ result, pruneEmptyPassThroughBlocks cfg = some result ∧ Collapses cfg result :=
  pruneLoop_collapses _ cfg (Nat.lt_succ_self _)

/-- A property that every collapse keeps holds after pruning. -/
theorem Collapses.keeps (good : ControlFlowGraph → Prop) {before after : ControlFlowGraph}
    (steps : Collapses before after)
    (step : ∀ cfg blockId target, good cfg → Collapsible cfg blockId target →
      good (collapse cfg blockId target))
    (start : good before) : good after := by
  induction steps with
  | refl => exact start
  | tail _ last ih =>
      obtain ⟨blockId, target, found, rfl⟩ := last
      exact step _ blockId target ih (collapsible_of_target found)

end MisraPlatform
