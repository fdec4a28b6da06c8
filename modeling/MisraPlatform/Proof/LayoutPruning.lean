import MisraPlatform.Proof.Layout
import MisraPlatform.Proof.Pruning

/-
This file shows that pruning keeps the layout of a body.
-/

namespace MisraPlatform
open CFGEngine

/-- No fallthrough edge leads to the entry or to the exit. -/
def FallsInside (cfg : ControlFlowGraph) : Prop :=
  ∀ edge ∈ cfg.edges, edge.kind = .fallthrough → edge.target ≠ .entry ∧ edge.target ≠ .exit

theorem Collapsible.target_inside {cfg : ControlFlowGraph} {blockId target : BlockId}
    (collapsible : Collapsible cfg blockId target) (inside : FallsInside cfg) :
    target ≠ .entry ∧ target ≠ .exit := by
  obtain ⟨label, leaves⟩ := collapsible.leaves
  have present : (⟨blockId, target, .fallthrough, label⟩ : CFGEdge) ∈ cfg.successors blockId := by
    simp [leaves]
  exact inside _ (List.mem_filter.mp present).1 rfl

theorem fallsInside_collapse (cfg : ControlFlowGraph) (blockId target : BlockId)
    (inside : FallsInside cfg) (collapsible : Collapsible cfg blockId target) :
    FallsInside (collapse cfg blockId target) := by
  intro edge present falls
  obtain ⟨old, before, _, rfl⟩ := (mem_collapse_edges _ _ _ _).mp present
  have bounds := inside old before (by simpa using falls)
  rw [redirect_target, renameBlock]
  split
  · exact collapsible.target_inside inside
  · exact bounds

/-- A point at the collapsed block moves to the start of the target. -/
def renamePoint (blockId target : BlockId) (point : Point) : Point :=
  if point.1 = blockId then (target, 0) else point

def renameStack (blockId target : BlockId) (stack : LoopStack) : LoopStack :=
  stack.map fun targets => (renameBlock blockId target targets.1, renameBlock blockId target targets.2)

def renameSpots (blockId target : BlockId) (spots : List (AstNode × Point)) :
    List (AstNode × Point) :=
  spots.map fun entry => (entry.1, renamePoint blockId target entry.2)

section Collapse

variable {cfg : ControlFlowGraph} {blockId target : BlockId}

theorem renameBlock_other {point : BlockId} (other : point ≠ blockId) :
    renameBlock blockId target point = point := if_neg other

theorem renamePoint_other {point : Point} (other : point.1 ≠ blockId) :
    renamePoint blockId target point = point := if_neg other

theorem renamePoint_start (point : BlockId) :
    renamePoint blockId target (point, 0) = (renameBlock blockId target point, 0) := by
  unfold renamePoint renameBlock
  split <;> rfl

/-- A block with a statement does not collapse. -/
theorem Collapsible.holds_other (collapsible : Collapsible cfg blockId target) {point : Point}
    {statement : AstNode} (holds : cfg.Holds point statement) : point.1 ≠ blockId := by
  intro same
  rw [ControlFlowGraph.Holds, same, collapsible.empty] at holds
  simp at holds

theorem holds_collapse {point : Point} {statement : AstNode} (other : point.1 ≠ blockId)
    (holds : cfg.Holds point statement) : (collapse cfg blockId target).Holds point statement := by
  rwa [ControlFlowGraph.Holds, collapse_statements cfg blockId target point.1 other]

theorem ends_collapse {point : Point} (other : point.1 ≠ blockId) (ends : cfg.Ends point) :
    (collapse cfg blockId target).Ends point := by
  rwa [ControlFlowGraph.Ends, collapse_statements cfg blockId target point.1 other]

theorem closes_collapse (collapsible : Collapsible cfg blockId target) {point : Point}
    {statement : AstNode} {edges : List CFGEdge} (closes : cfg.Closes point statement edges) :
    (collapse cfg blockId target).Closes point statement
      (edges.map (CFGEdge.redirect blockId target)) := by
  obtain ⟨holds, ends, leaves⟩ := closes
  have other := collapsible.holds_other holds
  exact ⟨holds_collapse other holds, ends_collapse other ends,
    by rw [collapse_successors cfg blockId target point.1 other, leaves]⟩

/-- The edge out of a collapsed block becomes the point that it led to. -/
theorem flows_collapse (collapsible : Collapsible cfg blockId target) {point : Point}
    {kind : EdgeKind} {next : BlockId} (flows : cfg.Flows point kind next) :
    (collapse cfg blockId target).Flows (renamePoint blockId target point) kind
      (renameBlock blockId target next) := by
  obtain ⟨falls, rfl⟩ | ⟨ends, leaves⟩ := flows
  · exact .inl ⟨falls, renamePoint_start next⟩
  · by_cases same : point.1 = blockId
    · obtain ⟨label, alone⟩ := collapsible.leaves
      rw [same, alone] at leaves
      simp only [List.cons.injEq, CFGEdge.mk.injEq, true_and, and_true] at leaves
      refine .inl ⟨leaves.2.1.symm, ?_⟩
      rw [renamePoint, if_pos same, ← leaves.1, renameBlock_other collapsible.other]
    · rw [renamePoint_other same]
      refine .inr ⟨ends_collapse same ends, ?_⟩
      rw [collapse_successors cfg blockId target point.1 same, leaves, List.map_singleton, redirect_mk]

theorem dangles_collapse (collapsible : Collapsible cfg blockId target) {point : Point}
    (dangles : cfg.Dangles point) :
    (collapse cfg blockId target).Dangles (renamePoint blockId target point) := by
  have other : point.1 ≠ blockId := by
    intro same
    obtain ⟨label, alone⟩ := collapsible.leaves
    have leaves := dangles.2
    rw [same, alone] at leaves
    simp at leaves
  rw [renamePoint_other other]
  exact ⟨ends_collapse other dangles.1,
    by rw [collapse_successors cfg blockId target point.1 other, dangles.2]; rfl⟩

theorem jumpEdges_rename (collapsible : Collapsible cfg blockId target) (resolve : String → BlockId)
    (stack : LoopStack) (statement : AstNode) (source : BlockId) :
    (jumpEdges resolve stack statement source).map (CFGEdge.redirect blockId target) =
      jumpEdges (renameBlock blockId target ∘ resolve) (renameStack blockId target stack) statement
        source := by
  have exit : renameBlock blockId target .exit = .exit := renameBlock_other collapsible.inner.2.symm
  unfold jumpEdges
  cases stack <;> cases statement.nodeKind <;> simp [redirect_mk, exit, renameStack]

theorem simpleLaid_collapse (collapsible : Collapsible cfg blockId target)
    {resolve : String → BlockId} {stack : LoopStack} {statement : AstNode} {point spot after : Point}
    (laid : SimpleLaid cfg resolve stack statement point spot after) :
    SimpleLaid (collapse cfg blockId target) (renameBlock blockId target ∘ resolve)
      (renameStack blockId target stack) statement (renamePoint blockId target point)
      (renamePoint blockId target spot) (renamePoint blockId target after) := by
  obtain ⟨holds, rest⟩ := laid
  have other := collapsible.holds_other holds
  rw [renamePoint_other other]
  refine ⟨holds_collapse other holds, ?_⟩
  split at rest
  · rename_i kind
    obtain ⟨flows, start, rfl⟩ := rest
    rw [if_pos kind, renamePoint_other (show (spot.1, 1).1 ≠ blockId from other)]
    refine ⟨?_, start, rfl⟩
    have moved := flows_collapse collapsible flows
    rwa [renameBlock_other other] at moved
  · rename_i kind
    obtain ⟨rfl, rest⟩ := rest
    rw [if_neg kind, renamePoint_other other]
    refine ⟨rfl, ?_⟩
    split at rest
    · rename_i jump
      obtain ⟨closes, start⟩ := rest
      rw [if_pos jump, ← jumpEdges_rename collapsible]
      refine ⟨closes_collapse collapsible closes, ?_⟩
      unfold renamePoint
      split
      · rfl
      · exact start
    · rename_i straight
      subst rest
      rw [if_neg straight, renamePoint_other (show (spot.1, spot.2 + 1).1 ≠ blockId from other)]

@[simp] theorem renameSpots_nil : renameSpots blockId target [] = [] := rfl

@[simp] theorem renameSpots_cons (statement : AstNode) (spot : Point)
    (rest : List (AstNode × Point)) :
    renameSpots blockId target ((statement, spot) :: rest) =
      (statement, renamePoint blockId target spot) :: renameSpots blockId target rest := rfl

@[simp] theorem renameSpots_append (first second : List (AstNode × Point)) :
    renameSpots blockId target (first ++ second) =
      renameSpots blockId target first ++ renameSpots blockId target second := List.map_append

mutual

theorem Code.laid_collapse (collapsible : Collapsible cfg blockId target)
    (inside : target ≠ .entry ∧ target ≠ .exit) {resolve : String → BlockId} :
    ∀ (code : Code) (stack : LoopStack) (point last : Point) (spots : List (AstNode × Point)),
    code.Laid cfg resolve stack point last spots →
    code.Laid (collapse cfg blockId target) (renameBlock blockId target ∘ resolve)
      (renameStack blockId target stack) (renamePoint blockId target point)
      (renamePoint blockId target last) (renameSpots blockId target spots)
  | .nil, _, point, last, _, ⟨same, entry, exit, vacant⟩ => by
      subst same vacant
      refine ⟨rfl, ?_, ?_, rfl⟩
      · unfold renamePoint
        split
        · exact inside.1
        · exact entry
      · unfold renamePoint
        split
        · exact inside.2
        · exact exit
  | .simple statement rest, stack, point, last, _, ⟨spot, after, others, first, tail, same⟩ => by
      subst same
      exact ⟨_, _, _, simpleLaid_collapse collapsible first,
        rest.laid_collapse collapsible inside stack after last others tail, rfl⟩
  | .compound _ body rest, stack, point, last, _,
    ⟨first, final, next, inner, outer, flows, nested, dangles, tail, same⟩ => by
      subst same
      have bodyLaid := body.laid_collapse collapsible inside stack (first, 0) final inner nested
      have restLaid := rest.laid_collapse collapsible inside stack (next, 0) last outer tail
      rw [renamePoint_start] at bodyLaid restLaid
      exact ⟨_, _, _, _, _, flows_collapse collapsible flows, bodyLaid,
        dangles_collapse collapsible dangles, restLaid, renameSpots_append inner outer⟩
  | .ifStmt statement thenBranch elseBranch rest, stack, point, last, _,
    ⟨join, thenEdges, elseEdges, first, second, outer, closes, thenLaid, elseLaid, tail, same⟩ => by
      subst same
      have other := collapsible.holds_other closes.1
      have branches := closes_collapse collapsible closes
      have firstLaid := thenBranch.laid_collapse collapsible inside stack point.1 .trueEdge
        .fallthrough join _ thenEdges first thenLaid
      have secondLaid := elseBranch.laid_collapse collapsible inside stack point.1 .falseEdge
        .fallthrough join _ elseEdges second elseLaid
      have restLaid := rest.laid_collapse collapsible inside stack (join, 0) last outer tail
      rw [List.map_append] at branches
      rw [List.map_singleton, redirect_mk] at firstLaid secondLaid
      rw [renamePoint_start] at restLaid
      rw [renamePoint_other other]
      exact ⟨_, _, _, _, _, _, branches, firstLaid, secondLaid, restLaid, by
        simp [renamePoint_other other]⟩
  | .loop statement body rest, stack, point, last, _,
    ⟨header, after, edges, inner, outer, flows, closes, bodyLaid, tail, same⟩ => by
      subst same
      have other : header ≠ blockId := collapsible.holds_other closes.1
      have entered := flows_collapse collapsible flows
      have branches := closes_collapse collapsible closes
      have nested := body.laid_collapse collapsible inside ((header, after) :: stack) header
        (loopEntryKind statement) .loopBack header [] edges inner bodyLaid
      have restLaid := rest.laid_collapse collapsible inside stack (after, 0) last outer tail
      rw [List.map_append, List.map_singleton, redirect_mk] at branches
      rw [renamePoint_start] at restLaid
      simp only [renameStack, List.map_cons, List.map_nil, renameBlock_other other] at entered nested
      exact ⟨_, _, _, _, _, entered, branches, nested, restLaid, by
        simp [renamePoint_other (show (header, 0).1 ≠ blockId from other)]⟩
  | .switch statement groups rest, stack, point, last, _,
    ⟨after, edges, inner, outer, closes, groupsLaid, tail, same⟩ => by
      subst same
      have other := collapsible.holds_other closes.1
      have branches := closes_collapse collapsible closes
      have nested := groups.laid_collapse collapsible inside ((point.1, after) :: stack) point.1 none
        after edges inner groupsLaid
      have restLaid := rest.laid_collapse collapsible inside stack (after, 0) last outer tail
      rw [renamePoint_start] at restLaid
      simp only [renameStack, List.map_cons, renameBlock_other other, Option.map_none] at nested
      rw [renamePoint_other other]
      refine ⟨_, _, _, _, ?_, nested, restLaid, by simp [renamePoint_other other]⟩
      cases default_ : groups.hasDefault <;>
        simpa [default_, redirect_mk] using branches
  | .bareSwitch statement rest, stack, point, last, _, ⟨after, outer, closes, tail, same⟩ => by
      subst same
      have other := collapsible.holds_other closes.1
      have branches := closes_collapse collapsible closes
      have restLaid := rest.laid_collapse collapsible inside stack (after, 0) last outer tail
      rw [renamePoint_start] at restLaid
      rw [List.map_singleton, redirect_mk] at branches
      rw [renamePoint_other other]
      exact ⟨_, _, branches, restLaid, by simp [renamePoint_other other]⟩

theorem Branch.laid_collapse (collapsible : Collapsible cfg blockId target)
    (inside : target ≠ .entry ∧ target ≠ .exit) {resolve : String → BlockId} :
    ∀ (branch : Branch) (stack : LoopStack) (source : BlockId) (entryKind tailKind : EdgeKind)
      (next : BlockId) (missing edges : List CFGEdge) (spots : List (AstNode × Point)),
    branch.Laid cfg resolve stack source entryKind tailKind next missing edges spots →
    branch.Laid (collapse cfg blockId target) (renameBlock blockId target ∘ resolve)
      (renameStack blockId target stack) source entryKind tailKind (renameBlock blockId target next)
      (missing.map (CFGEdge.redirect blockId target)) (edges.map (CFGEdge.redirect blockId target))
      (renameSpots blockId target spots)
  | .absent, _, _, _, _, _, _, _, _, ⟨same, vacant⟩ => by
      subst same vacant
      exact ⟨rfl, rfl⟩
  | .present body, stack, source, _, _, next, _, _, spots, ⟨first, final, same, nested, flows⟩ => by
      subst same
      have bodyLaid := body.laid_collapse collapsible inside stack (first, 0) final spots nested
      rw [renamePoint_start] at bodyLaid
      exact ⟨_, _, by rw [List.map_singleton, redirect_mk], bodyLaid, flows_collapse collapsible flows⟩

theorem Groups.laid_collapse (collapsible : Collapsible cfg blockId target)
    (inside : target ≠ .entry ∧ target ≠ .exit) {resolve : String → BlockId} :
    ∀ (groups : Groups) (stack : LoopStack) (source : BlockId) (previous : Option Point)
      (after : BlockId) (edges : List CFGEdge) (spots : List (AstNode × Point)),
    groups.Laid cfg resolve stack source previous after edges spots →
    groups.Laid (collapse cfg blockId target) (renameBlock blockId target ∘ resolve)
      (renameStack blockId target stack) source (previous.map (renamePoint blockId target))
      (renameBlock blockId target after) (edges.map (CFGEdge.redirect blockId target))
      (renameSpots blockId target spots)
  | .nil, _, _, previous, after, _, _, ⟨vacant, empty, flows⟩ => by
      subst vacant empty
      refine ⟨rfl, rfl, ?_⟩
      rintro _ found
      obtain ⟨tail, same, rfl⟩ := Option.map_eq_some_iff.mp found
      exact flows_collapse collapsible (flows tail same)
  | .cons label body more, stack, source, previous, after, _, _,
    ⟨first, spot, next, final, others, inner, outer, start, nested, rest, same, spots, flows⟩ => by
      subst same spots
      have startLaid := simpleLaid_collapse collapsible start
      have bodyLaid := body.laid_collapse collapsible inside stack next final inner nested
      have moreLaid := more.laid_collapse collapsible inside stack source (some final) after others
        outer rest
      rw [renamePoint_start] at startLaid
      refine ⟨_, _, _, _, _, _, _, startLaid, bodyLaid, moreLaid, by
        rw [List.map_cons, redirect_mk], by simp, ?_⟩
      rintro _ found
      obtain ⟨tail, same, rfl⟩ := Option.map_eq_some_iff.mp found
      exact flows_collapse collapsible (flows tail same)

end

theorem spotBlock_rename (collapsible : Collapsible cfg blockId target)
    (spots : List (AstNode × Point)) :
    renameBlock blockId target ∘ spotBlock spots = spotBlock (renameSpots blockId target spots) := by
  have exit : renameBlock blockId target .exit = .exit := renameBlock_other collapsible.inner.2.symm
  have names : labelBlocks (renameSpots blockId target spots) = (labelBlocks spots).map fun entry =>
      (entry.1, renameBlock blockId target entry.2) := by
    induction spots with
    | nil => rfl
    | cons entry rest ih =>
        obtain ⟨statement, spot⟩ := entry
        rw [renameSpots_cons]
        by_cases kind : statement.nodeKind = .labelStmt
        · rw [labelBlocks_label kind, labelBlocks_label kind, ih, List.map_cons]
          congr 2
          unfold renamePoint renameBlock
          split <;> rfl
        · rw [labelBlocks_other kind, labelBlocks_other kind, ih]
  funext name
  rw [Function.comp, spotBlock, spotBlock, names, ← List.map_reverse]
  induction (labelBlocks spots).reverse with
  | nil => exact exit
  | cons entry rest ih =>
      rw [List.map_cons, OrderedDict.lookup_cons_if, OrderedDict.lookup_cons_if]
      by_cases same : name = entry.1
      · rw [if_pos same, if_pos same]
        rfl
      · rw [if_neg same, if_neg same]
        exact ih

/-- A collapse keeps the layout of a whole body. -/
theorem LaysOut.collapse (collapsible : Collapsible cfg blockId target)
    (inside : target ≠ .entry ∧ target ≠ .exit) {body : Code} {fed : Bool} {first : BlockId}
    {last : Point} {spots : List (AstNode × Point)}
    (lays : LaysOut cfg body fed first last spots) :
    LaysOut (collapse cfg blockId target) body fed (renameBlock blockId target first) last
      (renameSpots blockId target spots) := by
  have other : last.1 ≠ blockId := by
    intro same
    obtain ⟨label, alone⟩ := collapsible.leaves
    have leaves := lays.leaves
    rw [same, alone, endEdges] at leaves
    cases fed <;> simp at leaves
  have laid := body.laid_collapse collapsible inside [] (first, 0) last spots lays.laid
  rw [renamePoint_start, renamePoint_other other, spotBlock_rename collapsible] at laid
  have exit : renameBlock blockId target .exit = .exit := renameBlock_other collapsible.inner.2.symm
  refine ⟨?_, laid, ends_collapse other lays.ends, ?_, ?_, ?_, ?_⟩
  · rw [collapse_successors cfg blockId target .entry collapsible.inner.1.symm, lays.entry,
      List.map_singleton, redirect_mk]
  · rw [collapse_successors cfg blockId target last.1 other, lays.leaves, endEdges]
    cases fed <;> simp [redirect_mk, exit]
  · rw [collapse_successors cfg blockId target .exit collapsible.inner.2.symm, lays.exit]
    rfl
  · rw [collapse_statements cfg blockId target .entry collapsible.inner.1.symm]
    exact lays.bounds.1
  · rw [collapse_statements cfg blockId target .exit collapsible.inner.2.symm]
    exact lays.bounds.2

end Collapse

end MisraPlatform
