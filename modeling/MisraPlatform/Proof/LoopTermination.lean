import MisraPlatform.Semantics.ControlStatements

/-
This file proves when the structural query finds exactly the statements that terminate a loop.
-/

namespace MisraPlatform
open CFGEngine CFGBuilder

section Walks

variable {graph : AstGraph}

theorem below_of_mem_walk {fuel : Nat} {isLoopRoot : Bool} {node statement : AstNode} (present : node ∈ graph.nodes)
    (listed : statement ∈ walk graph fuel isLoopRoot node) : graph.Below node statement := by
  induction fuel generalizing isLoopRoot node with
  | zero => exact absurd listed List.not_mem_nil
  | succ fuel ih =>
      obtain ⟨child, inside, listed⟩ := List.mem_flatMap.mp listed
      have step : graph.Child node child := ⟨present, inside⟩
      split at listed
      · exact List.mem_singleton.mp listed ▸ .single step
      · split at listed
        · exact absurd listed List.not_mem_nil
        · exact .head step (ih (AstGraph.mem_children inside).1 listed)

variable (wellFormed : graph.WellFormed) (leaves : JumpsAreLeaves graph)

include wellFormed

theorem walk_nodup {fuel : Nat} {isLoopRoot : Bool} {node : AstNode} :
    (walk graph fuel isLoopRoot node).Nodup := by
  induction fuel generalizing isLoopRoot node with
  | zero => exact List.nodup_nil
  | succ fuel ih =>
      rw [walk, List.nodup_flatMap]
      constructor
      · intro child inside
        split
        · exact List.nodup_singleton child
        · split
          · exact List.nodup_nil
          · exact ih
      · refine (wellFormed.children_apart node.nodeId).imp_of_mem ?_
        intro first second here there apart statement left right
        have under : ∀ child ∈ graph.children node.nodeId, statement ∈
            (if leavesLoop child then [child] else if !isLoopRoot && takesBreaks child then []
              else walk graph fuel false child) → graph.Under child statement := by
          intro child inside listed
          split at listed
          · exact List.mem_singleton.mp listed ▸ .refl
          · split at listed
            · exact absurd listed List.not_mem_nil
            · exact (below_of_mem_walk (AstGraph.mem_children inside).1 listed).to_reflTransGen
        exact (wellFormed.under_line (under first here left) (under second there right)).elim apart.1 apart.2

include leaves

/-- Below the root the walk stops at loops and switches. -/
theorem mem_walk_iff {depth : String → Nat}
    (decreases : ∀ nodeId, ∀ child ∈ graph.children nodeId, depth child.nodeId < depth nodeId)
    {fuel : Nat} {node statement : AstNode} (present : node ∈ graph.nodes) (enough : depth node.nodeId < fuel) :
    statement ∈ walk graph fuel false node ↔ leavesLoop statement = true ∧ graph.Below node statement ∧
      ∀ middle, takesBreaks middle = true → graph.Below node middle → ¬ graph.Below middle statement := by
  induction fuel generalizing node with
  | zero => omega
  | succ fuel ih =>
      constructor
      · intro listed
        have below := below_of_mem_walk present listed
        obtain ⟨child, inside, listed⟩ := List.mem_flatMap.mp listed
        split at listed
        · rename_i leaving
          obtain rfl := List.mem_singleton.mp listed
          exact ⟨leaving, below, fun middle _ lower => wellFormed.adjacent inside lower⟩
        · split at listed
          · exact absurd listed List.not_mem_nil
          · rename_i other
            have smaller := decreases node.nodeId child inside
            obtain ⟨leaving, lower, between⟩ :=
              (ih (AstGraph.mem_children inside).1 (by omega)).mp listed
            refine ⟨leaving, below, fun middle takes middleLower upper => ?_⟩
            rcases wellFormed.between inside lower middleLower upper with here | inner
            · subst here
              simp [takes] at other
            · exact between middle takes inner upper
      · rintro ⟨leaving, below, between⟩
        obtain ⟨child, inside, lower⟩ := AstGraph.below_child below
        refine List.mem_flatMap.mpr ⟨child, inside, ?_⟩
        rcases lower with rfl | lower
        · rw [if_pos leaving]
          exact List.mem_singleton_self _
        · have step : graph.Child node child := ⟨present, inside⟩
          have passable : ¬ takesBreaks child = true := fun takes => between child takes (.single step) lower
          have smaller := decreases node.nodeId child inside
          rw [if_neg fun jump => leaves child statement jump leaving lower, if_neg (by simpa using passable),
            ih (AstGraph.mem_children inside).1 (by omega)]
          exact ⟨leaving, lower, fun middle takes inner => between middle takes (.head step inner)⟩

/-- From the root the walk also enters the loops and switches that are its children. -/
theorem mem_loopTerminationStatements {loopNode statement : AstNode} (present : loopNode ∈ graph.nodes) :
    statement ∈ loopTerminationStatements loopNode graph ↔
      leavesLoop statement = true ∧ graph.Below loopNode statement ∧ ¬ Deep graph loopNode statement := by
  obtain ⟨depth, decreases, bounded⟩ := wellFormed.depth
  constructor
  · intro listed
    have below := below_of_mem_walk present listed
    obtain ⟨child, inside, listed⟩ := List.mem_flatMap.mp listed
    split at listed
    · rename_i leaving
      obtain rfl := List.mem_singleton.mp listed
      exact ⟨leaving, below, fun ⟨_, _, lower, _, upper⟩ => wellFormed.adjacent inside lower upper⟩
    · have here := (AstGraph.mem_children inside).1
      obtain ⟨leaving, lower, between⟩ :=
        (mem_walk_iff wellFormed leaves decreases here (bounded child here)).mp listed
      refine ⟨leaving, below, fun ⟨inner, takes, innerLower, other, upper⟩ => ?_⟩
      rcases wellFormed.between inside lower innerLower upper with same | further
      · exact other (same ▸ inside)
      · exact between inner takes further upper
  · rintro ⟨leaving, below, shallow⟩
    obtain ⟨child, inside, lower⟩ := AstGraph.below_child below
    refine List.mem_flatMap.mpr ⟨child, inside, ?_⟩
    rcases lower with rfl | lower
    · rw [if_pos leaving]
      exact List.mem_singleton_self _
    · have here := (AstGraph.mem_children inside).1
      rw [if_neg fun jump => leaves child statement jump leaving lower]
      refine (mem_walk_iff wellFormed leaves decreases here (bounded child here)).mpr ⟨leaving, lower, ?_⟩
      intro middle takes further upper
      exact shallow ⟨middle, takes, .head ⟨present, inside⟩ further,
        wellFormed.not_child_of_below inside present further, upper⟩

end Walks

section Exactness

variable {graph : AstGraph} (wellFormed : graph.WellFormed) (leaves : JumpsAreLeaves graph)

include wellFormed

/-- A `break` that does not stand deep leaves the loop or one of its children. -/
theorem breaks_of_shallow {loopNode statement : AstNode} (present : loopNode ∈ graph.nodes)
    (kind : statement.nodeKind = .breakStmt) (below : graph.Below loopNode statement)
    (shallow : ¬ Deep graph loopNode statement) :
    BreaksFrom graph loopNode statement ∨
      ∃ child ∈ graph.children loopNode.nodeId, takesBreaks child = true ∧ BreaksFrom graph child statement := by
  by_cases innermost : ∀ inner, takesBreaks inner = true → graph.Below loopNode inner →
      ¬ graph.Below inner statement
  · exact .inl ⟨kind, below, innermost⟩
  · push Not at innermost
    obtain ⟨inner, takes, lower, upper⟩ := innermost
    have inside : inner ∈ graph.children loopNode.nodeId := by
      by_contra other
      exact shallow ⟨inner, takes, lower, other, upper⟩
    refine .inr ⟨inner, inside, takes, kind, upper, ?_⟩
    intro next nextTakes further nextUpper
    exact shallow ⟨next, nextTakes, .head ⟨present, inside⟩ further,
      wellFormed.not_child_of_below inside present further, nextUpper⟩

/-- A `break` of a child of the loop does not stand deep. -/
theorem shallow_of_breaks {loopNode child statement : AstNode} (inside : child ∈ graph.children loopNode.nodeId)
    (breaks : BreaksFrom graph child statement) : ¬ Deep graph loopNode statement := by
  rintro ⟨inner, takes, lower, other, upper⟩
  rcases wellFormed.between inside breaks.below lower upper with same | further
  · exact other (same ▸ inside)
  · exact breaks.innermost inner takes further upper

include leaves

/-- The query is exact for a loop exactly if its children have no `break` of their own and its gotos leave it
exactly where they do not stand deep. -/
theorem terminatorsExact_iff {loopNode : AstNode} (present : loopNode ∈ graph.nodes) :
    TerminatorsExact graph loopNode ↔ Shallow graph loopNode := by
  have listed := fun statement =>
    @mem_loopTerminationStatements graph wellFormed leaves loopNode statement present
  constructor
  · rintro ⟨_, same⟩
    constructor
    · intro child inside takes statement breaks
      have below : graph.Below loopNode statement := .head ⟨present, inside⟩ breaks.below
      have leaving : leavesLoop statement = true := by simp [leavesLoop, breaks.kind]
      rcases (same statement).mp ((listed statement).mpr
        ⟨leaving, below, shallow_of_breaks wellFormed inside breaks⟩) with outer | jump
      · exact outer.innermost child takes (.single ⟨present, inside⟩) breaks.below
      · exact absurd (breaks.kind.symm.trans jump.kind) (by decide)
    · intro statement kind below
      have leaving : leavesLoop statement = true := by simp [leavesLoop, kind]
      constructor
      · intro deep
        by_contra outside
        exact ((listed statement).mp ((same statement).mpr (.inr ⟨kind, below, outside⟩))).2.2 deep
      · intro inside
        by_contra shallow
        rcases (same statement).mp ((listed statement).mpr ⟨leaving, below, shallow⟩) with breaks | jump
        · exact absurd (kind.symm.trans breaks.kind) (by decide)
        · exact jump.outside inside
  · rintro ⟨breaks, gotos⟩
    refine ⟨walk_nodup wellFormed, fun statement => (listed statement).trans ?_⟩
    constructor
    · rintro ⟨leaving, below, shallow⟩
      have kinds : statement.nodeKind = .breakStmt ∨ statement.nodeKind = .gotoStmt := by
        simpa [leavesLoop] using leaving
      rcases kinds with kind | kind
      · rcases breaks_of_shallow wellFormed present kind below shallow with here | ⟨child, inside, takes, inner⟩
        · exact .inl here
        · exact absurd inner (breaks child inside takes statement)
      · exact .inr ⟨kind, below, fun inside => shallow ((gotos statement kind below).mpr inside)⟩
    · rintro (here | jump)
      · exact ⟨by simp [leavesLoop, here.kind], here.below,
          fun ⟨inner, takes, lower, _, upper⟩ => here.innermost inner takes lower upper⟩
      · exact ⟨by simp [leavesLoop, jump.kind], jump.below,
          fun deep => jump.outside ((gotos statement jump.kind jump.below).mp deep)⟩

end Exactness

section Rules

open BaseRulePlugin

/-- Where the query is exact, the rule is silent exactly about loops that at most one statement terminates. -/
theorem detectLoop_eq_nil_iff {context : RuleContext} {loopNode : AstNode}
    (exactly : TerminatorsExact (graph context) loopNode) :
    Rule15_4.detectLoop context loopNode = [] ↔ ∀ first second,
      BreaksFrom (graph context) loopNode first ∨ JumpsOut (graph context) loopNode first →
      BreaksFrom (graph context) loopNode second ∨ JumpsOut (graph context) loopNode second → first = second := by
  obtain ⟨once, members⟩ := exactly
  simp only [← members]
  rw [Rule15_4.detectLoop, List.map_eq_nil_iff]
  cases found : loopTerminationStatements loopNode (graph context) with
  | nil => simp
  | cons first rest =>
      rw [List.tail_cons]
      constructor
      · intro single
        subst single
        simp
      · intro unique
        rw [found] at once
        by_contra several
        obtain ⟨second, others, rfl⟩ := List.exists_cons_of_ne_nil several
        have same := unique first second List.mem_cons_self (List.mem_cons_of_mem _ List.mem_cons_self)
        exact (List.nodup_cons.mp once).1 (same ▸ List.mem_cons_self)

end Rules

section Examples

theorem jumpsAreLeaves_of_childless {graph : AstGraph} (wellFormed : graph.WellFormed)
    (childless : ∀ jump ∈ graph.nodes, leavesLoop jump = true → jump.childrenIds = []) : JumpsAreLeaves graph := by
  intro jump statement leaving _ below
  obtain ⟨child, step, _⟩ := Relation.TransGen.head'_iff.mp below
  obtain ⟨_, parent, present, named, listed⟩ := AstGraph.mem_children step.2
  have same : parent = jump := wellFormed.unique present step.1 named
  rw [same, childless jump step.1 leaving] at listed
  exact absurd listed List.not_mem_nil

def singleWhile : AstNode := { nodeId := "loop", nodeKind := .whileStmt, childrenIds := ["ready", "body"] }

/-- This is `while (ready) { break; }`. -/
def singleLoop : AstGraph where
  nodes :=
    [singleWhile, { nodeId := "ready", nodeKind := .declRefExpr, parentId := "loop" },
      { nodeId := "body", nodeKind := .compoundStmt, parentId := "loop", childrenIds := ["break"] },
      { nodeId := "break", nodeKind := .breakStmt, parentId := "body" }]

theorem singleLoop_wellFormed : singleLoop.WellFormed := by
  apply AstGraph.WellFormed.of_order <;> decide

theorem singleLoop_exact : TerminatorsExact singleLoop singleWhile := by
  have leaves := jumpsAreLeaves_of_childless singleLoop_wellFormed (by decide)
  have unguarded : ∀ child ∈ singleLoop.children singleWhile.nodeId, takesBreaks child = false := by decide
  have straight : ∀ statement ∈ singleLoop.nodes, statement.nodeKind ≠ .gotoStmt := by decide
  refine (terminatorsExact_iff singleLoop_wellFormed leaves (by decide)).mpr ⟨?_, ?_⟩
  · intro child inside takes
    exact absurd takes (by rw [unguarded child inside]; decide)
  · intro statement kind below
    exact absurd kind (straight statement (AstGraph.Under.present below.to_reflTransGen (by decide)))

def outerWhile : AstNode := { nodeId := "outer", nodeKind := .whileStmt, childrenIds := ["ready", "inner"] }

def innerWhile : AstNode :=
  { nodeId := "inner", nodeKind := .whileStmt, parentId := "outer", childrenIds := ["busy", "break"] }

def innerBreak : AstNode := { nodeId := "break", nodeKind := .breakStmt, parentId := "inner" }

/-- This is `while (ready) while (busy) break;`. -/
def directLoop : AstGraph where
  nodes :=
    [outerWhile, { nodeId := "ready", nodeKind := .declRefExpr, parentId := "outer" }, innerWhile,
      { nodeId := "busy", nodeKind := .declRefExpr, parentId := "inner" }, innerBreak]

theorem directLoop_wellFormed : directLoop.WellFormed := by
  apply AstGraph.WellFormed.of_order <;> decide

/-- The `break` of the inner loop is taken for one of the outer loop. -/
theorem directLoop_inexact :
    directLoop.WellFormed ∧ JumpsAreLeaves directLoop ∧ outerWhile ∈ directLoop.nodes ∧
      outerWhile.nodeKind.isLoop = true ∧ ¬ TerminatorsExact directLoop outerWhile := by
  refine ⟨directLoop_wellFormed, jumpsAreLeaves_of_childless directLoop_wellFormed (by decide), by decide, rfl, ?_⟩
  rintro ⟨_, members⟩
  have listed : innerBreak ∈ loopTerminationStatements outerWhile directLoop := by decide
  have outer : directLoop.Child outerWhile innerWhile := ⟨by decide, by decide⟩
  have inner : directLoop.Child innerWhile innerBreak := ⟨by decide, by decide⟩
  cases (members innerBreak).mp listed with
  | inl breaks => exact breaks.innermost innerWhile rfl (.single outer) (.single inner)
  | inr jump => exact absurd jump.kind (by decide)

end Examples

end MisraPlatform
