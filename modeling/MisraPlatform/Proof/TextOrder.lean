import MisraPlatform.Construction.DataFlowEngine
import MisraPlatform.Semantics.FlowFacts
import MisraPlatform.Proof.Evaluation
import MisraPlatform.Proof.FlowGraph
import MisraPlatform.Proof.Soundness

/-
This file compares the dead stores in the order of the text with the runs of C.
-/

namespace MisraPlatform
open AstGraph CFGEngine DataFlowEngineV2

variable {graph : AstGraph} {functionNode : AstNode} {body : Code} {header : ForHeader graph}

/-! ### References of a run -/

section Runs

variable (wellFormed : graph.WellFormed)

include wellFormed

theorem bodyStatements_descendants {top node : AstNode} (inside : top ∈ bodyStatements functionNode graph)
    (under : graph.Under top node) : node ∈ graph.descendants functionNode.nodeId := by
  rw [wellFormed.mem_descendants]
  unfold bodyStatements at inside
  dsimp only at inside
  split at inside
  · rename_i compound found
    have listed := List.mem_of_find?_eq_some found
    exact ⟨compound, listed, under.head ⟨(AstGraph.mem_children listed).1, inside⟩⟩
  · exact ⟨top, (List.mem_filter.mp inside).1, under⟩

/-- The statements of the body are nodes of the function. -/
theorem FunctionBody.descendants (layout : FunctionBody graph functionNode body) {statement node : AstNode}
    (inside : statement ∈ body.nodes) (under : graph.Under statement node) :
    node ∈ graph.descendants functionNode.nodeId := by
  obtain ⟨read, _, _⟩ := layout.reading wellFormed
  obtain ⟨_, _, covers⟩ := readCode_once wellFormed _ _ body read (fun _ => bodyStatements_present)
    (bodyStatements_apart wellFormed functionNode)
  obtain ⟨top, listed, above⟩ := covers statement inside
  exact bodyStatements_descendants wellFormed listed (above.trans under)

omit wellFormed in
theorem Acts.placed {state : State} {again : Bool} {actions : List Action}
    (acts : Acts header body state again actions) : state.Placed (body.positions body .stop) := by
  induction acts with
  | start => exact start_placed body
  | step _ _ taken ih => exact step_placed ih taken

/-- A read of a run is a reference of the function. -/
theorem FunctionBody.reads (layout : FunctionBody graph functionNode body) {state : State} {again : Bool}
    {actions order : List Action} (acts : Acts header body state again actions)
    (does : state.Does header again order) {ref : AstNode} (inside : ⟨ref, .reads⟩ ∈ order) :
    ref ∈ graph.descendants functionNode.nodeId ∧ isDeclRef ref = true ∧ declRefName ref ≠ "" := by
  obtain ⟨root, listed, node, under, mine⟩ := Evaluates.mem does inside
  obtain ⟨statement, reached, evaluated⟩ := List.mem_flatMap.mp listed
  obtain ⟨rfl, kind, named, _⟩ := mem_nodeActions_reads mine
  have current : state.current = some statement := Option.mem_toList.mp reached
  have present := current_mem_nodes acts.placed current
  refine ⟨layout.descendants wellFormed present ?_, by simp [isDeclRef, kind], named⟩
  refine under_own wellFormed ?_ (own_of_root header evaluated under)
  have known := layout.descendants wellFormed present .refl
  obtain ⟨child, listed, below⟩ := wellFormed.mem_descendants.mp known
  exact below.present (AstGraph.mem_children listed).1

end Runs

/-! ### The last reference -/

namespace DataFlowEngine

theorem mem_references {varDecl ref : AstNode} (filled : declRefName ref ≠ "") :
    ref ∈ references varDecl functionNode graph ↔ ref ∈ graph.descendants functionNode.nodeId ∧
      isDeclRef ref = true ∧ declRefName ref = declRefName varDecl := by
  unfold references
  split
  · rename_i unnamed
    exact iff_of_false List.not_mem_nil fun both => filled (both.2.2.trans unnamed)
  · simp [linearize]

/-- No reference stands after the last one. -/
theorem precedes_last {varDecl ref last : AstNode} (inside : ref ∈ references varDecl functionNode graph)
    (ends : (references varDecl functionNode graph).getLast? = some last) : precedes ref last := by
  have sorted : (references varDecl functionNode graph).Pairwise precedes := by
    unfold references
    split
    · exact .nil
    · exact List.pairwise_insertionSort precedes _
  obtain ⟨front, same⟩ := List.getLast?_eq_some_iff.mp ends
  rw [same] at inside sorted
  rcases List.mem_append.mp inside with earlier | here
  · exact (List.pairwise_append.mp sorted).2.2 ref earlier last (List.mem_singleton_self last)
  · rw [List.mem_singleton.mp here]
    exact .inr ⟨rfl, le_refl _⟩

theorem deadStore_eq_some {varDecl store : AstNode} : deadStore varDecl functionNode graph = some store ↔
    (references varDecl functionNode graph).getLast? = some store ∧ isWriteTarget store graph = true := by
  simp [deadStore, Option.filter_eq_some_iff]

/-- The suffix is that of an assignment of C or of a comparison. -/
theorem isAssignmentOpcode_iff {opcode : String} (known : opcode ∈ binaryOperators) :
    isAssignmentOpcode opcode = true ↔ opcode ∈ "=" :: compoundAssignments ∨ opcode ∈ ["<=", ">="] := by
  revert opcode
  decide

/-- The operand of a comparison takes the opcode for an assignment. -/
def Compared (graph : AstGraph) (ref : AstNode) : Prop :=
  ∃ parent, graph.get ref.parentId = some parent ∧ opcode parent ∈ ["<=", ">="]

/-- A target of the engine is written unless it is compared. -/
theorem writes_iff (operators : graph.Operators) {store : AstNode}
    (target : isWriteTarget store graph = true) :
    Effect.writes ∈ referenceEffects graph store ↔ ¬ Compared graph store := by
  unfold isWriteTarget at target
  split at target
  · exact absurd target Bool.false_ne_true
  · rename_i parent found
    have compared : Compared graph store ↔ opcode parent ∈ ["<=", ">="] := by
      simp [Compared, found]
    rw [compared, referenceEffects_of_parent found]
    split at target
    · rename_i assigns
      have known := operators parent (AstGraph.get_eq_some found).1 assigns.1
      rcases (isAssignmentOpcode_iff known).mp assigns.2 with assignment | comparison
      · have stored : isAssignment parent = true := by simp [isAssignment, assigns.1, assignment]
        have apart : opcode parent ∉ ["<=", ">="] := by
          revert assignment
          generalize opcode parent = sign
          revert sign
          decide
        rw [if_pos ⟨stored, target⟩]
        refine iff_of_true ?_ apart
        split <;> decide
      · have unassigned : isAssignment parent = false := by
          have other : opcode parent ∉ "=" :: compoundAssignments := by
            revert comparison
            generalize opcode parent = sign
            revert sign
            decide
          simp [isAssignment, assigns.1, other]
        rw [if_neg (by simp [unassigned]), if_neg (by simp [assigns.1])]
        exact iff_of_false (by decide) (not_not.mpr comparison)
    · rw [Bool.and_eq_true, decide_eq_true_eq, decide_eq_true_eq] at target
      have apart : opcode parent ∉ ["<=", ">="] := by
        have step := target.2
        revert step
        generalize opcode parent = sign
        revert sign
        decide
      have unassigned : isAssignment parent = false := by simp [isAssignment, target.1]
      rw [if_neg (by simp [unassigned]), if_pos target]
      exact iff_of_true (by decide) apart

end DataFlowEngine

/-! ### True reports -/

/-- A reported reference is a store and no run reads its value. -/
def ReportsDead (functionNode : AstNode) (header : ForHeader graph) (body : Code) : Prop :=
  ∀ varDecl ∈ DataFlowEngine.localVariableDeclarations functionNode graph, ∀ store,
    DataFlowEngine.deadStore varDecl functionNode graph = some store →
      Effect.writes ∈ referenceEffects graph store ∧ ∀ ref, ¬ ReadsStore header body store ref

/-- At most one action is in any order. -/
theorem allowed_short {graph : AstGraph} {order : List Action} (short : order.length ≤ 1) :
    Allowed graph order := by
  cases order with
  | nil => exact .nil
  | cons action rest =>
      obtain rfl := List.length_eq_zero_iff.mp (Nat.le_zero.mp (Nat.le_of_succ_le_succ short))
      exact List.pairwise_singleton _ _

/-! ### A store at the end of a loop -/

/-- This is the AST of `f() { int x; x = 0; while (1) { use(x); x = 1; } }`. -/
def lateStoreContext : RuleContext where
  filePath := "f.c"
  astNodes :=
    [{ nodeId := "f", nodeKind := .functionDecl, childrenIds := ["b"] },
      { nodeId := "b", nodeKind := .compoundStmt, parentId := "f", childrenIds := ["d", "s", "w"] },
      { nodeId := "d", nodeKind := .varDecl, parentId := "b", semanticProperties := [("name", "x")] },
      { nodeId := "s", nodeKind := .binaryOperator, parentId := "b", childrenIds := ["k", "z"],
        semanticProperties := [("opcode", "=")] },
      { nodeId := "k", nodeKind := .declRefExpr, parentId := "s", semanticProperties := [("name", "x")],
        sourceRange := { lineStart := 2, columnStart := 3 } },
      { nodeId := "z", nodeKind := .other "IntegerLiteral", parentId := "s" },
      { nodeId := "w", nodeKind := .whileStmt, parentId := "b", childrenIds := ["c", "l"] },
      { nodeId := "c", nodeKind := .other "IntegerLiteral", parentId := "w" },
      { nodeId := "l", nodeKind := .compoundStmt, parentId := "w", childrenIds := ["u", "t"] },
      { nodeId := "u", nodeKind := .callExpr, parentId := "l", childrenIds := ["a"] },
      { nodeId := "a", nodeKind := .declRefExpr, parentId := "u", semanticProperties := [("name", "x")],
        sourceRange := { lineStart := 4, columnStart := 9 } },
      { nodeId := "t", nodeKind := .binaryOperator, parentId := "l", childrenIds := ["e", "o"],
        semanticProperties := [("opcode", "=")] },
      { nodeId := "e", nodeKind := .declRefExpr, parentId := "t", semanticProperties := [("name", "x")],
        sourceRange := { lineStart := 5, columnStart := 5 } },
      { nodeId := "o", nodeKind := .other "IntegerLiteral", parentId := "t" }]

abbrev lateStoreAst : AstGraph := BaseRulePlugin.graph lateStoreContext

def lateStoreFunction : AstNode := { nodeId := "f", nodeKind := .functionDecl, childrenIds := ["b"] }

def lateStoreNode (nodeId : String) : AstNode := (lateStoreAst.get nodeId).getD lateStoreFunction

def lateStoreLoop : Code := .simple (lateStoreNode "u") (.simple (lateStoreNode "t") .nil)

def lateStoreBody : Code :=
  .simple (lateStoreNode "d") (.simple (lateStoreNode "s")
    (.loop (lateStoreNode "w") (.present lateStoreLoop) .nil))

abbrev lateStoreHeader : ForHeader lateStoreAst := .complete lateStoreAst

theorem lateStore_wellFormed : lateStoreAst.WellFormed := by
  apply AstGraph.WellFormed.of_order <;> decide

theorem lateStore_operators : lateStoreAst.Operators := by
  unfold AstGraph.Operators
  decide

theorem lateStore_layout : FunctionBody lateStoreAst lateStoreFunction lateStoreBody := by
  have statements : bodyStatements lateStoreFunction lateStoreAst =
      [lateStoreNode "d", lateStoreNode "s", lateStoreNode "w"] := by decide
  have loop : lateStoreAst.children (lateStoreNode "w").nodeId =
      [lateStoreNode "c"] ++ [lateStoreNode "l"] := by decide
  have inner : lateStoreAst.children (lateStoreNode "l").nodeId =
      [lateStoreNode "u", lateStoreNode "t"] := by decide
  refine ⟨_, statements, rfl, _, rfl, rfl, _, _, _, rfl, rfl, loop, ⟨_, rfl, ?_⟩, rfl⟩
  exact ⟨_, inner, rfl, _, rfl, rfl, rfl⟩

/-- A statement with one access does it. -/
theorem lateStore_does (root : AstNode) (order : List Action) (state : State) (again : Bool)
    (same : state.reached.flatMap (evaluatedRoots lateStoreHeader again) = [root])
    (actions : order.Perm (performedActions lateStoreAst [] root)) (short : order.length ≤ 1) :
    state.Does lateStoreHeader again order := by
  unfold State.Does
  rw [same]
  exact .last (by decide) actions (allowed_short short)

/-- The second iteration reads what the first one has stored. -/
theorem lateStore_readsStore :
    ReadsStore lateStoreHeader lateStoreBody (lateStoreNode "e") (lateStoreNode "a") := by
  have declared := Acts.step (.start : Acts lateStoreHeader lateStoreBody _ _ _)
    (lateStore_does (lateStoreNode "d") [⟨lateStoreNode "d", .declares⟩] _ _ rfl (by decide) (by decide))
    (.simple rfl)
  have cleared := declared.step
    (lateStore_does (lateStoreNode "s") [⟨lateStoreNode "k", .writes⟩] _ _ rfl (by decide) (by decide))
    (.simple rfl)
  have arrived := cleared.step .nil .loop
  have entered := arrived.step
    (lateStore_does (lateStoreNode "c") [] _ _ rfl (by decide) (by decide)) .iterate
  have used := entered.step
    (lateStore_does (lateStoreNode "u") [⟨lateStoreNode "a", .reads⟩] _ _ rfl (by decide) (by decide))
    (.simple rfl)
  have stored := used.step
    (lateStore_does (lateStoreNode "t") [⟨lateStoreNode "e", .writes⟩] _ _ rfl (by decide) (by decide))
    (.simple rfl)
  have returned := stored.step .nil .endLoop
  have again := returned.step
    (lateStore_does (lateStoreNode "c") [] _ _ rfl (by decide) (by decide)) .iterate
  exact ⟨rfl, [], ⟨_, _, _, [], [⟨lateStoreNode "d", .declares⟩, ⟨lateStoreNode "k", .writes⟩,
    ⟨lateStoreNode "a", .reads⟩], [], again,
    lateStore_does (lateStoreNode "u") [⟨lateStoreNode "a", .reads⟩] _ _ rfl (by decide) (by decide), rfl⟩,
    by decide⟩

end MisraPlatform
