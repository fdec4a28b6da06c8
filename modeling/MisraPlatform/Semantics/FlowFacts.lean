import MisraPlatform.Semantics.Evaluation
import MisraPlatform.Semantics.Execution

/-
This file is the actions that the runs of a function body do, the meaning of the null checks on the
paths of a graph, and the flow of values from source calls to sink calls.
-/

namespace MisraPlatform
open DataFlowEngineV2

/-- Control enters a loop here and does not come back to it. -/
def State.beforeLoop : State → Bool
  | .run _ (.loop _ _ _) _ => true
  | _ => false

section Effects

variable {graph : AstGraph} (header : ForHeader graph) (body : Code)

/-- Control does the actions of the statement that it has reached. -/
def State.Does (again : Bool) (state : State) (order : List Action) : Prop :=
  Evaluates graph (state.reached.flatMap (evaluatedRoots header again)) order

/-- A run has done the actions of the statements that it has left. -/
inductive Acts : State → Bool → List Action → Prop
  | start : Acts (.start body) false []
  | step {state target : State} {again : Bool} {actions order : List Action}
      (before : Acts state again actions) (does : state.Does header again order)
      (taken : Step .c body state target) : Acts target (!state.beforeLoop) (actions ++ order)

/-- A run does the first action and the actions between and then reads the reference. -/
def ReadsAfter (first : Action) (middle : List Action) (ref : AstNode) : Prop :=
  ∃ state again actions order before after, Acts header body state again actions ∧
    state.Does header again (order ++ ⟨ref, .reads⟩ :: after) ∧ actions ++ order = before ++ first :: middle

/-- A run reads the value that the reference has stored. -/
def ReadsStore (store ref : AstNode) : Prop :=
  declRefName ref = declRefName store ∧
    ∃ middle, ReadsAfter header body ⟨store, .writes⟩ middle ref ∧ Kept middle (declRefName store)

end Effects

end MisraPlatform

namespace MisraPlatform
open DataFlowEngineV2

/-- Every pointer variable is null or not. -/
abbrev NullStates := String → NullState

/-! ### Conditions -/

/-- The comparison of two operands is known when one is a variable and one is a null pointer. -/
def pointersEqual (states : NullStates) (lhs rhs : AstNode) : Option Bool :=
  if isDeclRef lhs ∧ isNullLiteral rhs then some (states (declRefName lhs) = .null)
  else if isDeclRef rhs ∧ isNullLiteral lhs then some (states (declRefName rhs) = .null)
  else none

/-- A condition that is no null check may have either value. -/
def conditionValue (graph : AstGraph) (states : NullStates) (condition : AstNode) : Option Bool :=
  if condition.nodeKind = .unaryOperator ∧ opcode condition = "!" then
    match graph.children condition.nodeId with
    | operand :: _ => if isDeclRef operand then some (states (declRefName operand) = .null) else none
    | [] => none
  else if isDeclRef condition then some (states (declRefName condition) = .nonNull)
  else if condition.nodeKind = .binaryOperator ∧ opcode condition ∈ ["==", "!="] then
    match graph.children condition.nodeId with
    | lhs :: rhs :: _ =>
        (pointersEqual states lhs rhs).map fun equal => if opcode condition = "==" then equal else !equal
    | _ => none
  else none

/-- The condition of an `if` is its first child and that of a `while` comes before its body. A `do` tests
its condition when control comes back to it. -/
def branchCondition {graph : AstGraph} (header : ForHeader graph) (again : Bool) (statement : AstNode) :
    Option AstNode :=
  match statement.nodeKind with
  | .ifStmt => (graph.children statement.nodeId).head?
  | .whileStmt => (graph.children statement.nodeId).dropLast.getLast?
  | .forStmt => (header.condition statement).getLast?
  | .doStmt => if again then (graph.children statement.nodeId).tail.head? else none
  | _ => none

/-- The edges of a branch leave it with these values of its condition. -/
def EdgeKind.value : EdgeKind → Option Bool
  | .trueEdge => some true
  | .falseEdge => some false
  | _ => none

/-- A test is known after it and the states that nothing has been stored to stay known. -/
def learned (test : Option (String × NullState)) (order : List Action) (known : String → Option NullState)
    (name : String) : Option NullState :=
  match test with
  | some (tested, state) => if tested = name then some state else if Kept order name then known name else none
  | none => if Kept order name then known name else none

namespace ControlFlowGraph

variable (cfg : ControlFlowGraph) {graph : AstGraph} (header : ForHeader graph)

/-- The last statement of a block decides which edge is taken. -/
def testedCondition (again : Bool) (blockId : BlockId) : Option AstNode :=
  (cfg.statementsOf blockId).getLast?.bind (branchCondition header again)

/-- The states allow an edge unless its condition has the other value. -/
def Allows (again : Bool) (states : NullStates) (edge : CFGEdge) : Prop :=
  ∀ condition, cfg.testedCondition header again edge.source = some condition →
    ∀ value, conditionValue graph states condition = some value →
      ∀ taken, edge.kind.value = some taken → value = taken

/-- A path from the entry arrives at the start of a block in these states. A variable keeps its state while
nothing is stored to it. -/
inductive Enters : BlockId → Bool → NullStates → Prop
  | start (states : NullStates) : Enters .entry false states
  | next {edge : CFGEdge} {again : Bool} {order : List Action} {before after : NullStates}
      (arrives : Enters edge.source again before) (visit : cfg.Visit header again edge.source order)
      (inside : edge ∈ cfg.edges) (same : ∀ name, Kept order name → after name = before name)
      (allowed : cfg.Allows header again after edge) : Enters edge.target (comesBack edge) after

/-! ### What a path has tested -/

/-- The edge is taken when the variable has this state. -/
def edgeTest (again : Bool) (edge : CFGEdge) : Option (String × NullState) := do
  let condition ← cfg.testedCondition header again edge.source
  let test ← parseNullCheck condition graph
  let taken ← edge.kind.value
  some (test.1, nullState test.2 taken)

/-- This is the test of an edge that leaves an `if`. -/
def ifTest (edge : CFGEdge) : Option (String × NullState) :=
  match (cfg.statementsOf edge.source).getLast? with
  | some statement => if statement.nodeKind = .ifStmt then cfg.edgeTest header false edge else none
  | none => none

/-- A path has tested some variables since the last store to them. No test contradicts an earlier one. -/
inductive Tested : BlockId → Bool → (String → Option NullState) → Prop
  | start : Tested .entry false fun _ => none
  | next {edge : CFGEdge} {again : Bool} {order : List Action} {known : String → Option NullState}
      (tested : Tested edge.source again known) (visit : cfg.Visit header again edge.source order)
      (inside : edge ∈ cfg.edges)
      (agrees : ∀ name state, cfg.edgeTest header again edge = some (name, state) → Kept order name →
        ∀ earlier, known name = some earlier → earlier = state) :
      Tested edge.target (comesBack edge) (learned (cfg.edgeTest header again edge) order known)

end ControlFlowGraph
end MisraPlatform

namespace MisraPlatform
open DataFlowEngineV2

/-! ### One full expression -/

/-- The value that the node stores comes from these operands. A compound assignment and a step keep what
the variable has. -/
def storedOperands (graph : AstGraph) (node : AstNode) : List AstNode :=
  if node.nodeKind = .varDecl then (graph.children node.nodeId).filter fun child => !isTypeNode child
  else
    match graph.get node.parentId with
    | none => []
    | some parent =>
        if isAssignment parent then
          if opcode parent = "=" then (graph.children parent.nodeId).tail else graph.children parent.nodeId
        else [node]

/-- The variables hold tainted values and the reads have found them. -/
structure TaintState where
  names : Finset String
  reads : List AstNode

/-- The stored value is that of a source call or of a tainted read. -/
def StoresTaint (graph : AstGraph) (sources : Finset String) (skipped reads : List AstNode)
    (node : AstNode) : Prop :=
  ∃ operand ∈ storedOperands graph node, ∃ inner ∈ operand :: graph.descendants operand.nodeId,
    (∀ left ∈ skipped, ¬ InSubtree graph left inner) ∧
      (inner.nodeKind = .callExpr ∧ callee inner ∈ sources ∨ inner ∈ reads)

instance (graph : AstGraph) (sources : Finset String) (skipped reads : List AstNode) (node : AstNode) :
    Decidable (StoresTaint graph sources skipped reads node) :=
  inferInstanceAs (Decidable (∃ operand ∈ storedOperands graph node, _))

/-- A store taints its variable or clears it. -/
def TaintState.next (graph : AstGraph) (sources : Finset String) (skipped : List AstNode)
    (state : TaintState) (action : Action) : TaintState :=
  match action.effect with
  | .declares => { state with names := state.names.erase (declRefName action.node) }
  | .reads =>
      if declRefName action.node ∈ state.names then { state with reads := action.node :: state.reads }
      else state
  | .writes =>
      if StoresTaint graph sources skipped state.reads action.node then
        { state with names := insert (declRefName action.node) state.names }
      else { state with names := state.names.erase (declRefName action.node) }

def taintedAfter (graph : AstGraph) (sources : Finset String) (skipped : List AstNode)
    (names : Finset String) (order : List Action) : Finset String :=
  (order.foldl (TaintState.next graph sources skipped) ⟨names, []⟩).names

/-- The full expressions of a list carry the taint from one to the next. -/
inductive Carries (graph : AstGraph) (sources : Finset String) :
    List AstNode → Finset String → Finset String → Prop
  | nil {names : Finset String} : Carries graph sources [] names names
  | cons {root : AstNode} {rest skipped : List AstNode} {order : List Action} {names last : Finset String}
      (skips : Skips graph skipped) (actions : order.Perm (performedActions graph skipped root))
      (allowed : Allowed graph order)
      (after : Carries graph sources rest (taintedAfter graph sources skipped names order) last) :
      Carries graph sources (root :: rest) names last

namespace ControlFlowGraph

variable (cfg : ControlFlowGraph) {graph : AstGraph} (header : ForHeader graph) (sources sinks : Finset String)

/-- The full expressions of a block stand in the order of their evaluation. -/
def rootsOf (again : Bool) (blockId : BlockId) : List AstNode :=
  (cfg.statementsOf blockId).flatMap (evaluatedRoots header again)

/-- A path from the entry leaves these names tainted where a block begins. -/
inductive Tainted : BlockId → Bool → Finset String → Prop
  | start : Tainted .entry false ∅
  | next {edge : CFGEdge} {again : Bool} {names last : Finset String}
      (before : Tainted edge.source again names)
      (visit : Carries graph sources (cfg.rootsOf header again edge.source) names last)
      (inside : edge ∈ cfg.edges) : Tainted edge.target (comesBack edge) last

/-- A path passes a tainted variable to a sink call. -/
def ReachesSink (blockId : BlockId) (call argument : AstNode) : Prop :=
  (call.nodeKind = .callExpr ∧ callee call ∈ sinks ∧ argument ∈ graph.children call.nodeId ∧
      isDeclRef argument = true) ∧
    ∃ again names front root rest middle skipped order after,
      cfg.Tainted header sources blockId again names ∧
        cfg.rootsOf header again blockId = front ++ root :: rest ∧
        call ∈ root :: graph.descendants root.nodeId ∧
        Carries graph sources front names middle ∧ Skips graph skipped ∧
        (order ++ ⟨argument, .reads⟩ :: after).Perm (performedActions graph skipped root) ∧
        Allowed graph (order ++ ⟨argument, .reads⟩ :: after) ∧
        declRefName argument ∈ taintedAfter graph sources skipped middle order

end ControlFlowGraph
end MisraPlatform
