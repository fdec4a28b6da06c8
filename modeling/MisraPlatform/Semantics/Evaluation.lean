import MisraPlatform.Library.OrderedPairs
import MisraPlatform.Semantics.FlowPaths

/-
This file is the order in which C evaluates the accesses of a block.
-/

namespace MisraPlatform
open DataFlowEngineV2

/-! ### Effects of a node -/

/-- Evaluating a node declares, reads or writes one variable. -/
inductive Effect where
  | declares | reads | writes
  deriving DecidableEq, Repr

structure Action where
  node : AstNode
  effect : Effect
  deriving DecidableEq, Repr

/-- These assignments read their left operand and then write it. -/
def compoundAssignments : List String :=
  ["*=", "/=", "%=", "+=", "-=", "<<=", ">>=", "&=", "^=", "|="]

/-- C has no other binary operators. -/
def binaryOperators : List String :=
  ["*", "/", "%", "+", "-", "<<", ">>", "<", ">", "<=", ">=", "==", "!=", "&", "^", "|", "&&", "||", "=",
    ","] ++ compoundAssignments

/-- Clang has a class of its own for a compound assignment. -/
def isAssignment (node : AstNode) : Bool :=
  node.nodeKind = .binaryOperator && opcode node ∈ "=" :: compoundAssignments ||
    node.nodeKind = .other "CompoundAssignOperator" && opcode node ∈ compoundAssignments

/-- Every binary operator of the AST is one of C. -/
def AstGraph.Operators (graph : AstGraph) : Prop :=
  ∀ node ∈ graph.nodes, node.nodeKind = .binaryOperator → opcode node ∈ binaryOperators

/-- A reference reads its variable unless it is the target of an assignment. -/
def referenceEffects (graph : AstGraph) (ref : AstNode) : List Effect :=
  match graph.get ref.parentId with
  | none => [.reads]
  | some parent =>
      let isTarget := (graph.children parent.nodeId).head?.any fun child => child.nodeId = ref.nodeId
      if isAssignment parent ∧ isTarget then
        if opcode parent = "=" then [.writes] else [.reads, .writes]
      else if parent.nodeKind = .unaryOperator ∧ opcode parent ∈ ["++", "--"] then [.reads, .writes]
      else [.reads]

/-- A declaration with an initializer writes its variable. -/
def nodeActions (graph : AstGraph) (node : AstNode) : List Action :=
  if node.nodeKind = .declRefExpr then
    if declRefName node = "" then [] else (referenceEffects graph node).map fun effect => ⟨node, effect⟩
  else if node.nodeKind = .varDecl then
    [⟨node, if (graph.children node.nodeId).all isTypeNode then .declares else .writes⟩]
  else []

/-! ### Sequencing -/

def InSubtree (graph : AstGraph) (node inner : AstNode) : Prop :=
  inner = node ∨ inner ∈ graph.descendants node.nodeId

instance (graph : AstGraph) (node inner : AstNode) : Decidable (InSubtree graph node inner) :=
  inferInstanceAs (Decidable (_ ∨ _))

/-- A statement and three operators evaluate their operands in order, and so does `?:`. -/
def ordersOperands (node : AstNode) : Bool :=
  node.nodeKind ∈ [NodeKind.compoundStmt, .ifStmt, .forStmt, .whileStmt, .doStmt, .switchStmt, .caseStmt,
    .defaultStmt, .labelStmt, .other "DeclStmt", .other "ConditionalOperator"] ||
    node.nodeKind = .binaryOperator && opcode node ∈ ["&&", "||", ","]

/-- The right operand of an assignment is evaluated before the store. -/
def FeedsStore (graph : AstGraph) (first second : Action) : Prop :=
  second.effect = .writes ∧ ∃ node ∈ graph.nodes, isAssignment node = true ∧
    ∃ pair ∈ orderedPairs (graph.children node.nodeId),
      second.node = pair.1 ∧ InSubtree graph pair.2 first.node

/-- The first action is evaluated before the second one in every order that C allows. -/
def Sequenced (graph : AstGraph) (first second : Action) : Prop :=
  (first.node = second.node ∧ first.effect = .reads ∧ second.effect = .writes) ∨
    FeedsStore graph first second ∨
    (second.effect = .writes ∧ second.node.nodeKind = .varDecl ∧
      first.node ∈ graph.descendants second.node.nodeId) ∨
    ∃ node ∈ graph.nodes, ordersOperands node = true ∧
      ∃ pair ∈ orderedPairs (graph.children node.nodeId),
        InSubtree graph pair.1 first.node ∧ InSubtree graph pair.2 second.node

instance (graph : AstGraph) (first second : Action) : Decidable (FeedsStore graph first second) :=
  inferInstanceAs (Decidable (_ ∧ _))

instance (graph : AstGraph) (first second : Action) : Decidable (Sequenced graph first second) :=
  inferInstanceAs (Decidable (_ ∨ _))

/-- An order of the actions of one statement is allowed when no action stands after one that it precedes. -/
def Allowed (graph : AstGraph) (order : List Action) : Prop :=
  order.Pairwise fun first second => ¬ Sequenced graph second first

/-! ### Full expressions -/

/-- The first operand of three operators decides which of the others are evaluated. The operand of
`sizeof` is not evaluated. -/
def optionalOperands (graph : AstGraph) (node : AstNode) : List AstNode :=
  if node.nodeKind = .binaryOperator ∧ opcode node ∈ ["&&", "||"] ∨
      node.nodeKind = .other "ConditionalOperator" then (graph.children node.nodeId).tail
  else if node.nodeKind = .other "UnaryExprOrTypeTraitExpr" then graph.children node.nodeId
  else []

/-- An evaluation leaves out these operands and takes one branch of every `?:`. -/
structure Skips (graph : AstGraph) (skipped : List AstNode) : Prop where
  optional : ∀ operand ∈ skipped, ∃ node ∈ graph.nodes, operand ∈ optionalOperands graph node
  choice : ∀ node ∈ graph.nodes, node.nodeKind = .other "ConditionalOperator" →
    ∀ pair ∈ orderedPairs (graph.children node.nodeId).tail, pair.1 ∈ skipped ↔ pair.2 ∉ skipped
  unevaluated : ∀ node ∈ graph.nodes, node.nodeKind = .other "UnaryExprOrTypeTraitExpr" →
    ∀ operand ∈ graph.children node.nodeId, operand ∈ skipped

def performedActions (graph : AstGraph) (skipped : List AstNode) (root : AstNode) : List Action :=
  ((root :: graph.descendants root.nodeId).filter fun node =>
    ∀ operand ∈ skipped, ¬ InSubtree graph operand node).flatMap (nodeActions graph)

/-- The full expressions of a list are evaluated one after the other. -/
inductive Evaluates (graph : AstGraph) : List AstNode → List Action → Prop
  | nil : Evaluates graph [] []
  | cons {root : AstNode} {rest skipped : List AstNode} {order later : List Action}
      (skips : Skips graph skipped) (actions : order.Perm (performedActions graph skipped root))
      (allowed : Allowed graph order) (after : Evaluates graph rest later) :
      Evaluates graph (root :: rest) (order ++ later)

/-- The AST does not tell which part of a `for` header is absent. -/
structure ForHeader (graph : AstGraph) where
  initial : AstNode → List AstNode
  condition : AstNode → List AstNode
  increment : AstNode → List AstNode
  parts : ∀ statement, initial statement ++ condition statement ++ increment statement =
    (graph.children statement.nodeId).dropLast

/-- A complete header has its three parts in this order. -/
def ForHeader.complete (graph : AstGraph) : ForHeader graph where
  initial statement := (graph.children statement.nodeId).dropLast.take 1
  condition statement := ((graph.children statement.nodeId).dropLast.drop 1).take 1
  increment statement := ((graph.children statement.nodeId).dropLast.drop 1).drop 1
  parts statement := by rw [List.append_assoc, List.take_append_drop, List.take_append_drop]

/-- A loop that control comes back to evaluates its increment and its condition. A `for` starts with its
first part and a `do` starts with its body. -/
def evaluatedRoots {graph : AstGraph} (header : ForHeader graph) (again : Bool) (statement : AstNode) :
    List AstNode :=
  match statement.nodeKind with
  | .ifStmt => (graph.children statement.nodeId).take 1
  | .whileStmt | .switchStmt => (graph.children statement.nodeId).dropLast
  | .forStmt =>
      (if again then header.increment statement else header.initial statement) ++ header.condition statement
  | .doStmt => if again then (graph.children statement.nodeId).drop 1 else []
  | _ => [statement]

/-- No action of the list writes the name. -/
def Unstored (actions : List Action) (name : String) : Prop :=
  ∀ action ∈ actions, action.effect = .writes → declRefName action.node ≠ name

instance (actions : List Action) (name : String) : Decidable (Unstored actions name) :=
  inferInstanceAs (Decidable (∀ action ∈ actions, _))

/-- No action of the list gives the name another value. -/
def Kept (actions : List Action) (name : String) : Prop :=
  ∀ action ∈ actions, action.effect ≠ .reads → declRefName action.node ≠ name

instance (actions : List Action) (name : String) : Decidable (Kept actions name) :=
  inferInstanceAs (Decidable (∀ action ∈ actions, _))

namespace ControlFlowGraph

variable (functionNode : AstNode) (cfg : ControlFlowGraph) {graph : AstGraph} (header : ForHeader graph)

/-- The block is evaluated from its start to its end. -/
def Visit (again : Bool) (blockId : BlockId) (order : List Action) : Prop :=
  Evaluates graph ((cfg.statementsOf blockId).flatMap (evaluatedRoots header again)) order

/-- These edges come back to the head of a loop. -/
def comesBack (edge : CFGEdge) : Bool := edge.kind = .loopBack || edge.kind = .continueEdge

/-- A path from the start arrives at a block after these actions. -/
inductive Trace (start : BlockId) (first : Bool) : BlockId → Bool → List Action → Prop
  | start : Trace start first start first []
  | next {edge : CFGEdge} {again : Bool} {actions order : List Action}
      (before : Trace start first edge.source again actions)
      (visit : cfg.Visit header again edge.source order) (inside : edge ∈ cfg.edges) :
      Trace start first edge.target (comesBack edge) (actions ++ order)

/-- A path from the start does the first action and the actions between and then reads the reference. -/
def ReadAfter (start : BlockId) (flag : Bool) (first : Action) (middle : List Action) (blockId : BlockId)
    (ref : AstNode) : Prop :=
  ∃ again actions order before after, cfg.Trace header start flag blockId again actions ∧
    cfg.Visit header again blockId (order ++ ⟨ref, .reads⟩ :: after) ∧
    actions ++ order = before ++ first :: middle

/-- A path from the entry reads a variable that its declaration has left without a value. -/
def ReadsUninitialized (varDecl : AstNode) (blockId : BlockId) (ref : AstNode) : Prop :=
  varDecl ∈ uninitializedLocalDecls functionNode graph ∧ declRefName ref = declRefName varDecl ∧
    ∃ middle, cfg.ReadAfter header .entry false ⟨varDecl, .declares⟩ middle blockId ref ∧
      Unstored middle (declRefName varDecl)

/-- A path reads the value that the reference has stored. -/
def StoreRead (store : AstNode) (blockId : BlockId) (ref : AstNode) : Prop :=
  declRefName ref = declRefName store ∧
    ∃ start flag middle, cfg.ReadAfter header start flag ⟨store, .writes⟩ middle blockId ref ∧
      Kept middle (declRefName store)

end ControlFlowGraph

/-- The local variables of the function have distinct names. -/
def DistinctLocals (functionNode : AstNode) (graph : AstGraph) : Prop :=
  ∀ first ∈ graph.descendants functionNode.nodeId, ∀ second ∈ graph.descendants functionNode.nodeId,
    first.nodeKind = .varDecl → second.nodeKind = .varDecl →
      declRefName first = declRefName second → first = second

end MisraPlatform
