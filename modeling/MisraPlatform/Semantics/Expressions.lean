import MisraPlatform.Construction.ExpressionRules
import MisraPlatform.Proof.Descendants

/-
This file states which expression controls a statement, which side effects a full expression has, and
which assignments widen a composite expression.
-/

namespace MisraPlatform
open ExpressionClassifier

/-- A clause that a `for` leaves out has no node. -/
inductive ControlStatement where
  | ifStmt (condition thenBranch : AstNode) (elseBranch : Option AstNode)
  | whileStmt (condition body : AstNode)
  | doStmt (body condition : AstNode)
  | forStmt (init condition increment : Option AstNode) (body : AstNode)

namespace ControlStatement

def kind : ControlStatement → NodeKind
  | ifStmt .. => .ifStmt
  | whileStmt .. => .whileStmt
  | doStmt .. => .doStmt
  | forStmt .. => .forStmt

/-- The serializer emits the children in this order. -/
def children : ControlStatement → List AstNode
  | ifStmt condition thenBranch elseBranch => condition :: thenBranch :: elseBranch.toList
  | whileStmt condition body => [condition, body]
  | doStmt body condition => [body, condition]
  | forStmt init condition increment body => init.toList ++ condition.toList ++ increment.toList ++ [body]

def controllingExpression : ControlStatement → Option AstNode
  | ifStmt condition _ _ => some condition
  | whileStmt condition _ => some condition
  | doStmt _ condition => some condition
  | forStmt _ condition _ _ => condition

/-- A `for` has a condition and no initialization. -/
def conditionFirst : ControlStatement → Bool
  | forStmt init condition _ _ => init.isNone && condition.isSome
  | _ => true

end ControlStatement

section Units

variable (graph : AstGraph) (layouts : AstNode → ControlStatement)

/-- Every control statement has the children of its layout. -/
def LaidOut : Prop :=
  ∀ stmtNode ∈ graph.nodes, stmtNode.nodeKind ∈ CONDITION_PARENT_KINDS →
    stmtNode.nodeKind = (layouts stmtNode).kind ∧ graph.children stmtNode.nodeId = (layouts stmtNode).children

def IsControlling (node : AstNode) : Prop :=
  ∃ stmtNode ∈ graph.nodes, stmtNode.nodeKind ∈ CONDITION_PARENT_KINDS ∧
    (layouts stmtNode).controllingExpression = some node

/-- Both queries and the rule agree on the controlling expressions. -/
structure ConditionsIdentified : Prop where
  conditions : ∀ node ∈ graph.nodes, isConditionOfControlStatement node graph = true ↔ IsControlling graph layouts node
  mismatches : ∀ node, node ∈ Rule14_4.offending graph ↔
    node ∈ graph.nodes ∧ IsControlling graph layouts node ∧ essentialTypeOf node ∉ ["boolean", "unknown"]
  invariants : ∀ stmtNode ∈ graph.nodes, stmtNode.nodeKind ∈ CONDITION_PARENT_KINDS →
    controllingExpressionInvariant stmtNode graph =
      (stmtNode.truthy "controlling_expression_invariant" ||
        ((layouts stmtNode).controllingExpression).any fun condition =>
          condition.truthy "controlling_expression_invariant")

/-- No `for` has an initialization or lacks a condition. -/
def ConditionsFirst : Prop :=
  ∀ stmtNode ∈ graph.nodes, stmtNode.nodeKind ∈ CONDITION_PARENT_KINDS → (layouts stmtNode).conditionFirst = true

end Units

end MisraPlatform

namespace MisraPlatform
open ExpressionClassifier

section Expressions

variable (graph : AstGraph)

/-- The expression is no operand of another one. -/
structure IsFullExpression (root : AstNode) : Prop where
  present : root ∈ graph.nodes
  outermost : ∀ parent, graph.get root.parentId = some parent → parent.nodeKind ∉ EXPRESSION_PARENT_KINDS

/-- Another node of the full expression is a call, an assignment, an increment or a decrement. -/
def HasOtherSideEffect (root node : AstNode) : Prop :=
  ∃ other, graph.Under root other ∧ other ≠ node ∧ isSideEffect other = true

def SeesOtherSideEffects (root node : AstNode) : Prop :=
  hasOtherSideEffectsInFullExpression node graph = true ↔ HasOtherSideEffect graph root node

/-- Only parents of the listed kinds lie on the way up. -/
abbrev Climbs : AstNode → AstNode → Prop :=
  Relation.ReflTransGen fun node parent => graph.Child parent node ∧ parent.nodeKind ∈ EXPRESSION_PARENT_KINDS

/-- The side effect stands outside the operand, under a node that is reached through the listed kinds. -/
def HasConnectedSideEffect (node : AstNode) : Prop :=
  ∃ top other, Climbs graph node top ∧ graph.Under top other ∧ ¬ graph.Under node other ∧ isSideEffect other = true

end Expressions

/-! ### Composite expressions -/

namespace Rule10_6
open EssentialTypeAnalyzer BaseRulePlugin

/-- The object has the greater rank. -/
def widens (assignment : Assignment) : Bool := rank assignment.rhsType < rank assignment.lhsType

/-- Exactly the assignments to a wider object are reported, each once. -/
def WideningReported (context : RuleContext) : Prop :=
  detect context = ((checked (graph context)).filter widens).map (report context)

/-- The ranks are the same, or the object has the smaller one and a type is complex. -/
def Unaffected (assignment : Assignment) : Prop :=
  rank assignment.lhsType = rank assignment.rhsType ∨
    rank assignment.lhsType < rank assignment.rhsType ∧
      (assignment.lhsType = .complex ∨ assignment.rhsType = .complex)

end Rule10_6

end MisraPlatform
