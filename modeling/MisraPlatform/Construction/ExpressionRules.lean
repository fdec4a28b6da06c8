import MisraPlatform.Construction.Ast
import MisraPlatform.Construction.ControlFlowRules
import MisraPlatform.Construction.EssentialTypeEngine

/-
This file is the classifier of expressions, the ranks of the essential types, and the rules that ask for them.
-/

namespace MisraPlatform

namespace ExpressionClassifier

/-- This set is `_CONDITION_PARENT_KINDS`. -/
def CONDITION_PARENT_KINDS : List NodeKind := [.ifStmt, .whileStmt, .doStmt, .forStmt]

/-- The condition comes last under a `do` and first under the others. -/
def conditionOf (stmtNode : AstNode) (graph : AstGraph) : Option AstNode :=
  if stmtNode.nodeKind ∉ CONDITION_PARENT_KINDS then none
  else if stmtNode.nodeKind = .doStmt then (graph.children stmtNode.nodeId).getLast?
  else (graph.children stmtNode.nodeId).head?

def controllingExpressionInvariant (stmtNode : AstNode) (graph : AstGraph) : Bool :=
  stmtNode.truthy "controlling_expression_invariant" ||
    (conditionOf stmtNode graph).any fun condition => condition.truthy "controlling_expression_invariant"

/-! ### Conditions -/

def essentialTypeOf (node : AstNode) : String := node.essentialType.getD "unknown"

def isConditionOfControlStatement (node : AstNode) (graph : AstGraph) : Bool :=
  match graph.get node.parentId with
  | none => false
  | some parent => (conditionOf parent graph).any fun condition => condition.nodeId = node.nodeId

/-- The condition of a control statement has a known type that is not boolean. -/
def isEssentiallyBooleanContextMismatch (node : AstNode) (graph : AstGraph) : Bool :=
  isConditionOfControlStatement node graph && !(["boolean", "unknown"].contains (essentialTypeOf node))

/-! ### Side effects -/

def ASSIGNMENT_OPCODES : List String := ["=", "+=", "-=", "*=", "/=", "%=", "&=", "|=", "^=", "<<=", ">>="]

def INC_DEC_OPCODES : List String := ["++", "--"]

/-- This set is `_EXPRESSION_PARENT_KINDS`. -/
def EXPRESSION_PARENT_KINDS : List NodeKind :=
  [.binaryOperator, .unaryOperator, .callExpr, .other "CStyleCastExpr", .other "ConditionalOperator",
    .other "ArraySubscriptExpr", .other "MemberExpr", .other "ParenExpr", .other "InitListExpr",
    .other "ImplicitCastExpr"]

def isIncrementOrDecrement (node : AstNode) : Bool :=
  node.nodeKind = .unaryOperator && INC_DEC_OPCODES.contains (node.property "opcode" "")

/-- The climb ends under a parent of another kind. In a forest the node count is enough fuel. -/
def climbToRoot (graph : AstGraph) : Nat → AstNode → AstNode
  | 0, current => current
  | fuel + 1, current =>
      match graph.get current.parentId with
      | none => current
      | some parent =>
          if EXPRESSION_PARENT_KINDS.contains parent.nodeKind then climbToRoot graph fuel parent else current

def fullExpressionRoot (node : AstNode) (graph : AstGraph) : AstNode := climbToRoot graph graph.nodes.length node

/-- The node itself is a call, an assignment, an increment or a decrement. -/
def isSideEffect (node : AstNode) : Bool :=
  node.nodeKind = .callExpr || ASSIGNMENT_OPCODES.contains (node.property "opcode" "") ||
    INC_DEC_OPCODES.contains (node.property "opcode" "")

/-- This is `_walk`, which leaves out the subtree of the increment or decrement. -/
def findsSideEffect (graph : AstGraph) (incDecNode : AstNode) : Nat → AstNode → Bool
  | 0, _ => false
  | fuel + 1, node =>
      if node.nodeId = incDecNode.nodeId then false
      else isSideEffect node || (graph.children node.nodeId).any (findsSideEffect graph incDecNode fuel)

def hasOtherSideEffectsInFullExpression (incDecNode : AstNode) (graph : AstGraph) : Bool :=
  let root := fullExpressionRoot incDecNode graph
  if root.nodeId = incDecNode.nodeId then false else findsSideEffect graph incDecNode graph.nodes.length root

end ExpressionClassifier
end MisraPlatform

namespace MisraPlatform
open BaseRulePlugin ExpressionClassifier

namespace Rule13_3

def ruleId : String := "misra-c2012-rule-13-3"

def explanation : String := "A full expression containing ++/-- also has another side effect."

def riskDescription : String := "Multiple side effects in one expression are hard to reason about."

def confidenceFactors : List (String × Rat) :=
  [("ast_match_specificity", 85 / 100), ("type_information_complete", 8 / 10), ("macro_clarity", 85 / 100),
    ("historical_false_positive_rate", 15 / 100), ("fix_generator_certainty", 4 / 10)]

def suggestedFix (node : AstNode) : SuggestedFix where
  originalCode := AstGraph.offendingText node
  suggestedCode := "split the increment/decrement into its own statement"
  rationale := "Keep ++/-- as the only side effect in its full expression."
  confidenceScore := 4 / 10

def report (context : RuleContext) (node : AstNode) : RuleResult :=
  makeResult ruleId context (graph context) node explanation riskDescription confidenceFactors (78 / 100)
    (some (suggestedFix node))

def detect (context : RuleContext) : List RuleResult :=
  (((graph context).nodesByKind .unaryOperator).filter fun node =>
    isIncrementOrDecrement node && hasOtherSideEffectsInFullExpression node (graph context)).map (report context)

end Rule13_3

namespace Rule14_4

def ruleId : String := "misra-c2012-rule-14-4"

def explanation (essentialType : String) : String :=
  "Controlling expression has essential type '" ++ essentialType ++ "', not boolean."

def riskDescription : String := "Implicit truthiness tests hide the actual condition being checked."

def confidenceFactors : List (String × Rat) :=
  [("ast_match_specificity", 8 / 10), ("type_information_complete", 8 / 10), ("macro_clarity", 85 / 100),
    ("historical_false_positive_rate", 25 / 100), ("fix_generator_certainty", 5 / 10)]

def suggestedFix (node : AstNode) : SuggestedFix where
  originalCode := AstGraph.offendingText node
  suggestedCode := "compare explicitly, e.g. (x != 0) instead of (x)"
  rationale := "Make the Boolean test explicit rather than relying on implicit conversion."
  confidenceScore := 5 / 10

def report (context : RuleContext) (node : AstNode) : RuleResult :=
  makeResult ruleId context (graph context) node (explanation (essentialTypeOf node)) riskDescription
    confidenceFactors (75 / 100) (some (suggestedFix node))

def offending (graph : AstGraph) : List AstNode :=
  graph.nodes.filter fun node => isEssentiallyBooleanContextMismatch node graph

def detect (context : RuleContext) : List RuleResult := (offending (graph context)).map (report context)

end Rule14_4

namespace Rule14_2

def ruleId : String := "misra-c2012-rule-14-2"

def explanation : String := "This for loop is missing its initialization, condition, or increment expression."

def riskDescription : String :=
  "Omitting one of the three for-loop clauses hides the loop's control structure in the body, making it harder " ++
    "to verify termination."

def confidenceFactors : List (String × Rat) :=
  [("ast_match_specificity", 85 / 100), ("type_information_complete", 75 / 100), ("macro_clarity", 9 / 10),
    ("historical_false_positive_rate", 15 / 100), ("fix_generator_certainty", 3 / 10)]

def suggestedFix : SuggestedFix where
  originalCode := "for (...; ...) { ... }"
  suggestedCode := "for (init; condition; increment) { ... }"
  rationale := "Give every for loop an explicit init, condition, and increment clause."
  confidenceScore := 3 / 10

/-- These are the initialization, the condition, the increment and the body. -/
def EXPECTED_CLAUSES : Nat := 4

def offending (graph : AstGraph) : List AstNode :=
  (graph.nodesByKind .forStmt).filter fun node => (graph.children node.nodeId).length < EXPECTED_CLAUSES

def detect (context : RuleContext) : List RuleResult :=
  (offending (graph context)).map fun node =>
    makeResult ruleId context (graph context) node explanation riskDescription confidenceFactors (75 / 100)
      (some suggestedFix)

end Rule14_2

namespace EssentialTypeAnalyzer

/-- The second type has the greater rank. -/
def isWider (fromType toType : EssentialType) : Bool :=
  if [EssentialType.unknown, .complex].contains fromType || [EssentialType.unknown, .complex].contains toType then false
  else rank fromType < rank toType

end EssentialTypeAnalyzer

def CastAnalyzer.isCompositeExpression (node : AstNode) : Bool := node.truthy "is_composite_expression"

namespace Rule10_6
open EssentialTypeAnalyzer

def ruleId : String := "misra-c2012-rule-10-6"

def explanation (lhsType rhsType : String) : String :=
  "Composite expression of essential type '" ++ rhsType ++ "' assigned to wider essential type '" ++ lhsType ++ "'."

def riskDescription : String := "Widening a composite expression can hide intermediate truncation."

def confidenceFactors : List (String × Rat) :=
  [("ast_match_specificity", 88 / 100), ("type_information_complete", 85 / 100), ("macro_clarity", 9 / 10),
    ("historical_false_positive_rate", 12 / 100), ("fix_generator_certainty", 5 / 10)]

def suggestedFix (node : AstNode) : SuggestedFix where
  originalCode := AstGraph.offendingText node
  suggestedCode := "assign to a temporary of the composite expression's essential type first"
  rationale := "Avoid widening the result of a composite expression directly."
  confidenceScore := 5 / 10

structure Assignment where
  node : AstNode
  lhs : AstNode
  rhs : AstNode

def Assignment.lhsType (assignment : Assignment) : EssentialType := .ofText (essentialTypeOf assignment.lhs)

def Assignment.rhsType (assignment : Assignment) : EssentialType := .ofText (essentialTypeOf assignment.rhs)

def report (context : RuleContext) (assignment : Assignment) : RuleResult :=
  makeResult ruleId context (graph context) assignment.node
    (explanation (essentialTypeOf assignment.lhs) (essentialTypeOf assignment.rhs)) riskDescription confidenceFactors
    (85 / 100) (some (suggestedFix assignment.node))

/-- Further children are not looked at. -/
def assignment (graph : AstGraph) (node : AstNode) : Option Assignment :=
  match graph.children node.nodeId with
  | lhs :: rhs :: _ => if node.property "opcode" "" = "=" then some ⟨node, lhs, rhs⟩ else none
  | _ => none

/-- A composite expression is assigned, and both types are known. -/
def isChecked (assignment : Assignment) : Bool :=
  CastAnalyzer.isCompositeExpression assignment.rhs && assignment.lhsType ≠ .unknown &&
    assignment.rhsType ≠ .unknown

def checked (graph : AstGraph) : List Assignment :=
  ((graph.nodesByKind .binaryOperator).filterMap (assignment graph)).filter isChecked

def offends (assignment : Assignment) : Bool := isWider assignment.lhsType assignment.rhsType

def detect (context : RuleContext) : List RuleResult :=
  ((checked (graph context)).filter offends).map (report context)

end Rule10_6

end MisraPlatform
