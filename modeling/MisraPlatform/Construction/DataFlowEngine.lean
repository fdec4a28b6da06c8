import MisraPlatform.Construction.ControlFlowRules
import MisraPlatform.Construction.DataFlowEngineV2

/-
This file is the data flow engine in the order of the text and the rule about dead code.
-/

namespace MisraPlatform
open DataFlowEngineV2

namespace DataFlowEngine

/-- The suffix is that of every assignment and of two comparisons. -/
def isAssignmentOpcode (opcode : String) : Bool :=
  opcode.toList.getLast? = some '=' && opcode ≠ "==" && opcode ≠ "!="

/-- The left operand of an assignment is a target, and so is the operand of a step. -/
def isWriteTarget (declRef : AstNode) (graph : AstGraph) : Bool :=
  match graph.get declRef.parentId with
  | none => false
  | some parent =>
      if parent.nodeKind = .binaryOperator ∧ isAssignmentOpcode (opcode parent) then
        (graph.children parent.nodeId).head?.any fun child => child.nodeId = declRef.nodeId
      else parent.nodeKind = .unaryOperator && opcode parent ∈ ["++", "--"]

def localVariableDeclarations (functionNode : AstNode) (graph : AstGraph) : List AstNode :=
  (graph.descendants functionNode.nodeId).filter fun node => node.nodeKind = .varDecl

/-- The references of the name stand in the order of the text. -/
def references (varDecl functionNode : AstNode) (graph : AstGraph) : List AstNode :=
  if declRefName varDecl = "" then []
  else linearize ((graph.descendants functionNode.nodeId).filter fun node =>
    isDeclRef node && declRefName node = declRefName varDecl)

/-- The last reference is a dead store when it is a target. -/
def deadStore (varDecl functionNode : AstNode) (graph : AstGraph) : Option AstNode :=
  (references varDecl functionNode graph).getLast?.filter fun last => isWriteTarget last graph

end DataFlowEngine

namespace Rule2_2
open BaseRulePlugin

def ruleId : String := "misra-c2012-rule-2-2"

def explanation (name : String) : String :=
  "Value stored into '" ++ name ++ "' here is never subsequently read."

def riskDescription : String :=
  "Dead stores often indicate a missing use or a stale code path."

def confidenceFactors : List (String × Rat) :=
  [("ast_match_specificity", 70 / 100), ("type_information_complete", 65 / 100),
    ("macro_clarity", 80 / 100), ("historical_false_positive_rate", 30 / 100),
    ("fix_generator_certainty", 30 / 100)]

/-- A variable with one reference is more likely unused. -/
def offending (varDecl functionNode : AstNode) (graph : AstGraph) : Option AstNode :=
  if (DataFlowEngine.references varDecl functionNode graph).length < 2 then none
  else DataFlowEngine.deadStore varDecl functionNode graph

def detectFunction (context : RuleContext) (functionNode : AstNode) : List RuleResult :=
  (DataFlowEngine.localVariableDeclarations functionNode (graph context)).filterMap fun varDecl =>
    (offending varDecl functionNode (graph context)).map fun dead =>
      makeResult ruleId context (graph context) dead (explanation (varDecl.property "name" "<var>"))
        riskDescription confidenceFactors (62 / 100)

def detect (context : RuleContext) : List RuleResult :=
  ((graph context).nodesByKind .functionDecl).flatMap (detectFunction context)

end Rule2_2

end MisraPlatform
