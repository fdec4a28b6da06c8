import MisraPlatform.Construction.CfgEngine

/-
This file is the two rules that read the control-flow graph of a function.
-/

namespace MisraPlatform

structure RuleContext where
  filePath : String
  astNodes : List AstNode

structure SuggestedFix where
  originalCode : String
  suggestedCode : String
  rationale : String
  confidenceScore : Rat
  deriving DecidableEq

structure RuleResult where
  ruleId : String
  filePath : String
  lineStart : Nat
  lineEnd : Nat
  columnStart : Nat
  columnEnd : Nat
  offendingExpression : String
  explanation : String
  riskDescription : String
  sourceSnippet : String
  astNodeId : String
  astNodePath : List String
  macroExpansionChain : List String := []
  confidenceScore : Rat
  suggestedFix : Option SuggestedFix := none
  confidenceFactors : List (String × Rat) := []
  deriving DecidableEq

namespace BaseRulePlugin

def graph (context : RuleContext) : AstGraph := ⟨context.astNodes⟩

/-- The result locates its node and keeps the texts of the rule. -/
def makeResult (ruleId : String) (context : RuleContext) (graph : AstGraph) (node : AstNode)
    (explanation riskDescription : String) (confidenceFactors : List (String × Rat))
    (confidenceScore : Rat) (suggestedFix : Option SuggestedFix := none) : RuleResult where
  ruleId := ruleId
  filePath := node.sourceRange.filePath.getD context.filePath
  lineStart := node.sourceRange.lineStart
  lineEnd := node.sourceRange.lineEnd
  columnStart := node.sourceRange.columnStart
  columnEnd := node.sourceRange.columnEnd
  offendingExpression := AstGraph.offendingText node
  explanation := explanation
  riskDescription := riskDescription
  sourceSnippet := AstGraph.sourceSnippet context.filePath node
  astNodeId := node.nodeId
  astNodePath := graph.nodePath node.nodeId
  macroExpansionChain := node.expansionChain
  confidenceScore := confidenceScore
  suggestedFix := suggestedFix
  confidenceFactors := confidenceFactors

end BaseRulePlugin

namespace Rule2_1
open BaseRulePlugin

def ruleId : String := "misra-c2012-rule-2-1"

def explanation : String :=
  "This code is unreachable: no path from the function's entry point can reach it."

def riskDescription : String :=
  "Unreachable code cannot be exercised by testing and usually indicates a logic defect " ++
    "(e.g. code after an unconditional return, or after both branches of an if/else already returned)."

def confidenceFactors : List (String × Rat) :=
  [("ast_match_specificity", 85 / 100), ("type_information_complete", 85 / 100),
    ("macro_clarity", 80 / 100), ("historical_false_positive_rate", 20 / 100),
    ("fix_generator_certainty", 20 / 100)]

/-- An unreachable block is reported once, by its first statement. -/
def offending (cfg : ControlFlowGraph) : List AstNode :=
  cfg.unreachableBlocks.filterMap fun block => block.statements.head?

def detectFunction (context : RuleContext) (functionNode : AstNode) : Option (List RuleResult) := do
  let cfg ← CFGEngine.build functionNode (graph context)
  some ((offending cfg).map fun statement => makeResult ruleId context (graph context) statement
    explanation riskDescription confidenceFactors (78 / 100))

def detect (context : RuleContext) : Option (List RuleResult) := do
  let results ← ((graph context).nodesByKind .functionDecl).mapM (detectFunction context)
  some results.flatten

end Rule2_1

namespace Rule17_4
open BaseRulePlugin

def ruleId : String := "misra-c2012-rule-17-4"

def explanation (name returnType : String) : String :=
  "Function '" ++ name ++ "' (essential type '" ++ returnType ++
    "') has a path reaching its exit without an explicit return value."

def riskDescription : String :=
  "A missing return value on some path yields an unspecified result to the caller."

def confidenceFactors : List (String × Rat) :=
  [("ast_match_specificity", 85 / 100), ("type_information_complete", 85 / 100),
    ("macro_clarity", 85 / 100), ("historical_false_positive_rate", 15 / 100),
    ("fix_generator_certainty", 30 / 100)]

def hasBody (graph : AstGraph) (functionNode : AstNode) : Bool :=
  (graph.children functionNode.nodeId).any fun child => child.nodeKind = .compoundStmt

/-- A function without a known type is not checked. -/
def returnType (functionNode : AstNode) : String := functionNode.essentialType.getD "unknown"

/-- An edge into the exit offends unless it is a return of a value. -/
def offendingEdge (graph : AstGraph) (functionNode : AstNode) (cfg : ControlFlowGraph)
    (edge : CFGEdge) : Option AstNode :=
  let lastStatement := (cfg.blocks.get? edge.source).bind fun block => block.statements.getLast?
  if edge.kind ≠ .returnEdge then some (lastStatement.getD functionNode)
  else
    match lastStatement with
    | none => some functionNode
    | some statement => if graph.children statement.nodeId = [] then some statement else none

def offending (graph : AstGraph) (functionNode : AstNode) (cfg : ControlFlowGraph) : Option AstNode :=
  cfg.exitEdges.findSome? (offendingEdge graph functionNode cfg)

def detectFunction (context : RuleContext) (functionNode : AstNode) : Option (List RuleResult) :=
  if hasBody (graph context) functionNode = false then some []
  else if returnType functionNode ∈ ["unknown", "void"] then some []
  else do
    let cfg ← CFGEngine.build functionNode (graph context)
    match offending (graph context) functionNode cfg with
    | none => some []
    | some node => some [makeResult ruleId context (graph context) node
        (explanation (functionNode.property "name" "<anonymous>") (returnType functionNode))
        riskDescription confidenceFactors (80 / 100)]

def detect (context : RuleContext) : Option (List RuleResult) := do
  let results ← ((graph context).nodesByKind .functionDecl).mapM (detectFunction context)
  some results.flatten

end Rule17_4

end MisraPlatform
