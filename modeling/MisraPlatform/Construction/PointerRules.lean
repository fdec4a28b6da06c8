import MisraPlatform.Construction.AliasAnalyzer
import MisraPlatform.Construction.ControlFlowRules

/-
This file is the rule on copies between objects that may overlap.
-/

namespace MisraPlatform
open DataFlowEngineV2 AliasAnalyzer

namespace AliasAnalyzer

def Confidence.value : Confidence → String
  | .definite => "definite"
  | .possible => "possible"
  | .unknown => "unknown"

end AliasAnalyzer

namespace Rule19_1
open BaseRulePlugin

def ruleId : String := "misra-c2012-rule-19-1"

def OVERLAP_SENSITIVE_CALLEES : List String := ["memcpy", "strcpy", "strcat"]

def explanation (calleeName destName sourceName : String) (confidence : Confidence) : String :=
  "'" ++ calleeName ++ "(" ++ destName ++ ", " ++ sourceName ++ ", ...)' may copy between overlapping objects (" ++
    confidence.value ++ " alias)."

def riskDescription (calleeName : String) : String :=
  calleeName ++ "'s behaviour on overlapping source/destination is undefined."

def confidenceFactors : List (String × Rat) :=
  [("ast_match_specificity", 85 / 100), ("type_information_complete", 7 / 10), ("macro_clarity", 85 / 100),
    ("historical_false_positive_rate", 2 / 10), ("fix_generator_certainty", 5 / 10)]

def suggestedFix (calleeName destName sourceName : String) : SuggestedFix where
  originalCode := calleeName ++ "(" ++ destName ++ ", " ++ sourceName ++ ", n)"
  suggestedCode := "memmove(" ++ destName ++ ", " ++ sourceName ++ ", n)"
  rationale := "Use memmove when source and destination may overlap."
  confidenceScore := 5 / 10

def report (context : RuleContext) (call : AstNode) (destName sourceName : String) (confidence : Confidence) :
    RuleResult :=
  makeResult ruleId context (graph context) call (explanation (callee call) destName sourceName confidence)
    (riskDescription (callee call)) confidenceFactors (if confidence = .definite then 9 / 10 else 65 / 100)
    (some (suggestedFix (callee call) destName sourceName))

/-- The first two arguments are references with different names. -/
def overlapArguments (graph : AstGraph) (call : AstNode) : Option (String × String) :=
  if call.nodeKind = .callExpr ∧ callee call ∈ OVERLAP_SENSITIVE_CALLEES then
    match graph.children call.nodeId with
    | dest :: source :: _ =>
        if dest.nodeKind ≠ .declRefExpr ∨ source.nodeKind ≠ .declRefExpr then none
        else if declRefName dest = "" ∨ declRefName source = "" ∨ declRefName dest = declRefName source then none
        else some (declRefName dest, declRefName source)
    | _ => none
  else none

def hasBody (graph : AstGraph) (functionNode : AstNode) : Bool :=
  (graph.children functionNode.nodeId).any fun child => child.nodeKind = .compoundStmt

/-- This is what the rule reports of one call. -/
def detectCall (context : RuleContext) (aliases : PointsTo) (call : AstNode) : Option RuleResult :=
  (overlapArguments (graph context) call).bind fun names =>
    let verdict := mayAlias aliases names.1 names.2
    if verdict.1 = true then some (report context call names.1 names.2 verdict.2) else none

def detect (context : RuleContext) : List RuleResult :=
  (((graph context).nodesByKind .functionDecl).filter (hasBody (graph context))).flatMap fun functionNode =>
    ((graph context).descendants functionNode.nodeId).filterMap
      (detectCall context (analyze functionNode (graph context)))

end Rule19_1
end MisraPlatform
