import MisraPlatform.Construction.ControlFlowRules
import MisraPlatform.Construction.LinkageIndex
import Mathlib.Data.List.Dedup

/-
This file is the two rules on the scope and the lifetime of objects.
-/

namespace MisraPlatform

namespace PointerAnalyzer

/-- The first reference with a local name that the operator `&` stands in front of. -/
def returnsAddressOfLocal (descendants : List AstNode) (localNames : List String) : Option String :=
  (descendants.filter fun node => node.nodeKind = .unaryOperator ∧ node.property "opcode" "" = "&").findSome?
    fun node => descendants.findSome? fun child =>
      if child.parentId = node.nodeId ∧ child.nodeKind = .declRefExpr ∧ child.property "name" "" ∈ localNames then
        some (child.property "name" "")
      else none

end PointerAnalyzer

/-- The parents are climbed up to the first function. In a forest the node count is enough fuel. -/
def climbToFunction (graph : AstGraph) : Nat → String → Option String
  | 0, _ => none
  | fuel + 1, parentId =>
      if parentId = "" then none
      else
        match graph.get parentId with
        | none => none
        | some parent =>
            if parent.nodeKind = .functionDecl then some parent.nodeId
            else climbToFunction graph fuel parent.parentId

def enclosingFunctionId (node : AstNode) (graph : AstGraph) : Option String :=
  climbToFunction graph (graph.nodes.length + 1) node.parentId

namespace Rule8_9
open BaseRulePlugin

def ruleId : String := "misra-c2012-rule-8-9"

def explanation (name : String) : String :=
  "File-scope object '" ++ name ++ "' is referenced from a single function only."

def riskDescription : String := "Unnecessary file scope widens the object's visibility and lifetime."

def confidenceFactors : List (String × Rat) :=
  [("ast_match_specificity", 75 / 100), ("type_information_complete", 7 / 10), ("macro_clarity", 85 / 100),
    ("historical_false_positive_rate", 25 / 100), ("fix_generator_certainty", 4 / 10)]

def suggestedFix (varDecl : AstNode) (name : String) : SuggestedFix where
  originalCode := AstGraph.offendingText varDecl
  suggestedCode := "move the definition of '" ++ name ++ "' inside the function that uses it"
  rationale := "Prefer the narrowest scope that satisfies the usage."
  confidenceScore := 4 / 10

def report (context : RuleContext) (varDecl : AstNode) : RuleResult :=
  let name := varDecl.property "name" ""
  makeResult ruleId context (graph context) varDecl (explanation name) riskDescription confidenceFactors
    (68 / 100) (some (suggestedFix varDecl name))

def references (graph : AstGraph) (name : String) : List AstNode :=
  graph.nodes.filter fun node => node.nodeKind = .declRefExpr ∧ node.property "name" "" = name

/-- The set has the functions that the references stand in. -/
def enclosingFunctions (graph : AstGraph) (name : String) : List String :=
  ((references graph name).filterMap fun ref => enclosingFunctionId ref graph).dedup

def offends (graph : AstGraph) (varDecl : AstNode) : Bool :=
  let name := varDecl.property "name" ""
  graph.isFileScope varDecl.nodeId && varDecl.property "storage_class" "" ≠ "extern" && name ≠ "" &&
    references graph name ≠ [] && (enclosingFunctions graph name).length = 1

def detect (context : RuleContext) : List RuleResult :=
  (((graph context).nodesByKind .varDecl).filter (offends (graph context))).map (report context)

end Rule8_9

namespace Rule18_6
open BaseRulePlugin PointerAnalyzer

def ruleId : String := "misra-c2012-rule-18-6"

def explanation (escaped : String) : String :=
  "Function returns the address of automatic local variable '" ++ escaped ++ "'."

def riskDescription : String := "The returned pointer dangles as soon as the function returns."

def confidenceFactors : List (String × Rat) :=
  [("ast_match_specificity", 92 / 100), ("type_information_complete", 85 / 100), ("macro_clarity", 9 / 10),
    ("historical_false_positive_rate", 8 / 100), ("fix_generator_certainty", 3 / 10)]

def suggestedFix (returnStmt : AstNode) (escaped : String) : SuggestedFix where
  originalCode := AstGraph.offendingText returnStmt
  suggestedCode := "allocate '" ++ escaped ++ "' with static/heap/caller-provided storage instead"
  rationale := "The pointee must outlive the returning function."
  confidenceScore := 3 / 10

def report (context : RuleContext) (returnStmt : AstNode) (escaped : String) : RuleResult :=
  makeResult ruleId context (graph context) returnStmt (explanation escaped) riskDescription confidenceFactors
    (88 / 100) (some (suggestedFix returnStmt escaped))

/-- A variable without a storage class counts as automatic. -/
def localNames (descendants : List AstNode) : List String :=
  ((descendants.filter fun node => node.nodeKind = .varDecl ∧
    node.property "storage_class" "automatic" = "automatic").map fun node => node.property "name" "").filter
      fun name => name ≠ ""

def detectFunction (context : RuleContext) (functionNode : AstNode) : List RuleResult :=
  let descendants := (graph context).descendants functionNode.nodeId
  if localNames descendants = [] then []
  else (descendants.filter fun node => node.nodeKind = .returnStmt).filterMap fun returnStmt =>
    (returnsAddressOfLocal ((graph context).descendants returnStmt.nodeId) (localNames descendants)).map
      (report context returnStmt)

def detect (context : RuleContext) : List RuleResult :=
  ((graph context).nodesByKind .functionDecl).flatMap (detectFunction context)

end Rule18_6

end MisraPlatform
