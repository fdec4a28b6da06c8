import MisraPlatform.Construction.ControlFlowRules
import MisraPlatform.Construction.DataFlowEngineV2
import MisraPlatform.Library.KeepFirst

/-
This file is the rules on the initialization of objects.
-/

namespace MisraPlatform

namespace Rule9_1
open BaseRulePlugin DataFlowEngineV2

def ruleId : String := "misra-c2012-rule-9-1"

def explanation (name : String) : String :=
  "'" ++ name ++ "' is read before it is initialized on at least one reachable path."

def riskDescription : String := "Reading an uninitialized automatic variable is undefined behaviour."

def confidenceFactors : List (String × Rat) :=
  [("ast_match_specificity", 80 / 100), ("type_information_complete", 75 / 100),
    ("macro_clarity", 85 / 100), ("historical_false_positive_rate", 25 / 100),
    ("fix_generator_certainty", 50 / 100)]

def suggestedFix (read : AstNode) (name : String) : SuggestedFix where
  originalCode := AstGraph.offendingText read
  suggestedCode := "initialize '" ++ name ++ "' at its declaration"
  rationale := "Give the variable a well-defined value before first use."
  confidenceScore := 50 / 100

def report (context : RuleContext) (read : AstNode) : RuleResult :=
  let name := read.property "name" "<var>"
  makeResult ruleId context (graph context) read (explanation name) riskDescription confidenceFactors
    (72 / 100) (some (suggestedFix read name))

def detectFunction (context : RuleContext) (functionNode : AstNode) : Option (List RuleResult) := do
  let cfg ← CFGEngine.build functionNode (graph context)
  let reads ← uninitializedReads functionNode cfg (graph context)
  some (reads.map (report context))

def detect (context : RuleContext) : Option (List RuleResult) := do
  let results ← ((graph context).nodesByKind .functionDecl).mapM (detectFunction context)
  some results.flatten

end Rule9_1

/-! ### Initializer lists -/

/-- The rule reports some initializer lists with the same texts. -/
structure InitializerRule where
  ruleId : String
  explanation : String
  riskDescription : String
  confidenceFactors : List (String × Rat)
  confidenceScore : Rat
  suggestedCode : String
  rationale : String
  fixConfidence : Rat
  offends : AstNode → Bool

namespace InitializerRule
open BaseRulePlugin

def suggestedFix (rule : InitializerRule) (node : AstNode) : SuggestedFix where
  originalCode := AstGraph.offendingText node
  suggestedCode := rule.suggestedCode
  rationale := rule.rationale
  confidenceScore := rule.fixConfidence

def report (rule : InitializerRule) (context : RuleContext) (node : AstNode) : RuleResult :=
  makeResult rule.ruleId context (graph context) node rule.explanation rule.riskDescription
    rule.confidenceFactors rule.confidenceScore (some (rule.suggestedFix node))

def detect (rule : InitializerRule) (context : RuleContext) : List RuleResult :=
  (((graph context).nodesByKind (.other "InitListExpr")).filter rule.offends).map (rule.report context)

end InitializerRule

/-- An absent property and both forms of true are accepted. -/
def Rule9_2 : InitializerRule where
  ruleId := "misra-c2012-rule-9-2"
  explanation := "An aggregate or union initializer is not fully bracketed."
  riskDescription := "Missing braces can initialize unintended sub-objects."
  confidenceFactors :=
    [("ast_match_specificity", 88 / 100), ("type_information_complete", 8 / 10), ("macro_clarity", 9 / 10),
      ("historical_false_positive_rate", 12 / 100), ("fix_generator_certainty", 45 / 100)]
  confidenceScore := 82 / 100
  suggestedCode := "add explicit braces at every aggregate nesting level"
  rationale := "Use fully bracketed initializer lists."
  fixConfidence := 45 / 100
  offends node :=
    match node.value "is_fully_bracketed" with
    | none | some (.flag true) => false
    | some terminated => terminated ≠ .text "true"

def Rule9_4 : InitializerRule where
  ruleId := "misra-c2012-rule-9-4"
  explanation := "An initializer list repeats the same designator."
  riskDescription := "The earlier initializer for that sub-object is silently discarded."
  confidenceFactors :=
    [("ast_match_specificity", 92 / 100), ("type_information_complete", 85 / 100), ("macro_clarity", 9 / 10),
      ("historical_false_positive_rate", 8 / 100), ("fix_generator_certainty", 45 / 100)]
  confidenceScore := 88 / 100
  suggestedCode := "remove the duplicate designator"
  rationale := "Each sub-object should be initialized at most once."
  fixConfidence := 45 / 100
  offends node := node.truthy "duplicate_designator"

/-! ### Array elements -/

def resolveIndices : Int → List AstNode → List (Int × AstNode)
  | _, [] => []
  | nextIndex, child :: rest =>
      let index := child.designatorIndex.getD nextIndex
      (index, child) :: resolveIndices (index + 1) rest

/-- This is `_initializer_indices`. -/
def initializerIndices (initList : AstNode) (graph : AstGraph) : List (Int × AstNode) :=
  resolveIndices 0 (graph.children initList.nodeId)

namespace Rule9_3
open BaseRulePlugin

def ruleId : String := "misra-c2012-rule-9-3"

def explanation (index : Int) : String :=
  "Array element [" ++ toString index ++ "] is initialized more than once in this initializer list."

def riskDescription : String :=
  "The earlier initializer's value is silently discarded, which is almost always a mistake."

def confidenceFactors : List (String × Rat) :=
  [("ast_match_specificity", 9 / 10), ("type_information_complete", 8 / 10), ("macro_clarity", 9 / 10),
    ("historical_false_positive_rate", 1 / 10), ("fix_generator_certainty", 4 / 10)]

def suggestedFix (index : Int) : SuggestedFix where
  originalCode := "[" ++ toString index ++ "] = ..."
  suggestedCode := "remove the duplicate initializer for index " ++ toString index
  rationale := "Each array index should be initialized exactly once."
  confidenceScore := 4 / 10

def report (context : RuleContext) (element : Int × AstNode) : RuleResult :=
  makeResult ruleId context (graph context) element.2 (explanation element.1) riskDescription confidenceFactors
    (85 / 100) (some (suggestedFix element.1))

def arrayInitializers (graph : AstGraph) : List AstNode :=
  (graph.nodesByKind (.other "InitListExpr")).filter fun initList => initList.truthy "is_array_initializer"

/-- The first element of an index is remembered, and every later one is reported. -/
def offending (graph : AstGraph) (initList : AstNode) : List (Int × AstNode) :=
  keepRepeats Prod.fst [] (initializerIndices initList graph)

def detect (context : RuleContext) : List RuleResult :=
  (arrayInitializers (graph context)).flatMap fun initList =>
    (offending (graph context) initList).map (report context)

end Rule9_3

end MisraPlatform
