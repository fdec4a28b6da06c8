import MisraPlatform.Construction.AstClient
import MisraPlatform.Construction.ControlFlowRules

/-
This file is the rules on macros and on pointer nesting that read the dictionaries of the client.
-/

namespace MisraPlatform

def Artifact.context (artifact : Artifact) : RuleContext where
  filePath := artifact.filePath
  astNodes := artifact.nodes.map AstNode.ofDict

namespace MacroAnalyzer

def macroDefinitions (macroTable : Value) : List Value := macroTable.getList "macro_definitions"

def undefDirectives (macroTable : Value) : List Value := macroTable.getList "undef_directives"

def macrosUsingTokenOperators (macroTable : Value) : List Value :=
  (macroDefinitions macroTable).filter fun macroDef =>
    macroDef.truthy "uses_stringify" || macroDef.truthy "uses_token_paste"

end MacroAnalyzer

/-- The result of a directive has no node. -/
def preprocessorResult (ruleId : String) (artifact : Artifact) (sourceRange : Value)
    (offendingExpression explanation riskDescription : String) : RuleResult where
  ruleId := ruleId
  filePath := sourceRange.getText "file_path" artifact.filePath
  lineStart := sourceRange.getNumber "line_start" 0
  lineEnd := sourceRange.getNumber "line_end" 0
  columnStart := sourceRange.getNumber "column_start" 0
  columnEnd := sourceRange.getNumber "column_end" 0
  offendingExpression := offendingExpression
  explanation := explanation
  riskDescription := riskDescription
  sourceSnippet := artifact.filePath ++ ":" ++ toString (sourceRange.getNumber "line_start" 0)
  astNodeId := ""
  astNodePath := []
  confidenceScore := 85 / 100
  confidenceFactors :=
    [("ast_match_specificity", 85 / 100), ("type_information_complete", 6 / 10), ("macro_clarity", 9 / 10),
      ("historical_false_positive_rate", 1 / 10), ("fix_generator_certainty", 4 / 10)]

namespace Rule20_5

def ruleId : String := "misra-c2012-rule-20-5"

def offendingExpression (name : String) : String := "#undef " ++ name

def explanation (name : String) : String := "#undef is used on macro '" ++ name ++ "'."

def riskDescription : String := "#undef makes macro visibility fragile and order-dependent."

def report (artifact : Artifact) (directive : Value) : RuleResult :=
  let name := directive.getText "name" "<macro>"
  preprocessorResult ruleId artifact (directive.getDict "range") (offendingExpression name) (explanation name)
    riskDescription

def detect (artifact : Artifact) : List RuleResult :=
  (MacroAnalyzer.undefDirectives artifact.macroTable).map (report artifact)

end Rule20_5

namespace Rule20_10

def ruleId : String := "misra-c2012-rule-20-10"

/-- The operators of a macro are joined for the texts of the report. -/
def opText (usesStringify usesTokenPaste : Bool) : String :=
  String.intercalate " and " ((if usesStringify then ["#"] else []) ++ if usesTokenPaste then ["##"] else [])

def offendingExpression (name operators : String) : String :=
  "#define " ++ name ++ " ... " ++ operators ++ " ..."

def explanation (name operators : String) : String :=
  "Macro '" ++ name ++ "' uses the " ++ operators ++ " preprocessor operator(s)."

def riskDescription : String := "Stringification and token pasting are fragile and hard to review."

def report (artifact : Artifact) (macroDef : Value) : RuleResult :=
  let name := macroDef.getText "name" "<macro>"
  let operators := opText (macroDef.truthy "uses_stringify") (macroDef.truthy "uses_token_paste")
  preprocessorResult ruleId artifact (macroDef.getDict "range") (offendingExpression name operators)
    (explanation name operators) riskDescription

def detect (artifact : Artifact) : List RuleResult :=
  (MacroAnalyzer.macrosUsingTokenOperators artifact.macroTable).map (report artifact)

end Rule20_10

namespace Rule18_5
open BaseRulePlugin

def ruleId : String := "misra-c2012-rule-18-5"

def explanation (name : String) (depth : Nat) : String :=
  "'" ++ name ++ "' declares " ++ toString depth ++ " levels of pointer nesting."

def riskDescription : String := "More than two pointer levels are hard to review and reason about."

def confidenceFactors : List (String × Rat) :=
  [("ast_match_specificity", 9 / 10), ("type_information_complete", 88 / 100), ("macro_clarity", 9 / 10),
    ("historical_false_positive_rate", 15 / 100), ("fix_generator_certainty", 3 / 10)]

def suggestedFix (node : AstNode) : SuggestedFix where
  originalCode := AstGraph.offendingText node
  suggestedCode := "reduce pointer nesting with a struct or typedef wrapper"
  rationale := "Keep pointer indirection to at most two levels."
  confidenceScore := 3 / 10

def limit : Nat := 2

def depthOf (node : Value) : Nat := (node.getDict "type_information").getNumber "pointer_nesting_depth" 0

def report (artifact : Artifact) (dict : Value) : RuleResult :=
  let node := AstNode.ofDict dict
  makeResult ruleId artifact.context (graph artifact.context) node
    (explanation (node.property "name" "<decl>") (depthOf dict)) riskDescription confidenceFactors (82 / 100)
    (some (suggestedFix node))

def detect (artifact : Artifact) : List RuleResult :=
  ["VarDecl", "ParmVarDecl"].flatMap fun kind =>
    ((artifact.nodes.filter fun dict => dict.getText "node_kind" "" = kind).filter fun dict =>
      limit < depthOf dict).map (report artifact)

end Rule18_5

end MisraPlatform
