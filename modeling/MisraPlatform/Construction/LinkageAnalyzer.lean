import Mathlib.Data.List.Dedup
import MisraPlatform.Construction.ControlFlowRules
import MisraPlatform.Construction.LinkageIndex
import MisraPlatform.Library.KeepFirst

/-
This file is the queries on the definitions of a project and the rules that report duplicate ones.
-/

namespace MisraPlatform

namespace LinkageIndex

def Data.hasMultipleDefinitions (data : Data) (name : String) : Bool :=
  1 < ((data.definitions name).map Occurrence.translationUnitId).dedup.length

def Data.allNames (data : Data) : List String := data.symbols.keys

end LinkageIndex

namespace LinkageAnalyzer

structure OdrViolation where
  name : String
  reason : String
  evidence : List LinkageIndex.Occurrence
  deriving DecidableEq

def duplicateReason : String :=
  "duplicate_definition: more than one translation unit provides an external-linkage defining declaration " ++
    "(a function body, or an initialized global) for this identifier"

def duplicateDefinitions (data : LinkageIndex.Data) (name : String) : Option OdrViolation :=
  if data.hasMultipleDefinitions name then some ⟨name, duplicateReason, data.definitions name⟩ else none

def undefinedExternalReferences (data : LinkageIndex.Data) : List String :=
  data.allNames.filter fun name => !(data.externalOccurrences name).isEmpty && (data.definitions name).isEmpty

end LinkageAnalyzer

namespace Rule5_8
open BaseRulePlugin

def ruleId : String := "misra-c2012-rule-5-8"

def explanation (name : String) : String :=
  "External identifier '" ++ name ++ "' defines more than one distinct entity across the project."

def riskDescription : String :=
  "Sharing an external name across unrelated definitions risks a one-definition-rule violation."

def confidenceFactors : List (String × Rat) :=
  [("ast_match_specificity", 88 / 100), ("type_information_complete", 75 / 100), ("macro_clarity", 9 / 10),
    ("historical_false_positive_rate", 15 / 100), ("fix_generator_certainty", 3 / 10)]

/-- The declaration may stand in any scope. -/
def localDecl (context : RuleContext) (name : String) : Option AstNode :=
  context.astNodes.find? fun node =>
    (node.nodeKind = .functionDecl || node.nodeKind = .varDecl) && node.semanticProperties.lookup "name" = some name

def report (context : RuleContext) (name : String) (node : AstNode) : RuleResult :=
  makeResult ruleId context (graph context) node (explanation name) riskDescription confidenceFactors (8 / 10)

def detect (linkage : LinkageIndex.Data) (context : RuleContext) : List RuleResult :=
  if linkage.symbols.entries.isEmpty then []
  else linkage.allNames.filterMap fun name =>
    if linkage.hasMultipleDefinitions name then (localDecl context name).map (report context name) else none

end Rule5_8

namespace Rule8_6
open BaseRulePlugin

def ruleId : String := "misra-c2012-rule-8-6"

def explanation (name : String) : String :=
  "External identifier '" ++ name ++ "' has a definition in more than one translation unit."

def riskDescription : String := "One-definition-rule violations cause undefined linker behaviour."

def confidenceFactors : List (String × Rat) :=
  [("ast_match_specificity", 9 / 10), ("type_information_complete", 8 / 10), ("macro_clarity", 9 / 10),
    ("historical_false_positive_rate", 1 / 10), ("fix_generator_certainty", 3 / 10)]

/-- A name is checked where it stands at file scope, and never without an index of the project. -/
def offending (linkage : LinkageIndex.Data) (context : RuleContext) (node : AstNode) : Bool :=
  node.property "name" "" ≠ "" && (graph context).isFileScope node.nodeId &&
    !linkage.symbols.entries.isEmpty && linkage.hasMultipleDefinitions (node.property "name" "")

def report (context : RuleContext) (node : AstNode) : RuleResult :=
  makeResult ruleId context (graph context) node (explanation (node.property "name" "")) riskDescription
    confidenceFactors (85 / 100)

/-- Every name is reported once, at its first function or object. -/
def detect (linkage : LinkageIndex.Data) (context : RuleContext) : List RuleResult :=
  (keepFirst (fun node => node.property "name" "") []
    (([.functionDecl, .varDecl].flatMap (graph context).nodesByKind).filter (offending linkage context))).map
      (report context)

end Rule8_6
end MisraPlatform
