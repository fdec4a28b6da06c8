import MisraPlatform.Construction.DirectiveRules
import MisraPlatform.Library.Bracketing

/-
This file is the groups of conditional directives in each file, the parentheses around a macro body, and what the
rules report of the directives that the worker has seen.
-/

namespace MisraPlatform
open MacroAnalyzer

/-! ### Conditional groups -/

namespace Rule20_14

/-- A directive of another kind has no part in the groups. -/
def bracketOf (branch : Value) : Bracket :=
  match branch.getText "directive" "" with
  | "if" | "ifdef" | "ifndef" => .opens
  | "elif" | "else" => .within
  | "endif" => .closes
  | _ => .other

variable (artifact : Artifact)

/-- A directive without a path stands in the file of the translation unit. -/
def fileOf (branch : Value) : String := (branch.getDict "range").getText "file_path" artifact.filePath

/-- These are the directives that stand in the file. -/
def directivesIn (filePath : String) : List Bracket :=
  ((conditionalBranches artifact.macroTable).filter fun branch => fileOf artifact branch = filePath).map bracketOf

/-- The rule reports if the groups of some file are not opened and closed in it. -/
def GroupsReported : Prop :=
  rule.detect artifact ≠ [] ↔ ∃ filePath, ¬ Bracket.WellBracketed (directivesIn artifact filePath)

/-- The files together have as many directives that open a group as directives that close one. -/
def TotalsBalance : Prop :=
  ((conditionalBranches artifact.macroTable).map bracketOf).count .opens =
    ((conditionalBranches artifact.macroTable).map bracketOf).count .closes

instance : Decidable (TotalsBalance artifact) := inferInstanceAs (Decidable (_ = _))

end Rule20_14

/-! ### Macro bodies -/

namespace Rule20_7

def parenthesis (char : Char) : Bracket :=
  if char = '(' then .opens else if char = ')' then .closes else .other

/-- This is the text of the body without the space around it. -/
def body (macroDef : Value) : List Char := (strip (valueOf macroDef)).toList

def HasOperator (macroDef : Value) : Prop := ∃ char ∈ body macroDef, isOperator char = true

/-- The body starts with a parenthesis that its last character closes. -/
def Parenthesized (macroDef : Value) : Prop := Bracket.Enclosed ((body macroDef).map parenthesis)

/-- The bodies that are not in parentheses as a whole are found, and the rule reports them. -/
structure BodyJudged (macroDef : Value) : Prop where
  found : hasUnparenthesizedOperatorBody macroDef = false ↔ Parenthesized macroDef
  reported : ∀ artifact : Artifact, macroDef ∈ functionLikeMacros artifact.macroTable →
    (directiveResult rule.ruleId artifact (report macroDef) ∈ rule.detect artifact ↔ ¬ Parenthesized macroDef)

/-- If the body starts and ends with parentheses, then the text between them is well bracketed. -/
def InnerBalances (macroDef : Value) : Prop :=
  ∀ inner, (body macroDef).map parenthesis = .opens :: (inner ++ [.closes]) → Bracket.WellBracketed inner

end Rule20_7

/-! ### The directives of the worker -/

namespace ClangAnalysis.PreprocessorTracker

/-- These rules read flags that no message has, or values that function-like macros do not get. -/
def silentRules : List ReportingRule :=
  [Rule20_1.rule, Rule20_3.rule, Rule20_5.rule, Rule20_6.rule, Rule20_7.rule, Rule20_8.rule, Rule20_9.rule,
    Rule20_10.rule, Rule20_11.rule, Rule20_12.rule, Rule20_13.rule]

def defined (sources : SourceManager) : Callback → Option MacroDefinition
  | .macroDefined macroName info => info.map (definitionOf sources macroName)
  | _ => none

def expanded : Callback → Option String
  | .macroExpands macroName _ _ => some macroName
  | _ => none

def included (sources : SourceManager) : Callback → Option IncludeDirective
  | .inclusionDirective fileName isAngled filenameRange file searchPath relativePath =>
      some (includeOf sources fileName isAngled filenameRange file searchPath relativePath)
  | _ => none

def bracketOf : Callback → Bracket
  | .if .. | .ifdef .. | .ifndef .. => .opens
  | .elif .. => .within
  | .endif _ => .closes
  | _ => .other

variable (sources : SourceManager) (callbacks : List Callback) (filePath : String) (nodes : List AstNode)

/-- The rules run on what the client keeps of the response of the worker. -/
def tracked : Artifact :=
  AstClient.artifact filePath { nodes := nodes, preprocessor := track sources callbacks }

/-- The rule reports the directives of the worker that violate the condition, in their order. -/
def Reports {α : Type} (rule : ReportingRule) (toDict : α → Value) (report : Value → DirectiveReport)
    (directive : Callback → Option α) (violates : α → Prop) [DecidablePred violates] : Prop :=
  rule.detect (tracked sources callbacks filePath nodes) =
    ((callbacks.filterMap directive).filter violates).map fun item =>
      directiveResult rule.ruleId (tracked sources callbacks filePath nodes) (report (toDict item))

/-- The macros that nothing expands, the names that are taken and the banned headers are reported one by one, the
conditional groups by their counts, and the other rules are silent. -/
structure ReportsDirectives : Prop where
  silent : ∀ rule ∈ silentRules, rule.detect (tracked sources callbacks filePath nodes) = []
  unused : Reports sources callbacks filePath nodes Rule2_5.rule AstClient.macroToDict Rule2_5.report
    (defined sources) fun item => item.name ∉ callbacks.filterMap expanded
  keywords : Reports sources callbacks filePath nodes Rule20_4.rule AstClient.macroToDict Rule20_4.report
    (defined sources) fun item => item.name ∈ cKeywords
  reserved : Reports sources callbacks filePath nodes Rule21_1.rule AstClient.macroToDict Rule21_1.report
    (defined sources) fun item => isReservedIdentifier item.name = true
  headers : ∀ ruleId header riskDescription, Reports sources callbacks filePath nodes
    (headerRule ruleId header riskDescription) AstClient.includeToDict
    (forbiddenHeaderReport (fun found => "Header '" ++ found ++ "' provides <" ++ header ++
      "> facilities that are banned.") riskDescription)
    (included sources) fun item => normalizeHeaderName item.includedFile = header
  groups : Rule20_14.rule.detect (tracked sources callbacks filePath nodes) ≠ [] ↔
    (callbacks.map bracketOf).count .opens ≠ (callbacks.map bracketOf).count .closes
  nested : Bracket.WellBracketed (callbacks.map bracketOf) →
    Rule20_14.rule.detect (tracked sources callbacks filePath nodes) = []

end ClangAnalysis.PreprocessorTracker

end MisraPlatform
