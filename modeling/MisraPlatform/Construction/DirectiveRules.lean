import Mathlib.Data.Finset.Insert
import Mathlib.Data.List.Dedup
import Mathlib.Data.List.Infix
import Mathlib.Data.List.Sort
import MisraPlatform.Construction.PreprocessorRules
import MisraPlatform.Library.KeepFirst
import MisraPlatform.Library.OrderedDict

/-
This file is the ways in which the rules build their results, and the rules that report directives.
-/

namespace MisraPlatform

/-! ### Reports -/

/-- A rule says this about a directive. -/
structure DirectiveReport where
  sourceRange : Value
  offendingExpression : String
  explanation : String
  riskDescription : String
  confidenceScore : Rat
  confidenceFactors : List (String × Rat)
  suggestedFix : Option SuggestedFix := none

/-- A rule says this about a node when it calls `make_result`. -/
structure NodeReport where
  node : AstNode
  explanation : String
  riskDescription : String
  confidenceFactors : List (String × Rat)
  confidenceScore : Rat
  suggestedFix : Option SuggestedFix := none

inductive RuleReport where
  | node (report : NodeReport)
  | directive (report : DirectiveReport)

/-- The path of the directive falls back on that of the translation unit. -/
def DirectiveReport.filePath (report : DirectiveReport) (artifact : Artifact) : String :=
  report.sourceRange.getText "file_path" artifact.filePath

/-- Every rule on directives fills the result in this way. -/
def directiveResult (ruleId : String) (artifact : Artifact) (report : DirectiveReport) : RuleResult where
  ruleId := ruleId
  filePath := report.filePath artifact
  lineStart := report.sourceRange.getNumber "line_start" 0
  lineEnd := report.sourceRange.getNumber "line_end" 0
  columnStart := report.sourceRange.getNumber "column_start" 0
  columnEnd := report.sourceRange.getNumber "column_end" 0
  offendingExpression := report.offendingExpression
  explanation := report.explanation
  riskDescription := report.riskDescription
  sourceSnippet := artifact.filePath ++ ":" ++ toString (report.sourceRange.getNumber "line_start" 0)
  astNodeId := ""
  astNodePath := []
  confidenceScore := report.confidenceScore
  confidenceFactors := report.confidenceFactors
  suggestedFix := report.suggestedFix

def nodeResult (ruleId : String) (artifact : Artifact) (report : NodeReport) : RuleResult :=
  BaseRulePlugin.makeResult ruleId artifact.context (BaseRulePlugin.graph artifact.context) report.node
    report.explanation report.riskDescription report.confidenceFactors report.confidenceScore report.suggestedFix

def RuleReport.result (ruleId : String) (artifact : Artifact) : RuleReport → RuleResult
  | .node report => nodeResult ruleId artifact report
  | .directive report => directiveResult ruleId artifact report

/-- A rule may report nodes of the translation unit and directives. -/
structure ReportingRule where
  ruleId : String
  reports : Artifact → List RuleReport
  placed : ∀ artifact report, RuleReport.node report ∈ reports artifact → report.node ∈ artifact.context.astNodes

namespace ReportingRule

def detect (rule : ReportingRule) (artifact : Artifact) : List RuleResult :=
  (rule.reports artifact).map (RuleReport.result rule.ruleId artifact)

/-- The rule reports directives only. -/
def ofDirectives (ruleId : String) (reports : Value → List DirectiveReport) : ReportingRule where
  ruleId := ruleId
  reports artifact := (reports artifact.macroTable).map .directive
  placed := by simp

end ReportingRule

/-- The factors stand in the order of the source. -/
def factors (astMatch typeInformation macroClarity falsePositives fixCertainty : Rat) : List (String × Rat) :=
  [("ast_match_specificity", astMatch), ("type_information_complete", typeInformation),
    ("macro_clarity", macroClarity), ("historical_false_positive_rate", falsePositives),
    ("fix_generator_certainty", fixCertainty)]

/-- This is the report that `_preprocessor_result` makes a result from. -/
def preprocessorReport (sourceRange : Value) (offendingExpression explanation riskDescription : String) :
    DirectiveReport where
  sourceRange := sourceRange
  offendingExpression := offendingExpression
  explanation := explanation
  riskDescription := riskDescription
  confidenceScore := 85 / 100
  confidenceFactors := factors (85 / 100) (6 / 10) (9 / 10) (1 / 10) (4 / 10)

theorem directiveResult_preprocessorReport (ruleId : String) (artifact : Artifact) (sourceRange : Value)
    (offendingExpression explanation riskDescription : String) :
    directiveResult ruleId artifact
        (preprocessorReport sourceRange offendingExpression explanation riskDescription) =
      preprocessorResult ruleId artifact sourceRange offendingExpression explanation riskDescription := rfl

/-! ### The macro table -/

/-- These are the characters that `str.isspace` accepts. -/
def isSpace (char : Char) : Bool :=
  let code := char.toNat
  (9 ≤ code && code ≤ 13) || (28 ≤ code && code ≤ 32) || code = 133 || code = 160 || code = 5760 ||
    (8192 ≤ code && code ≤ 8202) || code = 8232 || code = 8233 || code = 8239 || code = 8287 || code = 12288

def strip (text : String) : String :=
  String.ofList ((text.toList.dropWhile isSpace).reverse.dropWhile isSpace).reverse

namespace MacroAnalyzer

def macroExpansions (macroTable : Value) : List Value := macroTable.getList "macro_expansions"

def includeDirectives (macroTable : Value) : List Value := macroTable.getList "include_directives"

def conditionalBranches (macroTable : Value) : List Value := macroTable.getList "conditional_branches"

def preprocessorDirectives (macroTable : Value) : List Value := macroTable.getList "preprocessor_directives"

def functionLikeMacros (macroTable : Value) : List Value :=
  (macroDefinitions macroTable).filter fun macroDef => macroDef.truthy "is_function_like"

/-- The pattern is `^_[A-Z_]`, which covers the names that start with two underscores. -/
def isReservedIdentifier (name : String) : Bool :=
  match name.toList with
  | '_' :: second :: _ => second = '_' || ('A' ≤ second && second ≤ 'Z')
  | _ => false

def isOperator (char : Char) : Bool := char ∈ ['+', '-', '*', '/', '%', '&', '|', '^', '<', '>']

def hasUnparenthesizedOperatorBody (macroDef : Value) : Bool :=
  let value := (strip (macroDef.getText "value" "")).toList
  value.any isOperator && !(value.head? = some '(' && value.getLast? = some ')')

/-- A missing name equals no text. -/
def hasText (item : Value) (key text : String) : Bool :=
  match item.get key with
  | some (.text found) => found = text
  | _ => false

def expansionsOf (macroTable : Value) (name : String) : List Value :=
  (macroExpansions macroTable).filter fun expansion => hasText expansion "name" name

def isUnused (macroTable macroDef : Value) : Bool :=
  (expansionsOf macroTable (macroDef.getText "name" "")).isEmpty

def opens (branch : Value) : Bool :=
  hasText branch "directive" "if" || hasText branch "directive" "ifdef" || hasText branch "directive" "ifndef"

def unbalancedConditionalGroup (macroTable : Value) : Bool :=
  (conditionalBranches macroTable).countP opens ≠
    (conditionalBranches macroTable).countP fun branch => hasText branch "directive" "endif"

/-- The pairs stand in the order of their first and then of their second name. -/
def pairs : List String → List (String × String)
  | [] => []
  | first :: rest => rest.map (fun second => (first, second)) ++ pairs rest

/-- The names with the same first characters stand under these characters. -/
def truncated (macroTable : Value) (significantChars : Nat) : OrderedDict String (List String) :=
  ((macroDefinitions macroTable).map fun macroDef => macroDef.getText "name" "").foldl (fun dict name =>
    if name = "" then dict
    else
      let key := String.ofList (name.toList.take significantChars)
      (dict.setDefault key []).modify key fun names => names ++ [name]) OrderedDict.empty

def duplicateMacroNamesWithin (macroTable : Value) (significantChars : Nat) : List (String × String) :=
  (truncated macroTable significantChars).values.flatMap fun names =>
    pairs (names.dedup.insertionSort (· ≤ ·))

/-- An empty header falls back on the included file. -/
def headerOf (directive : Value) : String :=
  if directive.getText "header" "" = "" then directive.getText "included_file" ""
  else directive.getText "header" ""

/-- The text between the delimiters is kept, and a text of one delimiter is empty. -/
def between (opening closing : Char) (text : List Char) : Option (List Char) :=
  if text.head? = some opening && text.getLast? = some closing then some text.tail.dropLast else none

def normalizeHeaderName (name : String) : String :=
  let stripped := (strip name).toList
  String.ofList (((between '<' '>' stripped).or (between '"' '"' stripped)).getD stripped)

def includesMatching (macroTable : Value) (forbiddenHeaders : List String) : List Value :=
  (includeDirectives macroTable).filter fun directive =>
    normalizeHeaderName (headerOf directive) ∈ forbiddenHeaders

def includeHasInvalidHeaderChars (directive : Value) : Bool :=
  directive.truthy "invalid_header_chars" || ["\"", "\\", "/*", "//"].any fun marker =>
    marker.toList <:+: (headerOf directive).toList

def conditionalNonBooleanControllingExpression (branch : Value) : Bool :=
  (hasText branch "directive" "if" || hasText branch "directive" "elif") &&
    branch.truthy "non_boolean_controlling_expression"

def conditionalUndefinedIdentifiers (branch : Value) : List String :=
  if hasText branch "directive" "if" || hasText branch "directive" "elif" then
    Value.texts (branch.getList "undefined_identifiers")
  else []

end MacroAnalyzer

/-! ### Rules on macros -/

def cKeywords : List String :=
  ["auto", "break", "case", "char", "const", "continue", "default", "do", "double", "else", "enum", "extern",
    "float", "for", "goto", "if", "inline", "int", "long", "register", "restrict", "return", "short", "signed",
    "sizeof", "static", "struct", "switch", "typedef", "union", "unsigned", "void", "volatile", "while", "_Bool",
    "_Complex", "_Imaginary"]

def significantChars : Nat := 31

/-- A macro without a name has the empty name. -/
def macroName (macroDef : Value) : String := macroDef.getText "name" ""

def defineText (name : String) : String := "#define " ++ name

namespace Rule20_4

def report (macroDef : Value) : DirectiveReport where
  sourceRange := macroDef.getDict "range"
  offendingExpression := defineText (macroName macroDef)
  explanation := "Macro '" ++ macroName macroDef ++ "' shares its name with a C language keyword."
  riskDescription := "Keyword-shadowing macros produce confusing, toolchain-dependent behaviour."
  confidenceScore := 9 / 10
  confidenceFactors := factors (9 / 10) (5 / 10) (95 / 100) (5 / 100) (7 / 10)
  suggestedFix := some {
    originalCode := "#define " ++ macroName macroDef ++ " ..."
    suggestedCode := "rename the macro away from the keyword '" ++ macroName macroDef ++ "'"
    rationale := "Never shadow a language keyword with a macro."
    confidenceScore := 7 / 10 }

def rule : ReportingRule := .ofDirectives "misra-c2012-rule-20-4" fun macroTable =>
  ((MacroAnalyzer.macroDefinitions macroTable).filter fun macroDef => macroName macroDef ∈ cKeywords).map report

end Rule20_4

namespace Rule20_7

def valueOf (macroDef : Value) : String := macroDef.getText "value" ""

def report (macroDef : Value) : DirectiveReport where
  sourceRange := macroDef.getDict "range"
  offendingExpression := defineText (macroName macroDef) ++ "(...) " ++ valueOf macroDef
  explanation :=
    "Function-like macro '" ++ macroName macroDef ++ "' has an unparenthesized operator in its body."
  riskDescription := "Operator precedence at the call site may change the intended meaning."
  confidenceScore := 65 / 100
  confidenceFactors := factors (6 / 10) (4 / 10) (6 / 10) (3 / 10) (5 / 10)
  suggestedFix := some {
    originalCode := valueOf macroDef
    suggestedCode := "(" ++ valueOf macroDef ++ ")"
    rationale := "Wrap the entire macro body in parentheses."
    confidenceScore := 5 / 10 }

def rule : ReportingRule := .ofDirectives "misra-c2012-rule-20-7" fun macroTable =>
  ((MacroAnalyzer.functionLikeMacros macroTable).filter MacroAnalyzer.hasUnparenthesizedOperatorBody).map report

end Rule20_7

namespace Rule21_1

def report (macroDef : Value) : DirectiveReport where
  sourceRange := macroDef.getDict "range"
  offendingExpression := defineText (macroName macroDef)
  explanation := "Macro name '" ++ macroName macroDef ++ "' is reserved by the C standard library."
  riskDescription := "Redefining a reserved identifier is undefined behaviour."
  confidenceScore := 92 / 100
  confidenceFactors := factors (95 / 100) (6 / 10) (95 / 100) (5 / 100) (6 / 10)
  suggestedFix := some {
    originalCode := "#define " ++ macroName macroDef ++ " ..."
    suggestedCode := "rename to a non-reserved identifier (avoid leading underscore + uppercase)"
    rationale := "Reserve the leading-underscore namespace for the C library/implementation."
    confidenceScore := 6 / 10 }

def rule : ReportingRule := .ofDirectives "misra-c2012-rule-21-1" fun macroTable =>
  ((MacroAnalyzer.macroDefinitions macroTable).filter fun macroDef =>
    MacroAnalyzer.isReservedIdentifier (macroName macroDef)).map report

end Rule21_1

namespace Rule2_5

def report (macroDef : Value) : DirectiveReport where
  sourceRange := macroDef.getDict "range"
  offendingExpression := defineText (macroName macroDef)
  explanation :=
    "Macro '" ++ macroName macroDef ++ "' is defined but never expanded anywhere in this translation unit."
  riskDescription := "Unused macros are dead configuration surface that misleads maintainers."
  confidenceScore := 6 / 10
  confidenceFactors := factors (6 / 10) (4 / 10) (65 / 100) (35 / 100) (4 / 10)
  suggestedFix := some {
    originalCode := "#define " ++ macroName macroDef ++ " ..."
    suggestedCode := "remove the unused macro, or expand it where intended"
    rationale := "Delete dead macro declarations once they are no longer expanded."
    confidenceScore := 4 / 10 }

def rule : ReportingRule := .ofDirectives "misra-c2012-rule-2-5" fun macroTable =>
  ((MacroAnalyzer.macroDefinitions macroTable).filter (MacroAnalyzer.isUnused macroTable)).map report

end Rule2_5

namespace Rule5_4

/-- The last macro of a name is found. -/
def byName (macroTable : Value) (name : String) : Option Value :=
  (MacroAnalyzer.macroDefinitions macroTable).reverse.find? fun macroDef => macroName macroDef = name

def report (first second : String) (macroDef : Value) : DirectiveReport where
  sourceRange := macroDef.getDict "range"
  offendingExpression := "#define " ++ first ++ " / #define " ++ second
  explanation := "Macro identifiers '" ++ first ++ "' and '" ++ second ++ "' collide within the first " ++
    toString significantChars ++ " characters."
  riskDescription := "A truncating preprocessor may treat these two macros as the same identifier."
  confidenceScore := 78 / 100
  confidenceFactors := factors (85 / 100) (7 / 10) (9 / 10) (15 / 100) (4 / 10)
  suggestedFix := some {
    originalCode := first ++ " / " ++ second
    suggestedCode := "rename one macro so both are distinct within significant length"
    rationale := "Avoid relying on toolchain-specific significant-character limits."
    confidenceScore := 4 / 10 }

/-- A pair of names is reported once. -/
def collisions (macroTable : Value) : List (String × String) :=
  keepFirst (fun names => ({names.1, names.2} : Finset String)) []
    (MacroAnalyzer.duplicateMacroNamesWithin macroTable significantChars)

def rule : ReportingRule := .ofDirectives "misra-c2012-rule-5-4" fun macroTable =>
  (collisions macroTable).filterMap fun names =>
    ((byName macroTable names.2).or (byName macroTable names.1)).map (report names.1 names.2)

end Rule5_4

/-- These rules report the macros that violate a condition with the name of the macro. -/
def macroRule (ruleId : String) (violates : Value → Bool) (explanation : String → String)
    (riskDescription : String) : ReportingRule :=
  .ofDirectives ruleId fun macroTable =>
    ((MacroAnalyzer.macroDefinitions macroTable).filter violates).map fun macroDef =>
      preprocessorReport (macroDef.getDict "range") (defineText (macroName macroDef))
        (explanation (macroName macroDef)) riskDescription

def Rule20_6.rule : ReportingRule :=
  macroRule "misra-c2012-rule-20-6" (fun macroDef => macroDef.truthy "invalid_preprocessor_tokens")
    (fun name => "Macro '" ++ name ++ "' pastes/stringifies invalid preprocessing tokens.")
    "Invalid pasted tokens are undefined behaviour."

def Rule20_11.rule : ReportingRule :=
  macroRule "misra-c2012-rule-20-11"
    (fun macroDef => macroDef.truthy "stringify_param_unparenthesized_operator")
    (fun name => "Macro '" ++ name ++ "' stringifies a parameter next to an unparenthesized operator.")
    "Stringification next to operators is fragile and hard to review."

def Rule20_12.rule : ReportingRule :=
  macroRule "misra-c2012-rule-20-12" (fun macroDef => macroDef.truthy "param_mixed_stringify_and_paste")
    (fun name => "Macro '" ++ name ++ "' uses # and ## on the same parameter.")
    "Mixing # and ## on the same parameter is undefined behaviour."

namespace Rule20_10

def directiveReport (macroDef : Value) : DirectiveReport :=
  let name := macroDef.getText "name" "<macro>"
  let operators := opText (macroDef.truthy "uses_stringify") (macroDef.truthy "uses_token_paste")
  preprocessorReport (macroDef.getDict "range") (offendingExpression name operators) (explanation name operators)
    riskDescription

def rule : ReportingRule := .ofDirectives ruleId fun macroTable =>
  (MacroAnalyzer.macrosUsingTokenOperators macroTable).map directiveReport

end Rule20_10

/-! ### Rules on the other directives -/

namespace Rule20_5

def directiveReport (directive : Value) : DirectiveReport :=
  let name := directive.getText "name" "<macro>"
  preprocessorReport (directive.getDict "range") (offendingExpression name) (explanation name) riskDescription

def rule : ReportingRule := .ofDirectives ruleId fun macroTable =>
  (MacroAnalyzer.undefDirectives macroTable).map directiveReport

end Rule20_5

def includeText (directive : Value) : String := "#include " ++ MacroAnalyzer.headerOf directive

/-- These rules report the includes that violate a condition with the header. -/
def includeRule (ruleId : String) (violates : Value → Bool) (explanation : String → String)
    (riskDescription : String) : ReportingRule :=
  .ofDirectives ruleId fun macroTable =>
    ((MacroAnalyzer.includeDirectives macroTable).filter violates).map fun directive =>
      preprocessorReport (directive.getDict "range") (includeText directive)
        (explanation (MacroAnalyzer.headerOf directive)) riskDescription

def Rule20_1.rule : ReportingRule :=
  includeRule "misra-c2012-rule-20-1" (fun directive => directive.truthy "preceded_by_non_preprocessor")
    (fun _ => "#include is preceded by non-preprocessor source.")
    "Leading code can be excluded when the header is reincluded."

def Rule20_2.rule : ReportingRule :=
  includeRule "misra-c2012-rule-20-2" MacroAnalyzer.includeHasInvalidHeaderChars
    (fun header => "Header name '" ++ header ++ "' contains forbidden characters.")
    "Malformed header names are undefined behaviour."

def Rule20_3.rule : ReportingRule :=
  includeRule "misra-c2012-rule-20-3" (fun directive => directive.truthy "invalid_syntax")
    (fun _ => "#include uses invalid syntax.") "Malformed #include directives fail preprocessing."

def conditionText (branch : Value) : String :=
  "#" ++ branch.getText "directive" "if" ++ " " ++ branch.getText "condition" ""

def Rule20_8.rule : ReportingRule :=
  .ofDirectives "misra-c2012-rule-20-8" fun macroTable =>
    ((MacroAnalyzer.conditionalBranches macroTable).filter
      MacroAnalyzer.conditionalNonBooleanControllingExpression).map fun branch =>
        preprocessorReport (branch.getDict "range") (conditionText branch)
          "The controlling expression is not restricted to 0 or 1."
          "Non-Boolean #if expressions are implementation-defined."

def Rule20_9.rule : ReportingRule :=
  .ofDirectives "misra-c2012-rule-20-9" fun macroTable =>
    ((MacroAnalyzer.conditionalBranches macroTable).filter fun branch =>
      !(MacroAnalyzer.conditionalUndefinedIdentifiers branch).isEmpty).map fun branch =>
        preprocessorReport (branch.getDict "range") (conditionText branch)
          ("#if/#elif expression uses undefined identifier(s): " ++
            String.intercalate ", " (MacroAnalyzer.conditionalUndefinedIdentifiers branch) ++ ".")
          "Undefined identifiers silently evaluate to 0 in #if expressions."

/-- A directive without a text falls back on its name. -/
def directiveText (directive : Value) : String :=
  directive.getText "text" (directive.getText "directive" "#")

def Rule20_13.rule : ReportingRule :=
  .ofDirectives "misra-c2012-rule-20-13" fun macroTable =>
    ((MacroAnalyzer.preprocessorDirectives macroTable).filter fun directive =>
      directive.truthy "invalid_form").map fun directive =>
        preprocessorReport (directive.getDict "range") (directiveText directive)
          "Preprocessor directive does not match a permitted form." "Malformed # directives break preprocessing."

namespace Rule20_14

def report (firstRange : Value) : DirectiveReport where
  sourceRange := firstRange
  offendingExpression := "#if/#ifdef/#ifndef .. #endif"
  explanation := "This file contains an unbalanced set of conditional-compilation directives."
  riskDescription := "An unmatched #if/#endif pair can silently exclude or include large code regions."
  confidenceScore := 75 / 100
  confidenceFactors := factors (7 / 10) (5 / 10) (7 / 10) (2 / 10) (3 / 10)

/-- The translation unit is reported once, at its first branch. -/
def rule : ReportingRule := .ofDirectives "misra-c2012-rule-20-14" fun macroTable =>
  if MacroAnalyzer.unbalancedConditionalGroup macroTable then
    [report (((MacroAnalyzer.conditionalBranches macroTable).headD (.dict [])).getDict "range")]
  else []

end Rule20_14

/-! ### Banned headers and calls -/

/-- The explanation has the header between its two parts. -/
def forbiddenHeaderReport (explanation : String → String) (riskDescription : String) (directive : Value) :
    DirectiveReport where
  sourceRange := directive.getDict "range"
  offendingExpression := includeText directive
  explanation := explanation (MacroAnalyzer.headerOf directive)
  riskDescription := riskDescription
  confidenceScore := 92 / 100
  confidenceFactors := factors (95 / 100) (7 / 10) (95 / 100) (5 / 100) (5 / 10)
  suggestedFix := some {
    originalCode := includeText directive
    suggestedCode := "remove the include and use a project-approved alternative"
    rationale := "Banned standard-library headers shall not be included."
    confidenceScore := 5 / 10 }

def forbiddenHeaderReports (forbiddenHeaders : List String) (explanation : String → String)
    (riskDescription : String) (macroTable : Value) : List DirectiveReport :=
  (MacroAnalyzer.includesMatching macroTable forbiddenHeaders).map
    (forbiddenHeaderReport explanation riskDescription)

/-- The facilities of one header are banned. -/
def headerRule (ruleId header riskDescription : String) : ReportingRule :=
  .ofDirectives ruleId (forbiddenHeaderReports [header]
    (fun found => "Header '" ++ found ++ "' provides <" ++ header ++ "> facilities that are banned.")
    riskDescription)

def Rule21_4.rule : ReportingRule :=
  headerRule "misra-c2012-rule-21-4" "setjmp.h" "setjmp/longjmp shall not be used."

def Rule21_5.rule : ReportingRule :=
  headerRule "misra-c2012-rule-21-5" "signal.h" "Signal handling shall not be used."

def Rule21_10.rule : ReportingRule :=
  headerRule "misra-c2012-rule-21-10" "time.h" "time.h should not be used in this safety profile."

def Rule21_11.rule : ReportingRule :=
  headerRule "misra-c2012-rule-21-11" "tgmath.h" "Type-generic math should not be used."

def Rule21_12.rule : ReportingRule :=
  headerRule "misra-c2012-rule-21-12" "fenv.h" "Floating-point environment control should not be used."

def forbiddenCallReport (explanation : String → String) (riskDescription : String) (node : AstNode) :
    NodeReport where
  node := node
  explanation := explanation (node.property "callee" "")
  riskDescription := riskDescription
  confidenceFactors := factors (95 / 100) (85 / 100) (9 / 10) (5 / 100) (4 / 10)
  confidenceScore := 9 / 10
  suggestedFix := some {
    originalCode := AstGraph.offendingText node
    suggestedCode := "replace with a project-approved alternative"
    rationale := "Avoid banned standard-library facilities in safety-critical code."
    confidenceScore := 4 / 10 }

def forbiddenCallReports (forbidden : List String) (explanation : String → String) (riskDescription : String)
    (artifact : Artifact) : List NodeReport :=
  (((BaseRulePlugin.graph artifact.context).nodesByKind .callExpr).filter fun node =>
    node.property "callee" "" ∈ forbidden).map (forbiddenCallReport explanation riskDescription)

/-- The rule reports the header and the calls. -/
def Rule17_1.rule : ReportingRule where
  ruleId := "misra-c2012-rule-17-1"
  reports artifact :=
    (forbiddenHeaderReports ["stdarg.h"]
      (fun found => "Header '" ++ found ++ "' provides <stdarg.h> facilities that are banned.")
      "Variadic argument handling is difficult to verify in safety-critical code."
      artifact.macroTable).map .directive ++
    (forbiddenCallReports ["va_start", "va_arg", "va_end", "va_copy"]
      (fun callee => "Call to variadic helper '" ++ callee ++ "' is banned.")
      "stdarg.h facilities shall not be used." artifact).map .node
  placed := by
    intro artifact report reported
    simp only [List.mem_append, List.mem_map, reduceCtorEq, and_false, exists_false, false_or] at reported
    obtain ⟨_, listed, same⟩ := reported
    cases same
    obtain ⟨node, inside, rfl⟩ := List.mem_map.mp listed
    exact (List.mem_filter.mp (List.mem_filter.mp inside).1).1

end MisraPlatform
