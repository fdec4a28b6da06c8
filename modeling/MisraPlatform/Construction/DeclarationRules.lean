import Mathlib.Data.List.Sort
import MisraPlatform.Construction.DataFlowEngineV2
import MisraPlatform.Construction.EssentialTypeEngine
import MisraPlatform.Construction.LinkageAnalyzer
import MisraPlatform.Construction.SymbolIndex

/-
This file is the rules on the names that a unit declares more than once, hides or does not use, and on the
values of its enumerators.
-/

namespace MisraPlatform
open BaseRulePlugin

namespace Rule5_3

def ruleId : String := "misra-c2012-rule-5-3"

def explanation (name : String) : String :=
  "'" ++ name ++ "' hides an identifier of the same name declared in an enclosing scope."

def riskDescription : String :=
  "A reader (or the author) may mistake the inner declaration for the outer one."

def confidenceFactors : List (String × Rat) :=
  [("ast_match_specificity", 9 / 10), ("type_information_complete", 85 / 100), ("macro_clarity", 9 / 10),
    ("historical_false_positive_rate", 1 / 10), ("fix_generator_certainty", 55 / 100)]

def suggestedFix (name : String) : SuggestedFix where
  originalCode := name
  suggestedCode := "rename the inner '" ++ name ++ "' to a distinct identifier"
  rationale := "Avoid shadowing an outer-scope declaration."
  confidenceScore := 55 / 100

def report (context : RuleContext) (inner : AstNode) : RuleResult :=
  let name := inner.property "name" ""
  makeResult ruleId context (graph context) inner (explanation name) riskDescription confidenceFactors (82 / 100)
    (some (suggestedFix name))

/-- Objects, parameters and functions are hidden by objects and parameters. -/
def offends (pair : AstNode × AstNode) : Bool :=
  [NodeKind.varDecl, .parmVarDecl, .functionDecl].contains pair.1.nodeKind &&
    [NodeKind.varDecl, .parmVarDecl].contains pair.2.nodeKind

def offending (graph : AstGraph) : List (AstNode × AstNode) := (SymbolIndex.shadowingPairs graph).filter offends

def detect (context : RuleContext) : List RuleResult :=
  (offending (graph context)).map fun pair => report context pair.2

end Rule5_3

namespace Rule2_7

def ruleId : String := "misra-c2012-rule-2-7"

def explanation (name functionName : String) : String :=
  "Parameter '" ++ name ++ "' of function '" ++ functionName ++ "' is never used."

def riskDescription : String := "An unused parameter may indicate dead logic or a forgotten implementation."

def confidenceFactors : List (String × Rat) :=
  [("ast_match_specificity", 85 / 100), ("type_information_complete", 85 / 100), ("macro_clarity", 9 / 10),
    ("historical_false_positive_rate", 2 / 10), ("fix_generator_certainty", 3 / 10)]

def suggestedFix (name : String) : SuggestedFix where
  originalCode := name
  suggestedCode := "(void)" ++ name ++ "; /* or remove the parameter if truly unneeded */"
  rationale := "Reference the parameter explicitly, or remove it from the signature."
  confidenceScore := 3 / 10

def report (context : RuleContext) (functionNode param : AstNode) : RuleResult :=
  let name := param.property "name" ""
  makeResult ruleId context (graph context) param
    (explanation name (functionNode.property "name" "<anonymous>")) riskDescription confidenceFactors (75 / 100)
    (some (suggestedFix name))

/-- A prototype has no body to check usage against. -/
def functionsWithBody (graph : AstGraph) : List AstNode :=
  (graph.nodesByKind .functionDecl).filter fun functionNode => graph.hasCompoundChild functionNode.nodeId

def unusedParams (graph : AstGraph) (functionNode : AstNode) : List AstNode :=
  (graph.children functionNode.nodeId).filter fun child =>
    child.nodeKind = .parmVarDecl && child.property "name" "" ≠ "" && !SymbolIndex.isReferenced graph child

def detect (context : RuleContext) : List RuleResult :=
  (functionsWithBody (graph context)).flatMap fun functionNode =>
    (unusedParams (graph context) functionNode).map (report context functionNode)

end Rule2_7

namespace Rule2_3

def ruleId : String := "misra-c2012-rule-2-3"

def explanation (name : String) : String := "Typedef '" ++ name ++ "' is declared but never used as a type."

def riskDescription : String := "Unused typedefs are dead declarative clutter that hinders review."

def confidenceFactors : List (String × Rat) :=
  [("ast_match_specificity", 8 / 10), ("type_information_complete", 75 / 100), ("macro_clarity", 9 / 10),
    ("historical_false_positive_rate", 25 / 100), ("fix_generator_certainty", 3 / 10)]

def suggestedFix (name : String) : SuggestedFix where
  originalCode := name
  suggestedCode := "remove the unused typedef '" ++ name ++ "'"
  rationale := "Delete typedefs that no declaration actually uses."
  confidenceScore := 3 / 10

def report (context : RuleContext) (node : AstNode) : RuleResult :=
  let name := node.property "name" ""
  makeResult ruleId context (graph context) node (explanation name) riskDescription confidenceFactors (7 / 10)
    (some (suggestedFix name))

def typedefs (graph : AstGraph) : List AstNode :=
  (graph.nodesByKind (.other "TypedefDecl")).filter fun node => node.property "name" "" ≠ ""

def offending (graph : AstGraph) : List AstNode :=
  (typedefs graph).filter fun node => !SymbolIndex.isTypeReferenced graph node

def detect (context : RuleContext) : List RuleResult := (offending (graph context)).map (report context)

end Rule2_3

namespace Rule8_8

def ruleId : String := "misra-c2012-rule-8-8"

def explanation (name : String) : String :=
  "'" ++ name ++ "' is declared 'static' elsewhere but not consistently on every declaration."

def riskDescription : String :=
  "An inconsistent static specifier obscures the identifier's true (internal) linkage."

def confidenceFactors : List (String × Rat) :=
  [("ast_match_specificity", 85 / 100), ("type_information_complete", 8 / 10), ("macro_clarity", 85 / 100),
    ("historical_false_positive_rate", 15 / 100), ("fix_generator_certainty", 6 / 10)]

def suggestedFix (name : String) : SuggestedFix where
  originalCode := name
  suggestedCode := "static " ++ name
  rationale := "Repeat 'static' on every declaration of an internal-linkage identifier."
  confidenceScore := 6 / 10

def report (context : RuleContext) (name : String) (inconsistent : AstNode) : RuleResult :=
  makeResult ruleId context (graph context) inconsistent (explanation name) riskDescription confidenceFactors
    (78 / 100) (some (suggestedFix name))

def isDefinitionKind (decl : AstNode) : Bool := decl.nodeKind = .functionDecl || decl.nodeKind = .varDecl

/-- The first declaration that is not static is reported. -/
def inconsistent (decls : List AstNode) : Option AstNode :=
  let storageClasses := (decls.map SymbolIndex.storageClass).dedup
  if decls.length < 2 || !storageClasses.contains "static" || storageClasses.length ≤ 1 then none
  else decls.find? fun decl => SymbolIndex.storageClass decl ≠ "static"

def offending (graph : AstGraph) : List (String × AstNode) :=
  (SymbolIndex.allNames graph).filterMap fun name =>
    (inconsistent ((SymbolIndex.declarations graph name).filter isDefinitionKind)).map fun decl => (name, decl)

def detect (context : RuleContext) : List RuleResult :=
  (offending (graph context)).map fun entry => report context entry.1 entry.2

end Rule8_8

namespace LinkageIndex

def Data.nonDefiningExternalTranslationUnits (data : Data) (name : String) : List String :=
  (((data.externalOccurrences name).filter fun occurrence => !occurrence.hasBody).map
    Occurrence.translationUnitId).dedup

end LinkageIndex

namespace Rule8_5

def ruleId : String := "misra-c2012-rule-8-5"

def explanation (name : String) (count : Nat) : String :=
  "'" ++ name ++ "' has a non-defining declaration repeated in " ++ toString count ++
    " different files instead of one shared header."

def riskDescription : String := "Duplicated hand-written prototypes can silently drift out of sync."

def confidenceFactors : List (String × Rat) :=
  [("ast_match_specificity", 75 / 100), ("type_information_complete", 7 / 10), ("macro_clarity", 75 / 100),
    ("historical_false_positive_rate", 3 / 10), ("fix_generator_certainty", 5 / 10)]

def suggestedFix (name : String) : SuggestedFix where
  originalCode := "declaration of " ++ name
  suggestedCode := "declare '" ++ name ++ "' once in a shared header and #include it everywhere"
  rationale := "Centralize the declaration instead of repeating it per file."
  confidenceScore := 5 / 10

def report (context : RuleContext) (name : String) (count : Nat) (localDecl : AstNode) : RuleResult :=
  makeResult ruleId context (graph context) localDecl (explanation name count) riskDescription confidenceFactors
    (65 / 100) (some (suggestedFix name))

/-- This is the search of the other rule. -/
def localDecl (context : RuleContext) (name : String) : Option AstNode := Rule5_8.localDecl context name

/-- The context is that of the unit with this id. -/
def reportName (linkage : LinkageIndex.Data) (translationUnitId : String) (context : RuleContext) (name : String) :
    Option RuleResult :=
  let nonDefining := linkage.nonDefiningExternalTranslationUnits name
  if nonDefining.length ≤ 1 || !nonDefining.contains translationUnitId then none
  else (localDecl context name).map (report context name nonDefining.length)

def offendingNames (linkage : LinkageIndex.Data) (translationUnitId : String) (context : RuleContext) :
    List String :=
  if linkage.symbols.entries.isEmpty then []
  else linkage.allNames.filter fun name => (reportName linkage translationUnitId context name).isSome

def detect (linkage : LinkageIndex.Data) (translationUnitId : String) (context : RuleContext) : List RuleResult :=
  (offendingNames linkage translationUnitId context).filterMap (reportName linkage translationUnitId context)

end Rule8_5

namespace LinkageIndex

/-- The type spellings of the external declarations of a name, each once. -/
def Data.typeSpellings (data : Data) (name : String) : List String :=
  (((data.externalOccurrences name).map Occurrence.typeSpelling).filter fun spelling => spelling ≠ "").dedup

def Data.incompatibleTypeSpellings (data : Data) (name : String) : List (String × String) :=
  if (data.typeSpellings name).length ≤ 1 then []
  else orderedPairs ((data.typeSpellings name).insertionSort (· ≤ ·))

end LinkageIndex

namespace LinkageIndex

/-- The names with the same first characters stand under these characters. -/
def Data.truncated (data : Data) (significantChars : Nat) : OrderedDict String (List String) :=
  data.allNames.foldl (fun truncated name =>
    appendTo truncated (String.ofList (name.toList.take significantChars)) name) .empty

def Data.duplicateNamesWithin (data : Data) (significantChars : Nat) : List (String × String) :=
  (data.truncated significantChars).values.flatMap fun names =>
    orderedPairs (names.dedup.insertionSort (· ≤ ·))

def Data.singleTranslationUnit (data : Data) (name : String) : Option String :=
  match ((data.occurrences name).map Occurrence.translationUnitId).dedup with
  | [translationUnitId] => some translationUnitId
  | _ => none

def Data.internalLinkageOccurrences (data : Data) (name : String) : List Occurrence :=
  (data.occurrences name).filter fun occurrence => occurrence.storageClass = "static"

def Data.internalLinkageTranslationUnits (data : Data) (name : String) : List String :=
  ((data.internalLinkageOccurrences name).map Occurrence.translationUnitId).dedup

end LinkageIndex

namespace Rule5_1

def ruleId : String := "misra-c2012-rule-5-1"

/-- This is `_SIGNIFICANT_CHARS`. -/
def significantChars : Nat := 31

def explanation (first second : String) : String :=
  "External identifiers '" ++ first ++ "' and '" ++ second ++ "' collide within the first " ++
    toString significantChars ++ " characters."

def riskDescription : String := "Truncating toolchains may link the wrong symbol without warning."

def confidenceFactors : List (String × Rat) :=
  [("ast_match_specificity", 85 / 100), ("type_information_complete", 7 / 10), ("macro_clarity", 9 / 10),
    ("historical_false_positive_rate", 15 / 100), ("fix_generator_certainty", 4 / 10)]

def suggestedFix (first second : String) : SuggestedFix where
  originalCode := first ++ " / " ++ second
  suggestedCode := "rename one identifier so both are distinct within significant length"
  rationale := "Avoid relying on toolchain-specific significant-character limits."
  confidenceScore := 4 / 10

def report (context : RuleContext) (names : String × String) (localDecl : AstNode) : RuleResult :=
  makeResult ruleId context (graph context) localDecl (explanation names.1 names.2) riskDescription confidenceFactors
    (78 / 100) (some (suggestedFix names.1 names.2))

/-- The declaration may stand in any scope. -/
def localDecl (context : RuleContext) (names : String × String) : Option AstNode :=
  context.astNodes.find? fun node => (node.nodeKind = .functionDecl || node.nodeKind = .varDecl) &&
    (node.semanticProperties.lookup "name" = some names.1 || node.semanticProperties.lookup "name" = some names.2)

/-- Of the pairs with a declaration in the unit each is reported once, whichever name comes first. -/
def offending (linkage : LinkageIndex.Data) (context : RuleContext) : List ((String × String) × AstNode) :=
  if linkage.symbols.entries.isEmpty then []
  else keepFirst (fun entry => ({entry.1.1, entry.1.2} : Finset String)) []
    ((linkage.duplicateNamesWithin significantChars).filterMap fun names =>
      (localDecl context names).map fun node => (names, node))

def detect (linkage : LinkageIndex.Data) (context : RuleContext) : List RuleResult :=
  (offending linkage context).map fun entry => report context entry.1 entry.2

end Rule5_1

namespace Rule5_9

def ruleId : String := "misra-c2012-rule-5-9"

def explanation (name : String) (count : Nat) : String :=
  "Internal-linkage identifier '" ++ name ++ "' is reused in " ++ toString count ++ " files."

def riskDescription : String := "Reusing a static identifier's name across files hinders whole-program review."

def confidenceFactors : List (String × Rat) :=
  [("ast_match_specificity", 75 / 100), ("type_information_complete", 7 / 10), ("macro_clarity", 85 / 100),
    ("historical_false_positive_rate", 25 / 100), ("fix_generator_certainty", 35 / 100)]

def suggestedFix (name : String) : SuggestedFix where
  originalCode := name
  suggestedCode := "give each file's static '" ++ name ++ "' a distinct, more specific name"
  rationale := "Avoid reusing a static identifier's spelling across unrelated files."
  confidenceScore := 35 / 100

def report (context : RuleContext) (name : String) (count : Nat) (localDecl : AstNode) : RuleResult :=
  makeResult ruleId context (graph context) localDecl (explanation name count) riskDescription confidenceFactors
    (65 / 100) (some (suggestedFix name))

/-- A static object of a function is found too. -/
def localDecl (context : RuleContext) (name : String) : Option AstNode :=
  context.astNodes.find? fun node => (node.nodeKind = .functionDecl || node.nodeKind = .varDecl) &&
    (node.semanticProperties.lookup "name" = some name &&
      node.semanticProperties.lookup "storage_class" = some "static")

/-- The context is that of the unit with this id. -/
def offending (linkage : LinkageIndex.Data) (translationUnitId : String) (context : RuleContext) :
    List (String × AstNode) :=
  if linkage.symbols.entries.isEmpty then []
  else linkage.allNames.filterMap fun name =>
    if (linkage.internalLinkageTranslationUnits name).length ≤ 1 then none
    else if translationUnitId ∉ linkage.internalLinkageTranslationUnits name then none
    else (localDecl context name).map fun node => (name, node)

def detect (linkage : LinkageIndex.Data) (translationUnitId : String) (context : RuleContext) : List RuleResult :=
  (offending linkage translationUnitId context).map fun entry =>
    report context entry.1 (linkage.internalLinkageTranslationUnits entry.1).length entry.2

end Rule5_9

namespace Rule8_7

def ruleId : String := "misra-c2012-rule-8-7"

def explanation (name : String) : String :=
  "'" ++ name ++ "' has external linkage but is only used in this translation unit."

def riskDescription : String := "Needless external linkage increases the whole-program symbol surface."

def confidenceFactors : List (String × Rat) :=
  [("ast_match_specificity", 75 / 100), ("type_information_complete", 7 / 10), ("macro_clarity", 85 / 100),
    ("historical_false_positive_rate", 25 / 100), ("fix_generator_certainty", 55 / 100)]

def suggestedFix (name : String) : SuggestedFix where
  originalCode := name
  suggestedCode := "static " ++ name
  rationale := "Give the symbol internal linkage since no other TU references it."
  confidenceScore := 55 / 100

def report (context : RuleContext) (node : AstNode) : RuleResult :=
  let name := node.property "name" ""
  makeResult ruleId context (graph context) node (explanation name) riskDescription confidenceFactors (68 / 100)
    (some (suggestedFix name))

def offends (linkage : LinkageIndex.Data) (translationUnitId : String) (context : RuleContext) (node : AstNode) : Bool :=
  (graph context).isFileScope node.nodeId && node.property "name" "" ≠ "" &&
    node.property "storage_class" "external" ≠ "static" &&
      linkage.singleTranslationUnit (node.property "name" "") = some translationUnitId

def offending (linkage : LinkageIndex.Data) (translationUnitId : String) (context : RuleContext) : List AstNode :=
  if linkage.symbols.entries.isEmpty then []
  else ([.functionDecl, .varDecl].flatMap (graph context).nodesByKind).filter
    (offends linkage translationUnitId context)

def detect (linkage : LinkageIndex.Data) (translationUnitId : String) (context : RuleContext) : List RuleResult :=
  (offending linkage translationUnitId context).map (report context)

end Rule8_7

namespace Rule5_2

def ruleId : String := "misra-c2012-rule-5-2"

def explanation (name : String) (firstKind secondKind : NodeKind) : String :=
  "'" ++ name ++ "' is declared as a " ++ firstKind.spelling ++ " and also as a " ++ secondKind.spelling ++
    ", colliding across identifier namespaces."

def riskDescription : String := "Cross-namespace name reuse is confusing even though it compiles."

def confidenceFactors : List (String × Rat) :=
  [("ast_match_specificity", 85 / 100), ("type_information_complete", 8 / 10), ("macro_clarity", 9 / 10),
    ("historical_false_positive_rate", 15 / 100), ("fix_generator_certainty", 4 / 10)]

def suggestedFix (name : String) : SuggestedFix where
  originalCode := name
  suggestedCode := "rename one of the two declarations of '" ++ name ++ "'"
  rationale := "Give every declaration a distinct spelling regardless of namespace."
  confidenceScore := 4 / 10

def report (context : RuleContext) (first second : AstNode) : RuleResult :=
  let name := first.property "name" ""
  makeResult ruleId context (graph context) second (explanation name first.nodeKind second.nodeKind) riskDescription
    confidenceFactors (75 / 100) (some (suggestedFix name))

/-- Two declarations are reported once. -/
def offending (graph : AstGraph) : List (AstNode × AstNode) :=
  keepFirst (fun pair => ({pair.1.nodeId, pair.2.nodeId} : Finset String)) []
    (SymbolIndex.crossNamespaceCollisions graph)

def detect (context : RuleContext) : List RuleResult :=
  (offending (graph context)).map fun pair => report context pair.1 pair.2

end Rule5_2

namespace Rule8_4

def ruleId : String := "misra-c2012-rule-8-4"

def explanation (name : String) : String :=
  "External linkage definition of '" ++ name ++ "' has no prior compatible declaration in this translation unit."

def riskDescription : String := "Cross-TU type mismatches may remain undetected until link time."

def confidenceFactors : List (String × Rat) :=
  [("ast_match_specificity", 85 / 100), ("type_information_complete", 7 / 10), ("macro_clarity", 9 / 10),
    ("historical_false_positive_rate", 2 / 10), ("fix_generator_certainty", 6 / 10)]

def suggestedFix (name : String) : SuggestedFix where
  originalCode := "definition of " ++ name
  suggestedCode := "extern declaration for " ++ name ++ " before definition"
  rationale := "Provide a visible compatible declaration before the definition."
  confidenceScore := 6 / 10

def report (context : RuleContext) (node : AstNode) : RuleResult :=
  let name := node.property "name" ""
  makeResult ruleId context (graph context) node (explanation name) riskDescription confidenceFactors (82 / 100)
    (some (suggestedFix name))

/-- The functions come before the objects, and both may stand in any scope. -/
def pool (graph : AstGraph) : List AstNode :=
  (graph.nodesByKind .functionDecl ++ graph.nodesByKind .varDecl).filter fun node => node.property "name" "" ≠ ""

def declarations (graph : AstGraph) : OrderedDict String (List AstNode) :=
  ((pool graph).map fun node => (node.property "name" "", node)).foldl
    (fun declarations entry => LinkageIndex.appendTo declarations entry.1 entry.2) .empty

/-- The last declaration of a name is checked. -/
def undeclared (graph : AstGraph) (nodes : List AstNode) : Option AstNode :=
  nodes.getLast?.bind fun last =>
    if !graph.isFileScope last.nodeId then none
    else if last.property "storage_class" "external" = "static" then none
    else
      let hasBody := graph.hasCompoundChild last.nodeId
      if !hasBody && nodes.length = 1 then none
      else if nodes.length = 1 && hasBody then nodes.head?
      else none

def offending (graph : AstGraph) : List AstNode :=
  (declarations graph).entries.filterMap fun entry => undeclared graph entry.2

def retypedExplanation (name : String) : String :=
  "'" ++ name ++ "' has external linkage but incompatible declared types across translation units."

def retypedRiskDescription : String :=
  "Incompatible cross-TU declarations are undefined behaviour at link time."

def retypedConfidenceFactors : List (String × Rat) :=
  [("ast_match_specificity", 85 / 100), ("type_information_complete", 75 / 100), ("macro_clarity", 9 / 10),
    ("historical_false_positive_rate", 15 / 100), ("fix_generator_certainty", 3 / 10)]

def reportRetyped (context : RuleContext) (name : String) (node : AstNode) : RuleResult :=
  makeResult ruleId context (graph context) node (retypedExplanation name) retypedRiskDescription
    retypedConfidenceFactors (8 / 10)

/-- A declaration that is reported already is not reported for its type. -/
def retyped (linkage : LinkageIndex.Data) (context : RuleContext) (results : List RuleResult) (name : String) :
    Option RuleResult :=
  if (linkage.incompatibleTypeSpellings name).isEmpty then none
  else
    (((declarations (graph context)).get? name).bind List.getLast?).bind fun node =>
      if (results.map RuleResult.offendingExpression).contains (node.nodeKind.spelling ++ " " ++ name) then none
      else some (reportRetyped context name node)

def detect (linkage : LinkageIndex.Data) (context : RuleContext) : List RuleResult :=
  let results := (offending (graph context)).map (report context)
  if linkage.symbols.entries.isEmpty then results
  else results ++ linkage.allNames.filterMap (retyped linkage context results)

end Rule8_4

namespace Rule8_12
open EssentialTypeEngine

def ruleId : String := "misra-c2012-rule-8-12"

def explanation (name : String) : String :=
  "Implicit enumerator '" ++ name ++ "' duplicates another implicit value in the same enum."

def riskDescription : String := "Duplicate implicit enumerator values are confusing and often unintended."

def confidenceFactors : List (String × Rat) :=
  [("ast_match_specificity", 9 / 10), ("type_information_complete", 85 / 100), ("macro_clarity", 9 / 10),
    ("historical_false_positive_rate", 1 / 10), ("fix_generator_certainty", 45 / 100)]

def suggestedFix (name : String) : SuggestedFix where
  originalCode := name
  suggestedCode := "assign '" ++ name ++ "' an explicit unique enumerator value"
  rationale := "Give every enumerator an explicit, unique value."
  confidenceScore := 45 / 100

/-- This is `_enum_result`. -/
def report (context : RuleContext) (node : AstNode) : RuleResult :=
  let name := node.property "name" "<enumerator>"
  makeResult ruleId context (graph context) node (explanation name) riskDescription confidenceFactors (85 / 100)
    (some (suggestedFix name))

/-- This is `_meta_true`. -/
def metaTrue (value : Option PropertyValue) : Bool := value = some (.flag true) || value = some (.text "true")

/-- This is `int(text)`, and a `ValueError` is `none`. -/
def toInt (text : String) : Option Int :=
  match (text.toList.dropWhile whitespace.contains).rdropWhile whitespace.contains with
  | '-' :: rest => (readDigits 10 rest).map fun value => -(value : Int)
  | '+' :: rest => (readDigits 10 rest).map Int.ofNat
  | rest => (readDigits 10 rest).map Int.ofNat

/-- An absent value counts as -1, and a boolean is a number. -/
def enumeratorValue (node : AstNode) : Option Int :=
  match node.value "enumerator_value" with
  | none => some (-1)
  | some (.text text) => toInt text
  | some (.flag value) => some (if value then 1 else 0)

/-- The two tables of `implicit_by_parent` are one with both keys. -/
structure Scan where
  reported : List String := []
  results : List AstNode := []
  implicitByParent : OrderedDict (String × Int) AstNode := .empty

def Scan.report (scan : Scan) (node : AstNode) : Scan :=
  if node.nodeId ∈ scan.reported then scan
  else { scan with reported := node.nodeId :: scan.reported, results := scan.results ++ [node] }

def visitMarked (scan : Scan) (node : AstNode) : Scan :=
  if metaTrue (node.value "duplicate_implicit_enumerator") then scan.report node else scan

/-- Later enumerators are compared with the first one of the value. -/
def visitImplicit (scan : Scan) (node : AstNode) : Scan :=
  if node.nodeId ∈ scan.reported then scan
  else if !metaTrue (node.value "is_implicit_enumerator") then scan
  else
    match enumeratorValue node with
    | none => scan
    | some value =>
        match scan.implicitByParent.get? (node.parentId, value) with
        | none => { scan with implicitByParent := scan.implicitByParent.insert (node.parentId, value) node }
        | some first => (scan.report first).report node

def enumerators (graph : AstGraph) : List AstNode := graph.nodesByKind (.other "EnumConstantDecl")

def offending (graph : AstGraph) : List AstNode :=
  ((enumerators graph).foldl visitImplicit ((enumerators graph).foldl visitMarked {})).results

def detect (context : RuleContext) : List RuleResult := (offending (graph context)).map (report context)

end Rule8_12

namespace Rule17_8

def ruleId : String := "misra-c2012-rule-17-8"

def explanation (paramName : String) : String := "Function parameter '" ++ paramName ++ "' is modified."

def riskDescription : String := "Modifying a parameter can confuse callers about side effects."

def confidenceFactors : List (String × Rat) :=
  [("ast_match_specificity", 85 / 100), ("type_information_complete", 8 / 10), ("macro_clarity", 85 / 100),
    ("historical_false_positive_rate", 15 / 100), ("fix_generator_certainty", 45 / 100)]

def suggestedFix (ref : AstNode) (paramName : String) : SuggestedFix where
  originalCode := AstGraph.offendingText ref
  suggestedCode := "use a local copy instead of modifying '" ++ paramName ++ "'"
  rationale := "Copy the parameter to a local variable before mutation."
  confidenceScore := 45 / 100

def report (context : RuleContext) (ref : AstNode) : RuleResult :=
  let paramName := ref.property "name" "<param>"
  makeResult ruleId context (graph context) ref (explanation paramName) riskDescription confidenceFactors (78 / 100)
    (some (suggestedFix ref paramName))

/-- A prototype is not checked. -/
def offending (graph : AstGraph) (functionNode : AstNode) : Option (List AstNode) :=
  if graph.hasCompoundChild functionNode.nodeId = false then some []
  else (CFGEngine.build functionNode graph).map fun cfg =>
    DataFlowEngineV2.modifiedParameters functionNode cfg graph

def detect (context : RuleContext) : Option (List RuleResult) := do
  let refs ← ((graph context).nodesByKind .functionDecl).mapM (offending (graph context))
  some (refs.flatten.map (report context))

end Rule17_8

end MisraPlatform
