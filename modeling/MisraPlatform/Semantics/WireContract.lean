import MisraPlatform.Construction.PreprocessorRules

/-
This file is what the dictionaries of the client should keep of a response.
-/

namespace MisraPlatform
open ClangAnalysis

/-! ### What the rules consult -/

/-- These are the fields of a node that the decoder keeps and those that a rule asks for. -/
structure ConsultedNode where
  nodeId : String
  nodeKind : String
  sourceRange : MisraPlatform.SourceRange
  parentId : String
  childrenIds : List String
  spelling : String
  canonicalSpelling : String
  typedefChain : String
  fundamentalKind : String
  bitWidth : Nat
  isSigned : Bool
  isInteger : Bool
  isFloating : Bool
  isPointer : Bool
  isArray : Bool
  isRecord : Bool
  isTypedef : Bool
  pointeeType : String
  pointerNestingDepth : Nat
  isVariableLengthArray : Bool
  qualifiers : List String
  essentialType : String
  fromMacro : Bool
  macroName : String
  expansionChain : List String
  semanticProperties : List (String × String)
  deriving DecidableEq

structure ConsultedMacro where
  name : String
  value : String
  isFunctionLike : Bool
  filePath : String
  range : MisraPlatform.SourceRange
  usesStringify : Bool
  usesTokenPaste : Bool
  deriving DecidableEq

structure ConsultedExpansion where
  name : String
  replacement : String
  chain : List String
  useRange : MisraPlatform.SourceRange
  definitionRange : MisraPlatform.SourceRange
  deriving DecidableEq

structure ConsultedInclude where
  includedFile : String
  resolvedPath : String
  isSystem : Bool
  range : MisraPlatform.SourceRange
  deriving DecidableEq

structure ConsultedBranch where
  condition : String
  taken : Bool
  directive : String
  range : MisraPlatform.SourceRange
  deriving DecidableEq

structure ConsultedUndef where
  name : String
  range : MisraPlatform.SourceRange
  deriving DecidableEq

structure Consulted where
  nodes : List ConsultedNode
  macroDefinitions : List ConsultedMacro
  macroExpansions : List ConsultedExpansion
  includeDirectives : List ConsultedInclude
  conditionalBranches : List ConsultedBranch
  undefDirectives : List ConsultedUndef
  deriving DecidableEq

/-! ### Reading the dictionaries -/

/-- A rule reads a dictionary with the default that it falls back on. -/
def ConsultedNode.read (node : Value) : ConsultedNode :=
  let type := node.getDict "type_information"
  let origin := node.getDict "macro_origin"
  { nodeId := node.getText "node_id" ""
    nodeKind := node.getText "node_kind" ""
    sourceRange := .ofDict (node.getDict "source_range")
    parentId := node.getText "parent_id" ""
    childrenIds := Value.texts (node.getList "children_ids")
    spelling := type.getText "spelling" ""
    canonicalSpelling := type.getText "canonical_spelling" ""
    typedefChain := type.getText "typedef_chain" ""
    fundamentalKind := type.getText "fundamental_kind" ""
    bitWidth := type.getNumber "bit_width" 0
    isSigned := type.truthy "is_signed"
    isInteger := type.truthy "is_integer"
    isFloating := type.truthy "is_floating"
    isPointer := type.truthy "is_pointer"
    isArray := type.truthy "is_array"
    isRecord := type.truthy "is_record"
    isTypedef := type.truthy "is_typedef"
    pointeeType := type.getText "pointee_type" ""
    pointerNestingDepth := type.getNumber "pointer_nesting_depth" 0
    isVariableLengthArray := type.truthy "is_variable_length_array"
    qualifiers := Value.texts (node.getList "qualifiers")
    essentialType := node.getText "essential_type" ""
    fromMacro := origin.truthy "from_macro"
    macroName := origin.getText "macro_name" ""
    expansionChain := Value.texts (origin.getList "expansion_chain")
    semanticProperties := (node.getDict "semantic_properties").textEntries }

def ConsultedMacro.read (item : Value) : ConsultedMacro where
  name := item.getText "name" ""
  value := item.getText "value" ""
  isFunctionLike := item.truthy "is_function_like"
  filePath := item.getText "file_path" ""
  range := .ofDict (item.getDict "range")
  usesStringify := item.truthy "uses_stringify"
  usesTokenPaste := item.truthy "uses_token_paste"

def ConsultedExpansion.read (item : Value) : ConsultedExpansion where
  name := item.getText "name" ""
  replacement := item.getText "replacement" ""
  chain := Value.texts (item.getList "chain")
  useRange := .ofDict (item.getDict "use_range")
  definitionRange := .ofDict (item.getDict "definition_range")

def ConsultedInclude.read (item : Value) : ConsultedInclude where
  includedFile := item.getText "included_file" ""
  resolvedPath := item.getText "resolved_path" ""
  isSystem := item.truthy "is_system"
  range := .ofDict (item.getDict "range")

def ConsultedBranch.read (item : Value) : ConsultedBranch where
  condition := item.getText "condition" ""
  taken := item.truthy "taken"
  directive := item.getText "directive" ""
  range := .ofDict (item.getDict "range")

def ConsultedUndef.read (item : Value) : ConsultedUndef where
  name := item.getText "name" ""
  range := .ofDict (item.getDict "range")

def Consulted.read (artifact : Artifact) : Consulted where
  nodes := artifact.nodes.map .read
  macroDefinitions := (MacroAnalyzer.macroDefinitions artifact.macroTable).map .read
  macroExpansions := (artifact.macroTable.getList "macro_expansions").map .read
  includeDirectives := (artifact.macroTable.getList "include_directives").map .read
  conditionalBranches := (artifact.macroTable.getList "conditional_branches").map .read
  undefDirectives := (MacroAnalyzer.undefDirectives artifact.macroTable).map .read

/-! ### The fields of the response -/

/-- The path of a range is always there. -/
def ClangAnalysis.SourceRange.consulted (range : ClangAnalysis.SourceRange) : MisraPlatform.SourceRange where
  filePath := some range.filePath
  lineStart := range.lineStart
  lineEnd := range.lineEnd
  columnStart := range.columnStart
  columnEnd := range.columnEnd

def ClangAnalysis.AstNode.consulted (node : ClangAnalysis.AstNode) : ConsultedNode where
  nodeId := node.nodeId
  nodeKind := node.nodeKind
  sourceRange := node.sourceRange.consulted
  parentId := node.parentId
  childrenIds := node.childrenIds
  spelling := node.typeInformation.spelling
  canonicalSpelling := node.typeInformation.canonicalSpelling
  typedefChain := node.typeInformation.typedefChain
  fundamentalKind := node.typeInformation.fundamentalKind
  bitWidth := node.typeInformation.bitWidth
  isSigned := node.typeInformation.isSigned
  isInteger := node.typeInformation.isInteger
  isFloating := node.typeInformation.isFloating
  isPointer := node.typeInformation.isPointer
  isArray := node.typeInformation.isArray
  isRecord := node.typeInformation.isRecord
  isTypedef := node.typeInformation.isTypedef
  pointeeType := node.typeInformation.pointeeType
  pointerNestingDepth := node.typeInformation.pointerNestingDepth
  isVariableLengthArray := node.typeInformation.isVariableLengthArray
  qualifiers := node.qualifiers
  essentialType := node.essentialType
  fromMacro := node.macroOrigin.fromMacro
  macroName := node.macroOrigin.macroName
  expansionChain := node.macroOrigin.expansionChain
  semanticProperties := node.semanticProperties

def ClangAnalysis.MacroDefinition.consulted (item : MacroDefinition) : ConsultedMacro where
  name := item.name
  value := item.value
  isFunctionLike := item.isFunctionLike
  filePath := item.filePath
  range := item.range.consulted
  usesStringify := item.usesStringify
  usesTokenPaste := item.usesTokenPaste

def ClangAnalysis.MacroExpansion.consulted (item : MacroExpansion) : ConsultedExpansion where
  name := item.name
  replacement := item.replacement
  chain := item.chain
  useRange := item.useRange.consulted
  definitionRange := item.definitionRange.consulted

def ClangAnalysis.IncludeDirective.consulted (item : IncludeDirective) : ConsultedInclude where
  includedFile := item.includedFile
  resolvedPath := item.resolvedPath
  isSystem := item.isSystem
  range := item.range.consulted

def ClangAnalysis.ConditionalBranch.consulted (item : ConditionalBranch) : ConsultedBranch where
  condition := item.condition
  taken := item.taken
  directive := item.directive
  range := item.range.consulted

def ClangAnalysis.UndefDirective.consulted (item : UndefDirective) : ConsultedUndef where
  name := item.macroName
  range := item.range.consulted

def ClangAnalysis.ParseTranslationUnitResponse.consulted (response : ParseTranslationUnitResponse) :
    Consulted where
  nodes := response.nodes.map AstNode.consulted
  macroDefinitions := response.preprocessor.macroDefinitions.map MacroDefinition.consulted
  macroExpansions := response.preprocessor.macroExpansions.map MacroExpansion.consulted
  includeDirectives := response.preprocessor.includeDirectives.map IncludeDirective.consulted
  conditionalBranches := response.preprocessor.conditionalBranches.map ConditionalBranch.consulted
  undefDirectives := response.preprocessor.undefDirectives.map UndefDirective.consulted

/-! ### The promise -/

/-- The result stands at the range. -/
structure Locates (result : RuleResult) (range : ClangAnalysis.SourceRange) : Prop where
  file : result.filePath = range.filePath
  firstLine : result.lineStart = range.lineStart
  lastLine : result.lineEnd = range.lineEnd
  firstColumn : result.columnStart = range.columnStart
  lastColumn : result.columnEnd = range.columnEnd

def UndefsReported (filePath : String) (response : ParseTranslationUnitResponse) : Prop :=
  ∀ directive ∈ response.preprocessor.undefDirectives,
    ∃ result ∈ Rule20_5.detect (AstClient.artifact filePath response),
      result.explanation = Rule20_5.explanation directive.macroName ∧ Locates result directive.range

def OperatorsReported (filePath : String) (response : ParseTranslationUnitResponse) : Prop :=
  ∀ item ∈ response.preprocessor.macroDefinitions, item.usesStringify = true ∨ item.usesTokenPaste = true →
    ∃ result ∈ Rule20_10.detect (AstClient.artifact filePath response),
      result.explanation =
        Rule20_10.explanation item.name (Rule20_10.opText item.usesStringify item.usesTokenPaste) ∧
      Locates result item.range

def NestingReported (filePath : String) (response : ParseTranslationUnitResponse) : Prop :=
  ∀ node ∈ response.nodes, Rule18_5.limit < node.typeInformation.pointerNestingDepth →
    ∃ result ∈ Rule18_5.detect (AstClient.artifact filePath response), result.astNodeId = node.nodeId

/-- The rules read in the dictionaries what the response has, and three of them report all of it. -/
structure WirePreserved (filePath : String) (response : ParseTranslationUnitResponse) : Prop where
  reads : Consulted.read (AstClient.artifact filePath response) = response.consulted
  undefs : UndefsReported filePath response
  operators : OperatorsReported filePath response
  nesting : NestingReported filePath response

/-- The consulted fields that the decoder drops have their default values. -/
structure DropsNothing (response : ParseTranslationUnitResponse) : Prop where
  types : ∀ node ∈ response.nodes, node.typeInformation.pointerNestingDepth = 0 ∧
    node.typeInformation.isVariableLengthArray = false
  macros : ∀ item ∈ response.preprocessor.macroDefinitions,
    item.usesStringify = false ∧ item.usesTokenPaste = false
  undefs : response.preprocessor.undefDirectives = []

end MisraPlatform
