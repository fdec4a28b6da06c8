import MisraPlatform.Construction.Ast
import MisraPlatform.Construction.ClangAnalysis
import MisraPlatform.Library.Value

/-
This file is the dictionaries that the client builds from a response and the nodes that the rules read in
them.
-/

namespace MisraPlatform

namespace AstClient
open ClangAnalysis

def rangeToDict (sourceRange : ClangAnalysis.SourceRange) : Value :=
  .dict
    [("file_path", .text sourceRange.filePath), ("line_start", .number sourceRange.lineStart),
      ("line_end", .number sourceRange.lineEnd), ("column_start", .number sourceRange.columnStart),
      ("column_end", .number sourceRange.columnEnd), ("offset_start", .number sourceRange.offsetStart),
      ("offset_end", .number sourceRange.offsetEnd)]

/-- The fields from `is_incomplete` on are left out. -/
def typeToDict (info : TypeInformation) : Value :=
  .dict
    [("spelling", .text info.spelling), ("canonical_spelling", .text info.canonicalSpelling),
      ("typedef_chain", .text info.typedefChain), ("fundamental_kind", .text info.fundamentalKind),
      ("bit_width", .number info.bitWidth), ("is_signed", .flag info.isSigned),
      ("is_integer", .flag info.isInteger), ("is_floating", .flag info.isFloating),
      ("is_pointer", .flag info.isPointer), ("is_array", .flag info.isArray),
      ("is_record", .flag info.isRecord), ("is_typedef", .flag info.isTypedef),
      ("pointee_type", .text info.pointeeType)]

def nodeToDict (node : ClangAnalysis.AstNode) : Value :=
  .dict
    [("node_id", .text node.nodeId), ("node_kind", .text node.nodeKind),
      ("source_range", rangeToDict node.sourceRange), ("parent_id", .text node.parentId),
      ("children_ids", .list (node.childrenIds.map .text)),
      ("type_information", typeToDict node.typeInformation),
      ("qualifiers", .list (node.qualifiers.map .text)), ("essential_type", .text node.essentialType),
      ("macro_origin", .dict
        [("from_macro", .flag node.macroOrigin.fromMacro), ("macro_name", .text node.macroOrigin.macroName),
          ("expansion_chain", .list (node.macroOrigin.expansionChain.map .text))]),
      ("semantic_properties", .dict (node.semanticProperties.map fun entry => (entry.1, .text entry.2)))]

/-- The fields from `body_tokens` on are left out. -/
def macroToDict (item : MacroDefinition) : Value :=
  .dict
    [("name", .text item.name), ("value", .text item.value), ("is_function_like", .flag item.isFunctionLike),
      ("file_path", .text item.filePath), ("range", rangeToDict item.range)]

def expansionToDict (item : MacroExpansion) : Value :=
  .dict
    [("name", .text item.name), ("replacement", .text item.replacement),
      ("chain", .list (item.chain.map .text)), ("use_range", rangeToDict item.useRange),
      ("definition_range", rangeToDict item.definitionRange)]

def includeToDict (item : IncludeDirective) : Value :=
  .dict
    [("included_file", .text item.includedFile), ("resolved_path", .text item.resolvedPath),
      ("is_system", .flag item.isSystem), ("range", rangeToDict item.range)]

def branchToDict (item : ConditionalBranch) : Value :=
  .dict
    [("condition", .text item.condition), ("taken", .flag item.taken), ("directive", .text item.directive),
      ("range", rangeToDict item.range)]

/-- The directives `#undef` and `#pragma` are left out. -/
def preprocessorToDict (preprocessor : PreprocessorMetadata) : Value :=
  .dict
    [("macro_definitions", .list (preprocessor.macroDefinitions.map macroToDict)),
      ("macro_expansions", .list (preprocessor.macroExpansions.map expansionToDict)),
      ("include_directives", .list (preprocessor.includeDirectives.map includeToDict)),
      ("conditional_branches", .list (preprocessor.conditionalBranches.map branchToDict))]

end AstClient

/-! ### What the rules read -/

def NodeKind.known : List NodeKind :=
  [.compoundStmt, .ifStmt, .forStmt, .whileStmt, .doStmt, .switchStmt, .caseStmt, .defaultStmt, .labelStmt,
    .gotoStmt, .returnStmt, .breakStmt, .continueStmt, .functionDecl, .parmVarDecl, .varDecl, .enumDecl,
    .builtinType, .pointerType, .recordType, .declRefExpr, .binaryOperator, .unaryOperator, .callExpr]

def NodeKind.ofSpelling (spelling : String) : NodeKind :=
  (known.find? fun kind => kind.spelling = spelling).getD (.other spelling)

theorem NodeKind.spelling_ofSpelling (spelling : String) : (ofSpelling spelling).spelling = spelling := by
  unfold ofSpelling
  cases found : known.find? fun kind => kind.spelling = spelling with
  | none => rfl
  | some kind =>
      have same := List.find?_some found
      exact of_decide_eq_true same

def SourceRange.ofDict (range : Value) : SourceRange where
  filePath :=
    match range.get "file_path" with
    | some (.text filePath) => some filePath
    | _ => none
  lineStart := range.getNumber "line_start" 0
  lineEnd := range.getNumber "line_end" 0
  columnStart := range.getNumber "column_start" 0
  columnEnd := range.getNumber "column_end" 0

/-- The graph keeps the part of a dictionary that its queries read. -/
def AstNode.ofDict (node : Value) : AstNode where
  nodeId := node.getText "node_id" ""
  nodeKind := .ofSpelling (node.getText "node_kind" "")
  parentId := node.getText "parent_id" ""
  childrenIds := Value.texts (node.getList "children_ids")
  sourceRange := .ofDict (node.getDict "source_range")
  semanticProperties := (node.getDict "semantic_properties").textEntries
  essentialType :=
    match node.get "essential_type" with
    | some (.text essentialType) => some essentialType
    | _ => none
  typeSpelling := (node.getDict "type_information").getText "spelling" ""
  fundamentalKind := (node.getDict "type_information").getText "fundamental_kind" ""
  expansionChain := Value.texts ((node.getDict "macro_origin").getList "expansion_chain")
  isPointer := (node.getDict "type_information").truthy "is_pointer"
  isArray := (node.getDict "type_information").truthy "is_array"
  flags := (node.getDict "semantic_properties").flagEntries
  typedefChain := (node.getDict "type_information").getText "typedef_chain" ""
  designatorIndex :=
    match (node.getDict "semantic_properties").get "designator_index" with
    | some (.number index) => some index
    | _ => none

/-- The rules run on the dictionaries of one translation unit. -/
structure Artifact where
  filePath : String
  nodes : List Value
  macroTable : Value

def AstClient.artifact (filePath : String) (response : ClangAnalysis.ParseTranslationUnitResponse) :
    Artifact where
  filePath := filePath
  nodes := response.nodes.map nodeToDict
  macroTable := preprocessorToDict response.preprocessor

end MisraPlatform
