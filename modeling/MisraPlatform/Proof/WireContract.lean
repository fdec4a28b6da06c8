import MisraPlatform.Semantics.WireContract

/-
This file shows which fields of a response the dictionaries of the client keep.
-/

namespace MisraPlatform
open ClangAnalysis AstClient

/-! ### What is read back -/

theorem ofDict_rangeToDict (range : ClangAnalysis.SourceRange) :
    SourceRange.ofDict (rangeToDict range) = range.consulted := rfl

/-- The consulted fields that the decoder drops are read as their defaults. -/
def ConsultedNode.kept (node : ConsultedNode) : ConsultedNode :=
  { node with pointerNestingDepth := 0, isVariableLengthArray := false }

def ConsultedMacro.kept (item : ConsultedMacro) : ConsultedMacro :=
  { item with usesStringify := false, usesTokenPaste := false }

def Consulted.kept (consulted : Consulted) : Consulted :=
  { consulted with
    nodes := consulted.nodes.map ConsultedNode.kept
    macroDefinitions := consulted.macroDefinitions.map ConsultedMacro.kept
    undefDirectives := [] }

theorem read_nodeToDict (node : ClangAnalysis.AstNode) :
    ConsultedNode.read (nodeToDict node) = node.consulted.kept := by
  have children : Value.texts ((nodeToDict node).getList "children_ids") = node.childrenIds :=
    Value.texts_map node.childrenIds
  have qualifiers : Value.texts ((nodeToDict node).getList "qualifiers") = node.qualifiers :=
    Value.texts_map node.qualifiers
  have chain : Value.texts (((nodeToDict node).getDict "macro_origin").getList "expansion_chain") =
      node.macroOrigin.expansionChain := Value.texts_map node.macroOrigin.expansionChain
  have properties : ((nodeToDict node).getDict "semantic_properties").textEntries = node.semanticProperties :=
    Value.textEntries_map node.semanticProperties
  unfold ConsultedNode.read
  dsimp only
  rw [children, qualifiers, chain, properties]
  rfl

theorem read_macroToDict (item : MacroDefinition) :
    ConsultedMacro.read (macroToDict item) = item.consulted.kept := rfl

theorem read_expansionToDict (item : MacroExpansion) :
    ConsultedExpansion.read (expansionToDict item) = item.consulted := by
  have chain : Value.texts ((expansionToDict item).getList "chain") = item.chain := Value.texts_map item.chain
  unfold ConsultedExpansion.read
  rw [chain]
  rfl

theorem read_includeToDict (item : IncludeDirective) :
    ConsultedInclude.read (includeToDict item) = item.consulted := rfl

theorem read_branchToDict (item : ConditionalBranch) :
    ConsultedBranch.read (branchToDict item) = item.consulted := rfl

/-- The graph of the rules has the nodes of the response. -/
theorem ofDict_nodeToDict (node : ClangAnalysis.AstNode) : AstNode.ofDict (nodeToDict node) =
    { nodeId := node.nodeId
      nodeKind := .ofSpelling node.nodeKind
      parentId := node.parentId
      childrenIds := node.childrenIds
      sourceRange := node.sourceRange.consulted
      semanticProperties := node.semanticProperties
      essentialType := some node.essentialType
      typeSpelling := node.typeInformation.spelling
      fundamentalKind := node.typeInformation.fundamentalKind
      expansionChain := node.macroOrigin.expansionChain
      isPointer := node.typeInformation.isPointer
      isArray := node.typeInformation.isArray
      flags := []
      typedefChain := node.typeInformation.typedefChain } := by
  have children : Value.texts ((nodeToDict node).getList "children_ids") = node.childrenIds :=
    Value.texts_map node.childrenIds
  have chain : Value.texts (((nodeToDict node).getDict "macro_origin").getList "expansion_chain") =
      node.macroOrigin.expansionChain := Value.texts_map node.macroOrigin.expansionChain
  have properties : ((nodeToDict node).getDict "semantic_properties").textEntries = node.semanticProperties :=
    Value.textEntries_map node.semanticProperties
  have flags : ((nodeToDict node).getDict "semantic_properties").flagEntries = [] :=
    Value.flagEntries_map node.semanticProperties
  have index (value : ℕ) : ((nodeToDict node).getDict "semantic_properties").get "designator_index" ≠
      some (.number value) := Value.get_texts_ne_number node.semanticProperties
  unfold AstNode.ofDict
  rw [children, chain, properties, flags]
  congr 1
  split
  · next value found => exact absurd found (index value)
  · rfl

variable {filePath : String} {response : ParseTranslationUnitResponse}

theorem map_read {α β : Type} {toDict : α → Value} {read : Value → β} {view : α → β}
    (each : ∀ item, read (toDict item) = view item) (items : List α) :
    (items.map toDict).map read = items.map view := by
  rw [List.map_map]
  exact List.map_congr_left fun item _ => each item

theorem read_artifact (filePath : String) (response : ParseTranslationUnitResponse) :
    Consulted.read (artifact filePath response) = response.consulted.kept := by
  have nodes : (artifact filePath response).nodes.map ConsultedNode.read = _ :=
    map_read read_nodeToDict response.nodes
  have definitions : (MacroAnalyzer.macroDefinitions (artifact filePath response).macroTable).map
      ConsultedMacro.read = _ := map_read read_macroToDict response.preprocessor.macroDefinitions
  have expansions : ((artifact filePath response).macroTable.getList "macro_expansions").map
      ConsultedExpansion.read = _ := map_read read_expansionToDict response.preprocessor.macroExpansions
  have includes : ((artifact filePath response).macroTable.getList "include_directives").map
      ConsultedInclude.read = _ := map_read read_includeToDict response.preprocessor.includeDirectives
  have branches : ((artifact filePath response).macroTable.getList "conditional_branches").map
      ConsultedBranch.read = _ := map_read read_branchToDict response.preprocessor.conditionalBranches
  unfold Consulted.read Consulted.kept ParseTranslationUnitResponse.consulted
  rw [nodes, definitions, expansions, includes, branches, List.map_map, List.map_map]
  rfl

theorem ConsultedNode.kept_eq_iff {node : ConsultedNode} :
    node.kept = node ↔ node.pointerNestingDepth = 0 ∧ node.isVariableLengthArray = false := by
  constructor
  · intro same
    exact ⟨(congrArg pointerNestingDepth same).symm, (congrArg isVariableLengthArray same).symm⟩
  · rintro ⟨depth, size⟩
    unfold kept
    rw [← depth, ← size]

theorem ConsultedMacro.kept_eq_iff {item : ConsultedMacro} :
    item.kept = item ↔ item.usesStringify = false ∧ item.usesTokenPaste = false := by
  constructor
  · intro same
    exact ⟨(congrArg usesStringify same).symm, (congrArg usesTokenPaste same).symm⟩
  · rintro ⟨stringify, paste⟩
    obtain ⟨name, value, isFunctionLike, filePath, range, _, _⟩ := item
    obtain rfl := stringify
    obtain rfl := paste
    rfl

/-- The rules read back exactly the responses whose dropped fields are the defaults. -/
theorem read_artifact_iff : Consulted.read (artifact filePath response) = response.consulted ↔
    DropsNothing response := by
  rw [read_artifact]
  constructor
  · intro same
    have nodes := congrArg Consulted.nodes same
    have macros := congrArg Consulted.macroDefinitions same
    have undefs := congrArg Consulted.undefDirectives same
    dsimp only [Consulted.kept, ParseTranslationUnitResponse.consulted] at nodes macros undefs
    rw [List.map_map, List.map_inj_left] at nodes macros
    exact ⟨fun node inside => ConsultedNode.kept_eq_iff.mp (nodes node inside),
      fun item inside => ConsultedMacro.kept_eq_iff.mp (macros item inside), List.map_eq_nil_iff.mp undefs.symm⟩
  · rintro ⟨types, macros, undefs⟩
    have nodes : (response.nodes.map AstNode.consulted).map ConsultedNode.kept =
        response.nodes.map AstNode.consulted := by
      rw [List.map_map, List.map_inj_left]
      exact fun node inside => ConsultedNode.kept_eq_iff.mpr (types node inside)
    have definitions : (response.preprocessor.macroDefinitions.map MacroDefinition.consulted).map
        ConsultedMacro.kept = response.preprocessor.macroDefinitions.map MacroDefinition.consulted := by
      rw [List.map_map, List.map_inj_left]
      exact fun item inside => ConsultedMacro.kept_eq_iff.mpr (macros item inside)
    unfold Consulted.kept ParseTranslationUnitResponse.consulted
    rw [nodes, definitions, undefs]
    rfl

/-! ### What is reported -/

theorem detect_undefs_nil (filePath : String) (response : ParseTranslationUnitResponse) :
    Rule20_5.detect (artifact filePath response) = [] := rfl

theorem detect_operators_nil (filePath : String) (response : ParseTranslationUnitResponse) :
    Rule20_10.detect (artifact filePath response) = [] := by
  unfold Rule20_10.detect MacroAnalyzer.macrosUsingTokenOperators
  have nothing : (MacroAnalyzer.macroDefinitions (artifact filePath response).macroTable).filter (fun macroDef =>
      macroDef.truthy "uses_stringify" || macroDef.truthy "uses_token_paste") = [] := by
    change (response.preprocessor.macroDefinitions.map macroToDict).filter _ = []
    rw [List.filter_map, List.map_eq_nil_iff, List.filter_eq_nil_iff]
    exact fun _ _ => Bool.false_ne_true
  rw [nothing]
  rfl

theorem detect_nesting_nil (filePath : String) (response : ParseTranslationUnitResponse) :
    Rule18_5.detect (artifact filePath response) = [] := by
  unfold Rule18_5.detect
  rw [List.flatMap_eq_nil_iff]
  intro kind _
  rw [List.map_eq_nil_iff, List.filter_eq_nil_iff]
  intro dict listed
  obtain ⟨node, _, rfl⟩ := List.mem_map.mp (List.mem_filter.mp listed).1
  rw [show Rule18_5.depthOf (nodeToDict node) = 0 from rfl]
  decide

theorem undefsReported_iff : UndefsReported filePath response ↔ response.preprocessor.undefDirectives = [] := by
  unfold UndefsReported
  rw [detect_undefs_nil]
  simp only [List.not_mem_nil, false_and, exists_false, ← List.eq_nil_iff_forall_not_mem]

theorem operatorsReported_iff : OperatorsReported filePath response ↔
    ∀ item ∈ response.preprocessor.macroDefinitions, item.usesStringify = false ∧ item.usesTokenPaste = false := by
  unfold OperatorsReported
  rw [detect_operators_nil]
  simp only [List.not_mem_nil, false_and, exists_false, imp_false, not_or, Bool.not_eq_true]

theorem nestingReported_iff : NestingReported filePath response ↔
    ∀ node ∈ response.nodes, node.typeInformation.pointerNestingDepth ≤ Rule18_5.limit := by
  unfold NestingReported
  rw [detect_nesting_nil]
  simp only [List.not_mem_nil, false_and, exists_false, imp_false, Nat.not_lt]

/-- The dictionaries keep what the rules consult exactly when the dropped fields are the defaults. -/
theorem wirePreserved_iff (filePath : String) (response : ParseTranslationUnitResponse) :
    WirePreserved filePath response ↔ DropsNothing response := by
  constructor
  · intro preserved
    exact read_artifact_iff.mp preserved.reads
  · intro drops
    refine ⟨read_artifact_iff.mpr drops, undefsReported_iff.mpr drops.undefs,
      operatorsReported_iff.mpr drops.macros, nestingReported_iff.mpr fun node inside => ?_⟩
    rw [(drops.types node inside).1]
    exact Nat.zero_le _

/-! ### A response that loses its directives -/

/-- The response has `#undef MAX`, a macro with `#` and a variable of the type `int ***`. -/
def lossyResponse : ParseTranslationUnitResponse where
  nodes :=
    [{ nodeId := "node-1", nodeKind := "VarDecl",
       typeInformation := { spelling := "int ***", isPointer := true, pointerNestingDepth := 3 } }]
  preprocessor :=
    { macroDefinitions := [{ name := "STR", isFunctionLike := true, usesStringify := true }]
      undefDirectives := [{ macroName := "MAX" }] }

/-- Nothing that reads the dictionaries finds all consulted fields, and three rules miss the response. -/
theorem lossyResponse_lost :
    (¬ ∃ reading : Artifact → Consulted, ∀ response, reading (artifact "f.c" response) = response.consulted) ∧
      ¬ UndefsReported "f.c" lossyResponse ∧ ¬ OperatorsReported "f.c" lossyResponse ∧
      ¬ NestingReported "f.c" lossyResponse := by
  refine ⟨?_, ?_, ?_, ?_⟩
  · rintro ⟨reading, determines⟩
    have twin : artifact "f.c" { preprocessor := { undefDirectives := [{ macroName := "MAX" }] } } =
        artifact "f.c" {} := rfl
    have lost := determines { preprocessor := { undefDirectives := [{ macroName := "MAX" }] } }
    rw [twin, determines] at lost
    exact absurd (congrArg Consulted.undefDirectives lost) (by decide)
  · rw [undefsReported_iff]
    decide
  · rw [operatorsReported_iff]
    decide
  · rw [nestingReported_iff]
    decide

end MisraPlatform
