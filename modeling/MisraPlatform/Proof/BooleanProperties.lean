import MisraPlatform.Library.StatefulFilter
import MisraPlatform.Proof.AliasOrder
import MisraPlatform.Proof.Relabeling
import MisraPlatform.Semantics.BooleanProperties

/-
This file shows when the results do not depend on how the booleans are written.
-/

namespace MisraPlatform
open DataFlowEngineV2 AliasAnalyzer

/-! ### Values -/

theorem lookup_filterMap_keys {ν : Type} (keys : List String) (find : String → Option ν) (key : String) :
    (keys.filterMap fun other => (find other).map fun value => (other, value)).lookup key =
      if key ∈ keys then find key else none := by
  induction keys with
  | nil => rfl
  | cons other keys ih =>
      rw [List.filterMap_cons]
      by_cases same : key = other
      · subst same
        cases found : find key with
        | none => simpa [found] using ih
        | some value => simp
      · cases find other with
        | none => simpa [same] using ih
        | some value => simpa [OrderedDict.lookup_cons_if, same] using ih

/-- A filter that keeps what a key finds does not change what it finds. -/
theorem lookup_filter {ν : Type} {keep : String × ν → Bool} {key : String} {entries : List (String × ν)}
    (kept : ∀ value, entries.lookup key = some value → keep (key, value) = true) :
    (entries.filter keep).lookup key = entries.lookup key := by
  induction entries with
  | nil => rfl
  | cons entry entries ih =>
      obtain ⟨other, value⟩ := entry
      by_cases same : key = other
      · subst same
        have here : keep (key, value) = true := kept value (by simp)
        rw [List.filter_cons_of_pos here, List.lookup_cons_self, List.lookup_cons_self]
      · have later : (entries.filter keep).lookup key = entries.lookup key :=
          ih fun found there => kept found (by simpa [OrderedDict.lookup_cons_if, same] using there)
        rw [List.filter_cons]
        split
        · simp [OrderedDict.lookup_cons_if, same, later]
        · simp [OrderedDict.lookup_cons_if, same, later]

def PropertyValue.replaced : PropertyValue → PropertyValue
  | .text value => (booleanOf value).elim (.text value) .flag
  | .flag value => .flag value

namespace AstNode

variable (node : AstNode) {key : String}

theorem lookup_flags : node.replaceBooleans.flags.lookup key =
    (node.flags.lookup key).or
      (if key ∈ BOOLEAN_PROPERTIES then (node.semanticProperties.lookup key).bind booleanOf else none) := by
  unfold replaceBooleans
  rw [List.lookup_append, lookup_filterMap_keys]

/-- A boolean property keeps every text that stands for no boolean. -/
theorem lookup_texts
    (kept : key ∈ BOOLEAN_PROPERTIES → (node.semanticProperties.lookup key).bind booleanOf = none) :
    node.replaceBooleans.semanticProperties.lookup key = node.semanticProperties.lookup key := by
  refine lookup_filter fun text found => ?_
  by_cases boolean : key ∈ BOOLEAN_PROPERTIES
  · have other := kept boolean
    rw [found, Option.bind_some] at other
    simp [isBooleanText, other]
  · simp [isBooleanText, boolean]

theorem value_replaceBooleans (boolean : key ∈ BOOLEAN_PROPERTIES) :
    node.replaceBooleans.value key = (node.value key).map PropertyValue.replaced := by
  unfold value
  rw [lookup_flags, if_pos boolean]
  cases node.flags.lookup key with
  | some flag => simp [PropertyValue.replaced]
  | none =>
      cases decoded : (node.semanticProperties.lookup key).bind booleanOf with
      | some flag =>
          obtain ⟨text, found, stands⟩ := Option.bind_eq_some_iff.mp decoded
          simp [found, PropertyValue.replaced, stands]
      | none =>
          rw [node.lookup_texts fun _ => decoded]
          cases found : node.semanticProperties.lookup key with
          | none => rfl
          | some text =>
              rw [found, Option.bind_some] at decoded
              simp [PropertyValue.replaced, decoded]

theorem property_replaceBooleans (other : key ∉ BOOLEAN_PROPERTIES) (default : String) :
    node.replaceBooleans.property key default = node.property key default := by
  unfold property
  rw [node.lookup_texts fun boolean => absurd boolean other]

/-- Only the text `false` counts otherwise after the replacement. -/
theorem truthy_replaceBooleans (boolean : key ∈ BOOLEAN_PROPERTIES) :
    node.replaceBooleans.truthy key = true ↔ node.affirms key := by
  unfold affirms denies truthy
  rw [node.value_replaceBooleans boolean]
  cases node.value key with
  | none => simp
  | some found =>
      cases found with
      | flag flag => simp [PropertyValue.replaced, PropertyValue.truthy]
      | text text =>
          simp only [PropertyValue.replaced, booleanOf, Option.map_some, Option.any_some]
          split
          · rename_i same
            subst same
            simp [PropertyValue.truthy]
          · split
            · rename_i same
              subst same
              simp [PropertyValue.truthy]
            · rename_i another
              simp [PropertyValue.truthy, another]

theorem keepsTree_replaceBooleans : KeepsTree replaceBooleans := ⟨fun _ => rfl, fun _ => rfl⟩

@[simp] theorem nodeId_replaceBooleans : node.replaceBooleans.nodeId = node.nodeId := rfl

@[simp] theorem nodeKind_replaceBooleans : node.replaceBooleans.nodeKind = node.nodeKind := rfl

@[simp] theorem parentId_replaceBooleans : node.replaceBooleans.parentId = node.parentId := rfl

theorem sourceRange_replaceBooleans : node.replaceBooleans.sourceRange = node.sourceRange := rfl

@[simp] theorem name_replaceBooleans : node.replaceBooleans.property "name" "" = node.property "name" "" :=
  node.property_replaceBooleans (by decide) ""

end AstNode

/-! ### Marks -/

/-- A mark that counts is affirmed or denied. -/
theorem truthy_iff {node : AstNode} {key : String} :
    node.truthy key = true ↔ node.affirms key ∨ node.denies key := by
  constructor
  · intro marked
    by_cases denies : node.denies key
    · exact .inr denies
    · exact .inl ⟨marked, denies⟩
  · rintro (affirms | denies)
    · exact affirms.1
    · unfold AstNode.denies at denies
      unfold AstNode.truthy
      rw [denies]
      rfl

theorem truthy_of_not_denies {node : AstNode} {key : String} (boolean : key ∈ BOOLEAN_PROPERTIES)
    (settled : ¬ node.denies key) : node.replaceBooleans.truthy key = node.truthy key := by
  rw [Bool.eq_iff_iff, node.truthy_replaceBooleans boolean, truthy_iff, or_iff_left settled]

/-- Some node of a list counts in both ways exactly when its denials are outvoted. -/
theorem any_replaceBooleans_iff {key : String} (boolean : key ∈ BOOLEAN_PROPERTIES) (nodes : List AstNode) :
    (nodes.any fun node => node.replaceBooleans.truthy key) = (nodes.any fun node => node.truthy key) ↔
      Outvoted nodes key := by
  rw [Bool.eq_iff_iff]
  simp only [List.any_eq_true, AstNode.truthy_replaceBooleans _ boolean, truthy_iff]
  constructor
  · rintro ⟨_, back⟩ ⟨node, inside, denies⟩
    exact back ⟨node, inside, .inr denies⟩
  · intro outvoted
    constructor
    · rintro ⟨node, inside, affirms⟩
      exact ⟨node, inside, .inl affirms⟩
    · rintro ⟨node, inside, affirms | denies⟩
      · exact ⟨node, inside, affirms⟩
      · exact outvoted ⟨node, inside, denies⟩

/-- A stricter filter gives the same images exactly when it keeps the same items. -/
theorem map_filter_eq_iff {α β : Type} {strict loose : α → Bool} (image : α → β) (list : List α)
    (stricter : ∀ item, strict item = true → loose item = true) :
    (list.filter strict).map image = (list.filter loose).map image ↔
      ∀ item ∈ list, strict item = loose item := by
  constructor
  · intro same
    have sizes : (list.filter strict).length = (list.filter loose).length := by
      simpa using congrArg List.length same
    have equal := (List.monotone_filter_right list stricter).eq_of_length sizes
    intro item inside
    have both : item ∈ list.filter strict ↔ item ∈ list.filter loose := by rw [equal]
    simpa [List.mem_filter, inside, ← Bool.eq_iff_iff] using both
  · intro same
    rw [List.filter_congr same]

/-! ### Initializer lists -/

section Rules

variable (context : RuleContext) (node : AstNode)

theorem offendingText_replaceBooleans :
    AstGraph.offendingText node.replaceBooleans = AstGraph.offendingText node := by
  unfold AstGraph.offendingText
  rw [node.name_replaceBooleans]
  rfl

theorem climb_replaceBooleans (graph : AstGraph) (fuel : ℕ) (nodeId : String) :
    graph.replaceBooleans.climb fuel nodeId = graph.climb fuel nodeId := by
  induction fuel generalizing nodeId with
  | zero => rfl
  | succ fuel ih =>
      unfold AstGraph.climb
      rw [ih, AstGraph.replaceBooleans, AstNode.keepsTree_replaceBooleans.get]
      cases graph.get nodeId <;> rfl

theorem InitializerRule.report_replaceBooleans (rule : InitializerRule) :
    rule.report context.replaceBooleans node.replaceBooleans = rule.report context node := by
  have paths : (BaseRulePlugin.graph context.replaceBooleans).nodePath node.nodeId =
      (BaseRulePlugin.graph context).nodePath node.nodeId := by
    unfold AstGraph.nodePath
    rw [← climb_replaceBooleans (BaseRulePlugin.graph context)]
    simp [BaseRulePlugin.graph, RuleContext.replaceBooleans, AstGraph.replaceBooleans, AstGraph.relabel]
  unfold InitializerRule.report BaseRulePlugin.makeResult InitializerRule.suggestedFix
  rw [offendingText_replaceBooleans]
  simp only [AstNode.replaceBooleans, RuleContext.replaceBooleans] at paths ⊢
  rw [paths]
  rfl

theorem InitializerRule.detect_replaceBooleans (rule : InitializerRule) :
    rule.detect context.replaceBooleans =
      (((BaseRulePlugin.graph context).nodesByKind (.other "InitListExpr")).filter fun node =>
        rule.offends node.replaceBooleans).map (rule.report context) := by
  have reports : rule.report context.replaceBooleans ∘ AstNode.replaceBooleans = rule.report context :=
    funext fun node => rule.report_replaceBooleans context node
  have lists : (BaseRulePlugin.graph context.replaceBooleans).nodesByKind (.other "InitListExpr") =
      ((BaseRulePlugin.graph context).nodesByKind (.other "InitListExpr")).map AstNode.replaceBooleans := by
    unfold AstGraph.nodesByKind BaseRulePlugin.graph RuleContext.replaceBooleans
    rw [List.filter_map]
    rfl
  unfold InitializerRule.detect
  rw [lists, List.filter_map, List.map_map, reports]
  rfl

/-- Rule 9.2 accepts both forms of true and reports both forms of false. -/
theorem Rule9_2_independent : Rule9_2.detect context.replaceBooleans = Rule9_2.detect context := by
  have offends : ∀ node : AstNode, Rule9_2.offends node.replaceBooleans = Rule9_2.offends node := by
    intro node
    simp only [Rule9_2]
    rw [node.value_replaceBooleans (by decide)]
    cases node.value "is_fully_bracketed" with
    | none => rfl
    | some found =>
        cases found with
        | flag flag => rfl
        | text text =>
            by_cases accepted : text = "true"
            · subst accepted
              rfl
            · by_cases refused : text = "false"
              · subst refused
                rfl
              · simp [PropertyValue.replaced, booleanOf, accepted, refused]
  rw [Rule9_2.detect_replaceBooleans context]
  unfold InitializerRule.detect
  simp only [offends]

theorem Rule9_4_independent_iff : Rule9_4.detect context.replaceBooleans = Rule9_4.detect context ↔
    ∀ node ∈ (BaseRulePlugin.graph context).nodesByKind (.other "InitListExpr"),
      ¬ node.denies "duplicate_designator" := by
  have boolean : "duplicate_designator" ∈ BOOLEAN_PROPERTIES := by decide
  rw [Rule9_4.detect_replaceBooleans context]
  unfold InitializerRule.detect
  rw [map_filter_eq_iff _ _ fun node offends => ?_]
  · refine forall₂_congr fun node _ => ?_
    simp only [Rule9_4]
    rw [Bool.eq_iff_iff, node.truthy_replaceBooleans boolean, truthy_iff]
    unfold AstNode.affirms
    tauto
  · exact ((node.truthy_replaceBooleans boolean).mp offends).1

end Rules

/-! ### Declarations -/

namespace SymbolIndex

variable (graph : AstGraph)

theorem isNamedDecl_replaceBooleans (node : AstNode) : isNamedDecl node.replaceBooleans = isNamedDecl node := by
  unfold isNamedDecl
  rw [node.name_replaceBooleans]
  rfl

theorem appendTo_mapValues {ν μ : Type} (change : ν → μ) (dict : OrderedDict String (List ν))
    (key : String) (value : ν) : LinkageIndex.appendTo (dict.mapValues (List.map change)) key (change value) =
      (LinkageIndex.appendTo dict key value).mapValues (List.map change) := by
  unfold LinkageIndex.appendTo
  rw [OrderedDict.mapValues_insert, OrderedDict.get?_mapValues, List.map_append]
  cases dict.get? key <;> rfl

theorem byName_replaceBooleans :
    byName graph.replaceBooleans = (byName graph).mapValues (List.map AstNode.replaceBooleans) := by
  have appended : ∀ (nodes : List AstNode) (index : OrderedDict String (List AstNode)),
      (nodes.map AstNode.replaceBooleans).foldl
          (fun index node => LinkageIndex.appendTo index (node.property "name" "") node)
          (index.mapValues (List.map AstNode.replaceBooleans)) =
        (nodes.foldl (fun index node => LinkageIndex.appendTo index (node.property "name" "") node)
          index).mapValues (List.map AstNode.replaceBooleans) := by
    intro nodes
    induction nodes with
    | nil => exact fun _ => rfl
    | cons node nodes ih =>
        intro index
        rw [List.map_cons, List.foldl_cons, List.foldl_cons, node.name_replaceBooleans, appendTo_mapValues, ih]
  have named : isNamedDecl ∘ AstNode.replaceBooleans = isNamedDecl := funext isNamedDecl_replaceBooleans
  unfold byName AstGraph.replaceBooleans AstGraph.relabel
  rw [List.filter_map, named]
  exact appended _ .empty

/-- The index lists the namesakes of every name. -/
theorem byName_namesakes (name : String) : ((byName graph).get? name).getD [] = namesakes graph name := by
  have listed : ∀ (nodes : List AstNode) (index : OrderedDict String (List AstNode)),
      ((nodes.foldl (fun index node => LinkageIndex.appendTo index (node.property "name" "") node)
          index).get? name).getD [] =
        (index.get? name).getD [] ++ nodes.filter fun node => node.property "name" "" = name := by
    intro nodes
    induction nodes with
    | nil => simp
    | cons node nodes ih =>
        intro index
        rw [List.foldl_cons, ih, LinkageIndex.appendTo, OrderedDict.get?_insert]
        by_cases same : node.property "name" "" = name
        · subst same
          simp
        · simp [same, Ne.symm same]
  unfold byName namesakes
  rw [listed, List.filter_filter]
  simp [Bool.and_comm]

theorem mem_byName_iff {name : String} {decls : List AstNode} (several : 2 ≤ decls.length) :
    (name, decls) ∈ (byName graph).entries ↔ decls = namesakes graph name := by
  rw [OrderedDict.mem_entries_iff, ← byName_namesakes]
  cases found : (byName graph).get? name with
  | none =>
      simp only [Option.getD_none, reduceCtorEq, false_iff]
      rintro rfl
      simp at several
  | some listed => simp [eq_comm]

theorem groups_independent_iff : incompatibleDeclarationGroups graph.replaceBooleans =
      (incompatibleDeclarationGroups graph).map
        (fun entry => (entry.1, entry.2.map AstNode.replaceBooleans)) ↔
    ∀ name, 2 ≤ (namesakes graph name).length →
      Outvoted (namesakes graph name) "declaration_incompatible" := by
  have boolean : "declaration_incompatible" ∈ BOOLEAN_PROPERTIES := by decide
  have groups : incompatibleDeclarationGroups graph.replaceBooleans =
      ((byName graph).entries.filter fun entry => isIncompatible (entry.2.map AstNode.replaceBooleans)).map
        fun entry => (entry.1, entry.2.map AstNode.replaceBooleans) := by
    unfold incompatibleDeclarationGroups
    rw [byName_replaceBooleans]
    exact List.filter_map
  have marked : ∀ decls : List AstNode,
      isIncompatible (decls.map AstNode.replaceBooleans) = isIncompatible decls ↔ (2 ≤ decls.length → Outvoted decls "declaration_incompatible") := by
    intro decls
    unfold isIncompatible
    rw [List.length_map, List.any_map, ← any_replaceBooleans_iff boolean]
    by_cases several : 2 ≤ decls.length
    · simp [several, Function.comp_def]
    · simp [several]
  rw [groups]
  unfold incompatibleDeclarationGroups
  rw [map_filter_eq_iff _ _ fun entry => ?_]
  · simp only [marked]
    constructor
    · intro outvoted name several
      exact outvoted (name, namesakes graph name) ((mem_byName_iff graph several).mpr rfl) several
    · intro outvoted entry inside several
      have same := (mem_byName_iff graph several).mp inside
      rw [same] at several ⊢
      exact outvoted entry.1 several
  · unfold isIncompatible
    simp only [List.length_map, List.any_map, Bool.and_eq_true, decide_eq_true_eq, List.any_eq_true,
      Function.comp_apply]
    rintro ⟨several, decl, inside, truthy⟩
    exact ⟨several, decl, inside, ((decl.truthy_replaceBooleans boolean).mp truthy).1⟩

end SymbolIndex

/-! ### Conditions -/

namespace ExpressionClassifier

variable (graph : AstGraph) (node : AstNode)

theorem conditionOf_replaceBooleans : conditionOf node.replaceBooleans graph.replaceBooleans =
    (conditionOf node graph).map AstNode.replaceBooleans := by
  have children : graph.replaceBooleans.children node.nodeId =
      (graph.children node.nodeId).map AstNode.replaceBooleans :=
    AstNode.keepsTree_replaceBooleans.children graph node.nodeId
  unfold conditionOf
  simp only [node.nodeKind_replaceBooleans, node.nodeId_replaceBooleans, children, List.getLast?_map,
    List.head?_map]
  split
  · rfl
  · split <;> rfl

theorem invariant_iff_any :
    controllingExpressionInvariant node graph =
      (controlNodes node graph).any fun marked => marked.truthy "controlling_expression_invariant" := by
  unfold controllingExpressionInvariant controlNodes
  cases conditionOf node graph <;> simp

theorem invariant_independent_iff :
    controllingExpressionInvariant node.replaceBooleans graph.replaceBooleans =
        controllingExpressionInvariant node graph ↔
      Outvoted (controlNodes node graph) "controlling_expression_invariant" := by
  have nodes : controlNodes node.replaceBooleans graph.replaceBooleans =
      (controlNodes node graph).map AstNode.replaceBooleans := by
    unfold controlNodes
    rw [conditionOf_replaceBooleans]
    cases conditionOf node graph <;> rfl
  rw [invariant_iff_any, invariant_iff_any, nodes, List.any_map]
  exact any_replaceBooleans_iff (by decide) _

end ExpressionClassifier

end MisraPlatform
