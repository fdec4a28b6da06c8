import MisraPlatform.Proof.BooleanProperties
import MisraPlatform.Proof.Descendants

/-
This file is the uses of closed streams and the results of all five queries.
-/

namespace MisraPlatform
open DataFlowEngineV2

namespace AliasAnalyzer

section Streams

variable (pointsTo : PointsTo) (graph : AstGraph)

/-! ### Closed streams -/

def closeStep (closed : Finset String) (node : AstNode) : Finset String :=
  closed ∪ (closedNames node graph).toFinset.biUnion (aliasesOf pointsTo)

/-- The scan is a filter whose state is the names of the closed streams. -/
theorem scanUses_eq (closed : Finset String) (nodes : List AstNode) :
    scanUses pointsTo graph closed nodes =
      statefulFilter (closeStep pointsTo graph) (usesClosed graph) closed nodes := by
  induction nodes generalizing closed with
  | nil => rfl
  | cons node nodes ih =>
      rw [scanUses, statefulFilter, ih, ih]
      by_cases call : node.nodeKind = .callExpr
      · have unused : usesClosed graph closed node = false := by simp [usesClosed, call]
        simp [call, unused, closeStep]
      · have still : closeStep pointsTo graph closed node = closed := by
          simp [closeStep, closedNames, closesFile, call]
        rw [if_neg call, still]

theorem mem_closeStep_foldl (before : List AstNode) (closed : Finset String) (name : String) :
    name ∈ before.foldl (closeStep pointsTo graph) closed ↔
      name ∈ closed ∨ ClosedIn pointsTo graph before name := by
  induction before generalizing closed with
  | nil => simp [ClosedIn]
  | cons node before ih =>
      rw [List.foldl_cons, ih]
      simp [closeStep, ClosedIn, or_assoc]

/-! ### Replaced booleans -/

theorem get_replaceBooleans (nodeId : String) :
    graph.replaceBooleans.get nodeId = (graph.get nodeId).map AstNode.replaceBooleans :=
  AstNode.keepsTree_replaceBooleans.get graph nodeId

theorem children_replaceBooleans (nodeId : String) :
    graph.replaceBooleans.children nodeId = (graph.children nodeId).map AstNode.replaceBooleans :=
  AstNode.keepsTree_replaceBooleans.children graph nodeId

theorem descendants_replaceBooleans (nodeId : String) :
    graph.replaceBooleans.descendants nodeId = (graph.descendants nodeId).map AstNode.replaceBooleans :=
  AstNode.keepsTree_replaceBooleans.descendants graph nodeId

@[simp] theorem declRefName_replaceBooleans (node : AstNode) :
    declRefName node.replaceBooleans = declRefName node := node.name_replaceBooleans

@[simp] theorem callee_replaceBooleans (node : AstNode) : callee node.replaceBooleans = callee node :=
  node.property_replaceBooleans (by decide) ""

@[simp] theorem opcode_replaceBooleans (node : AstNode) : opcode node.replaceBooleans = opcode node :=
  node.property_replaceBooleans (by decide) ""

theorem closesFile_replaceBooleans (node : AstNode) : closesFile node.replaceBooleans = closesFile node := by
  unfold closesFile
  rw [callee_replaceBooleans]
  rfl

theorem functionNodes_replaceBooleans (functionNode : AstNode) :
    functionNodes functionNode.replaceBooleans graph.replaceBooleans =
      (functionNodes functionNode graph).map AstNode.replaceBooleans := by
  unfold functionNodes
  rw [List.map_cons]
  exact congrArg _ (descendants_replaceBooleans graph functionNode.nodeId)

theorem declRefNamesIn_replaceBooleans (node : AstNode) :
    declRefNamesIn node.replaceBooleans graph.replaceBooleans = declRefNamesIn node graph := by
  have subtree : node.replaceBooleans :: graph.replaceBooleans.descendants node.replaceBooleans.nodeId =
      (node :: graph.descendants node.nodeId).map AstNode.replaceBooleans :=
    functionNodes_replaceBooleans graph node
  have names : ∀ nodes : List AstNode,
      ((nodes.map AstNode.replaceBooleans).filter fun inner => inner.nodeKind = .declRefExpr).map declRefName =
        (nodes.filter fun inner => inner.nodeKind = .declRefExpr).map declRefName := by
    intro nodes
    rw [List.filter_map, List.map_map]
    exact List.map_congr_left fun inner _ => declRefName_replaceBooleans inner
  unfold declRefNamesIn
  rw [subtree, names]

theorem closedNames_replaceBooleans (call : AstNode) :
    closedNames call.replaceBooleans graph.replaceBooleans = closedNames call graph := by
  unfold closedNames
  rw [closesFile_replaceBooleans]
  split
  · rw [call.nodeId_replaceBooleans, children_replaceBooleans, List.head?_map]
    cases (graph.children call.nodeId).head? with
    | none => rfl
    | some arg => exact declRefNamesIn_replaceBooleans graph arg
  · rfl

theorem underClose_replaceBooleans (node : AstNode) :
    (graph.replaceBooleans.get node.parentId).any closesFile = (graph.get node.parentId).any closesFile := by
  rw [get_replaceBooleans, Option.any_map]
  congr 1
  exact funext closesFile_replaceBooleans

theorem closeStep_replaceBooleans (closed : Finset String) (node : AstNode) :
    closeStep pointsTo graph.replaceBooleans closed node.replaceBooleans =
      closeStep pointsTo graph closed node := by
  unfold closeStep
  rw [closedNames_replaceBooleans]

theorem usesClosed_iff (closed : Finset String) (node : AstNode) :
    usesClosed graph closed node = true ↔ isStreamUse graph node ∧
      (node.truthy "use_after_file_close" = true ∨ declRefName node ≠ "" ∧ declRefName node ∈ closed) := by
  simp [usesClosed, isStreamUse, and_assoc]

theorem usesClosed_replaceBooleans_iff (closed : Finset String) (node : AstNode) :
    usesClosed graph.replaceBooleans closed node.replaceBooleans = true ↔ isStreamUse graph node ∧
      (node.affirms "use_after_file_close" ∨ declRefName node ≠ "" ∧ declRefName node ∈ closed) := by
  have use : isStreamUse graph.replaceBooleans node.replaceBooleans ↔ isStreamUse graph node := by
    unfold isStreamUse
    rw [node.parentId_replaceBooleans, underClose_replaceBooleans]
    rfl
  rw [usesClosed_iff, use, node.truthy_replaceBooleans (by decide), declRefName_replaceBooleans]

theorem relevant_replaceBooleans (functionNode : AstNode) :
    relevant functionNode.replaceBooleans graph.replaceBooleans =
      (relevant functionNode graph).map AstNode.replaceBooleans := by
  have kept : isRelevant ∘ AstNode.replaceBooleans = isRelevant := by
    funext node
    rw [Function.comp_apply, isRelevant, opcode_replaceBooleans]
    rfl
  unfold relevant
  rw [functionNode.nodeId_replaceBooleans, descendants_replaceBooleans,
    List.filter_map, kept, linearize_map AstNode.sourceRange_replaceBooleans]

theorem seedPointerParameters_replaceBooleans (functionNode : AstNode) :
    seedPointerParameters functionNode.replaceBooleans graph.replaceBooleans =
      seedPointerParameters functionNode graph := by
  unfold seedPointerParameters
  rw [functionNode.nodeId_replaceBooleans, children_replaceBooleans,
    List.filter_map, List.foldl_map]
  simp only [Function.comp_def, declRefName_replaceBooleans]
  rfl

variable (wellFormed : graph.WellFormed) (functionNode : AstNode) (present : functionNode ∈ graph.nodes)

include wellFormed present

/-- The nodes of a function keep different ids when they are put in order and replaced. -/
theorem ordered_nodup :
    ((linearize (functionNodes functionNode graph)).map AstNode.replaceBooleans).Nodup := by
  have distinct : ((functionNodes functionNode graph).map AstNode.nodeId).Nodup := by
    have under : ∀ node ∈ functionNodes functionNode graph, node ∈ graph.nodes := fun node inside =>
      ((wellFormed.mem_subtree present).mp inside).present present
    exact (wellFormed.subtree_nodup functionNode).map_on fun first inside second there same =>
      wellFormed.unique (under first inside) (under second there) same
  have ids : ((linearize (functionNodes functionNode graph)).map AstNode.replaceBooleans).map AstNode.nodeId =
      (linearize (functionNodes functionNode graph)).map AstNode.nodeId := by
    rw [List.map_map]
    rfl
  refine List.Nodup.of_map AstNode.nodeId ?_
  rw [ids]
  exact ((List.perm_insertionSort precedes _).map AstNode.nodeId).nodup_iff.mpr distinct

theorem uses_independent_iff (other : PointsTo) :
    useAfterFileCloseReads other functionNode.replaceBooleans graph.replaceBooleans =
        (useAfterFileCloseReads pointsTo functionNode graph).map AstNode.replaceBooleans ↔
      ∀ before ref after, linearize (functionNodes functionNode graph) = before ++ ref :: after →
        isStreamUse graph ref →
          (ref.denies "use_after_file_close" →
            declRefName ref ≠ "" ∧ ClosedIn other graph before (declRefName ref)) ∧
          (ref.truthy "use_after_file_close" = false → declRefName ref ≠ "" →
            (ClosedIn pointsTo graph before (declRefName ref) ↔
              ClosedIn other graph before (declRefName ref))) := by
  have steps : (fun closed node => closeStep other graph.replaceBooleans closed node.replaceBooleans) =
      closeStep other graph := funext₂ (closeStep_replaceBooleans other graph)
  have ordered : linearize ((functionNodes functionNode graph).map AstNode.replaceBooleans) =
      (linearize (functionNodes functionNode graph)).map AstNode.replaceBooleans :=
    linearize_map AstNode.sourceRange_replaceBooleans _
  unfold useAfterFileCloseReads
  rw [functionNodes_replaceBooleans, ordered, scanUses_eq, scanUses_eq, statefulFilter_map, steps,
    map_statefulFilter_eq_iff (ordered_nodup graph wellFormed functionNode present)]
  refine forall₄_congr fun before ref after split => ?_
  rw [Bool.eq_iff_iff, usesClosed_replaceBooleans_iff, usesClosed_iff, mem_closeStep_foldl, mem_closeStep_foldl,
    ← Bool.not_eq_true, truthy_iff]
  have apart : ref.affirms "use_after_file_close" → ¬ ref.denies "use_after_file_close" := And.right
  simp only [Finset.notMem_empty, false_or, and_congr_right_iff]
  refine imp_congr_right fun _ => ?_
  -- A reference is affirmed, denied or not marked.
  by_cases denies : ref.denies "use_after_file_close"
  · have unaffirmed : ¬ ref.affirms "use_after_file_close" := fun affirms => apart affirms denies
    simp [denies, unaffirmed]
  · by_cases affirms : ref.affirms "use_after_file_close"
    · simp [denies, affirms]
    · simp only [denies, affirms, false_or, false_imp_iff, true_and, not_false_eq_true, true_imp_iff,
        and_congr_right_iff]
      exact imp_congr_right fun _ => Iff.comm

end Streams

/-! ### Pointer targets -/

section Targets

variable {graph : AstGraph} (settled : ∀ node ∈ graph.nodes, ¬ node.denies "is_function")

include settled

theorem isFunction_replaceBooleans {nodeId : String} {node : AstNode} (child : node ∈ graph.children nodeId) :
    node.replaceBooleans.truthy "is_function" = node.truthy "is_function" :=
  truthy_of_not_denies (by decide) (settled node (AstGraph.mem_children child).1)

theorem resolveRhs_replaceBooleans (pointsTo : PointsTo) {nodeId : String} {rhs : AstNode}
    (child : rhs ∈ graph.children nodeId) :
    resolveRhs pointsTo rhs.replaceBooleans graph.replaceBooleans = resolveRhs pointsTo rhs graph := by
  have operands : addressOf (graph.replaceBooleans.children rhs.nodeId).head? =
      addressOf (graph.children rhs.nodeId).head? := by
    rw [children_replaceBooleans, List.head?_map]
    cases first : (graph.children rhs.nodeId).head? with
    | none => rfl
    | some operand =>
        have marked := isFunction_replaceBooleans settled (List.mem_of_head? first)
        simp only [Option.map_some, addressOf, declRefName_replaceBooleans, marked]
        rfl
  have marked := isFunction_replaceBooleans settled child
  unfold resolveRhs namedPointee
  simp only [opcode_replaceBooleans, callee_replaceBooleans, declRefName_replaceBooleans, marked,
    rhs.nodeId_replaceBooleans, operands]
  rfl

theorem handle_replaceBooleans (pointsTo : PointsTo) (node : AstNode) :
    handle graph.replaceBooleans pointsTo node.replaceBooleans = handle graph pointsTo node := by
  have children := children_replaceBooleans graph node.nodeId
  have declaration : handleVarDecl pointsTo node.replaceBooleans graph.replaceBooleans =
      handleVarDecl pointsTo node graph := by
    unfold handleVarDecl
    rw [declRefName_replaceBooleans, node.nodeId_replaceBooleans, children,
      List.find?_map]
    have typed : (fun child => !isTypeNode child) ∘ AstNode.replaceBooleans =
        fun child => !isTypeNode child := rfl
    rw [typed]
    cases found : (graph.children node.nodeId).find? fun child => !isTypeNode child with
    | none => rfl
    | some initializer =>
        simp only [Option.map_some,
          resolveRhs_replaceBooleans settled pointsTo (List.mem_of_find?_eq_some found)]
        rfl
  have assignment : handleAssignment pointsTo node.replaceBooleans graph.replaceBooleans =
      handleAssignment pointsTo node graph := by
    unfold handleAssignment
    rw [node.nodeId_replaceBooleans, children]
    match listed : graph.children node.nodeId with
    | [] => rfl
    | [_] => rfl
    | lhs :: rhs :: _ =>
        have child : rhs ∈ graph.children node.nodeId := by simp [listed]
        simp only [List.map_cons, declRefName_replaceBooleans,
          resolveRhs_replaceBooleans settled pointsTo child]
        rfl
  unfold handle
  rw [declaration, assignment]
  rfl

theorem pass_replaceBooleans (nodes : List AstNode) (pointsTo : PointsTo) :
    pass graph.replaceBooleans (nodes.map AstNode.replaceBooleans) pointsTo = pass graph nodes pointsTo := by
  unfold pass
  rw [List.foldl_map]
  simp only [handle_replaceBooleans settled]

theorem iterate_replaceBooleans (nodes : List AstNode) (bound : ℕ) (pointsTo : PointsTo) :
    iterate graph.replaceBooleans (nodes.map AstNode.replaceBooleans) bound pointsTo =
      iterate graph nodes bound pointsTo := by
  induction bound generalizing pointsTo with
  | zero => rfl
  | succ bound ih =>
      unfold iterate
      dsimp only
      rw [pass_replaceBooleans settled, ih]

/-- The targets stay the same when no node denies that it names a function. -/
theorem analyze_replaceBooleans (functionNode : AstNode) :
    analyze functionNode.replaceBooleans graph.replaceBooleans = analyze functionNode graph := by
  unfold analyze
  dsimp only
  rw [relevant_replaceBooleans, seedPointerParameters_replaceBooleans, List.length_map,
    iterate_replaceBooleans settled]

end Targets
end AliasAnalyzer

/-! ### All queries -/

/-- The results do not depend on how the booleans are written exactly when no text `false` decides one. -/
theorem booleansIndependent_iff {context : RuleContext}
    (wellFormed : (BaseRulePlugin.graph context).WellFormed) :
    BooleansIndependent context ↔ DenialsHarmless (BaseRulePlugin.graph context) := by
  have uses := fun functionNode
      (listed : functionNode ∈ (BaseRulePlugin.graph context).nodesByKind .functionDecl) =>
    AliasAnalyzer.uses_independent_iff (AliasAnalyzer.analyze functionNode (BaseRulePlugin.graph context)) _
      wellFormed functionNode (List.mem_of_mem_filter listed)
      (AliasAnalyzer.analyze functionNode (BaseRulePlugin.graph context).replaceBooleans)
  constructor
  · intro independent
    exact
      { designators := (Rule9_4_independent_iff context).mp independent.designated
        declarations := (SymbolIndex.groups_independent_iff _).mp independent.declared
        conditions := fun node inside =>
          (ExpressionClassifier.invariant_independent_iff _ node).mp (independent.controlled node inside)
        uses := fun functionNode listed =>
          (uses functionNode listed).mp (independent.closed functionNode listed) }
  · intro harmless
    exact
      { bracketed := Rule9_2_independent context
        designated := (Rule9_4_independent_iff context).mpr harmless.designators
        declared := (SymbolIndex.groups_independent_iff _).mpr harmless.declarations
        controlled := fun node inside =>
          (ExpressionClassifier.invariant_independent_iff _ node).mpr (harmless.conditions node inside)
        closed := fun functionNode listed =>
          (uses functionNode listed).mpr (harmless.uses functionNode listed) }

/-- The list has these two properties. -/
def initializerContext (bracketed repeated : String) : RuleContext where
  filePath := "a.c"
  astNodes :=
    [{ nodeId := "1"
       nodeKind := .other "InitListExpr"
       semanticProperties := [("is_fully_bracketed", bracketed), ("duplicate_designator", repeated)] }]

theorem initializerContext_wellFormed (bracketed repeated : String) :
    (BaseRulePlugin.graph (initializerContext bracketed repeated)).WellFormed := by
  apply AstGraph.WellFormed.of_order <;> simp [BaseRulePlugin.graph, initializerContext]

theorem initializerContext_independent : BooleansIndependent (initializerContext "false" "true") := by
  refine (booleansIndependent_iff (initializerContext_wellFormed "false" "true")).mpr
    ⟨by decide, ?_, by decide, ?_⟩
  · intro name several
    have empty : namesakes (BaseRulePlugin.graph (initializerContext "false" "true")) name = [] := rfl
    rw [empty] at several
    exact absurd several (by decide)
  · intro functionNode listed
    exact absurd listed List.not_mem_nil

/-- The serializer writes the text `false` for every list, and the rule reports the list. -/
theorem initializerContext_dependent :
    (BaseRulePlugin.graph (initializerContext "true" "false")).WellFormed ∧
      ¬ BooleansIndependent (initializerContext "true" "false") := by
  refine ⟨initializerContext_wellFormed "true" "false", fun independent => ?_⟩
  have settled := (Rule9_4_independent_iff _).mp independent.designated
  exact settled _ List.mem_cons_self (by decide)

end MisraPlatform
