import MisraPlatform.Proof.Descendants
import MisraPlatform.Proof.BooleanProperties
import MisraPlatform.Proof.Coverage
import MisraPlatform.Proof.Definitions
import MisraPlatform.Proof.Evaluation
import MisraPlatform.Proof.FlowGraph
import MisraPlatform.Proof.RuleResults
import MisraPlatform.Semantics.Declarations

/-
This file proves when the rules on static declarations and on unused parameters are exact, and which writes of
parameters are reported.
-/

namespace MisraPlatform
open CFGEngine DataFlowEngineV2 BaseRulePlugin LinkageIndex

section Static

variable {ast : AstGraph} {name : String}

theorem filter_declarations (nonempty : name ≠ "") :
    (SymbolIndex.declarations ast name).filter Rule8_8.isDefinitionKind = declarationsOf ast name := by
  rw [SymbolIndex.declarations, SymbolIndex.byName_namesakes, namesakes, List.filter_filter, declarationsOf]
  apply List.filter_congr
  intro node _
  rw [Bool.eq_iff_iff]
  simp only [Bool.and_eq_true, SymbolIndex.isNamedDecl, decide_eq_true_eq]
  constructor
  · rintro ⟨kind, _, named⟩
    exact ⟨kind, named⟩
  · rintro ⟨kind, named⟩
    refine ⟨kind, ⟨?_, by rw [named]; exact nonempty⟩, named⟩
    have either : node.nodeKind = .functionDecl ∨ node.nodeKind = .varDecl := by
      simpa [Rule8_8.isDefinitionKind] using kind
    cases either with
    | inl function => rw [function]; decide
    | inr object => rw [object]; decide

/-- The storage classes are searched for `static` and for anything else. -/
theorem inconsistent_isSome (decls : List AstNode) : (Rule8_8.inconsistent decls).isSome = true ↔ Mixed decls := by
  have classes : ∀ storageClass, storageClass ∈ (decls.map SymbolIndex.storageClass).dedup ↔
      ∃ decl ∈ decls, SymbolIndex.storageClass decl = storageClass := by
    intro storageClass
    rw [List.mem_dedup, List.mem_map]
  rw [Rule8_8.inconsistent]
  constructor
  · intro found
    split at found
    · cases found
    · rename_i several
      simp only [Bool.or_eq_true, Bool.not_eq_true', decide_eq_true_eq, not_or, Bool.not_eq_false,
        List.contains_iff_mem] at several
      refine ⟨(classes "static").mp several.1.2, ?_⟩
      obtain ⟨decl, inside, other⟩ := List.find?_isSome.mp found
      exact ⟨decl, inside, by simpa using other⟩
  · rintro ⟨⟨first, here, static⟩, ⟨second, there, other⟩⟩
    have several : 1 < (decls.map SymbolIndex.storageClass).dedup.length :=
      (one_lt_length_dedup _).mpr ⟨_, List.mem_map_of_mem here, _, List.mem_map_of_mem there,
        fun same => other (same ▸ static)⟩
    have bound := (List.dedup_sublist (decls.map SymbolIndex.storageClass)).length_le
    rw [List.length_map] at bound
    have listed := (classes "static").mpr ⟨first, here, static⟩
    rw [if_neg]
    · exact List.find?_isSome.mpr ⟨second, there, by simpa using other⟩
    · simp only [Bool.or_eq_true, Bool.not_eq_true', decide_eq_true_eq, not_or, Bool.not_eq_false,
        List.contains_iff_mem]
      exact ⟨⟨by omega, listed⟩, by omega⟩

theorem Rule8_8_explanation_injective {first second : String}
    (same : Rule8_8.explanation first = Rule8_8.explanation second) : first = second :=
  (String.append_right_inj _).mp ((String.append_left_inj _).mp same)

/-- The rule looks at all functions and objects of the name, in whatever scope. -/
theorem reported_static {context : RuleContext} (nonempty : name ≠ "") :
    Reported (Rule8_8.detect context) (Rule8_8.explanation name) ↔ Mixed (declarationsOf (graph context) name) := by
  rw [← inconsistent_isSome, ← filter_declarations nonempty, Reported, Rule8_8.detect, Rule8_8.offending]
  constructor
  · rintro ⟨result, inside, explains⟩
    obtain ⟨entry, listed, rfl⟩ := List.mem_map.mp inside
    obtain ⟨other, _, found⟩ := List.mem_filterMap.mp listed
    obtain ⟨decl, search, rfl⟩ := Option.map_eq_some_iff.mp found
    have same : other = name := Rule8_8_explanation_injective explains
    rw [← same, search]
    rfl
  · intro found
    obtain ⟨decl, search⟩ := Option.isSome_iff_exists.mp found
    refine ⟨_, List.mem_map_of_mem (List.mem_filterMap.mpr ⟨name, ?_, by rw [search]; rfl⟩), rfl⟩
    rw [SymbolIndex.allNames, OrderedDict.mem_keys_iff]
    cases known : (SymbolIndex.byName (graph context)).get? name with
    | some decls => exact ⟨decls, rfl⟩
    | none =>
        rw [SymbolIndex.declarations, known] at search
        cases search

/-- The rule is exact for a name exactly if a static and another declaration of it anywhere come with two such
declarations at file scope. -/
theorem staticConsistency_exact_iff {context : RuleContext} (nonempty : name ≠ "") :
    (Reported (Rule8_8.detect context) (Rule8_8.explanation name) ↔
        Mixed (fileScopeDeclarations (graph context) name)) ↔
      (Mixed (declarationsOf (graph context) name) →
        Mixed (fileScopeDeclarations (graph context) name)) := by
  have wider : Mixed (fileScopeDeclarations (graph context) name) →
      Mixed (declarationsOf (graph context) name) := by
    rintro ⟨⟨first, here, static⟩, ⟨second, there, other⟩⟩
    exact ⟨⟨first, (List.mem_filter.mp here).1, static⟩, ⟨second, (List.mem_filter.mp there).1, other⟩⟩
  rw [reported_static nonempty]
  exact ⟨Iff.mp, fun narrower => ⟨narrower, wider⟩⟩

/-- This is `static void helper(void); void helper(void);`. -/
def helperContext : RuleContext where
  filePath := "helper.c"
  astNodes :=
    [{ nodeId := "first", nodeKind := .functionDecl, semanticProperties := [("name", "helper"), ("storage_class", "static")] },
      { nodeId := "second", nodeKind := .functionDecl, semanticProperties := [("name", "helper")] }]

theorem helper_exact : Reported (Rule8_8.detect helperContext) (Rule8_8.explanation "helper") ↔
    Mixed (fileScopeDeclarations (graph helperContext) "helper") :=
  (staticConsistency_exact_iff (by decide)).mpr (by decide)

/-- This is `static int count; void f(void) { int count; }`. -/
def localContext : RuleContext where
  filePath := "count.c"
  astNodes :=
    [{ nodeId := "object", nodeKind := .varDecl, semanticProperties := [("name", "count"), ("storage_class", "static")] },
      { nodeId := "f", nodeKind := .functionDecl, childrenIds := ["body"], semanticProperties := [("name", "f")] },
      { nodeId := "body", nodeKind := .compoundStmt, parentId := "f", childrenIds := ["local"] },
      { nodeId := "local", nodeKind := .varDecl, parentId := "body", semanticProperties := [("name", "count")] }]

/-- A local variable causes a report. -/
theorem local_reported : ¬ (Reported (Rule8_8.detect localContext) (Rule8_8.explanation "count") ↔
    Mixed (fileScopeDeclarations (graph localContext) "count")) := by
  have single : ¬ Mixed (fileScopeDeclarations (graph localContext) "count") := by decide
  rw [reported_static (by decide)]
  intro same
  exact single (same.mp (by decide))

end Static

section Parameters

variable {context : RuleContext}

theorem mem_unusedParams {functionNode param : AstNode} (named : IsNamedParam (graph context) functionNode param) :
    param ∈ Rule2_7.unusedParams (graph context) functionNode ↔
      SymbolIndex.isReferenced (graph context) param = false := by
  have nonempty : param.property "name" "" ≠ "" := named.named
  simp [Rule2_7.unusedParams, named.child, named.paramKind, nonempty]

variable (wellFormed : (graph context).WellFormed)

include wellFormed

/-- Every reference by the name of a parameter counts, wherever it stands. -/
theorem isReferenced_iff {functionNode param : AstNode} (named : IsNamedParam (graph context) functionNode param) :
    SymbolIndex.isReferenced (graph context) param = true ↔
      ∃ ref ∈ (graph context).nodes, ref.nodeKind = .declRefExpr ∧ declRefName ref = declRefName param := by
  have nonempty : param.property "name" "" ≠ "" := named.named
  simp only [SymbolIndex.isReferenced, nonempty, decide_false, Bool.false_or, List.any_eq_true,
    AstGraph.nodesByKind, List.mem_filter, decide_eq_true_eq, Bool.and_eq_true]
  constructor
  · rintro ⟨ref, ⟨present, kind⟩, _, same⟩
    exact ⟨ref, present, kind, same⟩
  · rintro ⟨ref, present, kind, same⟩
    refine ⟨ref, ⟨present, kind⟩, ?_, same⟩
    intro equal
    have whole := wellFormed.unique present (AstGraph.mem_children named.child).1 equal
    rw [whole, named.paramKind] at kind
    cases kind

/-- A parameter is reported once its own function leaves it among the unused ones. -/
theorem reportedAt_iff {functionNode param : AstNode} (named : IsNamedParam (graph context) functionNode param) :
    ReportedAt (Rule2_7.detect context) param ↔ SymbolIndex.isReferenced (graph context) param = false := by
  rw [← mem_unusedParams named, ReportedAt, Rule2_7.detect]
  constructor
  · rintro ⟨result, inside, same⟩
    obtain ⟨other, _, listed⟩ := List.mem_flatMap.mp inside
    obtain ⟨unused, member, rfl⟩ := List.mem_map.mp listed
    have child := (List.mem_filter.mp member).1
    have equal : unused = param :=
      wellFormed.unique (AstGraph.mem_children child).1 (AstGraph.mem_children named.child).1 same
    rw [equal] at member
    rw [mem_unusedParams named]
    have rest := (List.mem_filter.mp member).2
    simp only [Bool.and_eq_true, Bool.not_eq_true'] at rest
    exact rest.2
  · intro member
    refine ⟨_, List.mem_flatMap.mpr ⟨functionNode, ?_, List.mem_map_of_mem member⟩, rfl⟩
    simp [Rule2_7.functionsWithBody, AstGraph.nodesByKind, named.function, named.kind, named.body]

theorem UsesParam.reference {functionNode param : AstNode} (uses : UsesParam (graph context) functionNode param) :
    ∃ ref ∈ (graph context).nodes, ref.nodeKind = .declRefExpr ∧ declRefName ref = declRefName param := by
  obtain ⟨body, inside, _, ref, under, resolves⟩ := uses
  refine ⟨ref, ?_, resolves.reference, resolves.named⟩
  cases under with
  | inl same => exact same ▸ (AstGraph.mem_children inside).1
  | inr below =>
      obtain ⟨child, listed, lower⟩ := wellFormed.mem_descendants.mp below
      exact AstGraph.Under.present lower (AstGraph.mem_children listed).1

/-- A parameter is judged by its own function exactly if it is used there once its name is used anywhere. -/
theorem unusedParameter_exact_iff {functionNode param : AstNode}
    (named : IsNamedParam (graph context) functionNode param) :
    (ReportedAt (Rule2_7.detect context) param ↔ ¬ UsesParam (graph context) functionNode param) ↔
      ((∃ ref ∈ (graph context).nodes, ref.nodeKind = .declRefExpr ∧ declRefName ref = declRefName param) →
        UsesParam (graph context) functionNode param) := by
  rw [reportedAt_iff wellFormed named, ← Bool.not_eq_true, isReferenced_iff wellFormed named, not_iff_not]
  exact ⟨Iff.mp, fun used => ⟨used, fun uses => uses.reference wellFormed⟩⟩

end Parameters

section Modified

/-- The last character is that of an assignment of C or of a comparison. -/
theorem isCompoundAssignment_iff {opcode : String} (known : opcode ∈ binaryOperators) :
    isCompoundAssignment opcode = true ↔ opcode ∈ "=" :: compoundAssignments := by
  revert opcode
  decide

variable {graph : AstGraph}

/-- The engine sees every write but those of the compound assignments. -/
theorem event_isWrite_iff (operators : graph.Operators) (ref : AstNode) : (eventOf graph ref).isWrite = true ↔
    Effect.writes ∈ referenceEffects graph ref ∧ ¬ CompoundOperand graph ref := by
  cases found : graph.get ref.parentId with
  | none => simp [eventOf, isWriteTarget, referenceEffects, found]
  | some parent =>
      have operand : CompoundOperand graph ref ↔ parent.nodeKind = .other "CompoundAssignOperator" := by
        simp [CompoundOperand, found]
      rw [operand, referenceEffects_of_parent found]
      simp only [eventOf, isWriteTarget, found]
      by_cases binary : parent.nodeKind = .binaryOperator
      · have known := isCompoundAssignment_iff (operators parent (AstGraph.get_eq_some found).1 binary)
        have assigns : isAssignment parent = true ↔ isCompoundAssignment (opcode parent) = true := by
          rw [known]
          simp [isAssignment, binary]
        have plain : opcode parent = "=" → isCompoundAssignment (opcode parent) = true := fun same =>
          known.mpr (same ▸ List.mem_cons_self)
        simp only [binary, assigns, true_and, reduceCtorEq, false_and, if_false, not_false_eq_true, and_true]
        grind
      · have stepKind : parent.nodeKind = .unaryOperator → parent.nodeKind ≠ .other "CompoundAssignOperator" := by
          intro step
          rw [step]
          decide
        simp only [binary, false_and, if_false, isAssignment, decide_false, Bool.false_and, Bool.false_or]
        grind

section Body

variable (wellFormed : graph.WellFormed) {functionNode : AstNode} {cfg : ControlFlowGraph} {body : Code}

include wellFormed

/-- The blocks of a body that Clang lays out refer to what the body refers to. -/
theorem exists_event_iff (laid : FunctionBody graph functionNode body) (built : build functionNode graph = some cfg)
    (ref : AstNode) : (∃ blockId, eventOf graph ref ∈ cfg.events graph blockId) ↔
      ref.nodeKind = .declRefExpr ∧ declRefName ref ≠ "" ∧
        ∃ statement ∈ bodyStatements functionNode graph, InSubtree graph statement ref := by
  obtain ⟨other, read, reads⟩ := build_reads wellFormed functionNode
  cases built.symm.trans reads.built
  cases reads.read.symm.trans (laid.reading wellFormed).1
  have subtree : ∀ statement ∈ bodyStatements functionNode graph,
      InSubtree graph statement ref ↔ graph.Under statement ref := by
    intro statement listed
    rw [← wellFormed.mem_subtree (bodyStatements_present listed), List.mem_cons]
    rfl
  constructor
  · rintro ⟨blockId, inside⟩
    obtain ⟨same, ⟨statement, here, own⟩, kind, named, event⟩ := (mem_events cfg graph blockId _).mp inside
    obtain rfl : same = ref := congrArg Event.ref event
    refine ⟨kind, named, ?_⟩
    have visited := reads.inside blockId statement here
    obtain ⟨_, covers⟩ := readCode_once wellFormed _ _ _ reads.read (fun _ => bodyStatements_present)
      (bodyStatements_apart wellFormed functionNode)
    obtain ⟨top, listed, under⟩ := covers.2 statement visited
    have present := reading_present wellFormed reads.read statement visited
    exact ⟨top, listed, (subtree top listed).mpr (under.trans (under_own wellFormed present own))⟩
  · rintro ⟨kind, named, top, listed, lower⟩
    obtain ⟨statement, visited, own⟩ := body.reads_owned wellFormed _ laid ref kind
      ⟨top, listed, (subtree top listed).mp lower⟩
    obtain ⟨blockId, here, _⟩ := reads.owns statement visited
    exact ⟨blockId, (mem_events cfg graph blockId _).mpr ⟨ref, ⟨statement, here, own⟩, kind, named, rfl⟩⟩

omit wellFormed in
theorem mem_paramNames {name : String} : name ∈ paramNames functionNode graph ↔ name ≠ "" ∧
    ∃ param ∈ graph.children functionNode.nodeId, param.nodeKind = .parmVarDecl ∧ declRefName param = name := by
  simp only [paramNames, List.mem_filter, List.mem_map, decide_eq_true_eq]
  constructor
  · rintro ⟨⟨param, ⟨inside, kind⟩, own⟩, named⟩
    exact ⟨named, param, inside, kind, own⟩
  · rintro ⟨named, param, inside, kind, own⟩
    exact ⟨⟨param, ⟨inside, kind⟩, own⟩, named⟩

omit wellFormed in
theorem modifiedParameters_eq : modifiedParameters functionNode cfg graph =
    cfg.blocks.keys.flatMap fun blockId => ((cfg.events graph blockId).filter fun event =>
      event.isWrite ∧ event.name ∈ paramNames functionNode graph).map Event.ref := by
  have blocks : cfg.blocks.values = cfg.blocks.keys.map cfg.blockAt := by
    rw [OrderedDict.values, OrderedDict.keys, List.map_map]
    apply List.map_congr_left
    intro entry inside
    rw [Function.comp_apply, ControlFlowGraph.blockAt, (OrderedDict.mem_entries_iff _ _ _).mp inside]
    rfl
  rw [modifiedParameters, blocks, List.flatMap_map]
  split
  · rename_i none
    rw [none]
    simp
  · rfl

omit wellFormed in
theorem mem_modifiedParameters {ref : AstNode} : ref ∈ modifiedParameters functionNode cfg graph ↔
    (∃ blockId, eventOf graph ref ∈ cfg.events graph blockId) ∧ (eventOf graph ref).isWrite = true ∧
      declRefName ref ∈ paramNames functionNode graph := by
  simp only [modifiedParameters_eq, List.mem_flatMap, List.mem_map, List.mem_filter, decide_eq_true_eq]
  constructor
  · rintro ⟨blockId, _, event, ⟨inside, writes, named⟩, rfl⟩
    obtain ⟨same, _, _, _, rfl⟩ := (mem_events cfg graph blockId event).mp inside
    exact ⟨⟨blockId, inside⟩, writes, named⟩
  · rintro ⟨⟨blockId, inside⟩, writes, named⟩
    obtain ⟨_, ⟨statement, here, _⟩, _⟩ := (mem_events cfg graph blockId _).mp inside
    exact ⟨blockId, ControlFlowGraph.block_of_statement here, _, ⟨inside, writes, named⟩, rfl⟩

omit wellFormed in
/-- No reference is listed twice. -/
theorem modifiedParameters_nodup (once : cfg.ScansOnce graph) : (modifiedParameters functionNode cfg graph).Nodup := by
  rw [modifiedParameters_eq]
  refine List.nodup_flatMap.mpr ⟨fun blockId _ => ?_, cfg.blocks.keys_nodup.imp fun {first second} distinct ref => ?_⟩
  · have refs := List.Nodup.of_map AstNode.nodeId ((List.map_map (l := cfg.events graph blockId)).symm ▸
      once.events_nodup blockId)
    exact refs.sublist (List.filter_sublist.map _)
  · intro left right
    obtain ⟨event, inFirst, rfl⟩ := List.mem_map.mp left
    obtain ⟨other, inSecond, same⟩ := List.mem_map.mp right
    have here := scanned_of_event (List.mem_filter.mp inFirst).1
    have there := scanned_of_event (List.mem_filter.mp inSecond).1
    exact distinct (once.same here there (congrArg AstNode.nodeId same.symm)).1

/-- The report of a function with a body lists the writes of its parameters, each once. -/
theorem offending_modified (operators : graph.Operators) (shaped : SwitchesShaped graph)
    (listed : functionNode ∈ graph.nodesByKind .functionDecl)
    (laid : graph.hasCompoundChild functionNode.nodeId = true → ∃ body, FunctionBody graph functionNode body) :
    ∃ refs, Rule17_8.offending graph functionNode = some refs ∧ refs.Nodup ∧ ∀ ref, ref ∈ refs ↔
      graph.hasCompoundChild functionNode.nodeId = true ∧ ModifiesParam graph functionNode ref ∧
        ¬ CompoundOperand graph ref := by
  obtain ⟨present, declares⟩ := List.mem_filter.mp listed
  rw [decide_eq_true_eq] at declares
  rw [Rule17_8.offending]
  cases filled : graph.hasCompoundChild functionNode.nodeId with
  | false => exact ⟨[], rfl, List.nodup_nil, by simp⟩
  | true =>
      obtain ⟨body, laid⟩ := laid filled
      obtain ⟨cfg, built, _⟩ := build_flow wellFormed functionNode
      refine ⟨modifiedParameters functionNode cfg graph, by rw [built]; rfl,
        modifiedParameters_nodup (build_scansOnce wellFormed shaped present declares built), fun ref => ?_⟩
      rw [mem_modifiedParameters, exists_event_iff wellFormed laid built, event_isWrite_iff operators, mem_paramNames]
      constructor
      · rintro ⟨⟨kind, named, inside⟩, ⟨writes, plain⟩, _, param⟩
        exact ⟨rfl, ⟨kind, named, inside, param, writes⟩, plain⟩
      · rintro ⟨_, modifies, plain⟩
        exact ⟨⟨modifies.reference, modifies.named, modifies.inside⟩, ⟨modifies.writes, plain⟩, modifies.named,
          modifies.param⟩

end Body

end Modified

section Examples

def idleParam : AstNode :=
  { nodeId := "param", nodeKind := .parmVarDecl, parentId := "f", semanticProperties := [("name", "code")] }

def idleFunction : AstNode :=
  { nodeId := "f", nodeKind := .functionDecl, childrenIds := ["param", "body"], semanticProperties := [("name", "f")] }

def idleBody : AstNode := { nodeId := "body", nodeKind := .compoundStmt, parentId := "f" }

/-- This is `void f(int code) { }`. -/
def idleContext : RuleContext where
  filePath := "idle.c"
  astNodes := [idleFunction, idleParam, idleBody]

theorem idleParam_named : IsNamedParam (graph idleContext) idleFunction idleParam where
  function := by decide
  kind := rfl
  body := by decide
  child := by decide
  paramKind := rfl
  named := by decide

theorem idleParam_exact :
    ReportedAt (Rule2_7.detect idleContext) idleParam ↔ ¬ UsesParam (graph idleContext) idleFunction idleParam := by
  have wellFormed : (graph idleContext).WellFormed := by
    apply AstGraph.WellFormed.of_order <;> decide
  exact (unusedParameter_exact_iff wellFormed idleParam_named).mpr fun used => absurd used (by decide)

/-- This is `void f(int code) { } void g(int code) { code; }`. -/
def busyContext : RuleContext where
  filePath := "busy.c"
  astNodes :=
    [idleFunction, idleParam, idleBody,
      { nodeId := "g", nodeKind := .functionDecl, childrenIds := ["other", "block"], semanticProperties := [("name", "g")] },
      { nodeId := "other", nodeKind := .parmVarDecl, parentId := "g", semanticProperties := [("name", "code")] },
      { nodeId := "block", nodeKind := .compoundStmt, parentId := "g", childrenIds := ["ref"] },
      { nodeId := "ref", nodeKind := .declRefExpr, parentId := "block", semanticProperties := [("name", "code")] }]

/-- The parameter of the first function is not reported, although only the second one uses its own. -/
theorem idleParam_hidden :
    (graph busyContext).WellFormed ∧ IsNamedParam (graph busyContext) idleFunction idleParam ∧
      ¬ (ReportedAt (Rule2_7.detect busyContext) idleParam ↔
        ¬ UsesParam (graph busyContext) idleFunction idleParam) := by
  have wellFormed : (graph busyContext).WellFormed := by
    apply AstGraph.WellFormed.of_order <;> decide
  have named : IsNamedParam (graph busyContext) idleFunction idleParam :=
    ⟨by decide, rfl, by decide, by decide, rfl, by decide⟩
  refine ⟨wellFormed, named, ?_⟩
  intro same
  have unused : ¬ UsesParam (graph busyContext) idleFunction idleParam := by
    rintro ⟨body, inside, kind, ref, below, resolves⟩
    have only : ∀ child ∈ (graph busyContext).children idleFunction.nodeId, child.nodeKind = .compoundStmt →
        child.nodeKind ≠ .declRefExpr ∧ (graph busyContext).descendants child.nodeId = [] := by decide
    obtain ⟨other, empty⟩ := only body inside kind
    rcases below with rfl | below
    · exact other resolves.reference
    · rw [empty] at below
      cases below
  have referenced := (reportedAt_iff wellFormed named).mp (same.mpr unused)
  exact absurd referenced (by decide)

def changedFunction : AstNode :=
  { nodeId := "f", nodeKind := .functionDecl, childrenIds := ["param", "body"], semanticProperties := [("name", "f")] }

def changedAssignment : AstNode :=
  { nodeId := "set", nodeKind := .binaryOperator, parentId := "body", childrenIds := ["target", "zero"]
    semanticProperties := [("opcode", "=")] }

def changedTarget : AstNode :=
  { nodeId := "target", nodeKind := .declRefExpr, parentId := "set", semanticProperties := [("name", "code")] }

def addedAssignment : AstNode :=
  { nodeId := "add", nodeKind := .other "CompoundAssignOperator", parentId := "body", childrenIds := ["operand", "one"]
    semanticProperties := [("opcode", "+=")] }

def addedTarget : AstNode :=
  { nodeId := "operand", nodeKind := .declRefExpr, parentId := "add", semanticProperties := [("name", "code")] }

/-- This is `void f(int code) { code = 0; code += 1; }`. -/
def changedContext : RuleContext where
  filePath := "changed.c"
  astNodes :=
    [changedFunction, idleParam, { idleBody with childrenIds := ["set", "add"] }, changedAssignment, changedTarget,
      { nodeId := "zero", nodeKind := .other "IntegerLiteral", parentId := "set" }, addedAssignment, addedTarget,
      { nodeId := "one", nodeKind := .other "IntegerLiteral", parentId := "add" }]

theorem changed_layout : FunctionBody (graph changedContext) changedFunction
    (.simple changedAssignment (.simple addedAssignment .nil)) := by
  have statements : bodyStatements changedFunction (graph changedContext) = [changedAssignment, addedAssignment] := by
    decide
  exact ⟨[addedAssignment], statements, rfl, [], rfl, rfl, rfl⟩

end Examples

end MisraPlatform
