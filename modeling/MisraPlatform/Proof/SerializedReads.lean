import MisraPlatform.Proof.Coverage
import MisraPlatform.Proof.Evaluation
import MisraPlatform.Proof.FlowGraph
import MisraPlatform.Proof.OneToOne
import MisraPlatform.Proof.RuleResults
import MisraPlatform.Proof.UninitializedReads
import MisraPlatform.Semantics.SerializedUnits

/-
This file shows that no block of a serialized function lists a variable and that no read is reported.
-/

namespace MisraPlatform
open Clang CFGEngine DataFlowEngineV2

namespace AstSerializer

variable {unit : ParsedUnit}

/-! ### Kinds -/

theorem statement_not_varDecl {entry : Forest.Entry Source} {info : StmtInfo}
    (label : entry.label = .statement info) : (entryNode ruleEngineSpelling entry).nodeKind ≠ .varDecl :=
  kind_ne_of_statement label rfl fun _ => by simp

theorem statement_not_functionDecl {entry : Forest.Entry Source} {info : StmtInfo}
    (label : entry.label = .statement info) :
    (entryNode ruleEngineSpelling entry).nodeKind ≠ .functionDecl :=
  kind_ne_of_statement label rfl fun _ => by simp

theorem spelled_varDecl_iff {kind : DeclKind} : ruleEngineSpelling.kind kind = .varDecl ↔ kind = .var := by
  cases kind <;> simp [ruleEngineSpelling]

theorem spelled_functionDecl_iff {kind : DeclKind} :
    ruleEngineSpelling.kind kind = .functionDecl ↔ kind = .function := by
  cases kind <;> simp [ruleEngineSpelling]

theorem canonical_isSome_iff {info : DeclInfo} :
    info.canonical.isSome = true ↔ info.form.kind = .function := by
  unfold DeclInfo.canonical
  cases info.form <;> simp [DeclForm.kind]

/-- A function node belongs to a declaration of a function. -/
theorem exists_function {node : AstNode}
    (present : node ∈ (decoded ruleEngineSpelling unit.toTranslationUnit).nodes)
    (declares : node.nodeKind = .functionDecl) : ∃ entry ∈ entries unit.toTranslationUnit,
      node = entryNode ruleEngineSpelling entry ∧
        ∃ info, entry.label = .declaration info ∧ info.canonical.isSome = true := by
  obtain ⟨entry, inside, rfl⟩ := mem_decoded present
  refine ⟨entry, inside, rfl, ?_⟩
  cases label : entry.label with
  | declaration info =>
      rw [kind_declaration label, spelled_functionDecl_iff] at declares
      exact ⟨info, rfl, canonical_isSome_iff.mpr declares⟩
  | statement info => exact absurd declares (statement_not_functionDecl label)

/-! ### Blocks -/

mutual

theorem contexts_fst (declaration : Decl) : declaration.contexts.map Prod.fst = declaration.all := by
  cases declaration with
  | mk info decls => rw [Decl.contexts, Decl.all, List.map_cons, contextsOf_fst decls]

theorem contextsOf_fst (decls : List Decl) : (Decl.contextsOf decls).map Prod.fst = Decl.allOf decls := by
  cases decls with
  | nil => rfl
  | cons declaration rest =>
      rw [Decl.contextsOf, Decl.allOf, List.map_append, contexts_fst declaration, contextsOf_fst rest]

end

theorem contextsOf_eq_flatMap (decls : List Decl) : Decl.contextsOf decls = decls.flatMap Decl.contexts := by
  induction decls with
  | nil => rfl
  | cons declaration rest ih => rw [Decl.contextsOf, ih, List.flatMap_cons]

theorem contextsOf_visited {context : DeclInfo × List Decl} (visited : context ∈ Decl.contextsOf unit.visited) :
    context ∈ Decl.contextsOf unit.decls := by
  rw [contextsOf_eq_flatMap, List.mem_flatMap] at visited ⊢
  obtain ⟨declaration, listed, inside⟩ := visited
  exact ⟨declaration, (List.mem_filter.mp listed).1, inside⟩

/-- A declaration is the context of one list. -/
theorem context_unique {info : DeclInfo} {first second : List Decl}
    (here : (info, first) ∈ Decl.contextsOf unit.visited) (there : (info, second) ∈ Decl.contextsOf unit.visited) :
    first = second := by
  have once : ((Decl.contextsOf unit.decls).map fun context => context.1.address).Nodup := by
    have nodup := unit.declsOnce
    rw [TranslationUnit.allDecls, ← contextsOf_fst, List.map_map] at nodup
    exact nodup
  exact congrArg Prod.snd
    (List.inj_on_of_nodup_map once (contextsOf_visited here) (contextsOf_visited there) rfl)

theorem mem_allDecls_of_context {info : DeclInfo} {decls : List Decl}
    (context : (info, decls) ∈ Decl.contextsOf unit.visited) : info ∈ unit.allDecls := by
  rw [TranslationUnit.allDecls, ← contextsOf_fst]
  exact List.mem_map_of_mem (f := Prod.fst) (contextsOf_visited context)

/-- A function without a compound child has no body. -/
theorem bodiless_of_missing {entry : Forest.Entry Source} (inside : entry ∈ entries unit.toTranslationUnit)
    {info : DeclInfo} (label : entry.label = .declaration info) (known : info ∈ unit.allDecls)
    (missing : ∀ child ∈ (decoded ruleEngineSpelling unit.toTranslationUnit).children (nodeId entry.index),
      child.nodeKind ≠ .compoundStmt) : info.body.isNone = true := by
  cases has : info.body with
  | none => rfl
  | some body =>
      have found := TranslationUnit.getBody_isSome known rfl
        (show info.body.isSome = true by rw [has]; rfl)
      obtain ⟨child, there, kind⟩ := (compound_child_iff ruleEngineSpelling inside label).mpr found
      exact absurd kind (missing child there)

/-- A function without a body has no variable below it. -/
theorem not_varDecl_of_bodiless {entry : Forest.Entry Source} (inside : entry ∈ entries unit.toTranslationUnit)
    {info : DeclInfo} (label : entry.label = .declaration info) (function : info.canonical.isSome = true)
    (bodiless : info.body.isNone = true) {node : AstNode}
    (descends : node ∈ (decoded ruleEngineSpelling unit.toTranslationUnit).descendants (nodeId entry.index)) :
    node.nodeKind ≠ .varDecl := by
  obtain ⟨children, spans⟩ := exists_spans inside
  obtain ⟨decls, context, rfl⟩ := spans.declaration label
  have absent := unit.locals _ (contextsOf_visited context) function bodiless
  obtain ⟨below, span, rfl⟩ := spans.mem_descendants.mp descends
  cases named : below.label with
  | statement other => exact statement_not_varDecl named
  | declaration other =>
      rw [kind_declaration named, Ne, spelled_varDecl_iff]
      have listed := List.mem_map_of_mem (f := Forest.Entry.label) span
      rw [Forest.label_number, Forest.labels_append, named, List.mem_append, TranslationUnit.bodyForest,
        Stmt.labels_forest, labels_declForest] at listed
      rcases listed with statement | declared
      · obtain ⟨_, _, same⟩ := List.mem_map.mp statement
        exact absurd same (by simp)
      · obtain ⟨owner, owns, source⟩ := List.mem_flatMap.mp declared
        rcases List.mem_cons.mp source with same | statement
        · rw [Source.declaration.inj same]
          exact absent owner owns
        · obtain ⟨_, _, same⟩ := List.mem_map.mp statement
          exact absurd same (by simp)

/-- What stands under a statement of the body, or under a declaration of a function without a body, is no
variable. -/
theorem not_varDecl_of_body {entry : Forest.Entry Source} (inside : entry ∈ entries unit.toTranslationUnit)
    {info : DeclInfo} (label : entry.label = .declaration info) (function : info.canonical.isSome = true)
    {top node : AstNode}
    (listed : top ∈ bodyStatements (entryNode ruleEngineSpelling entry)
      (decoded ruleEngineSpelling unit.toTranslationUnit))
    (under : (decoded ruleEngineSpelling unit.toTranslationUnit).Under top node) : node.nodeKind ≠ .varDecl := by
  unfold bodyStatements at listed
  dsimp only at listed
  rw [show (entryNode ruleEngineSpelling entry).nodeId = nodeId entry.index from rfl] at listed
  split at listed
  · rename_i body found
    have kind := List.find?_some found
    rw [decide_eq_true_eq] at kind
    obtain ⟨below, there, up, rfl⟩ := (mem_children_entry inside).mp (List.mem_of_find?_eq_some found)
    obtain ⟨first, known, above, rfl⟩ := (mem_children_entry there).mp listed
    cases named : below.label with
    | declaration other =>
        rw [kind_declaration named] at kind
        have spelled := ruleEngineSpelling.declares other.form.kind
        rw [kind] at spelled
        exact absurd spelled (by decide)
    | statement other =>
        obtain ⟨inner, stated⟩ := statement_child there known above named
        obtain ⟨last, _, rfl, final, ends⟩ := statement_under known stated under
        exact statement_not_varDecl ends
  · rename_i missing
    obtain ⟨children, spans⟩ := exists_spans inside
    obtain ⟨decls, context, _⟩ := spans.declaration label
    have bodiless := bodiless_of_missing inside label (mem_allDecls_of_context context)
      fun child there => by simpa using List.find?_eq_none.mp missing child there
    exact not_varDecl_of_bodiless inside label function bodiless
      ((decoded_wellFormed _ _).mem_descendants.mpr ⟨top, (List.mem_filter.mp listed).1, under⟩)

/-- No block lists a variable. -/
theorem not_varDecl_of_block {functionNode : AstNode}
    (present : functionNode ∈ (decoded ruleEngineSpelling unit.toTranslationUnit).nodes)
    (declares : functionNode.nodeKind = .functionDecl) {cfg : ControlFlowGraph}
    (built : build functionNode (decoded ruleEngineSpelling unit.toTranslationUnit) = some cfg)
    {blockId : BlockId} {statement : AstNode} (listed : statement ∈ cfg.statementsOf blockId) :
    statement.nodeKind ≠ .varDecl := by
  have wellFormed := decoded_wellFormed ruleEngineSpelling unit.toTranslationUnit
  obtain ⟨other, body, reads⟩ := build_reads wellFormed functionNode
  obtain rfl := Option.some.inj (built.symm.trans reads.built)
  have inside := reads.inside blockId statement listed
  obtain ⟨top, first, under⟩ := ((readCode_once wellFormed _ _ _ reads.read (fun _ => bodyStatements_present)
    (bodyStatements_apart wellFormed functionNode)).2).2 statement inside
  obtain ⟨entry, there, rfl, info, label, function⟩ := exists_function present declares
  exact not_varDecl_of_body there label function first under

/-! ### The findings -/

theorem nodeId_ne_uninit (count : ℕ) : nodeId count ≠ UNINIT := by
  intro same
  have heads := congrArg (fun text => text.toList.head?) same
  simp [nodeId, UNINIT] at heads

/-- The analysis finds nothing in a serialized function. -/
theorem uninitializedReads_nil {functionNode : AstNode}
    (present : functionNode ∈ (decoded ruleEngineSpelling unit.toTranslationUnit).nodes)
    (declares : functionNode.nodeKind = .functionDecl) :
    ∃ cfg, build functionNode (decoded ruleEngineSpelling unit.toTranslationUnit) = some cfg ∧
      uninitializedReads functionNode cfg (decoded ruleEngineSpelling unit.toTranslationUnit) = some [] := by
  have wellFormed := decoded_wellFormed ruleEngineSpelling unit.toTranslationUnit
  obtain ⟨cfg, built, formed⟩ := build_flow wellFormed functionNode
  have sites : ∀ blockId name, ¬ cfg.Declares functionNode (decoded ruleEngineSpelling unit.toTranslationUnit)
      blockId name := by
    rintro blockId name ⟨_, varDecl, uninitialized, _, statement, listed, same⟩
    obtain ⟨known, isVar⟩ := List.mem_filter.mp uninitialized
    obtain ⟨kind, _⟩ := of_decide_eq_true isVar
    obtain ⟨other, body, reads⟩ := build_reads wellFormed functionNode
    obtain rfl := Option.some.inj (built.symm.trans reads.built)
    have there := reading_present wellFormed reads.read statement (reads.inside blockId statement listed)
    have here : varDecl ∈ (decoded ruleEngineSpelling unit.toTranslationUnit).nodes := by
      obtain ⟨child, first, under⟩ := wellFormed.mem_descendants.mp known
      exact under.present (AstGraph.mem_children first).1
    rw [wellFormed.unique there here same] at listed
    exact not_varDecl_of_block present declares built listed kind
  have named : cfg.SitesNamed (decoded ruleEngineSpelling unit.toTranslationUnit) := by
    intro blockId _ event inside
    obtain ⟨ref, ⟨statement, listed, own⟩, _, _, rfl⟩ := (mem_events _ _ _ _).mp inside
    obtain ⟨other, body, reads⟩ := build_reads wellFormed functionNode
    obtain rfl := Option.some.inj (built.symm.trans reads.built)
    have there := reading_present wellFormed reads.read statement (reads.inside blockId statement listed)
    obtain ⟨entry, _, same⟩ := mem_decoded ((under_own wellFormed there own).present there)
    change ref.nodeId ≠ UNINIT
    rw [same]
    exact nodeId_ne_uninit entry.index
  refine ⟨cfg, built, ?_⟩
  classical
  rw [ControlFlowGraph.uninitializedReads_exact functionNode cfg _ formed named]
  congr 1
  rw [List.map_eq_nil_iff, List.filter_eq_nil_iff]
  rintro ⟨blockId, before, event⟩ _ found
  rcases (of_decide_eq_true found).2.2 with declared | ⟨source, declared, _⟩
  · exact sites _ _ declared
  · exact sites _ _ declared

/-- The rule reports nothing. -/
theorem detect_nil (filePath : String) :
    Rule9_1.detect ⟨filePath, (decoded ruleEngineSpelling unit.toTranslationUnit).nodes⟩ = some [] := by
  have quiet : ∀ functionNode ∈ (decoded ruleEngineSpelling unit.toTranslationUnit).nodesByKind .functionDecl,
      Rule9_1.detectFunction ⟨filePath, (decoded ruleEngineSpelling unit.toTranslationUnit).nodes⟩
        functionNode = some [] := by
    intro functionNode listed
    obtain ⟨present, declares⟩ := List.mem_filter.mp listed
    obtain ⟨cfg, built, found⟩ := uninitializedReads_nil present (of_decide_eq_true declares)
    unfold Rule9_1.detectFunction BaseRulePlugin.graph
    rw [built, Option.bind_eq_bind, Option.bind_some, found, Option.bind_eq_bind, Option.bind_some, List.map_nil]
  obtain ⟨results, found, related⟩ := mapM_answers _ fun functionNode listed => ⟨_, quiet functionNode listed⟩
  have empty : results.flatten = [] := by
    refine List.eq_nil_iff_forall_not_mem.mpr fun result inside => ?_
    obtain ⟨functionNode, listed, answer, known, inside⟩ := (mem_of_answers related result).mp inside
    rw [quiet functionNode listed] at known
    rw [← Option.some.inj known] at inside
    exact absurd inside List.not_mem_nil
  unfold Rule9_1.detect
  rw [show (BaseRulePlugin.graph ⟨filePath, (decoded ruleEngineSpelling unit.toTranslationUnit).nodes⟩) =
    decoded ruleEngineSpelling unit.toTranslationUnit from rfl, found, Option.bind_eq_bind, Option.bind_some,
    empty]

theorem readsReported_iff (filePath : String)
    (header : ForHeader (decoded ruleEngineSpelling unit.toTranslationUnit)) :
    ReadsReported filePath unit.toTranslationUnit header ↔
      ∀ ref, ¬ ReadsUninitialized unit.toTranslationUnit header ref := by
  constructor
  · rintro ⟨results, found, reported⟩ ref reads
    rw [detect_nil] at found
    obtain ⟨result, inside, _⟩ := reported ref reads
    rw [← Option.some.inj found] at inside
    exact absurd inside List.not_mem_nil
  · intro quiet
    exact ⟨[], detect_nil filePath, fun ref reads => absurd reads (quiet ref)⟩

/-! ### Initializers -/

theorem isLocalVarDecl_kind {info : DeclInfo} (declares : info.isLocalVarDecl = true) : info.form.kind = .var := by
  unfold DeclInfo.isLocalVarDecl at declares
  split at declares
  · rename_i form
    rw [form]
    rfl
  · exact absurd declares (by decide)

/-- Nothing stands below a variable. -/
theorem children_variable {entry : Forest.Entry Source} (inside : entry ∈ entries unit.toTranslationUnit)
    {info : DeclInfo} (label : entry.label = .declaration info) (kind : info.form.kind = .var) :
    (decoded ruleEngineSpelling unit.toTranslationUnit).children (nodeId entry.index) = [] := by
  obtain ⟨children, spans⟩ := exists_spans inside
  obtain ⟨decls, context, rfl⟩ := spans.declaration label
  have empty : decls = [] :=
    List.isEmpty_iff.mp (unit.leaves _ (contextsOf_visited context) (by rw [kind]; rfl))
  have bodiless : unit.getBody info = none := by
    have missing : info.canonical = none := by
      cases has : info.canonical with
      | none => rfl
      | some canonical =>
          have function := canonical_isSome_iff.mp (show info.canonical.isSome = true by rw [has]; rfl)
          rw [kind] at function
          exact absurd function (by decide)
    rw [TranslationUnit.getBody, missing]
    rfl
  refine List.eq_nil_iff_forall_not_mem.mpr fun child listed => ?_
  obtain ⟨below, there, up, _⟩ := (mem_children_entry inside).mp listed
  have root := spans.child_label there up
  rw [Forest.rootLabels_append, TranslationUnit.bodyForest, bodiless, empty] at root
  exact absurd root List.not_mem_nil

/-- A local stands as a child of its function. -/
theorem exists_local {function info : DeclInfo} (has : unit.HasLocal function info) :
    ∃ owner ∈ entries unit.toTranslationUnit, owner.label = .declaration function ∧
      ∃ entry ∈ entries unit.toTranslationUnit, entry.label = .declaration info ∧ entry.parent = owner.index := by
  obtain ⟨_, _, decls, context, listed⟩ := has
  have visited : function ∈ unit.visitedDecls := by
    rw [TranslationUnit.visitedDecls, ← contextsOf_fst]
    exact List.mem_map_of_mem (f := Prod.fst) context
  obtain ⟨owner, inside, label⟩ := exists_entry_of_visited visited
  obtain ⟨children, spans⟩ := exists_spans inside
  obtain ⟨same, other, rfl⟩ := spans.declaration label
  rw [context_unique other context] at spans
  obtain ⟨inner, known, rfl⟩ := List.mem_map.mp listed
  have root : Source.declaration inner.info ∈
      ((unit.bodyForest function).append (Decl.forest unit.toTranslationUnit decls)).rootLabels := by
    rw [Forest.rootLabels_append, rootLabels_declForest]
    exact List.mem_append_right _ (List.mem_map.mpr ⟨inner, known, rfl⟩)
  obtain ⟨entry, there, up, named⟩ := spans.exists_child root
  exact ⟨owner, inside, label, entry, there, named, up⟩

theorem nodeOf_iff {unit : TranslationUnit} {info : DeclInfo} {node : AstNode} :
    NodeOf unit info node ↔ ∃ entry ∈ entries unit, entry.label = .declaration info ∧
      node = entryNode ruleEngineSpelling entry := by
  unfold NodeOf
  rw [handleTranslationUnit_eq]
  constructor
  · rintro ⟨emitted, listed, rfl, source⟩
    obtain ⟨entry, inside, rfl⟩ := List.mem_map.mp listed
    exact ⟨entry, inside, source, rfl⟩
  · rintro ⟨entry, inside, label, rfl⟩
    exact ⟨_, List.mem_map_of_mem inside, rfl, label⟩

/-- Every local counts as uninitialized. -/
theorem counts_uninitialized {function info : DeclInfo} (has : unit.HasLocal function info) :
    ∃ functionNode node, NodeOf unit.toTranslationUnit function functionNode ∧
      NodeOf unit.toTranslationUnit info node ∧
      node ∈ uninitializedLocalDecls functionNode (decoded ruleEngineSpelling unit.toTranslationUnit) := by
  obtain ⟨owner, inside, label, entry, there, named, up⟩ := exists_local has
  have kind := isLocalVarDecl_kind has.2.1
  refine ⟨_, _, nodeOf_iff.mpr ⟨owner, inside, label, rfl⟩, nodeOf_iff.mpr ⟨entry, there, named, rfl⟩,
    List.mem_filter.mpr ⟨?_, ?_⟩⟩
  · exact (decoded_wellFormed _ _).mem_descendants.mpr
      ⟨_, (mem_children_entry inside).mpr ⟨entry, there, up, rfl⟩, .refl⟩
  · refine decide_eq_true ⟨?_, ?_⟩
    · rw [kind_declaration named, spelled_varDecl_iff]
      exact kind
    · rw [show (entryNode ruleEngineSpelling entry).nodeId = nodeId entry.index from rfl,
        children_variable there named kind]
      rfl

theorem initializedSpared_iff : InitializedSpared unit.toTranslationUnit ↔
    ∀ function info, unit.HasLocal function info → info.hasInit = false := by
  constructor
  · intro spared function info has
    obtain ⟨functionNode, node, owner, here, counts⟩ := counts_uninitialized has
    cases initialized : info.hasInit with
    | false => rfl
    | true => exact absurd counts (spared function info functionNode node has initialized owner here)
  · intro bare function info functionNode node has initialized
    rw [bare function info has] at initialized
    exact absurd initialized (by decide)

/-- The rule does what it promises exactly on the units whose functions read no variable without a value
and initialize none. -/
theorem serialized_reads_iff (unit : ParsedUnit) (filePath : String)
    (header : ForHeader (decoded ruleEngineSpelling unit.toTranslationUnit)) :
    ReadsReported filePath unit.toTranslationUnit header ∧ InitializedSpared unit.toTranslationUnit ↔
      (∀ ref, ¬ ReadsUninitialized unit.toTranslationUnit header ref) ∧
        ∀ function info, unit.HasLocal function info → info.hasInit = false := by
  rw [readsReported_iff, initializedSpared_iff]

/-! ### A read of a variable without a value -/

/-- The declaration of `x`. -/
def variableX : DeclInfo where
  address := 11
  form := .var "x" .scNone true .noLinkage false

/-- The body is `{ int x; return x; }`. -/
def readBody : Stmt :=
  .mk { address := 1, form := .compoundStmt }
    [.mk { address := 2, form := .other "DeclStmt" } [],
      .mk { address := 3, form := .returnStmt }
        [.mk { address := 4, form := .other "ImplicitCastExpr" }
          [.mk { address := 5, form := .declRefExpr ⟨11, "x", { spelling := "int" }, false⟩ true } []]]]

def functionF : DeclInfo where
  address := 10
  form := .function "f" 10 .scNone .externalLinkage (some readBody)

/-- The unit is `int f(void) { int x; return x; }`. -/
def readUnit : ParsedUnit where
  decls := [.mk functionF [.mk variableX []]]
  declsOnce := by decide
  stmtsOnce := by decide
  compound := by decide
  leaves := by decide
  locals := by decide

def readAst : AstGraph := decoded ruleEngineSpelling readUnit.toTranslationUnit

def readNode (count : ℕ) : AstNode :=
  (readAst.get (nodeId count)).getD { nodeId := "", nodeKind := .functionDecl }

/-- The body is one block. -/
def readFlow : ControlFlowGraph where
  functionNodeId := "node-1"
  blocks :=
    { entries :=
        [(.entry, { blockId := .entry, kind := .entry }), (.exit, { blockId := .exit, kind := .exit }),
          (.block 1, { blockId := .block 1, statements := [readNode 3, readNode 4] }),
          (.block 2, { blockId := .block 2 })]
      distinct := by decide }
  edges :=
    [{ source := .block 1, target := .exit, kind := .returnEdge },
      { source := .entry, target := .block 1 }]

theorem readFlow_built : build (readNode 1) readAst = some readFlow := rfl

theorem readUnit_visit :
    readFlow.Visit (ForHeader.complete readAst) false (.block 1) [⟨readNode 6, .reads⟩] := by
  have returns : Evaluates readAst [readNode 4] [⟨readNode 6, .reads⟩] :=
    .last (by decide) (by decide) (by unfold Allowed; decide)
  have declares : Evaluates readAst [readNode 3, readNode 4] ([] ++ [⟨readNode 6, .reads⟩]) :=
    .full (by decide) (by decide) (by unfold Allowed; decide) returns
  exact .of (by decide) declares

/-- The reference in `return x` reads no value. -/
theorem readUnit_reads :
    ReadsUninitialized readUnit.toTranslationUnit (ForHeader.complete readAst) (readNode 6) := by
  have arrives : readFlow.Trace (ForHeader.complete readAst) .entry false (.block 1) false [] :=
    ControlFlowGraph.Trace.start.along { source := .entry, target := .block 1 } .nil (by decide)
  have array : ¬ IsArrayNode readUnit.toTranslationUnit (readNode 6) := by
    rintro ⟨emitted, inside, _, info, source, isArray⟩
    have scalar : (handleTranslationUnit ruleEngineSpelling readUnit.toTranslationUnit).all
        (fun other => !(sourceType other.source).any QualType.isArray) = true := by decide
    have here := List.all_eq_true.mp scalar emitted inside
    simp only [source, sourceType, isArray, Bool.not_true, Bool.false_eq_true] at here
  have plain : ¬ (isAssignment (readNode 5) = true ∧ opcode (readNode 5) = "=" ∧
      IsFirstChild readUnit.toTranslationUnit (readNode 6) (readNode 5)) :=
    fun assigns => absurd assigns.1 (by decide)
  refine ⟨functionF, variableX, readNode 1, readFlow, ⟨rfl, rfl, [.mk variableX []], ?_, ?_⟩, rfl, rfl, ?_,
    readFlow_built, ?_, ⟨readNode 6, readNode 5, .whole, array, rfl, by decide, by decide, plain⟩,
    .block 1, false, [], [], [], arrives, readUnit_visit, ?_⟩
  · exact List.mem_cons_self
  · exact List.mem_cons_self
  · exact ⟨_, List.mem_of_getElem? (i := 0) rfl, rfl, rfl⟩
  · exact ⟨_, List.mem_of_getElem? (i := 5) rfl, rfl, rfl⟩
  · exact fun action inside => absurd inside List.not_mem_nil

/-- The read of `x` is not reported. -/
theorem readUnit_missed : ¬ (ReadsReported "f.c" readUnit.toTranslationUnit (ForHeader.complete readAst) ∧
    InitializedSpared readUnit.toTranslationUnit) := by
  rintro ⟨reported, _⟩
  exact (readsReported_iff _ _).mp reported (readNode 6) readUnit_reads

end AstSerializer
end MisraPlatform
