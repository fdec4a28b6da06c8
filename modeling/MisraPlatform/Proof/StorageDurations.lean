import MisraPlatform.Proof.SerializedGotos
import MisraPlatform.Proof.SerializedReads
import MisraPlatform.Semantics.SerializedUnits

/-
This file shows which objects the rules on scope and lifetime report in a serialized unit.
-/

namespace MisraPlatform
open Clang

namespace AstSerializer

variable {unit : TranslationUnit}

/-! ### Returned addresses -/

theorem properties_declaration {spelling : DeclSpelling} {entry : Forest.Entry Source} {info : DeclInfo}
    (label : entry.label = .declaration info) :
    (entryNode spelling entry).semanticProperties = enrichDeclProperties info := by
  obtain ⟨index, parent, children, _⟩ := entry
  obtain rfl := label
  rfl

theorem storageClassName_ne_automatic (storageClass : StorageClass) :
    storageClassName storageClass ≠ "automatic" := by
  cases storageClass <;> decide

theorem storageClassName_ne_extern (storageClass : StorageClass) : storageClassName storageClass ≠ "extern" := by
  cases storageClass <;> decide

/-- A node of a variable belongs to a variable. -/
theorem exists_variable {entry : Forest.Entry Source}
    (declares : (entryNode ruleEngineSpelling entry).nodeKind = .varDecl) :
    ∃ info name storageClass isLocalVarDecl linkage hasInit, entry.label = .declaration info ∧
      info.form = .var name storageClass isLocalVarDecl linkage hasInit := by
  cases label : entry.label with
  | statement info => exact absurd declares (statement_not_varDecl label)
  | declaration info =>
      rw [kind_declaration label, spelled_varDecl_iff] at declares
      cases form : info.form with
      | var name storageClass isLocalVarDecl linkage hasInit =>
          exact ⟨info, name, storageClass, isLocalVarDecl, linkage, hasInit, rfl, form⟩
      | _ => simp [form, DeclForm.kind] at declares

theorem property_variable {entry : Forest.Entry Source} {info : DeclInfo} {name : String}
    {storageClass : StorageClass} {isLocalVarDecl hasInit : Bool} {linkage : Linkage}
    (label : entry.label = .declaration info)
    (form : info.form = .var name storageClass isLocalVarDecl linkage hasInit) :
    (entryNode ruleEngineSpelling entry).property "name" "" = name ∧
      ∀ default, (entryNode ruleEngineSpelling entry).property "storage_class" default =
        storageClassName storageClass := by
  unfold AstNode.property
  rw [properties_declaration label, enrichDeclProperties, form]
  exact ⟨rfl, fun _ => rfl⟩

/-- No variable counts as automatic. -/
theorem localNames_nil (functionId : String) :
    Rule18_6.localNames ((decoded ruleEngineSpelling unit).descendants functionId) = [] := by
  have wellFormed := decoded_wellFormed ruleEngineSpelling unit
  unfold Rule18_6.localNames
  have nothing : ((decoded ruleEngineSpelling unit).descendants functionId).filter (fun node =>
      node.nodeKind = .varDecl ∧ node.property "storage_class" "automatic" = "automatic") = [] := by
    rw [List.filter_eq_nil_iff]
    intro node listed
    rw [decide_eq_true_eq]
    rintro ⟨declares, automatic⟩
    obtain ⟨child, first, under⟩ := wellFormed.mem_descendants.mp listed
    obtain ⟨entry, _, rfl⟩ := mem_decoded (under.present (AstGraph.mem_children first).1)
    obtain ⟨info, name, storageClass, _, _, _, label, form⟩ := exists_variable declares
    rw [(property_variable label form).2] at automatic
    exact storageClassName_ne_automatic storageClass automatic
  rw [nothing]
  rfl

theorem detect_returns_nil (filePath : String) :
    Rule18_6.detect ⟨filePath, (decoded ruleEngineSpelling unit).nodes⟩ = [] := by
  unfold Rule18_6.detect
  rw [List.flatMap_eq_nil_iff]
  intro functionNode _
  unfold Rule18_6.detectFunction
  dsimp only
  exact if_pos (localNames_nil functionNode.nodeId)

theorem returnsReported_iff (filePath : String) :
    ReturnsReported filePath unit ↔ ∀ returnStmt, ¬ ReturnsLocal unit returnStmt := by
  unfold ReturnsReported
  rw [detect_returns_nil]
  simp only [List.not_mem_nil, false_and, exists_false]

/-! ### Enclosing functions -/

/-- The entry stands in the body below the entry of a declaration. -/
structure StandsIn (unit : TranslationUnit) (owner : Forest.Entry Source) (function : DeclInfo)
    (entry : Forest.Entry Source) : Prop where
  known : owner ∈ entries unit
  label : owner.label = .declaration function
  part : entry ∈ (unit.bodyForest function).number owner.index (owner.index + 1)

section StandsIn

variable {owner entry inner : Forest.Entry Source} {function : DeclInfo}

theorem StandsIn.inside (stands : StandsIn unit owner function entry) : entry ∈ entries unit := by
  obtain ⟨children, spans⟩ := exists_spans stands.known
  obtain ⟨decls, _, rfl⟩ := spans.declaration stands.label
  refine spans.known ?_
  rw [Forest.number_append]
  exact List.mem_append_left _ stands.part

theorem StandsIn.listed (stands : StandsIn unit owner function entry) :
    ∃ info, entry.label = .statement info ∧ info ∈ Stmt.allOf (unit.getBody function).toList := by
  have listed := List.mem_map_of_mem (f := Forest.Entry.label) stands.part
  rw [Forest.label_number, TranslationUnit.bodyForest, Stmt.labels_forest] at listed
  obtain ⟨info, inside, same⟩ := List.mem_map.mp listed
  exact ⟨info, same.symm, inside⟩

/-- What is below a statement of the body stands in the body. -/
theorem StandsIn.below (stands : StandsIn unit owner function entry) (there : inner ∈ entries unit)
    (up : inner.parent = entry.index) : StandsIn unit owner function inner := by
  refine ⟨stands.known, stands.label, ?_⟩
  obtain ⟨children, spans⟩ := exists_spans stands.known
  obtain ⟨decls, _, rfl⟩ := spans.declaration stands.label
  have here : entry ∈ ((unit.bodyForest function).append (Decl.forest unit decls)).number owner.index
      (owner.index + 1) := by
    rw [Forest.number_append]
    exact List.mem_append_left _ stands.part
  have span := spans.closed here there up
  rw [Forest.number_append, List.mem_append] at span
  rcases span with body | declared
  · exact body
  · have first := Forest.index_bounds stands.part
    have last := Forest.parent_bounds declared
    omega

/-- A child that is a statement stands in the body. -/
theorem stands_of_child (known : owner ∈ entries unit) (label : owner.label = .declaration function)
    (there : inner ∈ entries unit) (up : inner.parent = owner.index) {info : StmtInfo}
    (named : inner.label = .statement info) : StandsIn unit owner function inner := by
  refine ⟨known, label, ?_⟩
  obtain ⟨children, spans⟩ := exists_spans known
  obtain ⟨decls, _, rfl⟩ := spans.declaration label
  have span := spans.child there up
  rw [Forest.number_append, List.mem_append] at span
  rcases span with body | declared
  · exact body
  · have root : inner.label ∈ (Decl.forest unit decls).rootLabels := by
      have before : owner.index < owner.index + 1 + (unit.bodyForest function).size := by omega
      rw [← Forest.label_filter_parent before]
      exact List.mem_map_of_mem (List.mem_filter.mpr ⟨declared, decide_eq_true up⟩)
    rw [rootLabels_declForest, named] at root
    obtain ⟨_, _, same⟩ := List.mem_map.mp root
    exact absurd same (by simp)

/-- Every statement stands in a body. -/
theorem exists_owner {info : StmtInfo} (inside : entry ∈ entries unit) (named : entry.label = .statement info) :
    ∃ owner function, StandsIn unit owner function entry := by
  obtain ⟨index, at_⟩ : ∃ index, entry.index = index := ⟨_, rfl⟩
  induction index using Nat.strongRecOn generalizing entry info with
  | _ index ih =>
  subst at_
  rcases Forest.parent_bounds inside with top | ⟨positive, before⟩
  · have root : entry.label ∈ unit.forest.rootLabels := by
      rw [← Forest.label_filter_parent Nat.zero_lt_one]
      exact List.mem_map_of_mem (List.mem_filter.mpr ⟨inside, decide_eq_true top⟩)
    rw [TranslationUnit.forest, rootLabels_declForest, named] at root
    obtain ⟨_, _, same⟩ := List.mem_map.mp root
    exact absurd same (by simp)
  · obtain ⟨above, there, same⟩ := Forest.exists_index 0 unit.forest positive
      (before.trans (Forest.index_bounds inside).2)
    cases label : above.label with
    | declaration function => exact ⟨above, function, stands_of_child there label inside same.symm named⟩
    | statement other =>
        obtain ⟨owner, function, stands⟩ := ih above.index (by omega) there label rfl
        exact ⟨owner, function, stands.below inside same.symm⟩

/-- The climb from a statement of a body ends at the function. -/
theorem StandsIn.climb (stands : StandsIn unit owner function entry) {fuel : ℕ} (enough : entry.parent < fuel) :
    climbToFunction (decoded ruleEngineSpelling unit) fuel (parentId entry.parent) =
      some (nodeId owner.index) := by
  obtain ⟨index, at_⟩ : ∃ index, entry.index = index := ⟨_, rfl⟩
  induction index using Nat.strongRecOn generalizing entry fuel with
  | _ index ih =>
  subst at_
  obtain ⟨fuel, rfl⟩ : ∃ less, fuel = less + 1 := ⟨fuel - 1, by omega⟩
  have positive := entry_positive stands.known
  rcases Forest.parent_bounds stands.part with top | ⟨after, before⟩
  · have kind : (entryNode ruleEngineSpelling owner).nodeKind = .functionDecl := by
      obtain ⟨_, _, listed⟩ := stands.listed
      rw [kind_declaration stands.label, spelled_functionDecl_iff, ← canonical_isSome_iff]
      cases canonical : function.canonical with
      | some => rfl
      | none =>
          rw [TranslationUnit.getBody, canonical] at listed
          exact absurd listed List.not_mem_nil
    rw [climbToFunction, top, parentId_pos (by omega), if_neg (nodeId_ne_empty _), get_entry stands.known]
    exact if_pos kind
  · obtain ⟨above, listed, same⟩ := Forest.exists_index owner.index (unit.bodyForest function) after
      (before.trans (Forest.index_bounds stands.part).2)
    have up : StandsIn unit owner function above := ⟨stands.known, stands.label, listed⟩
    obtain ⟨info, label, _⟩ := up.listed
    have higher : above.parent < above.index := by
      have bounds := Forest.index_bounds listed
      have parents := Forest.parent_bounds listed
      omega
    rw [climbToFunction, parentId_pos (by omega), if_neg (nodeId_ne_empty _), ← same, get_entry up.inside]
    dsimp only
    rw [if_neg (statement_not_functionDecl label)]
    exact ih above.index (by omega) up (by omega) rfl

end StandsIn

/-! ### Users of a name -/

/-- The body of the function refers to the name. -/
def uses (unit : TranslationUnit) (name : String) (function : DeclInfo) : Bool :=
  (Stmt.allOf (unit.getBody function).toList).any fun statement => statement.refersBy name

/-- The source is a function whose body refers to the name. -/
def isUser (unit : TranslationUnit) (name : String) : Source → Bool
  | .declaration function => uses unit name function
  | .statement _ => false

/-- A node is a reference by the name exactly when its statement is one. -/
theorem reference_iff {entry : Forest.Entry Source} {info : StmtInfo} (label : entry.label = .statement info)
    {name : String} : ((entryNode ruleEngineSpelling entry).nodeKind = .declRefExpr ∧
      (entryNode ruleEngineSpelling entry).property "name" "" = name) ↔ info.refersBy name = true := by
  unfold AstNode.property StmtInfo.refersBy
  rw [kind_statement label, properties_statement label]
  cases info.form with
  | binaryOperator compoundAssignment => cases compoundAssignment <;> simp [StmtForm.className]
  | _ => simp [StmtForm.className, enrichStmtProperties]

theorem enclosingFunctionId_eq {owner entry : Forest.Entry Source} {function : DeclInfo}
    (stands : StandsIn unit owner function entry) :
    enclosingFunctionId (entryNode ruleEngineSpelling entry) (decoded ruleEngineSpelling unit) =
      some (nodeId owner.index) := by
  have length : (decoded ruleEngineSpelling unit).nodes.length = unit.forest.size := by
    rw [decoded_nodes, List.length_map]
    have counted := congrArg List.length (Forest.index_number 0 1 unit.forest)
    rwa [List.length_map, List.length_range'] at counted
  have bounds := Forest.index_bounds stands.inside
  have parents := Forest.parent_bounds stands.inside
  exact stands.climb (by omega)

/-- The enclosing functions of the references are the users of the name. -/
theorem mem_enclosing {name functionId : String} :
    functionId ∈ (Rule8_9.references (decoded ruleEngineSpelling unit) name).filterMap
        (fun ref => enclosingFunctionId ref (decoded ruleEngineSpelling unit)) ↔
      ∃ owner ∈ entries unit, isUser unit name owner.label = true ∧ nodeId owner.index = functionId := by
  rw [List.mem_filterMap]
  constructor
  · rintro ⟨ref, listed, found⟩
    obtain ⟨present, refers⟩ := List.mem_filter.mp listed
    have here := of_decide_eq_true refers
    obtain ⟨entry, inside, rfl⟩ := mem_decoded present
    obtain ⟨info, label, _⟩ := exists_statement (by rw [here.1]; rfl)
    obtain ⟨owner, function, stands⟩ := exists_owner inside label
    rw [enclosingFunctionId_eq stands] at found
    refine ⟨owner, stands.known, ?_, Option.some.inj found⟩
    obtain ⟨other, twin, inBody⟩ := stands.listed
    obtain rfl := Source.statement.inj (label.symm.trans twin)
    rw [stands.label]
    exact List.any_eq_true.mpr ⟨info, inBody, (reference_iff label).mp here⟩
  · rintro ⟨owner, known, user, rfl⟩
    cases label : owner.label with
    | statement info =>
        rw [label] at user
        exact absurd user Bool.false_ne_true
    | declaration function =>
        rw [label] at user
        obtain ⟨info, listed, refers⟩ := List.any_eq_true.mp user
        have source : Source.statement info ∈ ((unit.bodyForest function).number owner.index
            (owner.index + 1)).map Forest.Entry.label := by
          rw [Forest.label_number, TranslationUnit.bodyForest, Stmt.labels_forest]
          exact List.mem_map_of_mem listed
        obtain ⟨entry, part, named⟩ := List.mem_map.mp source
        have stands : StandsIn unit owner function entry := ⟨known, label, part⟩
        exact ⟨entryNode ruleEngineSpelling entry, List.mem_filter.mpr ⟨entryNode_mem stands.inside,
          decide_eq_true ((reference_iff named).mpr refers)⟩, enclosingFunctionId_eq stands⟩

theorem countP_user (name : String) (decls : List DeclInfo) :
    (decls.flatMap (sources unit)).countP (isUser unit name) = (decls.filter (uses unit name)).length := by
  induction decls with
  | nil => rfl
  | cons info rest ih =>
      have statements : ((Stmt.allOf (unit.getBody info).toList).map Source.statement).countP
          (isUser unit name) = 0 := by
        rw [List.countP_eq_zero]
        intro source inside
        obtain ⟨statement, _, rfl⟩ := List.mem_map.mp inside
        exact Bool.false_ne_true
      rw [List.flatMap_cons, List.countP_append, ih, sources, List.countP_cons, statements, List.filter_cons]
      change 0 + (if uses unit name info = true then 1 else 0) + _ = _
      split
      · rw [List.length_cons, Nat.zero_add, Nat.add_comm]
      · rw [Nat.zero_add]

/-- The references stand in as many functions as the name has users. -/
theorem length_enclosing (name : String) :
    (Rule8_9.enclosingFunctions (decoded ruleEngineSpelling unit) name).length = (unit.usersOf name).length := by
  have users : (((entries unit).filter fun owner => isUser unit name owner.label).map fun owner =>
      nodeId owner.index).Nodup := by
    have indices := (Forest.index_nodup 0 1 unit.forest).map nodeId_injective
    rw [List.map_map] at indices
    exact indices.sublist (List.filter_sublist.map _)
  have same : (Rule8_9.enclosingFunctions (decoded ruleEngineSpelling unit) name).Perm
      (((entries unit).filter fun owner => isUser unit name owner.label).map fun owner => nodeId owner.index) := by
    refine (List.perm_ext_iff_of_nodup (List.nodup_dedup _) users).mpr fun functionId => ?_
    rw [List.mem_dedup, mem_enclosing, List.mem_map]
    simp only [List.mem_filter, and_assoc]
  have counted : ((entries unit).filter fun owner => isUser unit name owner.label).length =
      ((entries unit).map Forest.Entry.label).countP (isUser unit name) := by
    rw [List.countP_map, List.countP_eq_length_filter]
    rfl
  rw [same.length_eq, List.length_map, counted, labels_entries, countP_user]
  rfl

/-! ### Objects at file scope -/

theorem isFileScope_iff {entry : Forest.Entry Source} (inside : entry ∈ entries unit) :
    (decoded ruleEngineSpelling unit).isFileScope (nodeId entry.index) = true ↔ entry.parent = 0 := by
  rw [AstGraph.isFileScope, get_entry inside, Option.any_some, decide_eq_true_eq]
  change parentId entry.parent = "" ↔ _
  unfold parentId
  split
  · simpa
  · simpa [nodeId_ne_empty]

theorem mem_visited_iff {info : DeclInfo} : info ∈ unit.visited.map Decl.info ↔
    ∃ entry ∈ entries unit, entry.parent = 0 ∧ entry.label = .declaration info := by
  have roots : ((entries unit).filter fun entry => entry.parent = 0).map Forest.Entry.label =
      (unit.visited.map Decl.info).map Source.declaration := by
    have labels := @Forest.label_filter_parent _ 0 1 unit.forest Nat.zero_lt_one
    rw [List.map_map]
    exact labels.trans (rootLabels_declForest unit.visited)
  have listed : info ∈ unit.visited.map Decl.info ↔
      Source.declaration info ∈ (unit.visited.map Decl.info).map Source.declaration := by
    rw [List.mem_map_of_injective fun _ _ => Source.declaration.inj]
  rw [listed, ← roots, List.mem_map]
  simp only [List.mem_filter, decide_eq_true_eq, and_assoc]

/-- A file-scope object is reported exactly when its name has one user. -/
theorem offends_iff {entry : Forest.Entry Source} (inside : entry ∈ entries unit) {info : DeclInfo}
    {name : String} {storageClass : StorageClass} {isLocalVarDecl hasInit : Bool} {linkage : Linkage}
    (label : entry.label = .declaration info)
    (form : info.form = .var name storageClass isLocalVarDecl linkage hasInit) :
    Rule8_9.offends (decoded ruleEngineSpelling unit) (entryNode ruleEngineSpelling entry) = true ↔
      entry.parent = 0 ∧ name ≠ "" ∧ (unit.usersOf name).length = 1 := by
  obtain ⟨named, stored⟩ := property_variable label form
  have referenced : (unit.usersOf name).length = 1 →
      Rule8_9.references (decoded ruleEngineSpelling unit) name ≠ [] := by
    intro single nothing
    rw [← length_enclosing, Rule8_9.enclosingFunctions, nothing] at single
    exact absurd single (Nat.zero_ne_one)
  unfold Rule8_9.offends
  dsimp only
  rw [named, stored, length_enclosing]
  change ((((decoded ruleEngineSpelling unit).isFileScope (nodeId entry.index) && _) && _) && _ && _) = true ↔ _
  simp only [Bool.and_eq_true, decide_eq_true_eq, isFileScope_iff inside]
  have differs := storageClassName_ne_extern storageClass
  tauto

theorem isExternObject_iff {info : DeclInfo} : info.isExternObject = true ↔
    ∃ isLocalVarDecl linkage hasInit, info.form = .var info.objectName .scExtern isLocalVarDecl linkage hasInit := by
  unfold DeclInfo.isExternObject DeclInfo.objectName
  cases info.form <;> simp

/-- No `extern` object is reported exactly when none with a name has one user. -/
theorem externsSpared_iff (filePath : String) : ExternsSpared filePath unit ↔
    ∀ info ∈ unit.visited.map Decl.info, info.isExternObject = true → info.objectName ≠ "" →
      (unit.usersOf info.objectName).length ≠ 1 := by
  constructor
  · intro spared info visited external named single
    obtain ⟨entry, inside, top, label⟩ := mem_visited_iff.mp visited
    obtain ⟨isLocalVarDecl, linkage, hasInit, form⟩ := isExternObject_iff.mp external
    have declares : (entryNode ruleEngineSpelling entry).nodeKind = .varDecl := by
      rw [kind_declaration label, form]
      rfl
    have offends := (offends_iff inside label form).mpr ⟨top, named, single⟩
    have listed : entryNode ruleEngineSpelling entry ∈ (decoded ruleEngineSpelling unit).nodesByKind .varDecl :=
      List.mem_filter.mpr ⟨entryNode_mem inside, decide_eq_true declares⟩
    exact spared info _ (nodeOf_iff.mpr ⟨entry, inside, label, rfl⟩) external _
      (List.mem_map_of_mem (List.mem_filter.mpr ⟨listed, offends⟩)) rfl
  · intro many info node here external result reported same
    obtain ⟨entry, inside, label, rfl⟩ := nodeOf_iff.mp here
    obtain ⟨varDecl, listed, rfl⟩ := List.mem_map.mp reported
    obtain ⟨known, offends⟩ := List.mem_filter.mp listed
    obtain ⟨present, _⟩ := List.mem_filter.mp known
    obtain ⟨other, there, rfl⟩ := mem_decoded present
    obtain rfl := entry_unique there inside (nodeId_injective same)
    obtain ⟨isLocalVarDecl, linkage, hasInit, form⟩ := isExternObject_iff.mp external
    obtain ⟨top, named, single⟩ := (offends_iff inside label form).mp offends
    exact many info (mem_visited_iff.mpr ⟨other, inside, top, label⟩) external named single

/-- The rules do what they promise exactly on the units that return no local address and use no `extern`
object in one function only. -/
theorem storageClasses_iff (unit : TranslationUnit) (filePath : String) :
    ReturnsReported filePath unit ∧ ExternsSpared filePath unit ↔
      (∀ returnStmt, ¬ ReturnsLocal unit returnStmt) ∧
        ∀ info ∈ unit.visited.map Decl.info, info.isExternObject = true → info.objectName ≠ "" →
          (unit.usersOf info.objectName).length ≠ 1 := by
  rw [returnsReported_iff, externsSpared_iff]

/-! ### A returned local address -/

def externN : DeclInfo where
  address := 10
  form := .var "n" .scExtern false .externalLinkage false

def localX : DeclInfo where
  address := 12
  form := .var "x" .scNone true .noLinkage true

/-- The body is `{ int x = n; return &x; }`. -/
def addressBody : Stmt :=
  .mk { address := 1, form := .compoundStmt }
    [.mk { address := 2, form := .other "DeclStmt" }
        [.mk { address := 3, form := .other "ImplicitCastExpr" }
          [.mk { address := 4, form := .declRefExpr ⟨10, "n", { spelling := "int" }, false⟩ true } []]],
      .mk { address := 5, form := .returnStmt }
        [.mk { address := 6, form := .unaryOperator "&" false false false }
          [.mk { address := 7, form := .declRefExpr ⟨12, "x", { spelling := "int" }, false⟩ true } []]]]

def addressFunction : DeclInfo where
  address := 11
  form := .function "f" 11 .scNone .externalLinkage (some addressBody)

/-- The unit is `extern int n; int *f(void) { int x = n; return &x; }`. -/
def addressUnit : TranslationUnit where
  decls := [.mk externN [], .mk addressFunction [.mk localX []]]

def addressNode (count : ℕ) : AstNode :=
  ((decoded ruleEngineSpelling addressUnit).get (nodeId count)).getD { nodeId := "", nodeKind := .functionDecl }

theorem addressUnit_returnsLocal : ReturnsLocal addressUnit (addressNode 7) := by
  have refers : RefersTo addressUnit (addressNode 9) localX :=
    ⟨_, List.mem_of_getElem? (i := 8) rfl, rfl, rfl⟩
  have yields : YieldsAddress addressUnit localX (addressNode 8) := .address refers .whole rfl rfl (by decide)
  exact ⟨addressFunction, localX, addressNode 2, addressNode 8,
    ⟨rfl, rfl, [.mk localX []], List.mem_cons_of_mem _ List.mem_cons_self, List.mem_cons_self⟩, rfl,
    ⟨_, List.mem_of_getElem? (i := 1) rfl, rfl, rfl⟩, rfl, by decide, rfl, yields⟩

/-- The returned address is not reported, and the `extern` object is. -/
theorem addressUnit_fails : ¬ ReturnsReported "f.c" addressUnit ∧ ¬ ExternsSpared "f.c" addressUnit := by
  refine ⟨fun reported => ?_, fun spared => ?_⟩
  · exact (returnsReported_iff "f.c").mp reported _ addressUnit_returnsLocal
  · exact (externsSpared_iff "f.c").mp spared externN List.mem_cons_self rfl (by decide) (by decide)

end AstSerializer
end MisraPlatform
