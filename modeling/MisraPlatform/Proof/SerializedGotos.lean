import MisraPlatform.Proof.DecodedAst
import MisraPlatform.Proof.GotoTargets
import MisraPlatform.Semantics.SerializedUnits

/-
This file shows that no goto of a serialized function leads to a label, and which label the rules compare it with.
-/

namespace MisraPlatform
open Clang CFGEngine

namespace AstSerializer

variable {spelling : DeclSpelling} {unit : TranslationUnit}

/-! ### Properties of labels and gotos -/

/-- A node of one of the classes of statements belongs to a statement. -/
theorem exists_statement {entry : Forest.Entry Source}
    (known : (entryNode spelling entry).nodeKind.isStmtClass = true) :
    ∃ info, entry.label = .statement info ∧ info.form.className = (entryNode spelling entry).nodeKind := by
  cases label : entry.label with
  | declaration info =>
      rw [kind_declaration label, spelling.declares] at known
      exact absurd known (by decide)
  | statement info => exact ⟨info, rfl, (kind_statement label).symm⟩

theorem properties_statement {entry : Forest.Entry Source} {info : StmtInfo}
    (label : entry.label = .statement info) :
    (entryNode spelling entry).semanticProperties = enrichStmtProperties info.form := by
  obtain ⟨index, parent, children, _⟩ := entry
  obtain rfl := label
  rfl

/-- A label is known by its node id. -/
theorem labelName_entry {entry : Forest.Entry Source}
    (kind : (entryNode spelling entry).nodeKind = .labelStmt) :
    labelName (entryNode spelling entry) = nodeId entry.index := by
  obtain ⟨info, label, named⟩ := exists_statement (by rw [kind]; rfl)
  rw [kind] at named
  have bare : (entryNode spelling entry).semanticProperties = [] := by
    rw [properties_statement label]
    cases form : info.form with
    | binaryOperator compoundAssignment =>
        rw [form] at named
        cases compoundAssignment <;> simp [StmtForm.className] at named
    | labelStmt => rfl
    | _ => simp [form, StmtForm.className] at named
  unfold labelName AstNode.property
  rw [bare]
  rfl

/-- A goto has no target. -/
theorem targetLabel_entry {entry : Forest.Entry Source} {info : StmtInfo} {name : String}
    (label : entry.label = .statement info) (form : info.form = .gotoStmt name) :
    targetLabel (entryNode spelling entry) = "" := by
  unfold targetLabel AstNode.property
  rw [properties_statement label, form]
  rfl

/-! ### Edges of gotos -/

/-- The goto edges of the block of a goto lead to the exit. -/
theorem goto_to_exit {functionNode : AstNode} {cfg : ControlFlowGraph} {body : Code}
    (reads : Reads (decoded spelling unit) functionNode cfg body) {entry : Forest.Entry Source}
    {info : StmtInfo} {name : String} (label : entry.label = .statement info)
    (form : info.form = .gotoStmt name) {edge : CFGEdge} (inside : edge ∈ cfg.edges)
    (held : entryNode spelling entry ∈ cfg.statementsOf edge.source) :
    cfg.statementsOf edge.target = [] := by
  have wellFormed := decoded_wellFormed spelling unit
  have listed := reads.inside _ _ held
  have represents := reads.represents wellFormed listed
  obtain ⟨first, last, spots, lays⟩ := represents.lays
  have kind : (entryNode spelling entry).nodeKind = .gotoStmt := by rw [kind_statement label, form]; rfl
  obtain ⟨point, closes⟩ := goto_closes lays represents.kinded listed kind
  have missing : spotBlock spots "" = .exit := by
    refine spotBlock_missing fun spot known labels named => ?_
    have visited : spot.1 ∈ body.nodes := lays.spots_nodes represents.kinded ▸ List.mem_map_of_mem known
    obtain ⟨other, _, same⟩ := mem_decoded (reading_present wellFormed reads.read _ visited)
    rw [same] at labels named
    rw [labelName_entry labels] at named
    exact nodeId_ne_empty _ named
  have leaves : edge ∈ cfg.successors point.1 := by
    rw [← represents.places.once edge.source point.1 _ held (List.mem_of_getElem? closes.1)]
    exact ControlFlowGraph.mem_successors.mpr ⟨inside, rfl⟩
  rw [closes.2.2, List.mem_singleton] at leaves
  rw [leaves]
  change cfg.statementsOf (spotBlock spots (targetLabel (entryNode spelling entry))) = []
  rw [targetLabel_entry label form, missing]
  exact lays.bounds.2

/-- No goto edge leads from a goto to its label. -/
theorem not_leadsTo {functionNode : AstNode} {cfg : ControlFlowGraph}
    (built : build functionNode (decoded spelling unit) = some cfg) {goto label : Emitted}
    (emitted : goto ∈ handleTranslationUnit spelling unit) (names : goto.source.NamesLabel label.source) :
    ¬ cfg.LeadsTo goto.node label.node := by
  obtain ⟨other, body, reads⟩ := build_reads (decoded_wellFormed spelling unit) functionNode
  obtain rfl := Option.some.inj (built.symm.trans reads.built)
  rintro ⟨edge, inside, _, held, head⟩
  obtain ⟨jump, _, name, source, _, form, _⟩ := names
  rw [handleTranslationUnit_eq] at emitted
  obtain ⟨entry, _, rfl⟩ := List.mem_map.mp emitted
  rw [goto_to_exit reads source form inside held] at head
  exact absurd head (by simp)

/-- The gotos of a function are linked exactly when none of them names a label of its body. -/
theorem gotosLinked_iff (spelling : DeclSpelling) (unit : TranslationUnit) (functionNode : AstNode) :
    GotosLinked spelling unit functionNode ↔
      ∀ goto label, InBody spelling unit functionNode goto → InBody spelling unit functionNode label →
        ¬ goto.source.NamesLabel label.source := by
  constructor
  · rintro ⟨cfg, built, linked⟩ goto label stands labelled names
    exact not_leadsTo built stands.1 names (linked goto label stands labelled names).1
  · intro bare
    obtain ⟨cfg, body, reads⟩ := build_reads (decoded_wellFormed spelling unit) functionNode
    exact ⟨cfg, reads.built, fun goto label stands labelled names =>
      absurd names (bare goto label stands labelled)⟩

/-! ### A goto to the end -/

/-- The body is `{ goto end; end: return 0; }`. -/
def gotoBody : Stmt :=
  .mk { address := 1, form := .compoundStmt }
    [.mk { address := 2, form := .gotoStmt "end" } [],
      .mk { address := 3, form := .labelStmt "end" }
        [.mk { address := 4, form := .returnStmt } [.mk { address := 5, form := .integerLiteral "0" } []]]]

/-- The unit is `int f(void) { goto end; end: return 0; }`. -/
def gotoUnit : TranslationUnit where
  decls := [.mk { address := 10, form := .function "f" 10 .scNone .externalLinkage (some gotoBody) } []]

def gotoNode (count : ℕ) : AstNode :=
  ((decoded ruleEngineSpelling gotoUnit).get (nodeId count)).getD { nodeId := "", nodeKind := .functionDecl }

theorem gotoUnit_inBody : ∀ count ∈ [3, 4],
    ∃ body ∈ (decoded ruleEngineSpelling gotoUnit).children (gotoNode 1).nodeId, body.nodeKind = .compoundStmt ∧
      gotoNode count ∈ (decoded ruleEngineSpelling gotoUnit).descendants body.nodeId := by
  decide

/-- The goto has no edge to its label. -/
theorem gotoUnit_unlinked : ¬ GotosLinked ruleEngineSpelling gotoUnit (gotoNode 1) := by
  rintro ⟨cfg, built, linked⟩
  have goto : (⟨gotoNode 3, .statement { address := 2, form := .gotoStmt "end" }⟩ : Emitted) ∈
      handleTranslationUnit ruleEngineSpelling gotoUnit := List.mem_of_getElem? (i := 2) rfl
  have label : (⟨gotoNode 4, .statement { address := 3, form := .labelStmt "end" }⟩ : Emitted) ∈
      handleTranslationUnit ruleEngineSpelling gotoUnit := List.mem_of_getElem? (i := 3) rfl
  have names : Source.NamesLabel (.statement { address := 2, form := .gotoStmt "end" })
      (.statement { address := 3, form := .labelStmt "end" }) := ⟨_, _, "end", rfl, rfl, rfl, rfl⟩
  exact not_leadsTo built goto names
    (linked _ _ ⟨goto, gotoUnit_inBody 3 (by decide)⟩ ⟨label, gotoUnit_inBody 4 (by decide)⟩ names).1

/-! ### Scopes of nameless gotos -/

theorem bare_jump {node : AstNode} (present : node ∈ (decoded spelling unit).nodes)
    (kind : node.nodeKind = .labelStmt ∨ node.nodeKind = .gotoStmt) : node.semanticProperties = [] := by
  rw [decoded_nodes] at present
  obtain ⟨entry, _, rfl⟩ := List.mem_map.mp present
  have known : (entryNode spelling entry).nodeKind.isStmtClass = true := by
    rcases kind with same | same <;> rw [same] <;> rfl
  obtain ⟨info, label, named⟩ := exists_statement known
  rw [properties_statement label]
  cases form : info.form with
  | labelStmt => rfl
  | gotoStmt => rfl
  | binaryOperator compoundAssignment =>
      rw [form] at named
      cases compoundAssignment <;> simp [StmtForm.className, ← named] at kind
  | _ => simp [form, StmtForm.className, ← named] at kind

theorem lookup_last {labels : List AstNode} {name : AstNode → String}
    (nameless : ∀ label ∈ labels, name label = "") :
    (labels.map fun label => (name label, label)).reverse.lookup "" = labels.getLast? := by
  induction labels using List.reverseRecOn with
  | nil => rfl
  | append_singleton front last _ =>
      have same := nameless last (by simp)
      simp [same]

section Unit

variable {functionNode : AstNode} (declared : functionNode ∈ (decoded spelling unit).nodes)

include declared

theorem bare_below {node : AstNode} (known : node ∈ (decoded spelling unit).descendants functionNode.nodeId)
    (kind : node.nodeKind = .labelStmt ∨ node.nodeKind = .gotoStmt) : node.semanticProperties = [] := by
  obtain ⟨parent, step⟩ := parent_of_below (decoded_forest spelling unit)
    ((mem_below (decoded_forest spelling unit) declared).mp known)
  exact bare_jump step.2.1 kind

/-- The empty name leads to the label that the traversal meets last. -/
theorem labelsByName_nameless : (Rule15_2.labelsByName functionNode (decoded spelling unit)).get? "" =
    (CFGBuilder.labels functionNode (decoded spelling unit)).getLast? := by
  have folded := OrderedDict.get?_foldl_insert ((CFGBuilder.labels functionNode (decoded spelling unit)).map
    fun label => (label.property "name" "", label)) .empty ""
  rw [List.foldl_map, OrderedDict.get?_empty, Option.or_none] at folded
  apply folded.trans
  apply lookup_last
  intro label listed
  obtain ⟨known, marks⟩ := List.mem_filter.mp listed
  rw [AstNode.property, bare_below declared known (.inl (of_decide_eq_true marks))]
  rfl

theorem unusedLabels_nameless : Rule2_6.unusedLabels (decoded spelling unit) functionNode = [] := by
  rw [Rule2_6.unusedLabels, List.filter_eq_nil_iff]
  intro label listed
  obtain ⟨known, marks⟩ := List.mem_filter.mp listed
  have nameless : label.property "name" "" = "" := by
    rw [AstNode.property, bare_below declared known (.inl (of_decide_eq_true marks))]
    rfl
  simp [nameless]

/-- A goto of the function is compared with its last label, whatever the two are called in the source. -/
theorem mem_crossing_nameless {goto label : AstNode} :
    (goto, label) ∈ Rule15_2.gotoLabelPairsCrossingScope functionNode (decoded spelling unit) ↔
      goto ∈ CFGBuilder.gotoTargets functionNode (decoded spelling unit) ∧
        (CFGBuilder.labels functionNode (decoded spelling unit)).getLast? = some label ∧
          ∀ parent, (decoded spelling unit).ParentOf parent label → ¬ (decoded spelling unit).Below parent goto := by
  rw [mem_crossing (decoded_forest spelling unit) declared]
  apply and_congr_right
  intro jump
  obtain ⟨known, jumps⟩ := List.mem_filter.mp jump
  have nameless : targetLabel goto = "" := by
    rw [targetLabel, AstNode.property, bare_below declared known (.inr (of_decide_eq_true jumps))]
    rfl
  rw [nameless, labelsByName_nameless declared]

end Unit

end AstSerializer
end MisraPlatform
