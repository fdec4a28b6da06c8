import MisraPlatform.Proof.Descendants
import MisraPlatform.Proof.Serialization
import MisraPlatform.Proof.Traversals
import MisraPlatform.Semantics.TranslationUnits

/-
This file is the graph that the rules decode from a serialized translation unit, and the tree that it shows.
-/

namespace MisraPlatform
open Clang

/-! ### Labels and branches of the forest -/

mutual

theorem Clang.Stmt.labels_tree (statement : Stmt) : statement.tree.labels = statement.all.map Source.statement := by
  cases statement with
  | mk info children => simp [Stmt.tree, Stmt.all, Forest.labels, Stmt.labels_forest children]

theorem Clang.Stmt.labels_forest (statements : List Stmt) :
    (Stmt.forest statements).labels = (Stmt.allOf statements).map Source.statement := by
  cases statements with
  | nil => rfl
  | cons statement rest =>
      rw [Stmt.forest, Forest.labels_append, Stmt.labels_tree statement, Stmt.labels_forest rest, Stmt.allOf,
        List.map_append]

end

namespace AstSerializer

variable {unit : TranslationUnit}

/-- These nodes are emitted for a declaration and its body. -/
def sources (unit : TranslationUnit) (info : DeclInfo) : List Source :=
  .declaration info :: (Stmt.allOf (unit.getBody info).toList).map Source.statement

mutual

theorem labels_declTree (unit : TranslationUnit) (declaration : Decl) :
    (declaration.tree unit).labels = declaration.all.flatMap (sources unit) := by
  cases declaration with
  | mk info decls =>
      rw [Decl.tree, Decl.all, Forest.labels, Forest.labels_append, TranslationUnit.bodyForest,
        Stmt.labels_forest, labels_declForest unit decls, List.flatMap_cons, sources]
      simp [Forest.labels]

theorem labels_declForest (unit : TranslationUnit) (decls : List Decl) :
    (Decl.forest unit decls).labels = (Decl.allOf decls).flatMap (sources unit) := by
  cases decls with
  | nil => rfl
  | cons declaration rest =>
      rw [Decl.forest, Forest.labels_append, labels_declTree unit declaration, labels_declForest unit rest,
        Decl.allOf, List.flatMap_append]

end

/-- The statements of a branch of statements are below it. -/
def IsStatementBranch (branch : Source × Forest Source) : Prop :=
  ∃ info children, branch = (.statement info, Stmt.forest children)

mutual

theorem branches_stmtTree (statement : Stmt) : ∀ branch ∈ statement.tree.branches, IsStatementBranch branch := by
  cases statement with
  | mk info children =>
      intro branch inside
      rw [Stmt.tree, Forest.branches, Forest.branches, List.append_nil, List.mem_cons] at inside
      rcases inside with rfl | below
      · exact ⟨info, children, rfl⟩
      · exact branches_stmtForest children branch below

theorem branches_stmtForest (statements : List Stmt) :
    ∀ branch ∈ (Stmt.forest statements).branches, IsStatementBranch branch := by
  cases statements with
  | nil => exact fun _ inside => absurd inside List.not_mem_nil
  | cons statement rest =>
      intro branch inside
      rw [Stmt.forest, Forest.branches_append, List.mem_append] at inside
      rcases inside with first | later
      · exact branches_stmtTree statement branch first
      · exact branches_stmtForest rest branch later

end

/-- The body and the declarations inside are below a declaration. -/
def IsDeclBranch (unit : TranslationUnit) (contexts : List (DeclInfo × List Decl))
    (branch : Source × Forest Source) : Prop :=
  ∃ info decls, (info, decls) ∈ contexts ∧
    branch = (.declaration info, (unit.bodyForest info).append (Decl.forest unit decls))

theorem IsDeclBranch.mono {contexts others : List (DeclInfo × List Decl)} (inside : contexts ⊆ others)
    {branch : Source × Forest Source} (isBranch : IsDeclBranch unit contexts branch) :
    IsDeclBranch unit others branch := by
  obtain ⟨info, decls, context, same⟩ := isBranch
  exact ⟨info, decls, inside context, same⟩

mutual

theorem branches_declTree (unit : TranslationUnit) (declaration : Decl) :
    ∀ branch ∈ (declaration.tree unit).branches,
      IsStatementBranch branch ∨ IsDeclBranch unit declaration.contexts branch := by
  cases declaration with
  | mk info decls =>
      intro branch inside
      rw [Decl.tree, Forest.branches, Forest.branches, List.append_nil, List.mem_cons, Forest.branches_append,
        List.mem_append] at inside
      rcases inside with rfl | body | below
      · exact .inr ⟨info, decls, List.mem_cons_self, rfl⟩
      · exact .inl (branches_stmtForest _ branch body)
      · exact (branches_declForest unit decls branch below).imp_right
          (IsDeclBranch.mono (List.subset_cons_self _ _))

theorem branches_declForest (unit : TranslationUnit) (decls : List Decl) :
    ∀ branch ∈ (Decl.forest unit decls).branches,
      IsStatementBranch branch ∨ IsDeclBranch unit (Decl.contextsOf decls) branch := by
  cases decls with
  | nil => exact fun _ inside => absurd inside List.not_mem_nil
  | cons declaration rest =>
      intro branch inside
      rw [Decl.forest, Forest.branches_append, List.mem_append] at inside
      rcases inside with first | later
      · exact (branches_declTree unit declaration branch first).imp_right
          (IsDeclBranch.mono (List.subset_append_left _ _))
      · exact (branches_declForest unit rest branch later).imp_right
          (IsDeclBranch.mono (List.subset_append_right _ _))

end

theorem rootLabels_stmtForest (statements : List Stmt) :
    ∀ source ∈ (Stmt.forest statements).rootLabels, ∃ info, source = .statement info := by
  induction statements with
  | nil => exact fun _ inside => absurd inside List.not_mem_nil
  | cons statement rest ih =>
      obtain ⟨info, children⟩ := statement
      intro source inside
      rw [Stmt.forest, Forest.rootLabels_append, List.mem_append] at inside
      rcases inside with first | later
      · exact ⟨info, List.mem_singleton.mp first⟩
      · exact ih source later

theorem rootLabels_declForest (decls : List Decl) :
    (Decl.forest unit decls).rootLabels = decls.map fun declaration => .declaration declaration.info := by
  induction decls with
  | nil => rfl
  | cons declaration rest ih =>
      obtain ⟨info, inner⟩ := declaration
      rw [Decl.forest, Forest.rootLabels_append, ih]
      rfl

/-! ### The graph -/

/-- This is the node of an entry. -/
def entryNode (spelling : DeclSpelling) (entry : Forest.Entry Source) : AstNode := (toEmitted spelling entry).node

variable {spelling : DeclSpelling}

theorem kind_statement {entry : Forest.Entry Source} {info : StmtInfo} (label : entry.label = .statement info) :
    (entryNode spelling entry).nodeKind = info.form.className := by
  obtain ⟨index, parent, children, _⟩ := entry
  obtain rfl := label
  rfl

theorem kind_declaration {entry : Forest.Entry Source} {info : DeclInfo}
    (label : entry.label = .declaration info) :
    (entryNode spelling entry).nodeKind = spelling.kind info.form.kind := by
  obtain ⟨index, parent, children, _⟩ := entry
  obtain rfl := label
  rfl

theorem decoded_nodes (spelling : DeclSpelling) (unit : TranslationUnit) :
    (decoded spelling unit).nodes = (entries unit).map (entryNode spelling) := by
  unfold decoded
  rw [handleTranslationUnit_eq, List.map_map]
  rfl

theorem labels_entries (unit : TranslationUnit) :
    (entries unit).map Forest.Entry.label = (Decl.allOf unit.visited).flatMap (sources unit) := by
  rw [entries, Forest.label_number, TranslationUnit.forest, labels_declForest]

theorem entry_unique {first second : Forest.Entry Source} (here : first ∈ entries unit)
    (there : second ∈ entries unit) (same : first.index = second.index) : first = second :=
  List.inj_on_of_nodup_map (Forest.index_nodup 0 1 unit.forest) here there same

theorem entry_positive {entry : Forest.Entry Source} (inside : entry ∈ entries unit) : 1 ≤ entry.index :=
  (Forest.index_bounds inside).1

/-- A number among the children of an entry is the number of an entry below it. -/
theorem mem_entry_children {entry : Forest.Entry Source} (inside : entry ∈ entries unit) {index : ℕ} :
    index ∈ entry.children ↔ ∃ child ∈ entries unit, child.index = index ∧ child.parent = entry.index := by
  rw [← Forest.filter_index (Nat.zero_lt_one) inside, List.mem_map]
  simp only [List.mem_filter, decide_eq_true_eq, entries]
  constructor
  · rintro ⟨child, ⟨listed, below⟩, same⟩
    exact ⟨child, listed, same, below⟩
  · rintro ⟨child, listed, same, below⟩
    exact ⟨child, ⟨listed, below⟩, same⟩

/-- A listed child is the node of an entry whose parent is the entry of the node. -/
theorem child_entry {spelling : DeclSpelling} {node child : AstNode}
    (present : node ∈ (decoded spelling unit).nodes) (known : child ∈ (decoded spelling unit).nodes)
    (listed : child.nodeId ∈ node.childrenIds) :
    ∃ above ∈ entries unit, ∃ below ∈ entries unit, node = entryNode spelling above ∧
      child = entryNode spelling below ∧ below.parent = above.index := by
  rw [decoded_nodes] at present known
  obtain ⟨above, inside, rfl⟩ := List.mem_map.mp present
  obtain ⟨below, there, rfl⟩ := List.mem_map.mp known
  obtain ⟨index, number, same⟩ := List.mem_map.mp listed
  obtain ⟨found, here, rfl, up⟩ := (mem_entry_children inside).mp number
  obtain rfl := entry_unique here there (nodeId_injective same)
  exact ⟨above, inside, found, there, rfl, rfl, up⟩

theorem decoded_wellFormed (spelling : DeclSpelling) (unit : TranslationUnit) :
    (decoded spelling unit).WellFormed := by
  have named : (decoded spelling unit).nodes.map AstNode.nodeId =
      ((entries unit).map Forest.Entry.index).map nodeId := by
    rw [decoded_nodes, List.map_map, List.map_map]
    rfl
  have indices := Forest.index_nodup 0 1 unit.forest
  constructor
  · rw [named]
    exact indices.map nodeId_injective
  · intro node present
    rw [decoded_nodes] at present
    obtain ⟨entry, inside, rfl⟩ := List.mem_map.mp present
    refine List.Nodup.map nodeId_injective ?_
    rw [← Forest.filter_index (Nat.zero_lt_one) inside]
    exact (indices.sublist (List.filter_sublist.map _))
  · intro node present child known listed
    obtain ⟨entry, inside, found, there, rfl, rfl, up⟩ := child_entry present known listed
    change parentId found.parent = nodeId entry.index
    rw [up, parentId, if_neg (by have := entry_positive inside; omega)]
  · refine ⟨Function.extend nodeId (fun index => unit.forest.size + 1 - index) fun _ => 0, ?_⟩
    intro node present child known listed
    obtain ⟨entry, inside, found, there, rfl, rfl, up⟩ := child_entry present known listed
    change Function.extend nodeId _ _ (nodeId found.index) < Function.extend nodeId _ _ (nodeId entry.index)
    rw [nodeId_injective.extend_apply, nodeId_injective.extend_apply]
    have bounds := Forest.index_bounds there
    have positive := entry_positive inside
    rcases Forest.parent_bounds there with top | between
    · omega
    · omega

theorem get_entry {entry : Forest.Entry Source} (inside : entry ∈ entries unit) :
    (decoded spelling unit).get (nodeId entry.index) = some (entryNode spelling entry) := by
  have present : entryNode spelling entry ∈ (decoded spelling unit).nodes := by
    rw [decoded_nodes]
    exact List.mem_map_of_mem inside
  cases found : (decoded spelling unit).get (nodeId entry.index) with
  | none =>
      have absent := List.find?_eq_none.mp found _ (List.mem_reverse.mpr present)
      exact absurd (show (entryNode spelling entry).nodeId = nodeId entry.index from rfl) (by simpa using absent)
  | some node =>
      obtain ⟨known, same⟩ := AstGraph.get_eq_some found
      rw [(decoded_wellFormed spelling unit).unique known present same]

theorem mem_children_entry {entry : Forest.Entry Source} (inside : entry ∈ entries unit) {child : AstNode} :
    child ∈ (decoded spelling unit).children (nodeId entry.index) ↔
      ∃ below ∈ entries unit, below.parent = entry.index ∧ child = entryNode spelling below := by
  have listed : (decoded spelling unit).children (nodeId entry.index) =
      (entry.children.map nodeId).filterMap (decoded spelling unit).get := by
    rw [AstGraph.children, get_entry inside]
    rfl
  rw [listed, List.filterMap_map, List.mem_filterMap]
  constructor
  · rintro ⟨index, number, found⟩
    obtain ⟨below, there, rfl, up⟩ := (mem_entry_children inside).mp number
    rw [Function.comp_apply, get_entry there] at found
    exact ⟨below, there, up, (Option.some.inj found).symm⟩
  · rintro ⟨below, there, up, rfl⟩
    exact ⟨below.index, (mem_entry_children inside).mpr ⟨below, there, rfl, up⟩, get_entry there⟩

/-- The entries of the children follow their entry. -/
structure Spans (unit : TranslationUnit) (entry : Forest.Entry Source) (children : Forest Source) : Prop where
  branch : (entry.label, children) ∈ unit.forest.branches
  roots : entry.children = children.roots (entry.index + 1)
  part : (entry :: children.number entry.index (entry.index + 1)) <:+: entries unit

theorem exists_spans {entry : Forest.Entry Source} (inside : entry ∈ entries unit) :
    ∃ children, Spans unit entry children := by
  obtain ⟨children, branch, roots, part⟩ := Forest.exists_branch inside
  exact ⟨children, branch, roots, part⟩

section Spans

variable {entry : Forest.Entry Source} {children : Forest Source} (spans : Spans unit entry children)

include spans

theorem Spans.inside : entry ∈ entries unit := spans.part.subset List.mem_cons_self

theorem Spans.known {below : Forest.Entry Source}
    (listed : below ∈ children.number entry.index (entry.index + 1)) : below ∈ entries unit :=
  spans.part.subset (List.mem_cons_of_mem _ listed)

/-- The children of the entry are those of the span with the entry as their parent. -/
theorem Spans.child {below : Forest.Entry Source} (there : below ∈ entries unit)
    (up : below.parent = entry.index) : below ∈ children.number entry.index (entry.index + 1) := by
  have number := (mem_entry_children spans.inside).mpr ⟨below, there, rfl, up⟩
  rw [spans.roots, ← Forest.index_filter_parent (Nat.lt_succ_self entry.index)] at number
  obtain ⟨found, here, same⟩ := List.mem_map.mp number
  have listed := (List.mem_filter.mp here).1
  rwa [← entry_unique (spans.known listed) there same]

/-- The span has the children of its entries. -/
theorem Spans.closed {above below : Forest.Entry Source}
    (listed : above ∈ children.number entry.index (entry.index + 1)) (there : below ∈ entries unit)
    (up : below.parent = above.index) : below ∈ children.number entry.index (entry.index + 1) := by
  have number := (mem_entry_children (spans.known listed)).mpr ⟨below, there, rfl, up⟩
  rw [← Forest.filter_index (Nat.lt_succ_self entry.index) listed] at number
  obtain ⟨found, here, same⟩ := List.mem_map.mp number
  have inner := (List.mem_filter.mp here).1
  rwa [← entry_unique (spans.known inner) there same]

/-- The labels of the children are those of the roots. -/
theorem Spans.child_label {below : Forest.Entry Source} (there : below ∈ entries unit)
    (up : below.parent = entry.index) : below.label ∈ children.rootLabels := by
  rw [← Forest.label_filter_parent (Nat.lt_succ_self entry.index)]
  exact List.mem_map_of_mem (List.mem_filter.mpr ⟨spans.child there up, decide_eq_true up⟩)

theorem Spans.exists_child {label : Source} (root : label ∈ children.rootLabels) :
    ∃ below ∈ entries unit, below.parent = entry.index ∧ below.label = label := by
  rw [← Forest.label_filter_parent (Nat.lt_succ_self entry.index)] at root
  obtain ⟨below, inside, same⟩ := List.mem_map.mp root
  obtain ⟨listed, up⟩ := List.mem_filter.mp inside
  exact ⟨below, spans.known listed, of_decide_eq_true up, same⟩

/-- The entries of the span stand under the children of its entry. -/
theorem Spans.under {below : Forest.Entry Source}
    (listed : below ∈ children.number entry.index (entry.index + 1)) :
    ∃ child ∈ (decoded spelling unit).children (nodeId entry.index),
      (decoded spelling unit).Under child (entryNode spelling below) := by
  obtain ⟨index, at_⟩ : ∃ index, below.index = index := ⟨_, rfl⟩
  induction index using Nat.strongRecOn generalizing below with
  | _ index ih =>
  subst at_
  have there := spans.known listed
  rcases Forest.parent_bounds listed with top | ⟨after, before⟩
  · exact ⟨_, (mem_children_entry spans.inside).mpr ⟨below, there, top, rfl⟩, .refl⟩
  · obtain ⟨above, known, same⟩ := Forest.exists_index entry.index children after
      (before.trans (Forest.index_bounds listed).2)
    obtain ⟨child, first, under⟩ := ih above.index (by omega) known rfl
    refine ⟨child, first, under.tail ⟨?_, (mem_children_entry (spans.known known)).mpr
      ⟨below, there, same.symm, rfl⟩⟩⟩
    rw [decoded_nodes]
    exact List.mem_map_of_mem (spans.known known)

/-- The descendants of a node are the entries of its span. -/
theorem Spans.mem_descendants {node : AstNode} :
    node ∈ (decoded spelling unit).descendants (nodeId entry.index) ↔
      ∃ below ∈ children.number entry.index (entry.index + 1), node = entryNode spelling below := by
  rw [(decoded_wellFormed spelling unit).mem_descendants]
  constructor
  · rintro ⟨child, first, under⟩
    induction under with
    | refl =>
        obtain ⟨below, there, up, rfl⟩ := (mem_children_entry spans.inside).mp first
        exact ⟨below, spans.child there up, rfl⟩
    | tail _ step ih =>
        obtain ⟨above, listed, rfl⟩ := ih
        obtain ⟨below, there, up, rfl⟩ := (mem_children_entry (spans.known listed)).mp step.2
        exact ⟨below, spans.closed listed there up, rfl⟩
  · rintro ⟨below, listed, rfl⟩
    exact spans.under listed

end Spans

/-! ### Statements -/

theorem mem_decoded {node : AstNode} (present : node ∈ (decoded spelling unit).nodes) :
    ∃ entry ∈ entries unit, node = entryNode spelling entry := by
  rw [decoded_nodes] at present
  obtain ⟨entry, inside, rfl⟩ := List.mem_map.mp present
  exact ⟨entry, inside, rfl⟩

theorem entryNode_mem {entry : Forest.Entry Source} (inside : entry ∈ entries unit) :
    entryNode spelling entry ∈ (decoded spelling unit).nodes := by
  rw [decoded_nodes]
  exact List.mem_map_of_mem inside

/-- Statements have statements below them. -/
theorem statement_child {entry below : Forest.Entry Source} (inside : entry ∈ entries unit)
    (there : below ∈ entries unit) (up : below.parent = entry.index) {info : StmtInfo}
    (label : entry.label = .statement info) : ∃ other, below.label = .statement other := by
  obtain ⟨children, spans⟩ := exists_spans inside
  rcases branches_declForest unit _ _ spans.branch with ⟨_, statements, same⟩ | ⟨_, _, _, same⟩
  · have listed := spans.child_label there up
    rw [(Prod.mk.inj same).2] at listed
    exact rootLabels_stmtForest statements _ listed
  · rw [label] at same
    exact absurd (Prod.mk.inj same).1 (by simp)

/-- Under the node of a statement stand nodes of statements. -/
theorem statement_under {entry : Forest.Entry Source} (inside : entry ∈ entries unit) {info : StmtInfo}
    (label : entry.label = .statement info) {node : AstNode}
    (under : (decoded spelling unit).Under (entryNode spelling entry) node) :
    ∃ below ∈ entries unit, node = entryNode spelling below ∧ ∃ other, below.label = .statement other := by
  induction under with
  | refl => exact ⟨entry, inside, rfl, info, label⟩
  | tail _ step ih =>
      obtain ⟨above, listed, rfl, other, named⟩ := ih
      obtain ⟨below, there, up, rfl⟩ := (mem_children_entry listed).mp step.2
      exact ⟨below, there, rfl, statement_child listed there up named⟩

/-! ### Declarations -/

/-- Below the entry of a declaration stand its body and the declarations inside. -/
theorem Spans.declaration {entry : Forest.Entry Source} {children : Forest Source}
    (spans : Spans unit entry children) {info : DeclInfo}
    (label : entry.label = .declaration info) :
    ∃ decls, (info, decls) ∈ Decl.contextsOf unit.visited ∧
      children = (unit.bodyForest info).append (Decl.forest unit decls) := by
  rcases branches_declForest unit _ _ spans.branch with
    ⟨statement, _, same⟩ | ⟨other, decls, context, same⟩
  · rw [label] at same
    exact absurd (congrArg Prod.fst same) (by simp)
  · obtain ⟨first, second⟩ := Prod.mk.inj same
    rw [label] at first
    obtain rfl := Source.declaration.inj first
    exact ⟨decls, context, second⟩

theorem visited_of_entry {entry : Forest.Entry Source} (inside : entry ∈ entries unit)
    {info : DeclInfo} (label : entry.label = .declaration info) : info ∈ unit.visitedDecls := by
  have listed := List.mem_map_of_mem (f := Forest.Entry.label) inside
  rw [labels_entries, label, List.mem_flatMap] at listed
  obtain ⟨other, visited, source⟩ := listed
  rcases List.mem_cons.mp source with same | statement
  · rwa [Source.declaration.inj same]
  · obtain ⟨_, _, same⟩ := List.mem_map.mp statement
    exact absurd same (by simp)

theorem exists_entry_of_visited {info : DeclInfo} (visited : info ∈ unit.visitedDecls) :
    ∃ entry ∈ entries unit, entry.label = .declaration info := by
  have listed : Source.declaration info ∈ (entries unit).map Forest.Entry.label := by
    rw [labels_entries]
    exact List.mem_flatMap.mpr ⟨info, visited, List.mem_cons_self⟩
  obtain ⟨entry, inside, same⟩ := List.mem_map.mp listed
  exact ⟨entry, inside, same⟩

theorem className_isStmtClass_or (form : StmtForm) :
    form.className.isStmtClass = true ∨ ∃ spelled, form.className = .other spelled := by
  cases form with
  | binaryOperator compoundAssignment => cases compoundAssignment <;> simp [StmtForm.className, NodeKind.isStmtClass]
  | _ => simp [StmtForm.className, NodeKind.isStmtClass]

/-- A statement has no kind that belongs to declarations. -/
theorem kind_ne_of_statement {spelling : DeclSpelling} {entry : Forest.Entry Source} {info : StmtInfo}
    (label : entry.label = .statement info) {kind : NodeKind} (declares : kind.isStmtClass = false)
    (known : ∀ spelled, kind ≠ .other spelled) : (entryNode spelling entry).nodeKind ≠ kind := by
  rw [kind_statement label]
  rintro rfl
  rcases className_isStmtClass_or info.form with classified | ⟨spelled, named⟩
  · rw [declares] at classified
    exact absurd classified (by decide)
  · exact known spelled named

/-! ### The shape -/

theorem parentOf_entries {parent child : AstNode} (step : (decoded spelling unit).ParentOf parent child) :
    ∃ above ∈ entries unit, ∃ below ∈ entries unit, parent = entryNode spelling above ∧
      child = entryNode spelling below ∧ below.parent = above.index := by
  obtain ⟨present, known, up⟩ := step
  rw [decoded_nodes] at present known
  obtain ⟨above, inside, rfl⟩ := List.mem_map.mp present
  obtain ⟨below, there, rfl⟩ := List.mem_map.mp known
  have same : nodeId above.index = parentId below.parent := up.symm
  exact ⟨above, inside, below, there, rfl, rfl, (parentId_eq_nodeId.mp same).1.symm⟩

theorem parentOf_entry {above below : Forest.Entry Source} (inside : above ∈ entries unit)
    (there : below ∈ entries unit) (up : below.parent = above.index) :
    (decoded spelling unit).ParentOf (entryNode spelling above) (entryNode spelling below) := by
  refine ⟨?_, ?_, ?_⟩
  · rw [decoded_nodes]
    exact List.mem_map_of_mem inside
  · rw [decoded_nodes]
    exact List.mem_map_of_mem there
  · change parentId below.parent = nodeId above.index
    rw [up, parentId_pos (entry_positive inside)]

/-- A node below another one has the larger number. -/
theorem below_number {top node : AstNode} (lower : Relation.TransGen (decoded spelling unit).ParentOf top node) :
    ∃ above ∈ entries unit, ∃ below ∈ entries unit, top = entryNode spelling above ∧
      node = entryNode spelling below ∧ above.index < below.index := by
  have order : ∀ {above below : Forest.Entry Source}, above ∈ entries unit → below ∈ entries unit →
      below.parent = above.index → above.index < below.index := by
    intro above below inside there up
    have positive := entry_positive inside
    rcases Forest.parent_bounds there with top | between
    · omega
    · omega
  induction lower with
  | single step =>
      obtain ⟨above, inside, below, there, first, second, up⟩ := parentOf_entries step
      exact ⟨above, inside, below, there, first, second, order inside there up⟩
  | tail _ step ih =>
      obtain ⟨above, inside, middle, listed, first, rfl, before⟩ := ih
      obtain ⟨other, known, below, there, same, second, up⟩ := parentOf_entries step
      have one : middle.index = other.index := nodeId_injective (congrArg AstNode.nodeId same)
      exact ⟨above, inside, below, there, first, second,
        before.trans (one ▸ order known there up)⟩

theorem decoded_forest (spelling : DeclSpelling) (unit : TranslationUnit) : (decoded spelling unit).Forest := by
  have wellFormed := decoded_wellFormed spelling unit
  refine ⟨wellFormed.ids, ?_, wellFormed.childIds, ?_, ?_⟩
  · intro node present named
    rw [decoded_nodes] at present
    obtain ⟨below, there, rfl⟩ := List.mem_map.mp present
    have root : below.parent ≠ 0 := by
      intro top
      exact named (show parentId below.parent = "" by rw [top]; rfl)
    rcases Forest.parent_bounds there with top | between
    · exact absurd top root
    · have index := (Forest.index_bounds there).2
      obtain ⟨above, inside, same⟩ := Forest.exists_index 0 unit.forest between.1 (by omega)
      exact ⟨entryNode spelling above, parentOf_entry inside there same.symm⟩
  · intro node present childId
    rw [decoded_nodes] at present
    obtain ⟨above, inside, rfl⟩ := List.mem_map.mp present
    change childId ∈ above.children.map nodeId ↔ _
    rw [List.mem_map]
    constructor
    · rintro ⟨index, number, rfl⟩
      obtain ⟨below, there, rfl, up⟩ := (mem_entry_children inside).mp number
      exact ⟨entryNode spelling below, parentOf_entry inside there up, rfl⟩
    · rintro ⟨child, step, rfl⟩
      obtain ⟨other, known, below, there, same, rfl, up⟩ := parentOf_entries step
      have one : above.index = other.index := nodeId_injective (congrArg AstNode.nodeId same)
      exact ⟨below.index, (mem_entry_children inside).mpr ⟨below, there, rfl, up.trans one.symm⟩, rfl⟩
  · intro node cycle
    obtain ⟨above, inside, below, there, first, second, before⟩ := below_number cycle
    have same : above.index = below.index :=
      nodeId_injective (congrArg AstNode.nodeId (first.symm.trans second))
    omega

theorem shows_entry {entry : Forest.Entry Source} (inside : entry ∈ entries unit) {ids : List String}
    {children rest : Forest AstNode} (below : (decoded spelling unit).Shows (entry.children.map nodeId) children)
    (after : (decoded spelling unit).Shows ids rest) :
    (decoded spelling unit).Shows (nodeId entry.index :: ids) (.cons (entryNode spelling entry) children rest) := by
  change (decoded spelling unit).Shows ((entryNode spelling entry).nodeId :: ids) _
  exact .cons (get_entry inside) below after

/-- The recorded trees are those that the numbers of their roots lead to. -/
theorem shows_recorded (forest : Forest Source) {parent next : ℕ}
    (inside : forest.number parent next ⊆ entries unit) : (decoded spelling unit).Shows
      ((forest.roots next).map nodeId) ((forest.recorded parent next).map (entryNode spelling)) := by
  induction forest generalizing parent next with
  | nil => exact .nil
  | cons label children rest inner outer =>
      rw [Forest.number, List.cons_append, List.cons_subset, List.append_subset] at inside
      obtain ⟨first, lower, later⟩ := inside
      rw [Forest.roots, Forest.recorded, Forest.map, List.map_cons]
      exact shows_entry first (inner lower) (outer later)

/-- This is what a node has beside its place in the AST. -/
def content (node : AstNode) : AstNode := { node with nodeId := "", parentId := "", childrenIds := [] }

/-- The AST of a unit is a forest. From the nodes without a parent on, the lists of children give the
declarations and bodies in their places back. -/
theorem decoded_shape (spelling : DeclSpelling) (unit : TranslationUnit) : (decoded spelling unit).Forest ∧
    ∃ drawn : Forest AstNode, (decoded spelling unit).Shows
        (((decoded spelling unit).nodes.filter fun node => node.parentId = "").map AstNode.nodeId) drawn ∧
      drawn.labels = (decoded spelling unit).nodes ∧
      drawn.map content = unit.forest.map fun source => newNode spelling source "" "" := by
  refine ⟨decoded_forest spelling unit, (unit.forest.recorded 0 1).map (entryNode spelling), ?_, ?_, ?_⟩
  · have top : ∀ entry : Forest.Entry Source,
        (entryNode spelling entry).parentId = "" ↔ entry.parent = 0 := by
      intro entry
      change parentId entry.parent = "" ↔ _
      rw [parentId]
      split
      · simp [*]
      · simp [*, nodeId_ne_empty]
    have roots : ((decoded spelling unit).nodes.filter fun node => node.parentId = "").map AstNode.nodeId =
        (unit.forest.roots 1).map nodeId := by
      rw [decoded_nodes, List.filter_map, List.map_map, ← Forest.index_filter_parent Nat.zero_lt_one, List.map_map]
      simp only [Function.comp_def, top]
      rfl
    rw [roots]
    exact shows_recorded unit.forest (List.Subset.refl _)
  · rw [Forest.labels_map, Forest.labels_recorded, decoded_nodes]
    rfl
  · rw [Forest.map_map]
    calc (unit.forest.recorded 0 1).map (fun entry => content (entryNode spelling entry))
        = ((unit.forest.recorded 0 1).map Forest.Entry.label).map fun source => newNode spelling source "" "" := by
          rw [Forest.map_map]
          rfl
      _ = unit.forest.map fun source => newNode spelling source "" "" := by rw [Forest.map_recorded]

end AstSerializer
end MisraPlatform
