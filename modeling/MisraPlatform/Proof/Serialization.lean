import MisraPlatform.Construction.AstSerializer
import MisraPlatform.Library.Preorder
import MisraPlatform.Proof.Forest
import MisraPlatform.Semantics.TranslationUnits
import Std.Data.String.ToNat

/-
This file shows that the serializer numbers the forest of declarations and statements in preorder.
-/

namespace MisraPlatform
open Clang

/-! ### The forest of a translation unit -/

mutual

def Clang.Stmt.tree : Stmt → Forest Source
  | .mk info children => .cons (.statement info) (Clang.Stmt.forest children) .nil

def Clang.Stmt.forest : List Stmt → Forest Source
  | [] => .nil
  | statement :: rest => statement.tree.append (Clang.Stmt.forest rest)

end

/-- The body that the serializer finds for a declaration. -/
def Clang.TranslationUnit.bodyForest (unit : TranslationUnit) (info : DeclInfo) : Forest Source :=
  Clang.Stmt.forest (unit.getBody info).toList

mutual

def Clang.Decl.tree (unit : TranslationUnit) : Decl → Forest Source
  | .mk info decls =>
      .cons (.declaration info) ((unit.bodyForest info).append (Clang.Decl.forest unit decls)) .nil

def Clang.Decl.forest (unit : TranslationUnit) : List Decl → Forest Source
  | [] => .nil
  | declaration :: rest => (declaration.tree unit).append (Clang.Decl.forest unit rest)

end

def Clang.TranslationUnit.forest (unit : TranslationUnit) : Forest Source := Decl.forest unit unit.visited

namespace AstSerializer

variable {spelling : DeclSpelling}

/-! ### One visit for both -/

def visitForest (spelling : DeclSpelling) : Forest Source → String → AstSerializer → AstSerializer
  | .nil, _, serializer => serializer
  | .cons source children rest, parentId, serializer =>
      visitForest spelling rest parentId (visitForest spelling children
        (emit spelling source parentId serializer).1 (emit spelling source parentId serializer).2)

theorem visitForest_append (first second : Forest Source) (parentId : String) (serializer : AstSerializer) :
    visitForest spelling (first.append second) parentId serializer =
      visitForest spelling second parentId (visitForest spelling first parentId serializer) := by
  induction first generalizing serializer with
  | nil => rfl
  | cons source children rest _ ih =>
      rw [Forest.append, visitForest, ih, visitForest]

mutual

theorem visitStmt_eq (statement : Stmt) (parentId : String) (serializer : AstSerializer) :
    visitStmt spelling statement parentId serializer = visitForest spelling statement.tree parentId serializer := by
  cases statement with
  | mk info children =>
      rw [visitStmt, Stmt.tree, visitForest]
      exact visitStmts_eq children _ _

theorem visitStmts_eq (statements : List Stmt) (parentId : String) (serializer : AstSerializer) :
    visitStmts spelling statements parentId serializer =
      visitForest spelling (Stmt.forest statements) parentId serializer := by
  cases statements with
  | nil => rfl
  | cons statement rest =>
      rw [visitStmts, Stmt.forest, visitForest_append, visitStmt_eq statement]
      exact visitStmts_eq rest _ _

end

mutual

theorem visitDecl_eq (unit : TranslationUnit) (declaration : Decl) (parentId : String)
    (serializer : AstSerializer) : visitDecl spelling unit declaration parentId serializer =
      visitForest spelling (declaration.tree unit) parentId serializer := by
  cases declaration with
  | mk info decls =>
      rw [visitDecl, Decl.tree, visitForest, visitForest, visitForest_append, TranslationUnit.bodyForest]
      dsimp only
      rw [visitDecls_eq unit decls]
      cases unit.getBody info with
      | none => rfl
      | some body =>
          rw [Option.toList_some, ← visitStmts_eq, visitStmts, visitStmts]

theorem visitDecls_eq (unit : TranslationUnit) (decls : List Decl) (parentId : String)
    (serializer : AstSerializer) : visitDecls spelling unit decls parentId serializer =
      visitForest spelling (Decl.forest unit decls) parentId serializer := by
  cases decls with
  | nil => rfl
  | cons declaration rest =>
      rw [visitDecls, Decl.forest, visitForest_append, visitDecl_eq unit declaration]
      exact visitDecls_eq unit rest _ _

end

theorem foldl_visitDecl (unit : TranslationUnit) (decls : List Decl) (serializer : AstSerializer) :
    decls.foldl (fun serializer declaration => visitDecl spelling unit declaration "" serializer) serializer =
      visitForest spelling (Decl.forest unit decls) "" serializer := by
  induction decls generalizing serializer with
  | nil => rfl
  | cons declaration rest ih => rw [List.foldl_cons, ih, Decl.forest, visitForest_append, visitDecl_eq]

/-! ### Ids -/

theorem nodeId_injective : Function.Injective nodeId := by
  intro first second same
  exact Nat.repr_injective ((String.append_right_inj "node-").mp same)

theorem nodeId_ne_empty (count : ℕ) : nodeId count ≠ "" := by
  intro same
  have length := congrArg String.length same
  rw [nodeId, String.length_append] at length
  simp at length

/-- The number zero stands for no parent. -/
def parentId (count : ℕ) : String := if count = 0 then "" else nodeId count

theorem parentId_pos {count : ℕ} (positive : 0 < count) : parentId count = nodeId count :=
  if_neg (Nat.pos_iff_ne_zero.mp positive)

theorem parentId_eq_nodeId {parent count : ℕ} : nodeId count = parentId parent ↔ count = parent ∧ parent ≠ 0 := by
  unfold parentId
  by_cases top : parent = 0
  · simp [top, nodeId_ne_empty]
  · simp [top, nodeId_injective.eq_iff]

/-! ### The children of a node -/

def withChildren (parentId : String) (childIds : List String) (emitted : List Emitted) : List Emitted :=
  emitted.map fun existing =>
    if existing.node.nodeId = parentId then
      { existing with node := { existing.node with childrenIds := existing.node.childrenIds ++ childIds } }
    else existing

theorem withChildren_append (parentId : String) (childIds : List String) (first second : List Emitted) :
    withChildren parentId childIds (first ++ second) =
      withChildren parentId childIds first ++ withChildren parentId childIds second := List.map_append

theorem withChildren_absent {parentId : String} {emitted : List Emitted}
    (absent : ∀ existing ∈ emitted, existing.node.nodeId ≠ parentId) (childIds : List String) :
    withChildren parentId childIds emitted = emitted := by
  unfold withChildren
  rw [List.map_congr_left fun existing inside => if_neg (absent existing inside), List.map_id']

@[simp] theorem withChildren_nil (parentId : String) (emitted : List Emitted) :
    withChildren parentId [] emitted = emitted := by
  unfold withChildren
  conv_rhs => rw [← List.map_id' emitted]
  refine List.map_congr_left fun existing _ => ?_
  split
  · rw [List.append_nil]
  · rfl

theorem withChildren_twice (parentId : String) (first second : List String) (emitted : List Emitted) :
    withChildren parentId second (withChildren parentId first emitted) =
      withChildren parentId (first ++ second) emitted := by
  unfold withChildren
  rw [List.map_map]
  refine List.map_congr_left fun existing _ => ?_
  by_cases here : existing.node.nodeId = parentId
  · simp [here]
  · simp [here]

@[simp] theorem map_nodeId_withChildren (parentId : String) (childIds : List String) (emitted : List Emitted) :
    (withChildren parentId childIds emitted).map (fun existing => existing.node.nodeId) =
      emitted.map fun existing => existing.node.nodeId := by
  unfold withChildren
  rw [List.map_map]
  refine List.map_congr_left fun existing _ => ?_
  dsimp only [Function.comp_apply]
  split
  · rfl
  · rfl

/-- With distinct ids, the first parent is the only one. -/
theorem addChild_eq {emitted : List Emitted} (distinct : (emitted.map fun existing => existing.node.nodeId).Nodup)
    (parentId childId : String) : addChild parentId childId emitted = withChildren parentId [childId] emitted := by
  induction emitted with
  | nil => rfl
  | cons existing rest ih =>
      obtain ⟨only, others⟩ := List.nodup_cons.mp distinct
      unfold addChild
      split
      · rename_i here
        have absent : ∀ other ∈ rest, other.node.nodeId ≠ parentId := by
          intro other inside same
          apply only
          dsimp only
          rw [here, ← same]
          exact List.mem_map_of_mem (f := fun other : Emitted => other.node.nodeId) inside
        rw [withChildren, List.map_cons, if_pos here]
        exact congrArg _ (withChildren_absent absent [childId]).symm
      · rename_i elsewhere
        rw [withChildren, List.map_cons, if_neg elsewhere, ih others]
        rfl

/-! ### The numbering -/

/-- The ids count the nodes from one. -/
structure Counted (serializer : AstSerializer) : Prop where
  ids : serializer.emitted.map (fun existing => existing.node.nodeId) =
    (List.range' 1 serializer.nodeCounter).map nodeId

theorem Counted.nodup {serializer : AstSerializer} (counted : Counted serializer) :
    (serializer.emitted.map fun existing => existing.node.nodeId).Nodup := by
  rw [counted.ids]
  exact List.Nodup.map nodeId_injective List.nodup_range'

theorem Counted.exists_index {serializer : AstSerializer} (counted : Counted serializer) {existing : Emitted}
    (inside : existing ∈ serializer.emitted) :
    ∃ index, existing.node.nodeId = nodeId index ∧ 1 ≤ index ∧ index ≤ serializer.nodeCounter := by
  have listed := List.mem_map_of_mem (f := fun existing : Emitted => existing.node.nodeId) inside
  rw [counted.ids] at listed
  obtain ⟨index, range, same⟩ := List.mem_map.mp listed
  have bounds := List.mem_range'_1.mp range
  exact ⟨index, same.symm, by omega, by omega⟩

/-- A recorded entry is the node of its source. -/
def toEmitted (spelling : DeclSpelling) (entry : Forest.Entry Source) : Emitted where
  node := { newNode spelling entry.label (nodeId entry.index) (parentId entry.parent) with
    childrenIds := entry.children.map nodeId }
  source := entry.label

theorem emit_eq {serializer : AstSerializer} (counted : Counted serializer) (source : Source) (parent : ℕ) :
    emit spelling source (parentId parent) serializer = (nodeId (serializer.nodeCounter + 1),
      { nodeCounter := serializer.nodeCounter + 1
        emitted := withChildren (parentId parent) [nodeId (serializer.nodeCounter + 1)] serializer.emitted ++
          [⟨newNode spelling source (nodeId (serializer.nodeCounter + 1)) (parentId parent), source⟩] }) := by
  unfold emit addNode
  dsimp only
  by_cases top : parentId parent = ""
  · have absent : ∀ existing ∈ serializer.emitted, existing.node.nodeId ≠ parentId parent := by
      intro existing inside same
      obtain ⟨index, named, _⟩ := counted.exists_index inside
      exact nodeId_ne_empty index (named.symm.trans (same.trans top))
    rw [if_pos top, withChildren_absent absent]
  · rw [if_neg top, addChild_eq counted.nodup]

variable (spelling) in
theorem Counted.emit {serializer : AstSerializer} (counted : Counted serializer) (source : Source) (parent : ℕ) :
    Counted (emit spelling source (parentId parent) serializer).2 := by
  constructor
  rw [emit_eq counted, List.map_append, map_nodeId_withChildren, counted.ids]
  dsimp only
  rw [List.range'_1_concat, List.map_append, Nat.add_comm 1]
  rfl

/-- The next id is none of the ids so far. -/
theorem Counted.unused {serializer : AstSerializer} (counted : Counted serializer) (parentId : String)
    (childIds : List String) : ∀ existing ∈ withChildren parentId childIds serializer.emitted,
      existing.node.nodeId ≠ nodeId (serializer.nodeCounter + 1) := by
  intro existing inside same
  have listed := List.mem_map_of_mem (f := fun existing : Emitted => existing.node.nodeId) inside
  rw [map_nodeId_withChildren, counted.ids, same] at listed
  obtain ⟨index, range, equal⟩ := List.mem_map.mp listed
  have bounds := List.mem_range'_1.mp range
  have next := nodeId_injective equal
  omega

/-- The nodes that are numbered after a parent are not the parent. -/
theorem later_ne_parent {numbered : List (Forest.Entry Source)} {parent : ℕ}
    (later : ∀ entry ∈ numbered, parent < entry.index) :
    ∀ existing ∈ numbered.map (toEmitted spelling), existing.node.nodeId ≠ parentId parent := by
  intro existing inside same
  obtain ⟨entry, listed, rfl⟩ := List.mem_map.mp inside
  have above := later entry listed
  have equal := (parentId_eq_nodeId.mp same).1
  omega

/-- A new node takes the ids of its children. -/
theorem withChildren_newNode (source : Source) (index parent : ℕ) (children : List ℕ) :
    withChildren (nodeId index) (children.map nodeId)
        [⟨newNode spelling source (nodeId index) (parentId parent), source⟩] =
      [⟨index, parent, children, source⟩].map (toEmitted spelling) := by
  simp [withChildren, toEmitted, newNode]

variable (spelling) in
/-- A visit adds the roots to the children of the parent and appends the numbered entries. -/
theorem visitForest_eq (forest : Forest Source) {serializer : AstSerializer} (counted : Counted serializer)
    {parent : ℕ} (known : parent ≤ serializer.nodeCounter) :
    visitForest spelling forest (parentId parent) serializer =
        { nodeCounter := serializer.nodeCounter + forest.size
          emitted := withChildren (parentId parent)
              ((forest.roots (serializer.nodeCounter + 1)).map nodeId) serializer.emitted ++
            (forest.number parent (serializer.nodeCounter + 1)).map (toEmitted spelling) } ∧
      Counted (visitForest spelling forest (parentId parent) serializer) := by
  induction forest generalizing serializer parent with
  | nil =>
      refine ⟨?_, counted⟩
      simp [visitForest, Forest.size, Forest.roots, Forest.number]
  | cons source children rest inner outer =>
      have emitted := counted.emit spelling source parent
      rw [emit_eq counted] at emitted
      dsimp only at emitted
      rw [visitForest, emit_eq counted]
      dsimp only
      have self : nodeId (serializer.nodeCounter + 1) = parentId (serializer.nodeCounter + 1) := by
        rw [parentId, if_neg (Nat.succ_ne_zero _)]
      rw [self]
      obtain ⟨below, belowCounted⟩ := inner emitted (le_refl _)
      rw [← self] at below belowCounted ⊢
      rw [below] at belowCounted ⊢
      obtain ⟨behind, behindCounted⟩ := @outer _ belowCounted parent (by dsimp only; omega)
      refine ⟨behind.trans ?_, behindCounted⟩
      have nested : ∀ entry ∈ children.number (serializer.nodeCounter + 1) (serializer.nodeCounter + 1 + 1),
          parent < entry.index := by
        intro entry listed
        have bounds := Forest.index_bounds listed
        omega
      have alone : ∀ entry ∈ [(⟨serializer.nodeCounter + 1, parent,
          children.roots (serializer.nodeCounter + 1 + 1), source⟩ : Forest.Entry Source)],
          parent < entry.index := by
        intro entry listed
        rw [List.mem_singleton.mp listed]
        exact Nat.lt_succ_of_le known
      dsimp only
      rw [withChildren_append (nodeId _), withChildren_absent (counted.unused _ _), withChildren_newNode,
        withChildren_append, withChildren_append, withChildren_twice,
        withChildren_absent (later_ne_parent nested), withChildren_absent (later_ne_parent alone)]
      congr 1
      · rw [Forest.size]
        omega
      · simp only [Forest.roots, Forest.number, List.map_cons, List.map_nil, List.map_append, List.append_assoc,
          List.cons_append, List.nil_append]
        have total : serializer.nodeCounter + 1 + children.size + 1 =
            serializer.nodeCounter + 1 + 1 + children.size := by omega
        rw [total]

/-- The entries number the forest of the unit from one. -/
def entries (unit : TranslationUnit) : List (Forest.Entry Source) := unit.forest.number 0 1

theorem handleTranslationUnit_eq (spelling : DeclSpelling) (unit : TranslationUnit) :
    handleTranslationUnit spelling unit = (entries unit).map (toEmitted spelling) := by
  have start : Counted {} := ⟨rfl⟩
  unfold handleTranslationUnit
  rw [foldl_visitDecl]
  have visited := (visitForest_eq spelling unit.forest start (le_refl 0)).1
  rw [show parentId 0 = "" from rfl] at visited
  rw [TranslationUnit.forest, TranslationUnit.visited] at visited
  rw [visited]
  rfl

end AstSerializer
end MisraPlatform
