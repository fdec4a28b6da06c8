import MisraPlatform.Proof.Fingerprint
import MisraPlatform.Proof.OneToOne
import MisraPlatform.Proof.ViolationStore

/-
This file proves when the fingerprint of a finding survives the insertion or removal of a declaration.
-/

namespace MisraPlatform
open Clang AstSerializer

/-! ### The forest of the moved text -/

section Relocate

variable (shift : SourceRange → SourceRange)

def Source.relocate : Source → Source
  | .declaration info => .declaration (info.relocate shift)
  | .statement info => .statement { info with range := shift info.range }

mutual

theorem Clang.Stmt.tree_relocate (statement : Stmt) :
    (statement.relocate shift).tree = statement.tree.map (Source.relocate shift) := by
  cases statement with
  | mk info children =>
      rw [Stmt.relocate, Stmt.tree, Stmt.tree, Forest.map, Forest.map, Stmt.forest_relocate children]
      rfl

theorem Clang.Stmt.forest_relocate (statements : List Stmt) :
    Stmt.forest (Stmt.relocateAll shift statements) =
      (Stmt.forest statements).map (Source.relocate shift) := by
  cases statements with
  | nil => rfl
  | cons statement rest =>
      rw [Stmt.relocateAll, Stmt.forest, Stmt.forest, Forest.map_append, Stmt.tree_relocate statement,
        Stmt.forest_relocate rest]

end

theorem Clang.DeclInfo.canonical_relocate (info : DeclInfo) : (info.relocate shift).canonical = info.canonical := by
  obtain ⟨address, form, type, range, validLocation⟩ := info
  cases form <;> rfl

theorem Clang.DeclInfo.body_relocate (info : DeclInfo) :
    (info.relocate shift).body = info.body.map (Stmt.relocate shift) := by
  obtain ⟨address, form, type, range, validLocation⟩ := info
  cases form <;> rfl

mutual

theorem Clang.Decl.all_relocate (declaration : Decl) :
    (declaration.relocate shift).all = declaration.all.map (DeclInfo.relocate shift) := by
  cases declaration with
  | mk info decls => rw [Decl.relocate, Decl.all, Decl.all, List.map_cons, Decl.allOf_relocateAll decls]

theorem Clang.Decl.allOf_relocateAll (decls : List Decl) :
    Decl.allOf (Decl.relocateAll shift decls) = (Decl.allOf decls).map (DeclInfo.relocate shift) := by
  cases decls with
  | nil => rfl
  | cons declaration rest =>
      rw [Decl.relocateAll, Decl.allOf, Decl.allOf, List.map_append, Decl.all_relocate declaration,
        Decl.allOf_relocateAll rest]

end

theorem Clang.Decl.relocateAll_eq (decls : List Decl) :
    Decl.relocateAll shift decls = decls.map (Decl.relocate shift) := by
  induction decls with
  | nil => rfl
  | cons declaration rest ih => rw [Decl.relocateAll, List.map_cons, ih]

theorem Clang.Decl.validLocation_relocate (declaration : Decl) :
    (declaration.relocate shift).info.validLocation = declaration.info.validLocation := by
  cases declaration with
  | mk info decls => rfl

mutual

/-- The tree of moved text is the moved tree when the bodies are. -/
theorem Clang.Decl.tree_relocate {unit other : TranslationUnit} (declaration : Decl)
    (bodies : ∀ info ∈ declaration.all,
      other.getBody (info.relocate shift) = (unit.getBody info).map (Stmt.relocate shift)) :
    (declaration.relocate shift).tree other = (declaration.tree unit).map (Source.relocate shift) := by
  cases declaration with
  | mk info decls =>
      have body : other.bodyForest (info.relocate shift) =
          (unit.bodyForest info).map (Source.relocate shift) := by
        rw [TranslationUnit.bodyForest, TranslationUnit.bodyForest, bodies info List.mem_cons_self,
          ← Stmt.forest_relocate]
        cases unit.getBody info <;> rfl
      rw [Decl.relocate, Decl.tree, Decl.tree, Forest.map, Forest.map, Forest.map_append, body,
        Decl.forest_relocate decls fun inner inside => bodies inner (List.mem_cons_of_mem _ inside)]
      rfl

theorem Clang.Decl.forest_relocate {unit other : TranslationUnit} (decls : List Decl)
    (bodies : ∀ info ∈ Decl.allOf decls,
      other.getBody (info.relocate shift) = (unit.getBody info).map (Stmt.relocate shift)) :
    Decl.forest other (Decl.relocateAll shift decls) = (Decl.forest unit decls).map (Source.relocate shift) := by
  cases decls with
  | nil => rfl
  | cons declaration rest =>
      rw [Decl.relocateAll, Decl.forest, Decl.forest, Forest.map_append,
        Decl.tree_relocate declaration fun info inside => bodies info (List.mem_append_left _ inside),
        Decl.forest_relocate rest fun info inside => bodies info (List.mem_append_right _ inside)]

end

end Relocate

theorem Clang.Decl.allOf_append (first second : List Decl) :
    Decl.allOf (first ++ second) = Decl.allOf first ++ Decl.allOf second := by
  rw [allOf_eq_flatMap, allOf_eq_flatMap, allOf_eq_flatMap, List.flatMap_append]

theorem Clang.Decl.forest_append (unit : TranslationUnit) (first second : List Decl) :
    Decl.forest unit (first ++ second) = (Decl.forest unit first).append (Decl.forest unit second) := by
  induction first with
  | nil => rfl
  | cons declaration rest ih => rw [List.cons_append, Decl.forest, Decl.forest, ih, Forest.append_assoc]

theorem Clang.Decl.mem_allOf_of_subset {decls others : List Decl} (part : decls ⊆ others) {info : DeclInfo}
    (inside : info ∈ Decl.allOf decls) : info ∈ Decl.allOf others := by
  rw [allOf_eq_flatMap, List.mem_flatMap] at inside ⊢
  obtain ⟨declaration, listed, found⟩ := inside
  exact ⟨declaration, part listed, found⟩

namespace Clang.Edit

variable (edit : Edit)

/-- The bodies of the declarations that stay are found in both units. -/
theorem getBody_longer {info : DeclInfo} (stays : info ∈ Decl.allOf (edit.before ++ edit.after)) :
    edit.longer.getBody (info.relocate edit.shift) =
      (edit.shorter.getBody info).map (Stmt.relocate edit.shift) := by
  rw [TranslationUnit.getBody, TranslationUnit.getBody, DeclInfo.canonical_relocate]
  cases known : info.canonical with
  | none => rfl
  | some canonical =>
      have apart : (edit.inserted.all.findSome? fun other =>
          if other.canonical = some canonical then other.body else none) = none := by
        rw [List.findSome?_eq_none_iff]
        intro other inside
        apply if_neg
        intro same
        exact edit.unrelated other inside (by rw [same]; rfl) info stays (known.trans same.symm)
      have moves : ∀ decls : List Decl, ((Decl.allOf (edit.moved decls)).findSome? fun other =>
          if other.canonical = some canonical then other.body else none) =
          ((Decl.allOf decls).findSome? fun other =>
            if other.canonical = some canonical then other.body else none).map (Stmt.relocate edit.shift) := by
        intro decls
        rw [moved, Decl.allOf_relocateAll, List.findSome?_map, List.map_findSome?]
        congr 1
        funext other
        dsimp only [Function.comp_apply]
        rw [DeclInfo.canonical_relocate, DeclInfo.body_relocate]
        split <;> rfl
      change (Decl.allOf edit.longer.decls).findSome? _ = ((Decl.allOf edit.shorter.decls).findSome? _).map _
      rw [longer, shorter, Decl.allOf_append, Decl.allOf_append, Decl.allOf, List.findSome?_append,
        List.findSome?_append, List.findSome?_append, apart, moves, moves, Option.none_or, Option.map_or]

/-! ### The numbers of both units -/

/-- The visited declarations of a list. -/
def located (decls : List Decl) : List Decl := decls.filter fun declaration => declaration.info.validLocation

theorem located_moved (decls : List Decl) : located (edit.moved decls) = edit.moved (located decls) := by
  rw [moved, moved, Decl.relocateAll_eq, Decl.relocateAll_eq, located, located, List.filter_map]
  congr 1
  apply List.filter_congr
  intro declaration _
  exact Decl.validLocation_relocate edit.shift declaration

def headForest : Forest Source := Decl.forest edit.shorter (located edit.before)

def tailForest : Forest Source := Decl.forest edit.shorter (located edit.after)

def insertedForest : Forest Source := Decl.forest edit.longer (located [edit.inserted])

theorem forest_moved (decls : List Decl) (part : decls ⊆ edit.before ++ edit.after) :
    Decl.forest edit.longer (located (edit.moved decls)) =
      (Decl.forest edit.shorter (located decls)).map (Source.relocate edit.shift) := by
  rw [located_moved, moved]
  apply Decl.forest_relocate
  intro info inside
  apply getBody_longer
  exact Decl.mem_allOf_of_subset (fun declaration listed => part (List.mem_filter.mp listed).1) inside

theorem forest_shorter : edit.shorter.forest = edit.headForest.append edit.tailForest := by
  rw [TranslationUnit.forest, TranslationUnit.visited, headForest, tailForest, ← Decl.forest_append, located,
    located, ← List.filter_append]
  rfl

theorem forest_longer : edit.longer.forest = (edit.headForest.map (Source.relocate edit.shift)).append
    (edit.insertedForest.append (edit.tailForest.map (Source.relocate edit.shift))) := by
  have head := edit.forest_moved edit.before (List.subset_append_left _ _)
  have tail := edit.forest_moved edit.after (List.subset_append_right _ _)
  rw [headForest, tailForest, ← head, ← tail, insertedForest, ← Decl.forest_append, ← Decl.forest_append,
    TranslationUnit.forest, TranslationUnit.visited, located, located, located, ← List.filter_append,
    ← List.filter_append]
  rfl

theorem size_insertedForest : edit.insertedForest.size = 0 ↔ edit.inserted.info.validLocation = false := by
  rw [insertedForest, located]
  cases given : edit.inserted.info.validLocation with
  | false => simp [given, Decl.forest, Forest.size]
  | true =>
      have nodes : ∀ (unit : TranslationUnit) (declaration : Decl), (declaration.tree unit).size ≠ 0 := by
        intro unit declaration
        cases declaration with
        | mk info decls =>
            rw [Decl.tree, Forest.size]
            omega
      simp [given, Decl.forest, Forest.size_append, Forest.size, nodes]

/-- The entries of the longer unit that are not those of the inserted declaration. -/
theorem entries_shorter : entries edit.shorter =
    edit.headForest.number 0 1 ++ edit.tailForest.number 0 (1 + edit.headForest.size) := by
  rw [entries, forest_shorter, Forest.number_append]

theorem entries_longer : entries edit.longer =
    (edit.headForest.number 0 1).map (Forest.Entry.map (Source.relocate edit.shift)) ++
      (edit.insertedForest.number 0 (1 + edit.headForest.size) ++
        (edit.tailForest.number 0 (1 + edit.headForest.size + edit.insertedForest.size)).map
          (Forest.Entry.map (Source.relocate edit.shift))) := by
  rw [entries, forest_longer, Forest.number_append, Forest.number_append, Forest.number_map, Forest.number_map,
    Forest.size_map]

end Clang.Edit

/-- The serializer numbers the declarations that it has visited so far. -/
theorem AstSerializer.visitedFirst_eq (spelling : DeclSpelling) (unit : TranslationUnit) (decls : List Decl) :
    visitedFirst spelling unit decls =
      { nodeCounter := (Decl.forest unit (Edit.located decls)).size
        emitted := ((Decl.forest unit (Edit.located decls)).number 0 1).map (toEmitted spelling) } := by
  have start : Counted {} := ⟨rfl⟩
  have visited := (visitForest_eq spelling (Decl.forest unit (Edit.located decls)) start (le_refl 0)).1
  rw [show parentId 0 = "" from rfl] at visited
  rw [visitedFirst, foldl_visitDecl]
  refine visited.trans ?_
  rw [Nat.zero_add]
  rfl

namespace Clang.Edit

variable (edit : Edit) (spelling : DeclSpelling)

theorem comesBefore_iff {node : AstNode} : edit.ComesBefore spelling node ↔
    ∃ entry ∈ edit.headForest.number 0 1, node = entryNode spelling entry := by
  rw [ComesBefore, visitedFirst_eq, headForest, List.map_map, List.mem_map]
  constructor
  · rintro ⟨entry, inside, rfl⟩
    exact ⟨entry, inside, rfl⟩
  · rintro ⟨entry, inside, rfl⟩
    exact ⟨entry, inside, rfl⟩

theorem remaining_eq : edit.remaining spelling =
    ((edit.headForest.number 0 1).map (Forest.Entry.map (Source.relocate edit.shift)) ++
      (edit.tailForest.number 0 (1 + edit.headForest.size + edit.insertedForest.size)).map
        (Forest.Entry.map (Source.relocate edit.shift))).map (entryNode spelling) := by
  have first : (visitedFirst spelling edit.longer (edit.moved edit.before)).nodeCounter =
      edit.headForest.size := by
    rw [visitedFirst_eq, edit.forest_moved edit.before (List.subset_append_left _ _), Forest.size_map]
    rfl
  have through : (visitedFirst spelling edit.longer (edit.moved edit.before ++ [edit.inserted])).nodeCounter =
      edit.headForest.size + edit.insertedForest.size := by
    rw [visitedFirst_eq]
    change (Decl.forest edit.longer (located (edit.moved edit.before ++ [edit.inserted]))).size = _
    rw [located, List.filter_append, Decl.forest_append, Forest.size_append]
    have head := edit.forest_moved edit.before (List.subset_append_left _ _)
    rw [located] at head
    rw [head, Forest.size_map]
    rfl
  have headLength : ((edit.headForest.number 0 1).map
      (Forest.Entry.map (Source.relocate edit.shift))).length = edit.headForest.size := by
    rw [List.length_map, Forest.length_number]
  have bothLength : ((edit.headForest.number 0 1).map (Forest.Entry.map (Source.relocate edit.shift)) ++
      edit.insertedForest.number 0 (1 + edit.headForest.size)).length =
        edit.headForest.size + edit.insertedForest.size := by
    rw [List.length_append, headLength, Forest.length_number]
  rw [remaining, first, through, decoded_nodes, entries_longer]
  rw [← List.map_take, ← List.map_drop, ← List.map_append]
  congr 2
  · exact List.take_left' headLength
  · rw [← List.append_assoc]
    exact List.drop_left' bothLength

end Clang.Edit

/-! ### Paths -/

/-- Two graphs whose nodes have the same parents up to a number climb alike from there. -/
theorem AstGraph.climb_congr {first second : AstGraph} {bound : ℕ}
    (parents : ∀ index, 1 ≤ index → index ≤ bound → ∃ parent < index,
      (first.get (nodeId index)).map AstNode.parentId = some (parentId parent) ∧
        (second.get (nodeId index)).map AstNode.parentId = some (parentId parent))
    (index : ℕ) (within : index ≤ bound) {fuel other : ℕ} (enough : index < fuel) (enoughOther : index < other) :
    first.climb fuel (parentId index) = second.climb other (parentId index) := by
  induction index using Nat.strong_induction_on generalizing fuel other with
  | h index ih =>
      obtain ⟨fuel, rfl⟩ : ∃ less, fuel = less + 1 := ⟨fuel - 1, by omega⟩
      obtain ⟨other, rfl⟩ : ∃ less, other = less + 1 := ⟨other - 1, by omega⟩
      rw [AstGraph.climb, AstGraph.climb]
      by_cases top : index = 0
      · rw [if_pos (by rw [top]; rfl), if_pos (by rw [top]; rfl)]
      · rw [parentId_pos (by omega), if_neg (nodeId_ne_empty index), if_neg (nodeId_ne_empty index)]
        obtain ⟨parent, less, here, there⟩ := parents index (by omega) within
        rw [here, there, Option.getD_some]
        exact congrArg _ (ih parent less (by omega) (by omega) (by omega))

section Prefix

variable {shorter longer : TranslationUnit} {change : Source → Source} {common rest others : List (Forest.Entry Source)}

theorem AstSerializer.length_decoded (spelling : DeclSpelling) (unit : TranslationUnit) :
    (decoded spelling unit).nodes.length = unit.forest.size := by
  rw [decoded_nodes, List.length_map, entries, Forest.length_number]

theorem AstSerializer.entry_le_size {unit : TranslationUnit} {entry : Forest.Entry Source}
    (inside : entry ∈ entries unit) : entry.index ≤ unit.forest.size := by
  have bounds := Forest.index_bounds inside
  omega

/-- The first entries of a unit have the first numbers. -/
theorem AstSerializer.prefix_index (split : entries shorter = common ++ rest) {position : ℕ}
    {entry : Forest.Entry Source} (found : common[position]? = some entry) : entry.index = 1 + position := by
  obtain ⟨bound, _⟩ := List.getElem?_eq_some_iff.mp found
  apply @Forest.index_of_position _ 0 1 shorter.forest
  rw [← entries, split, List.getElem?_append_left bound, found]

theorem AstSerializer.exists_prefix_entry (split : entries shorter = common ++ rest) {index : ℕ}
    (positive : 1 ≤ index) (within : index ≤ common.length) : ∃ entry ∈ common, entry.index = index := by
  obtain ⟨entry, found⟩ : ∃ entry, common[index - 1]? = some entry :=
    ⟨_, List.getElem?_eq_getElem (by omega)⟩
  have number := prefix_index split found
  exact ⟨entry, List.mem_of_getElem? found, by omega⟩

theorem AstSerializer.prefix_index_le (split : entries shorter = common ++ rest) {entry : Forest.Entry Source}
    (inside : entry ∈ common) : entry.index ≤ common.length := by
  obtain ⟨position, found⟩ := List.mem_iff_getElem?.mp inside
  obtain ⟨bound, _⟩ := List.getElem?_eq_some_iff.mp found
  have number := prefix_index split found
  omega

/-- A node among the first entries that two units share has the same path in both. -/
theorem AstSerializer.nodePath_prefix (spelling : DeclSpelling) (split : entries shorter = common ++ rest)
    (shared : entries longer = common.map (Forest.Entry.map change) ++ others) {entry : Forest.Entry Source}
    (inside : entry ∈ common) : (decoded spelling longer).nodePath (nodeId entry.index) =
      (decoded spelling shorter).nodePath (nodeId entry.index) := by
  have known : ∀ one ∈ common, one ∈ entries shorter := fun one listed => split ▸ List.mem_append_left _ listed
  have knownLonger : ∀ one ∈ common, one.map change ∈ entries longer := fun one listed =>
    shared ▸ List.mem_append_left _ (List.mem_map_of_mem listed)
  have parents : ∀ index, 1 ≤ index → index ≤ common.length → ∃ parent < index,
      ((decoded spelling longer).get (nodeId index)).map AstNode.parentId = some (parentId parent) ∧
        ((decoded spelling shorter).get (nodeId index)).map AstNode.parentId = some (parentId parent) := by
    intro index positive within
    obtain ⟨found, listed, rfl⟩ := exists_prefix_entry split positive within
    refine ⟨found.parent, ?_, ?_, ?_⟩
    · cases Forest.parent_bounds (known found listed) with
      | inl top => omega
      | inr between => exact between.2
    · have there := @get_entry _ spelling _ (knownLonger found listed)
      rw [show (found.map change).index = found.index from rfl] at there
      rw [there]
      rfl
    · rw [get_entry (known found listed)]
      rfl
  have index := entry_positive (known entry inside)
  rw [AstGraph.nodePath, AstGraph.nodePath, ← parentId_pos (by omega : 0 < entry.index)]
  congr 1
  apply AstGraph.climb_congr parents entry.index (prefix_index_le split inside)
  · rw [length_decoded]
    have bound := entry_le_size (knownLonger entry inside)
    exact Nat.lt_succ_of_le bound
  · rw [length_decoded]
    exact Nat.lt_succ_of_le (entry_le_size (known entry inside))

/-- A moved node differs in its place only. -/
theorem AstSerializer.entryNode_relocate (spelling : DeclSpelling) (shift : SourceRange → SourceRange)
    (entry : Forest.Entry Source) : entryNode spelling (entry.map (Source.relocate shift)) =
      { entryNode spelling entry with sourceRange := shift (entryNode spelling entry).sourceRange } := by
  obtain ⟨index, parent, children, label⟩ := entry
  cases label with
  | statement info => rfl
  | declaration info =>
      obtain ⟨address, form, type, range, validLocation⟩ := info
      cases form <;> rfl

theorem AstSerializer.identity_finding_prefix {shift : SourceRange → SourceRange}
    (sameFile : ∀ range, (shift range).filePath = range.filePath) (spelling : DeclSpelling)
    (ruleId filePath : String) (split : entries shorter = common ++ rest)
    (shared : entries longer = common.map (Forest.Entry.map (Source.relocate shift)) ++ others)
    {entry : Forest.Entry Source} (inside : entry ∈ common) {first second : NodeReport}
    (firstNode : first.node = entryNode spelling entry)
    (secondNode : second.node = entryNode spelling (entry.map (Source.relocate shift))) :
    Fingerprint.identity (finding spelling ruleId filePath longer second) =
      Fingerprint.identity (finding spelling ruleId filePath shorter first) := by
  have path := nodePath_prefix spelling split shared inside
  have moved := entryNode_relocate spelling shift entry
  rw [finding, finding, secondNode, firstNode, moved]
  simp only [Fingerprint.identity, BaseRulePlugin.makeResult, sameFile]
  congr 1

end Prefix

/-! ### Findings before and after an edit -/

namespace Clang.Edit

variable (edit : Edit) (spelling : DeclSpelling)

/-- A counterpart keeps its number in front of the inserted declaration and gets a later one behind it. -/
theorem counterparts_cases {node other : AstNode} (counterparts : edit.Counterparts spelling node other) :
    (∃ entry ∈ edit.headForest.number 0 1, node = entryNode spelling entry ∧
      other = entryNode spelling (entry.map (Source.relocate edit.shift))) ∨
    ∃ entry ∈ edit.tailForest.number 0 (1 + edit.headForest.size), ∃ later, node = entryNode spelling entry ∧
      other = entryNode spelling (later.map (Source.relocate edit.shift)) ∧
      later.index = entry.index + edit.insertedForest.size ∧
      (edit.insertedForest.size = 0 → later = entry) := by
  rw [Counterparts, decoded_nodes, entries_shorter, remaining_eq, List.zip_map, List.mem_map] at counterparts
  obtain ⟨⟨entry, later⟩, paired, same⟩ := counterparts
  obtain ⟨rfl, rfl⟩ := Prod.mk.inj same
  rw [List.zip_append (by rw [List.length_map]), List.mem_append, List.zip_map_right, List.zip_map_right] at paired
  rcases paired with head | tail
  · obtain ⟨⟨first, second⟩, both, equal⟩ := List.mem_map.mp head
    obtain ⟨rfl, rfl⟩ := Prod.mk.inj equal
    obtain ⟨position, found⟩ := List.mem_iff_getElem?.mp both
    obtain ⟨here, there⟩ := List.getElem?_zip_eq_some.mp found
    cases Option.some.inj (here.symm.trans there)
    exact .inl ⟨first, List.mem_of_getElem? here, rfl, rfl⟩
  · obtain ⟨⟨first, second⟩, both, equal⟩ := List.mem_map.mp tail
    obtain ⟨rfl, rfl⟩ := Prod.mk.inj equal
    obtain ⟨position, found⟩ := List.mem_iff_getElem?.mp both
    obtain ⟨here, there⟩ := List.getElem?_zip_eq_some.mp found
    have firstIndex := Forest.index_of_position here
    have secondIndex := Forest.index_of_position there
    refine .inr ⟨first, List.mem_of_getElem? here, second, rfl, rfl, by dsimp only at *; omega, ?_⟩
    intro nothing
    rw [nothing] at there
    exact Option.some.inj (there.symm.trans here)

/-- The parts of a finding that are hashed stay when the inserted declaration is harmless, and only then. -/
theorem identity_finding_iff (ruleId filePath : String) {first second : NodeReport}
    (counterparts : edit.Counterparts spelling first.node second.node) :
    Fingerprint.identity (finding spelling ruleId filePath edit.longer second) =
        Fingerprint.identity (finding spelling ruleId filePath edit.shorter first) ↔
      edit.Harmless spelling first.node := by
  rw [Harmless, comesBefore_iff, ← size_insertedForest]
  rcases edit.counterparts_cases spelling counterparts with head | tail
  · obtain ⟨entry, inside, firstNode, secondNode⟩ := head
    constructor
    · intro _
      exact .inr ⟨entry, inside, firstNode⟩
    · intro _
      exact identity_finding_prefix edit.sameFile spelling ruleId filePath edit.entries_shorter
        edit.entries_longer inside firstNode secondNode
  · obtain ⟨entry, inside, later, firstNode, secondNode, number, nothing⟩ := tail
    constructor
    · intro same
      have sameId : second.node.nodeId = first.node.nodeId := congrArg Fingerprint.Identity.astNodeId same
      rw [firstNode, secondNode] at sameId
      have sameNumber : later.index = entry.index := nodeId_injective sameId
      exact .inl (by omega)
    · intro harmless
      have empty : edit.insertedForest.size = 0 := by
        rcases harmless with empty | ⟨one, before, same⟩
        · exact empty
        · rw [firstNode] at same
          have sameNumber : entry.index = one.index := nodeId_injective (congrArg AstNode.nodeId same)
          have here := Forest.index_bounds inside
          have there := Forest.index_bounds before
          omega
      obtain rfl := nothing empty
      have whole : entries edit.longer = (edit.headForest.number 0 1 ++
          edit.tailForest.number 0 (1 + edit.headForest.size)).map
            (Forest.Entry.map (Source.relocate edit.shift)) ++ [] := by
        have silent : edit.insertedForest.number 0 (1 + edit.headForest.size) = [] := by
          rw [← List.length_eq_zero_iff, Forest.length_number, empty]
        rw [entries_longer, silent, empty, List.nil_append, Nat.add_zero, List.append_nil, List.map_append]
      have all : entries edit.shorter = (edit.headForest.number 0 1 ++
          edit.tailForest.number 0 (1 + edit.headForest.size)) ++ [] := by
        rw [entries_shorter, List.append_nil]
      exact identity_finding_prefix edit.sameFile spelling ruleId filePath all whole
        (List.mem_append_right _ inside) firstNode secondNode

end Clang.Edit

namespace ViolationRepository
open Fingerprint

variable {sha256 : String → String} {earlier later : RuleResult}

theorem keepsRow_of_same (same : generateFingerprint sha256 later = generateFingerprint sha256 earlier) :
    KeepsRow sha256 earlier later := by
  intro call store keyed row listed project stored payloads index severity category chosen
  obtain ⟨saved, after, answered, _, rows⟩ := upsertViolations_saves call payloads keyed
  obtain ⟨record, position, spec⟩ := rows index _ chosen
  obtain ⟨sameRow, continues⟩ := spec row listed project
  exact ⟨saved, after, record, answered, position, continues (sameRow.mpr (same.trans stored.symm))⟩

theorem losesRow_of_different (different : generateFingerprint sha256 later ≠ generateFingerprint sha256 earlier) :
    LosesRow sha256 earlier later := by
  intro call store keyed row listed project stored payloads index severity category chosen
  obtain ⟨saved, after, answered, _, rows⟩ := upsertViolations_saves call payloads keyed
  obtain ⟨record, position, spec⟩ := rows index _ chosen
  refine ⟨saved, after, record, answered, position, ?_⟩
  intro sameRow
  exact different (((spec row listed project).1.mp sameRow).trans stored)

end ViolationRepository

open Fingerprint ViolationRepository

section Sample

def variableDecl (address : Nat) (name : String) (line : Nat) : Decl :=
  .mk
    { address := address
      form := .var name .scNone false .externalLinkage false
      type := some { spelling := "int", essentialType := "signed_int" }
      range := { filePath := some "demo.c", lineStart := line, lineEnd := line, columnStart := 1, columnEnd := 5 } }
    []

/-- The declaration `int y;` is inserted between `int x;` and `int z;`, which moves down a line. -/
def variableEdit : Edit where
  before := [variableDecl 1 "x" 1]
  inserted := variableDecl 2 "y" 2
  after := [variableDecl 3 "z" 2]
  shift range :=
    if 2 ≤ range.lineStart then { range with lineStart := range.lineStart + 1, lineEnd := range.lineEnd + 1 }
    else range
  sameFile range := by split <;> rfl
  unrelated info inside isFunction := by
    rw [variableDecl, Decl.all, List.mem_singleton.mp inside] at *
    cases isFunction

def variableReport (nodeId name : String) (line : Nat) : NodeReport where
  node :=
    { nodeId := nodeId
      nodeKind := .other "Var"
      sourceRange := { filePath := some "demo.c", lineStart := line, lineEnd := line, columnStart := 1, columnEnd := 5 }
      semanticProperties := [("name", name), ("storage_class", "none"), ("storage_duration", "static"),
        ("linkage", "external")]
      essentialType := some "signed_int"
      typeSpelling := "int" }
  explanation := "'" ++ name ++ "' is defined without a prior declaration."
  riskDescription := ""
  confidenceFactors := []
  confidenceScore := 1 / 2

/-- This is the SHA-256 digest of the payload of the finding on `x`. -/
def variableDigest : String → String :=
  tableDigest [(encoded (finding getDeclKindName "misra-c2012-rule-8-4" "demo.c" variableEdit.shorter
    (variableReport "node-1" "x" 1)), "8ae34894f33d0765a490a82efa1512c6f423f0aca2bea7f25cdee766f991a80d")]

theorem variableDigest_injective : Function.Injective variableDigest := by
  apply tableDigest_injective
  · decide
  · decide

end Sample

end MisraPlatform
