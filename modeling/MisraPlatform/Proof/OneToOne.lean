import MisraPlatform.Proof.DecodedAst
import Mathlib.Data.List.Nodup

/-
This file says when the serializer emits one node for every statement.
-/

namespace MisraPlatform
open Clang

/-! ### Bodies -/

namespace Clang.TranslationUnit

variable {unit : TranslationUnit}

theorem canonical_of_body {info : DeclInfo} {body : Stmt} (has : info.body = some body) :
    ∃ canonical, info.canonical = some canonical := by
  unfold DeclInfo.body at has
  unfold DeclInfo.canonical
  split at has
  · exact ⟨_, rfl⟩
  · exact absurd has (by simp)

/-- The body that is found belongs to a declaration of the same function. -/
theorem getBody_eq_some {info : DeclInfo} {body : Stmt} (found : unit.getBody info = some body) :
    ∃ owner ∈ unit.allDecls, owner.canonical = info.canonical ∧ owner.body = some body := by
  obtain ⟨canonical, same, search⟩ := Option.bind_eq_some_iff.mp found
  obtain ⟨owner, inside, owned⟩ := List.exists_of_findSome?_eq_some search
  split at owned
  · rename_i equal
    exact ⟨owner, inside, equal.trans same.symm, owned⟩
  · exact absurd owned (by simp)

theorem getBody_isSome {info owner : DeclInfo} (inside : owner ∈ unit.allDecls)
    (same : owner.canonical = info.canonical) (has : owner.body.isSome = true) :
    (unit.getBody info).isSome = true := by
  obtain ⟨body, owned⟩ := Option.isSome_iff_exists.mp has
  obtain ⟨canonical, known⟩ := canonical_of_body owned
  rw [getBody, ← same, known, Option.bind_some, List.findSome?_isSome_iff]
  exact ⟨owner, inside, by rw [if_pos known, has]⟩

theorem getBody_congr {first second : DeclInfo} (same : first.canonical = second.canonical) :
    unit.getBody first = unit.getBody second := by
  unfold getBody
  rw [same]

end Clang.TranslationUnit

namespace Clang.ParsedUnit

variable (unit : ParsedUnit)

theorem decl_unique {first second : DeclInfo} (here : first ∈ unit.allDecls) (there : second ∈ unit.allDecls)
    (same : first.address = second.address) : first = second :=
  List.inj_on_of_nodup_map unit.declsOnce here there same

/-- These are the addresses of the statements of an own body. -/
def bodyAddresses (info : DeclInfo) : List Nat := (Stmt.allOf info.body.toList).map StmtInfo.address

theorem bodyAddresses_nodup {info : DeclInfo} (inside : info ∈ unit.allDecls) :
    (bodyAddresses info).Nodup := by
  have once := unit.stmtsOnce
  rw [TranslationUnit.statements, List.map_flatMap] at once
  exact (List.nodup_flatMap.mp once).1 info inside

/-- No two declarations share a statement. -/
theorem owner_unique {first second : DeclInfo} (here : first ∈ unit.allDecls) (there : second ∈ unit.allDecls)
    {address : Nat} (left : address ∈ bodyAddresses first) (right : address ∈ bodyAddresses second) :
    first = second := by
  have once := unit.stmtsOnce
  rw [TranslationUnit.statements, List.map_flatMap] at once
  have apart := (List.nodup_flatMap.mp once).2
  by_contra different
  have symmetric : Std.Symm fun first second : DeclInfo =>
      List.Disjoint ((Stmt.allOf first.body.toList).map StmtInfo.address)
        ((Stmt.allOf second.body.toList).map StmtInfo.address) := ⟨fun _ _ disjoint _ left right => disjoint right left⟩
  exact apart.forall here there different left right

end Clang.ParsedUnit

namespace AstSerializer

section Counting

variable (unit : ParsedUnit)

/-- These are the addresses of the statements that are emitted under a declaration. -/
def emittedAddresses (unit : TranslationUnit) (info : DeclInfo) : List Nat :=
  (Stmt.allOf (unit.getBody info).toList).map StmtInfo.address

/-- The statements under a declaration are those of the declaration with the body. -/
theorem emittedAddresses_eq (info : DeclInfo) :
    emittedAddresses unit.toTranslationUnit info = [] ∨ ∃ owner ∈ unit.allDecls,
      owner.canonical = info.canonical ∧ owner.body.isSome = true ∧
        unit.getBody info = owner.body ∧
        emittedAddresses unit.toTranslationUnit info = ParsedUnit.bodyAddresses owner := by
  unfold emittedAddresses
  cases found : unit.getBody info with
  | none => exact .inl rfl
  | some body =>
      obtain ⟨owner, inside, same, owned⟩ := TranslationUnit.getBody_eq_some found
      refine .inr ⟨owner, inside, same, by rw [owned]; rfl, owned.symm, ?_⟩
      rw [ParsedUnit.bodyAddresses, owned]

theorem countP_sources (unit : TranslationUnit) (address : Nat) (info : DeclInfo) :
    (sources unit info).countP (fun source => source.isStatement address) =
      (emittedAddresses unit info).count address := by
  rw [sources, List.countP_cons_of_neg (by simp [Source.isStatement]), List.countP_map, emittedAddresses, List.count,
    List.countP_map]
  rfl

/-- A statement is emitted once for every visited declaration with its body. -/
theorem countP_emitted (spelling : DeclSpelling) (address : Nat) :
    (handleTranslationUnit spelling unit.toTranslationUnit).countP
      (fun emitted => emitted.source.isStatement address) =
    unit.visitedDecls.countP fun info => decide (address ∈ emittedAddresses unit.toTranslationUnit info) := by
  have labels : (handleTranslationUnit spelling unit.toTranslationUnit).map Emitted.source =
      unit.visitedDecls.flatMap (sources unit.toTranslationUnit) := by
    rw [handleTranslationUnit_eq, List.map_map]
    exact labels_entries unit.toTranslationUnit
  have counted := List.countP_map (p := fun source : Source => source.isStatement address)
    (f := Emitted.source) (l := handleTranslationUnit spelling unit.toTranslationUnit)
  rw [labels] at counted
  refine (show _ = _ from counted.symm).trans ?_
  generalize unit.visitedDecls = decls
  induction decls with
  | nil => rfl
  | cons info rest ih =>
      rw [List.flatMap_cons, List.countP_append, ih, countP_sources, List.countP_cons, Nat.add_comm]
      congr 1
      have nodup : (emittedAddresses unit.toTranslationUnit info).Nodup := by
        rcases emittedAddresses_eq unit info with nothing | ⟨owner, inside, _, _, _, same⟩
        · rw [nothing]
          exact List.nodup_nil
        · rw [same]
          exact unit.bodyAddresses_nodup inside
      rw [nodup.count]
      simp only [decide_eq_true_eq]

theorem allOf_eq_flatMap (decls : List Decl) : Decl.allOf decls = decls.flatMap Decl.all := by
  induction decls with
  | nil => rfl
  | cons declaration rest ih => rw [Decl.allOf, ih, List.flatMap_cons]

theorem mem_allDecls_of_visited {unit : TranslationUnit} {info : DeclInfo} (inside : info ∈ unit.visitedDecls) :
    info ∈ unit.allDecls := by
  rw [TranslationUnit.visitedDecls, TranslationUnit.visited, allOf_eq_flatMap, List.mem_flatMap] at inside
  obtain ⟨declaration, visited, listed⟩ := inside
  rw [TranslationUnit.allDecls, allOf_eq_flatMap, List.mem_flatMap]
  exact ⟨declaration, (List.mem_filter.mp visited).1, listed⟩

variable {unit}

/-- The statements of a body that is found are emitted under the declarations of its function. -/
theorem mem_emittedAddresses {owner info : DeclInfo} (inside : owner ∈ unit.allDecls)
    (found : unit.getBody owner = owner.body) {address : Nat}
    (owned : address ∈ ParsedUnit.bodyAddresses owner) :
    address ∈ emittedAddresses unit.toTranslationUnit info ↔ info.canonical = owner.canonical := by
  constructor
  · intro emitted
    rcases emittedAddresses_eq unit info with nothing | ⟨other, there, same, _, _, equal⟩
    · rw [nothing] at emitted
      exact absurd emitted List.not_mem_nil
    · rw [equal] at emitted
      rw [← same, unit.owner_unique there inside emitted owned]
  · intro same
    rw [emittedAddresses, TranslationUnit.getBody_congr same, found]
    exact owned

theorem mem_bodyAddresses {owner : DeclInfo} {body : Stmt} (has : owner.body = some body) {statement : StmtInfo}
    (inside : statement ∈ body.all) : statement.address ∈ ParsedUnit.bodyAddresses owner := by
  unfold ParsedUnit.bodyAddresses
  rw [has, Option.toList_some, Stmt.allOf, Stmt.allOf, List.append_nil]
  exact List.mem_map_of_mem inside

/-- The definition of a function that is declared once is found for it. -/
theorem DefinedOnce.getBody (once : DefinedOnce unit.toTranslationUnit) {owner : DeclInfo}
    (inside : owner ∈ unit.allDecls) (has : owner.body.isSome = true) : unit.getBody owner = owner.body := by
  have some_ := TranslationUnit.getBody_isSome inside rfl has
  obtain ⟨body, found⟩ := Option.isSome_iff_exists.mp some_
  obtain ⟨other, there, same, owned⟩ := TranslationUnit.getBody_eq_some found
  have first := once owner inside has
  have second := once other there (by rw [owned]; rfl)
  rw [same, first] at second
  rw [unit.decl_unique inside there (List.singleton_inj.mp second), owned, ← found,
    TranslationUnit.getBody_congr same]

theorem DefinedOnce.visited (once : DefinedOnce unit.toTranslationUnit) {owner : DeclInfo}
    (inside : owner ∈ unit.allDecls) (has : owner.body.isSome = true) : owner ∈ unit.visitedDecls := by
  have listed : owner.address ∈ (unit.visitedDecls.filter fun other =>
      decide (other.canonical = owner.canonical)).map DeclInfo.address := by
    rw [once owner inside has]
    exact List.mem_singleton_self _
  obtain ⟨other, filtered, same⟩ := List.mem_map.mp listed
  have there := (List.mem_filter.mp filtered).1
  rwa [← unit.decl_unique (mem_allDecls_of_visited there) inside same]

/-- A visited declaration finds a body only when it is the definition. -/
theorem DefinedOnce.getBody_isSome (once : DefinedOnce unit.toTranslationUnit) {info : DeclInfo}
    (visited : info ∈ unit.visitedDecls) : (unit.getBody info).isSome = true ↔ info.body.isSome = true := by
  have inside := mem_allDecls_of_visited visited
  refine ⟨fun some_ => ?_, TranslationUnit.getBody_isSome inside rfl⟩
  obtain ⟨body, found⟩ := Option.isSome_iff_exists.mp some_
  obtain ⟨owner, there, same, owned⟩ := TranslationUnit.getBody_eq_some found
  have has : owner.body.isSome = true := by
    rw [owned]
    rfl
  have listed : info.address ∈ (unit.visitedDecls.filter fun other =>
      decide (other.canonical = owner.canonical)).map DeclInfo.address :=
    List.mem_map_of_mem (List.mem_filter.mpr ⟨visited, decide_eq_true same.symm⟩)
  rw [once owner there has, List.mem_singleton] at listed
  rwa [unit.decl_unique inside there listed]

theorem DefinedOnce.counted (once : DefinedOnce unit.toTranslationUnit) (spelling : DeclSpelling)
    {owner : DeclInfo} (inside : owner ∈ unit.allDecls) {body : Stmt} (has : owner.body = some body)
    {statement : StmtInfo} (listed : statement ∈ body.all) :
    (handleTranslationUnit spelling unit.toTranslationUnit).countP
      (fun emitted => emitted.source.isStatement statement.address) = 1 := by
  have some_ : owner.body.isSome = true := by
    rw [has]
    rfl
  have found := once.getBody inside some_
  have sole := congrArg List.length (once owner inside some_)
  rw [List.length_map] at sole
  rw [countP_emitted, List.countP_eq_length_filter]
  simp only [mem_emittedAddresses inside found (mem_bodyAddresses has listed)]
  exact sole

end Counting

/-! ### Nodes -/

section Nodes

variable {unit : ParsedUnit} {spelling : DeclSpelling}

variable (spelling) in
/-- A node of a declaration has a compound child exactly when a body is found for it. -/
theorem compound_child_iff {entry : Forest.Entry Source} (inside : entry ∈ entries unit.toTranslationUnit)
    {info : DeclInfo} (label : entry.label = .declaration info) :
    (∃ child ∈ (decoded spelling unit.toTranslationUnit).children (nodeId entry.index),
      child.nodeKind = .compoundStmt) ↔ (unit.getBody info).isSome = true := by
  obtain ⟨children, spans⟩ := exists_spans inside
  obtain ⟨decls, _, rfl⟩ := spans.declaration label
  constructor
  · rintro ⟨child, listed, kind⟩
    obtain ⟨below, there, up, rfl⟩ := (mem_children_entry inside).mp listed
    have root := spans.child_label there up
    rw [Forest.rootLabels_append, List.mem_append] at root
    rcases root with body | declared
    · cases found : unit.getBody info with
      | none =>
          rw [TranslationUnit.bodyForest, found] at body
          exact absurd body List.not_mem_nil
      | some => rfl
    · rw [rootLabels_declForest] at declared
      obtain ⟨other, _, named⟩ := List.mem_map.mp declared
      have spelled := spelling.declares other.info.form.kind
      rw [← kind_declaration named.symm, kind] at spelled
      exact absurd spelled (by decide)
  · intro some_
    obtain ⟨body, found⟩ := Option.isSome_iff_exists.mp some_
    obtain ⟨owner, owns, _, owned⟩ := TranslationUnit.getBody_eq_some found
    have root : Source.statement body.info ∈ ((unit.bodyForest info).append
        (Decl.forest unit.toTranslationUnit decls)).rootLabels := by
      rw [Forest.rootLabels_append, TranslationUnit.bodyForest, found]
      cases body with
      | mk => exact List.mem_append_left _ List.mem_cons_self
    obtain ⟨below, there, up, named⟩ := spans.exists_child root
    refine ⟨entryNode spelling below, (mem_children_entry inside).mpr ⟨below, there, up, rfl⟩, ?_⟩
    rw [kind_statement named, unit.compound owner owns body owned]
    rfl

/-- Two emitted nodes of a statement that is emitted once are the same. -/
theorem emitted_unique {emitted : List Emitted} {address : Nat}
    (once : emitted.countP (fun emitted => emitted.source.isStatement address) = 1) {first second : Emitted}
    (here : first ∈ emitted) (there : second ∈ emitted) (left : first.source.isStatement address = true)
    (right : second.source.isStatement address = true) : first = second := by
  rw [List.countP_eq_length_filter, List.length_eq_one_iff] at once
  obtain ⟨only, same⟩ := once
  have one : first ∈ emitted.filter fun emitted => emitted.source.isStatement address :=
    List.mem_filter.mpr ⟨here, left⟩
  have two : second ∈ emitted.filter fun emitted => emitted.source.isStatement address :=
    List.mem_filter.mpr ⟨there, right⟩
  rw [same, List.mem_singleton] at one two
  exact one.trans two.symm

theorem DefinedOnce.below (once : DefinedOnce unit.toTranslationUnit) {owner : DeclInfo}
    (inside : owner ∈ unit.allDecls) {body : Stmt} (has : owner.body = some body) {statement : StmtInfo}
    (listed : statement ∈ body.all) {emitted : Emitted}
    (known : emitted ∈ handleTranslationUnit spelling unit.toTranslationUnit)
    (source : emitted.source.isStatement statement.address = true) :
    ∃ definition ∈ handleTranslationUnit spelling unit.toTranslationUnit,
      definition.source = .declaration owner ∧
        emitted.node ∈ (decoded spelling unit.toTranslationUnit).descendants definition.node.nodeId := by
  have some_ : owner.body.isSome = true := by
    rw [has]
    rfl
  obtain ⟨entry, there, label⟩ := exists_entry_of_visited (once.visited inside some_)
  obtain ⟨children, spans⟩ := exists_spans there
  obtain ⟨decls, _, rfl⟩ := spans.declaration label
  have emits : ∀ {other}, other ∈ entries unit.toTranslationUnit →
      toEmitted spelling other ∈ handleTranslationUnit spelling unit.toTranslationUnit := by
    intro other present
    rw [handleTranslationUnit_eq]
    exact List.mem_map_of_mem present
  refine ⟨_, emits there, label, spans.mem_descendants.mpr ?_⟩
  have numbered : Source.statement statement ∈ (((unit.bodyForest owner).append
      (Decl.forest unit.toTranslationUnit decls)).number entry.index (entry.index + 1)).map
        Forest.Entry.label := by
    rw [Forest.label_number, Forest.labels_append, TranslationUnit.bodyForest, Stmt.labels_forest,
      once.getBody inside some_, has, Option.toList_some, Stmt.allOf, Stmt.allOf, List.append_nil]
    exact List.mem_append_left _ (List.mem_map_of_mem listed)
  obtain ⟨below, span, same⟩ := List.mem_map.mp numbered
  refine ⟨below, span, ?_⟩
  have equal := emitted_unique (once.counted spelling inside has listed) known (emits (spans.known span)) source
    (by rw [toEmitted, same]; simp [Source.isStatement])
  rw [equal]
  rfl

end Nodes

/-- The serializer is one to one exactly when no function with a body is declared again. -/
theorem oneToOne_iff (spelling : DeclSpelling) (unit : ParsedUnit) :
    OneToOne spelling unit.toTranslationUnit ↔ DefinedOnce unit.toTranslationUnit := by
  constructor
  · intro single owner inside has
    obtain ⟨body, owned⟩ := Option.isSome_iff_exists.mp has
    have listed : body.info ∈ body.all := by
      cases body with
      | mk => exact List.mem_cons_self
    have once := single.once owner inside body owned body.info listed
    obtain ⟨emitted, known, source⟩ := List.countP_pos_iff.mp (Nat.lt_of_lt_of_eq Nat.zero_lt_one once.symm)
    obtain ⟨definition, emits, declares, _⟩ := single.below owner inside body owned body.info listed emitted
      known source
    rw [handleTranslationUnit_eq] at emits
    obtain ⟨entry, there, rfl⟩ := List.mem_map.mp emits
    have visited := visited_of_entry there declares
    rw [countP_emitted] at once
    have address := mem_bodyAddresses owned listed
    have found : unit.getBody owner = owner.body := by
      obtain ⟨info, _, covers⟩ := List.countP_pos_iff.mp (Nat.lt_of_lt_of_eq Nat.zero_lt_one once.symm)
      rw [decide_eq_true_eq] at covers
      rcases emittedAddresses_eq unit info with nothing | ⟨other, owns, same, _, finds, equal⟩
      · rw [nothing] at covers
        exact absurd covers List.not_mem_nil
      · rw [equal] at covers
        obtain rfl := unit.owner_unique owns inside covers address
        rw [TranslationUnit.getBody_congr same, finds]
    simp only [mem_emittedAddresses inside found address, List.countP_eq_length_filter] at once
    obtain ⟨only, filtered⟩ := List.length_eq_one_iff.mp once
    have itself : owner ∈ unit.visitedDecls.filter fun other => decide (other.canonical = owner.canonical) :=
      List.mem_filter.mpr ⟨visited, decide_eq_true rfl⟩
    rw [filtered, List.mem_singleton] at itself
    rw [filtered, itself]
    rfl
  · intro once
    refine ⟨fun owner inside body owned statement listed => once.counted spelling inside owned listed,
      fun owner inside body owned statement listed emitted known source =>
        once.below inside owned listed known source, fun emitted known info source => ?_⟩
    rw [handleTranslationUnit_eq] at known
    obtain ⟨entry, there, rfl⟩ := List.mem_map.mp known
    exact (compound_child_iff spelling there source).trans (once.getBody_isSome (visited_of_entry there source))

/-! ### A prototype before the definition -/

/-- The body is `{ return 0; }`. -/
def returnBody : Stmt :=
  .mk { address := 1, form := .compoundStmt }
    [.mk { address := 2, form := .returnStmt } [.mk { address := 3, form := .integerLiteral "0" } []]]

/-- The unit is `int f(void); int f(void) { return 0; }`. -/
def prototypeUnit : ParsedUnit where
  decls :=
    [.mk { address := 10, form := .function "f" 10 .scNone .externalLinkage none } [],
      .mk { address := 11, form := .function "f" 10 .scNone .externalLinkage (some returnBody) } []]
  declsOnce := by decide
  stmtsOnce := by decide
  compound := by decide
  leaves := by decide
  locals := by decide

/-- The return statement has two nodes, one of them below the prototype. -/
theorem prototypeUnit_twice : ¬ OneToOne getDeclKindName prototypeUnit.toTranslationUnit := by
  intro single
  have twice : (handleTranslationUnit getDeclKindName prototypeUnit.toTranslationUnit).countP
      (fun emitted => emitted.source.isStatement 2) = 2 := by decide
  have once := single.once ⟨11, .function "f" 10 .scNone .externalLinkage (some returnBody), none, {}, true⟩
    (List.mem_cons_of_mem _ List.mem_cons_self) returnBody rfl ⟨2, .returnStmt, none, {}⟩
    (List.mem_cons_of_mem _ List.mem_cons_self)
  rw [twice] at once
  exact absurd once (by decide)

end AstSerializer
end MisraPlatform
