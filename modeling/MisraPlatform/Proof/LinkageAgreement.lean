import MisraPlatform.Proof.DecodedAst
import MisraPlatform.Semantics.TranslationUnits

/-
This file shows that the linkage index finds nothing in a serialized unit.
-/

namespace MisraPlatform
open Clang AstSerializer

namespace LinkageIndex

/-- No node has a kind that the index looks for. -/
theorem nodesByKind_decoded (unit : TranslationUnit) {kind : NodeKind} (looks : kind ∈ DEFINITION_KINDS) :
    (decoded getDeclKindName unit).nodesByKind kind = [] := by
  unfold AstGraph.nodesByKind
  rw [List.filter_eq_nil_iff]
  intro node present
  rw [decoded_nodes] at present
  obtain ⟨entry, _, rfl⟩ := List.mem_map.mp present
  simp only [decide_eq_true_eq]
  intro same
  cases label : entry.label with
  | declaration info =>
      rw [kind_declaration label] at same
      subst same
      exact absurd looks (by simp [DEFINITION_KINDS, getDeclKindName])
  | statement info =>
      rw [kind_statement label] at same
      subst same
      revert looks
      generalize info.form = form
      cases form with
      | binaryOperator compoundAssignment =>
          cases compoundAssignment <;> simp [DEFINITION_KINDS, StmtForm.className]
      | _ => simp [DEFINITION_KINDS, StmtForm.className]

theorem symbolEntries_indexed (units : List LinkedUnit) : symbolEntries (units.map LinkedUnit.indexed) = [] := by
  unfold symbolEntries
  rw [List.flatMap_map, List.flatMap_eq_nil_iff]
  intro linked _
  rw [List.flatMap_eq_nil_iff]
  intro kind looks
  unfold fileScopeNodes LinkedUnit.indexed
  rw [nodesByKind_decoded linked.unit looks]
  rfl

theorem symbols_indexed (units : List LinkedUnit) :
    (build (units.map LinkedUnit.indexed)).symbols = .empty := by
  unfold build
  rw [symbolEntries_indexed]
  rfl

/-- The index agrees with the units exactly when they declare no named function or object at file scope. -/
theorem agrees_iff (units : List LinkedUnit) : Agrees units ↔ ∀ linked ∈ units, declared linked = [] := by
  have nothing : units.flatMap (fun linked => (declared linked).map fun info => (linked, info)) = [] ↔
      ∀ linked ∈ units, declared linked = [] := by
    simp only [List.flatMap_eq_nil_iff, List.map_eq_nil_iff]
  rw [← nothing]
  constructor
  · rintro ⟨pairing, all, perm, _⟩
    rw [symbols_indexed] at perm
    have empty := List.map_eq_nil_iff.mp (List.Perm.eq_nil perm)
    rw [← all, empty]
    rfl
  · intro empty
    refine ⟨[], empty.symm, ?_, fun _ inside => absurd inside List.not_mem_nil⟩
    rw [symbols_indexed]
    exact List.Perm.refl _

/-! ### A static function -/

/-- The unit is `static int f(void) { return 0; }`. -/
def staticUnit : LinkedUnit where
  translationUnitId := "tu"
  filePath := "f.c"
  unit :=
    { decls := [.mk
        { address := 10
          form := .function "f" 10 .scStatic .internalLinkage (some (.mk { address := 1, form := .compoundStmt }
            [.mk { address := 2, form := .returnStmt } [.mk { address := 3, form := .integerLiteral "0" } []]])) }
        []] }

/-- The index of the unit has no occurrence of the function. -/
theorem staticUnit_missed : ¬ Agrees [staticUnit] := by
  rintro ⟨pairing, all, perm, _⟩
  have written : ((build ([staticUnit].map LinkedUnit.indexed)).symbols.entries.flatMap fun entry =>
      entry.2.map fun occurrence => (entry.1, occurrence)).length = 0 := by decide
  have declared : ([staticUnit].flatMap fun linked =>
      (declared linked).map fun info => (linked, info)).length = 1 := by decide
  rw [← all, List.length_map] at declared
  have same := perm.length_eq
  rw [written, List.length_map, declared] at same
  exact absurd same (by decide)

end LinkageIndex
end MisraPlatform
