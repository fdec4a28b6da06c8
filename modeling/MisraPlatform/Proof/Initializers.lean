import MisraPlatform.Semantics.Initializers

/-
This file shows that the elements initialized more than once are found exactly.
-/

namespace MisraPlatform

variable {start : Int} {element : AstNode} {elements : List AstNode} {indices : List Int}

theorem indicesFrom_nil : IndicesFrom start [] indices ↔ indices = [] := by
  constructor
  · intro given
    exact List.length_eq_zero_iff.mp given.length
  · rintro rfl
    constructor <;> simp

/-- The index of an element is the start for the elements behind it. -/
theorem indicesFrom_cons : IndicesFrom start (element :: elements) indices ↔
    ∃ rest, indices = element.designatorIndex.getD start :: rest ∧
      IndicesFrom (element.designatorIndex.getD start + 1) elements rest := by
  constructor
  · intro given
    cases indices with
    | nil => exact absurd given.length (by simp)
    | cons index rest =>
        have here : index = element.designatorIndex.getD start := by
          cases designator : element.designatorIndex with
          | none => simpa using given.first element rfl designator
          | some _ => simpa using given.designated 0 element _ rfl designator
        refine ⟨rest, by rw [here], by simpa using given.length, ?_, ?_, ?_⟩
        · intro position other found
          exact given.designated (position + 1) other found
        · intro other found positional
          simpa [here] using given.next 0 other found positional
        · intro position other found
          exact given.next (position + 1) other found
  · rintro ⟨rest, rfl, given⟩
    refine ⟨by simpa using given.length, ?_, ?_, ?_⟩
    · intro position other found
      cases position with
      | zero =>
          intro at_zero designator
          obtain rfl : element = other := by simpa using at_zero
          simp [designator]
      | succ position => exact given.designated position other found
    · intro other at_zero positional
      obtain rfl : element = other := by simpa using at_zero
      simp [positional]
    · intro position other
      cases position with
      | zero =>
          intro found positional
          simpa using given.first other found positional
      | succ position => exact given.next position other

/-- The induction is on the elements, and the next index moves with them. -/
theorem indicesFrom_iff : IndicesFrom start elements indices ↔
    (resolveIndices start elements).map Prod.fst = indices := by
  induction elements generalizing start indices with
  | nil => rw [indicesFrom_nil, resolveIndices, List.map_nil, eq_comm]
  | cons element rest ih =>
      rw [indicesFrom_cons, resolveIndices, List.map_cons]
      constructor
      · rintro ⟨others, rfl, given⟩
        rw [ih.mp given]
      · rintro rfl
        exact ⟨_, rfl, ih.mpr rfl⟩

theorem map_resolveIndices (start : Int) (elements : List AstNode) :
    (resolveIndices start elements).map Prod.snd = elements := by
  induction elements generalizing start with
  | nil => rfl
  | cons element rest ih => rw [resolveIndices, List.map_cons, ih]

/-- Every element with an index of an earlier one is reported once, and no other element is. -/
theorem Rule9_3.repeats_reported (context : RuleContext) : RepeatsReported context where
  elements initList := map_resolveIndices 0 _
  indices _ _ := indicesFrom_iff
  reported := by
    unfold detect offending
    simp only [keepRepeats_eq]

example : (resolveIndices 0 [{ nodeId := "a", nodeKind := .other "IntegerLiteral" },
    { nodeId := "b", nodeKind := .other "IntegerLiteral", designatorIndex := some 2 },
    { nodeId := "c", nodeKind := .other "IntegerLiteral", designatorIndex := some 1 },
    { nodeId := "d", nodeKind := .other "IntegerLiteral" }]).map Prod.fst = [0, 2, 1, 2] := by decide

end MisraPlatform
