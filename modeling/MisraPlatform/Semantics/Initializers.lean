import MisraPlatform.Construction.InitializationRules

/-
This file states which elements of an array initializer have which index.
-/

namespace MisraPlatform
open BaseRulePlugin

/-- A designated element has its index and any other one the index after the element before it. -/
structure IndicesFrom (start : Int) (elements : List AstNode) (indices : List Int) : Prop where
  length : indices.length = elements.length
  designated : ∀ (position : Nat) (element : AstNode) (index : Int), elements[position]? = some element →
    element.designatorIndex = some index → indices[position]? = some index
  first : ∀ element : AstNode, elements[0]? = some element → element.designatorIndex = none →
    indices[0]? = some start
  next : ∀ (position : Nat) (element : AstNode), elements[position + 1]? = some element →
    element.designatorIndex = none → indices[position + 1]? = indices[position]?.map fun index => index + 1

/-- The indices are those of the language, and the elements of an index that an earlier element of the
list has are reported, each once. -/
structure RepeatsReported (context : RuleContext) : Prop where
  elements : ∀ initList, (initializerIndices initList (graph context)).map Prod.snd =
    (graph context).children initList.nodeId
  indices : ∀ initList indices, IndicesFrom 0 ((graph context).children initList.nodeId) indices ↔
    (initializerIndices initList (graph context)).map Prod.fst = indices
  reported : Rule9_3.detect context = (Rule9_3.arrayInitializers (graph context)).flatMap fun initList =>
    (laterRepeats Prod.fst (initializerIndices initList (graph context))).map (Rule9_3.report context)

end MisraPlatform
