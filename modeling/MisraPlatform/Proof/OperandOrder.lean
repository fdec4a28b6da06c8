import MisraPlatform.Proof.EssentialTypes

/-
This file proves when the types of expressions depend on the order of their operands.
-/

namespace MisraPlatform.EssentialTyping

open EssentialType EssentialTypeAnalyzer EssentialTypeEngine LabelledTree

section Values

variable {label : ExpressionLabel} {operands others : List EssentialType}

theorem known_conditionalType {thenType elseType : EssentialType} (thenKnown : thenType.Known)
    (elseKnown : elseType.Known) : (conditionalType thenType elseType).Known := by
  unfold conditionalType maxByRank
  split_ifs
  · exact thenKnown
  · exact elseKnown
  · exact thenKnown
  · exact known_iff.mpr (.inl (usualArithmeticConversion_mem thenKnown elseKnown))

theorem known_unaryType {opcode : String} {operand : EssentialType} (known : operand.Known) :
    (unaryType opcode operand).Known := by
  unfold unaryType
  split_ifs
  · trivial
  · exact known_iff.mpr (.inl (promote_mem known))
  · exact known

theorem known_binaryType {left right : EssentialType} (leftKnown : left.Known) (rightKnown : right.Known)
    (opcode : label.opcode ∈ relationalOpcodes ∨ label.opcode ∈ shiftOpcodes ∨ label.opcode ∈ arithmeticOpcodes ∨
      "=".toList <:+ label.opcode.toList) : (binaryType label left right).Known := by
  unfold binaryType
  split_ifs with relation shift arithmetic
  · trivial
  · exact known_iff.mpr (.inl (promote_mem leftKnown))
  · exact known_iff.mpr (.inl (usualArithmeticConversion_mem leftKnown rightKnown))
  · simp only [List.contains_eq_mem, decide_eq_true_eq, Bool.or_eq_true, List.isSuffixOf_iff_suffix] at *
    tauto

theorem known_expressionType (allowed : Derives label operands.length ∨ (leafType label).Known)
    (known : ∀ operand ∈ operands, operand.Known) : (expressionType label operands).Known := by
  by_cases derives : Derives label operands.length
  · rcases derives with ⟨unary, count⟩ | ⟨binary, count, opcode⟩ | ⟨conditional, count⟩
    · obtain ⟨operand, rest, rfl⟩ := List.exists_cons_of_length_pos count
      rw [expressionType_unary unary]
      exact known_unaryType (known operand List.mem_cons_self)
    · match operands, count with
      | left :: right :: rest, _ =>
          rw [expressionType_binary binary]
          exact known_binaryType (known left List.mem_cons_self)
            (known right (List.mem_cons_of_mem _ List.mem_cons_self)) opcode
    · match operands, count with
      | condition :: thenType :: elseType :: rest, _ =>
          rw [expressionType_conditional conditional]
          exact known_conditionalType (known thenType (by simp)) (known elseType (by simp))
  · rw [expressionType_leaf derives]
    exact allowed.resolve_left derives

theorem distinctType_conditional (conditional : label.nodeKind = .other "ConditionalOperator")
    (condition thenType elseType : EssentialType) :
    distinctType label (condition :: thenType :: elseType :: operands) =
      if thenType.isEnum ∧ elseType.isEnum ∧ thenType ≠ elseType then usualArithmeticConversion thenType elseType
      else conditionalType thenType elseType := by
  simp only [distinctType, conditional, true_and, expressionType_conditional conditional]

theorem distinctType_other (other : label.nodeKind ≠ .other "ConditionalOperator") :
    distinctType label operands = expressionType label operands := by
  unfold distinctType
  split
  · rw [if_neg fun mixed => other mixed.1]
  · rfl

theorem known_distinctType (allowed : Derives label operands.length ∨ (leafType label).Known)
    (known : ∀ operand ∈ operands, operand.Known) : (distinctType label operands).Known := by
  unfold distinctType
  split
  · split_ifs
    · exact known_iff.mpr (.inl (usualArithmeticConversion_mem (known _ (by simp)) (known _ (by simp))))
    · exact known_expressionType allowed known
  · exact known_expressionType allowed known

/-- The engine departs from the documented types only where the arms are different enumerations. -/
theorem expressionType_eq_distinctType (oneEnum : OneEnum label operands) :
    expressionType label operands = distinctType label operands := by
  unfold distinctType
  split
  · rename_i condition thenType elseType rest
    refine (if_neg ?_).symm
    rintro ⟨conditional, thenEnum, elseEnum, different⟩
    exact different (oneEnum condition thenType elseType rest rfl conditional thenEnum elseEnum)
  · rfl

/-- The operands of a commutative operator are compared, or they are converted. -/
theorem binaryType_comm {left right : EssentialType} (leftKnown : left.Known) (rightKnown : right.Known)
    (commutative : label.opcode ∈ commutativeOpcodes) : binaryType label left right = binaryType label right left := by
  have noShift : label.opcode ∉ shiftOpcodes := by
    have apart : ∀ opcode ∈ commutativeOpcodes, opcode ∉ shiftOpcodes := by decide
    exact apart label.opcode commutative
  simp only [binaryType, List.contains_eq_mem, noShift, decide_false, Bool.false_eq_true, if_false,
    usualArithmeticConversion_comm leftKnown rightKnown]

theorem distinctType_swap (known : ∀ operand ∈ operands, operand.Known) (swap : SwapsOperands label operands others) :
    distinctType label operands = distinctType label others := by
  cases swap with
  | operands left right rest binary commutative =>
      have other : label.nodeKind ≠ .other "ConditionalOperator" := by
        rw [binary]
        exact NodeKind.noConfusion
      rw [distinctType_other other, distinctType_other other, expressionType_binary binary,
        expressionType_binary binary]
      exact binaryType_comm (known left (by simp)) (known right (by simp)) commutative
  | arms condition thenArm elseArm rest conditional =>
      have thenKnown := known thenArm (by simp)
      have elseKnown := known elseArm (by simp)
      rw [distinctType_conditional conditional, distinctType_conditional conditional]
      by_cases mixed : thenArm.isEnum ∧ elseArm.isEnum ∧ thenArm ≠ elseArm
      · rw [if_pos mixed, if_pos ⟨mixed.2.1, mixed.1, mixed.2.2.symm⟩]
        exact usualArithmeticConversion_comm thenKnown elseKnown
      · rw [if_neg mixed, if_neg fun other => mixed ⟨other.2.1, other.1, other.2.2.symm⟩]
        refine conditionalType_comm thenKnown elseKnown fun thenEnum elseEnum => ?_
        by_contra different
        exact mixed ⟨thenEnum, elseEnum, different⟩

theorem OneEnum.swap (oneEnum : OneEnum label operands) (swap : SwapsOperands label operands others) :
    OneEnum label others := by
  cases swap with
  | operands left right rest binary _ =>
      intro condition thenType elseType more _ conditional
      rw [binary] at conditional
      cases conditional
  | arms condition thenArm elseArm rest conditional =>
      intro first second third more same _ thenEnum elseEnum
      cases same
      exact (oneEnum condition thenArm elseArm rest rfl conditional elseEnum thenEnum).symm

end Values

section Trees

theorem SwapsOperands.map {α β : Type} {label : ExpressionLabel} {operands others : List α}
    (swap : SwapsOperands label operands others) (image : α → β) :
    SwapsOperands label (operands.map image) (others.map image) := by
  cases swap with
  | operands left right rest binary commutative => exact .operands _ _ _ binary commutative
  | arms condition thenArm elseArm rest conditional => exact .arms _ _ _ _ conditional

theorem SwapsOperands.perm {α : Type} {label : ExpressionLabel} {operands others : List α}
    (swap : SwapsOperands label operands others) : operands.Perm others := by
  cases swap with
  | operands left right rest _ _ => exact .swap right left rest
  | arms condition thenArm elseArm rest _ => exact (List.Perm.swap elseArm thenArm rest).cons condition

variable {tree other : ExpressionTree}

theorem LeavesKnown.fold_known (known : LeavesKnown tree) : (tree.fold distinctType).Known := by
  have leaves : Everywhere distinctType (fun label values => Derives label values.length ∨ (leafType label).Known) tree :=
    everywhere_count.mpr known
  exact fold_induction (fun _ _ allowed good => known_distinctType allowed good) leaves

/-- No swap changes a documented type. -/
theorem LeavesKnown.unnoticed (known : LeavesKnown tree) (label : ExpressionLabel)
    (children others : List ExpressionTree) (within : Within (.node label children) tree)
    (swap : SwapsOperands label children others) :
    distinctType label (children.map (fold distinctType)) = distinctType label (others.map (fold distinctType)) := by
  refine distinctType_swap (fun operand computed => ?_) (swap.map _)
  obtain ⟨child, listed, rfl⟩ := List.mem_map.mp computed
  have below : LeavesKnown child := known.within ((Within.child listed .root).trans within)
  exact below.fold_known

/-- Swaps keep the leaves, the documented types and the enumerations of the arms. -/
theorem LeavesKnown.swapped (known : LeavesKnown tree) (swapped : Swapped tree other) :
    LeavesKnown other ∧ other.fold distinctType = tree.fold distinctType ∧
      (Everywhere distinctType OneEnum tree → Everywhere distinctType OneEnum other) := by
  induction swapped with
  | refl => exact ⟨known, rfl, id⟩
  | tail _ exchanged ih =>
      obtain ⟨still, same, oneEnum⟩ := ih
      have unnoticed := still.unnoticed
      refine ⟨exchanged.counted (fun _ _ _ => SwapsOperands.perm) still,
        (exchanged.fold_eq unnoticed).symm.trans same, fun everywhere => ?_⟩
      exact exchanged.everywhere unnoticed (fun _ _ _ => SwapsOperands.perm)
        (fun _ _ _ swap here => here.swap (swap.map _)) (oneEnum everywhere)

/-- Where no arms are different enumerations, the engine computes the documented types. -/
theorem essentialType_eq (oneEnum : Everywhere distinctType OneEnum tree) :
    tree.essentialType = tree.fold distinctType :=
  fold_eq fun label children within => expressionType_eq_distinctType (oneEnum label children within)

/-- A conditional between different enumerations has the type of its first arm. -/
theorem conditionalType_enum {first second : String} : conditionalType (enum first) (enum second) = enum first := by
  unfold conditionalType maxByRank
  split_ifs with same category_same less
  · rfl
  · rw [rank_enum, rank_enum] at less
    exact absurd less (lt_irrefl 17)
  · rfl
  · exact absurd rfl category_same

theorem isEnum_iff {type : EssentialType} : type.isEnum ↔ ∃ name, type = enum name := by
  cases type <;> simp [isEnum]

/-- Types that no swap changes leave no conditional between different enumerations. -/
theorem oneEnum_of_stable (stable : ∀ inner, Within inner tree → OrderIndependent inner) :
    Everywhere distinctType OneEnum tree := by
  induction tree using LabelledTree.induction with
  | step label children ih =>
      have below : ∀ child ∈ children, Everywhere distinctType OneEnum child := fun child listed =>
        ih child listed fun inner within => stable inner (.child listed within)
      refine everywhere_node.mpr ⟨?_, below⟩
      intro condition thenType elseType rest values conditional thenEnum elseEnum
      have same : children.map ExpressionTree.essentialType = children.map (fold distinctType) :=
        List.map_congr_left fun child listed => essentialType_eq (below child listed)
      rw [← same] at values
      obtain ⟨conditionTree, arms, rfl, -, armTypes⟩ := List.map_eq_cons_iff.mp values
      obtain ⟨thenTree, later, rfl, rfl, laterTypes⟩ := List.map_eq_cons_iff.mp armTypes
      obtain ⟨elseTree, more, rfl, rfl, -⟩ := List.map_eq_cons_iff.mp laterTypes
      obtain ⟨first, thenName⟩ := isEnum_iff.mp thenEnum
      obtain ⟨second, elseName⟩ := isEnum_iff.mp elseEnum
      have exchanged := stable _ .root _ (.single (.here (.arms conditionTree thenTree elseTree more conditional)))
      rw [ExpressionTree.essentialType, ExpressionTree.essentialType, fold_node, fold_node] at exchanged
      simp only [List.map_cons, expressionType_conditional conditional] at exchanged
      change conditionalType elseTree.essentialType thenTree.essentialType =
        conditionalType thenTree.essentialType elseTree.essentialType at exchanged
      rw [thenName, elseName, conditionalType_enum, conditionalType_enum] at exchanged
      rw [thenName, elseName, exchanged]

end Trees

/-- The engine computes a type for every expression, and swaps leave the types of an expression and of its
parts unchanged exactly when no conditional chooses between different enumerations. -/
theorem unchanged_by_swaps_iff (enumUnderlyingTypes : List (String × String)) (tree : ExpressionTree)
    (known : LeavesKnown tree) :
    (∀ other, Swapped tree other → Computes enumUnderlyingTypes other other.essentialType) ∧
      ((∀ inner, Within inner tree → OrderIndependent inner) ↔ Everywhere distinctType OneEnum tree) := by
  refine ⟨fun other _ => computes_essentialType enumUnderlyingTypes other, oneEnum_of_stable, ?_⟩
  intro oneEnum inner within other swapped
  have below : LeavesKnown inner := known.within within
  obtain ⟨-, same, kept⟩ := below.swapped swapped
  rw [essentialType_eq (oneEnum.within within), essentialType_eq (kept (oneEnum.within within)), same]

section Sample

/-- This is the expression `flag ? first : second`. -/
def choice (first second : String) : ExpressionTree :=
  .node { nodeKind := .other "ConditionalOperator" } [reference "boolean", reference first, reference second]

theorem leavesKnown_reference {typeText : String} (known : (ofText typeText).Known) :
    LeavesKnown (reference typeText) :=
  counted_node.mpr ⟨.inr known, fun _ listed => absurd listed List.not_mem_nil⟩

theorem leavesKnown_choice {first second : String} (firstKnown : (ofText first).Known)
    (secondKnown : (ofText second).Known) : LeavesKnown (choice first second) := by
  refine counted_node.mpr ⟨.inl (.inr (.inr ⟨rfl, le_refl 3⟩)), ?_⟩
  intro child listed
  simp only [List.mem_cons, List.not_mem_nil, or_false] at listed
  rcases listed with rfl | rfl | rfl
  · exact leavesKnown_reference (by decide)
  · exact leavesKnown_reference firstKnown
  · exact leavesKnown_reference secondKnown

theorem choice_depends_on_order : LeavesKnown (choice "enum<Color>" "enum<Shape>") ∧
    ¬ OrderIndependent (choice "enum<Color>" "enum<Shape>") := by
  refine ⟨leavesKnown_choice (by decide) (by decide), fun independent => ?_⟩
  have swapped : Swapped (choice "enum<Color>" "enum<Shape>") (choice "enum<Shape>" "enum<Color>") :=
    .single (.here (.arms _ _ _ _ rfl))
  have same := independent _ swapped
  revert same
  decide

theorem choice_independent : OrderIndependent (choice "enum<Color>" "enum<Color>") := by
  refine (unchanged_by_swaps_iff [] (choice "enum<Color>" "enum<Color>") (leavesKnown_choice (by decide)
    (by decide))).2.mpr (everywhere_node.mpr ⟨?_, ?_⟩) _ .root
  · intro condition thenType elseType rest values _ _ _
    obtain ⟨-, arms⟩ := List.cons.inj values
    obtain ⟨thenSame, later⟩ := List.cons.inj arms
    exact thenSame.symm.trans (List.cons.inj later).1
  · intro child listed
    simp only [List.mem_cons, List.not_mem_nil, or_false] at listed
    rcases listed with rfl | rfl | rfl <;>
      exact everywhere_reference _ fun _ _ _ _ values => (List.cons_ne_nil _ _ values.symm).elim

end Sample

end MisraPlatform.EssentialTyping
