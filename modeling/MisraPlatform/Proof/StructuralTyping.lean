import MisraPlatform.Proof.EssentialTypes

/-
This file proves when the types of expressions are those that the typing rules of C give.
-/

namespace MisraPlatform.EssentialTyping

open EssentialType EssentialTypeAnalyzer EssentialTypeEngine LabelledTree

section Conversions

variable {type left right : EssentialType}

theorem promote_eq (arithmetic : type ∈ arithmeticTypes) : promote type = promoted type := by
  have closed : ∀ type ∈ arithmeticTypes, promote type = promoted type := by decide
  exact closed type arithmetic

/-- The engine converts arithmetic types as C does on the widths of its literals. -/
theorem usualArithmeticConversion_eq (leftArithmetic : left ∈ arithmeticTypes)
    (rightArithmetic : right ∈ arithmeticTypes) : usualArithmeticConversion left right = commonReal left right := by
  have closed : ∀ left ∈ arithmeticTypes, ∀ right ∈ arithmeticTypes,
      usualArithmeticConversion left right = commonReal left right := by decide
  exact closed left leftArithmetic right rightArithmetic

theorem commonReal_mem (leftArithmetic : left ∈ arithmeticTypes) (rightArithmetic : right ∈ arithmeticTypes) :
    commonReal left right ∈ arithmeticTypes := by
  have closed : ∀ left ∈ arithmeticTypes, ∀ right ∈ arithmeticTypes, commonReal left right ∈ arithmeticTypes := by
    decide
  exact closed left leftArithmetic right rightArithmetic

theorem promoted_mem (arithmetic : type ∈ arithmeticTypes) : promoted type ∈ arithmeticTypes := by
  have closed : ∀ type ∈ arithmeticTypes, promoted type ∈ arithmeticTypes := by decide
  exact closed type arithmetic

theorem promoted_eq_self_iff (arithmetic : type ∈ arithmeticTypes) :
    promoted type = type ↔ rank signedInt ≤ rank type := by
  have closed : ∀ type ∈ arithmeticTypes, promoted type = type ↔ rank signedInt ≤ rank type := by decide
  exact closed type arithmetic

/-- A conversion keeps the left type exactly when neither operand pulls it up. -/
theorem commonReal_eq_left_iff (leftArithmetic : left ∈ arithmeticTypes) (rightArithmetic : right ∈ arithmeticTypes) :
    commonReal left right = left ↔ rank signedInt ≤ rank left ∧ rank right ≤ rank left := by
  have closed : ∀ left ∈ arithmeticTypes, ∀ right ∈ arithmeticTypes,
      commonReal left right = left ↔ rank signedInt ≤ rank left ∧ rank right ≤ rank left := by decide
  exact closed left leftArithmetic right rightArithmetic

theorem conditionalType_eq (leftArithmetic : left ∈ arithmeticTypes) (rightArithmetic : right ∈ arithmeticTypes) :
    conditionalType left right = commonType left right := by
  rw [conditionalType, commonType, usualArithmeticConversion_eq leftArithmetic rightArithmetic]
  rfl

theorem commonType_mem (leftArithmetic : left ∈ arithmeticTypes) (rightArithmetic : right ∈ arithmeticTypes) :
    commonType left right ∈ arithmeticTypes := by
  unfold commonType
  split_ifs
  · exact leftArithmetic
  · exact rightArithmetic
  · exact leftArithmetic
  · exact commonReal_mem leftArithmetic rightArithmetic

end Conversions

section Nodes

variable {label : ExpressionLabel} {operands : List EssentialType}

theorem structuralType_unary (unary : label.nodeKind = .unaryOperator) (operand : EssentialType) :
    structuralType label [operand] =
      if label.opcode = "!" then boolean
      else if label.opcode ∈ ["++", "--"] then operand else promoted operand := by
  rw [structuralType, if_pos unary]

theorem structuralType_binary (binary : label.nodeKind = .binaryOperator) (left right : EssentialType) :
    structuralType label [left, right] =
      if label.opcode ∈ relationalOpcodes then boolean
      else if label.opcode ∈ shiftOpcodes then promoted left
      else if label.opcode ∈ assignmentOpcodes then left else commonReal left right := by
  rw [structuralType, if_pos binary]

theorem structuralType_conditional (conditional : label.nodeKind = .other "ConditionalOperator")
    (condition thenType elseType : EssentialType) :
    structuralType label [condition, thenType, elseType] = commonType thenType elseType := by
  rw [structuralType, if_pos conditional]

theorem structuralType_leaf
    (leaf : label.nodeKind ∉ [.unaryOperator, .binaryOperator, .other "ConditionalOperator"]) :
    structuralType label operands = leafType label := by
  simp only [List.mem_cons, List.not_mem_nil, or_false, not_or] at leaf
  unfold structuralType
  split
  · rw [if_neg leaf.1]
  · rw [if_neg leaf.2.1]
  · rw [if_neg leaf.2.2]
  · rfl

theorem unaryType_eq {operand : EssentialType} (arithmetic : operand ∈ arithmeticTypes)
    (operator : label.opcode ∈ ["!", "+", "-", "~", "++", "--"]) :
    unaryType label.opcode operand = if label.opcode = "!" then boolean else promoted operand := by
  unfold unaryType
  split_ifs with logical promoting
  · rfl
  · exact promote_eq arithmetic
  · simp at promoting operator
    tauto

/-- The suffix test of the engine takes an assignment for an arithmetic operator. -/
theorem binaryType_eq {left right : EssentialType} (leftArithmetic : left ∈ arithmeticTypes)
    (rightArithmetic : right ∈ arithmeticTypes)
    (operator : label.opcode ∈ relationalOpcodes ++ shiftOpcodes ++ arithmeticOpcodes ++ assignmentOpcodes) :
    binaryType label left right =
      if label.opcode ∈ relationalOpcodes then boolean
      else if label.opcode ∈ shiftOpcodes then promoted left else commonReal left right := by
  have suffix : ∀ opcode ∈ assignmentOpcodes, "=".toList.isSuffixOf opcode.toList = true := by decide
  have converted : label.opcode ∉ relationalOpcodes → label.opcode ∉ shiftOpcodes →
      (arithmeticOpcodes.contains label.opcode || "=".toList.isSuffixOf label.opcode.toList) = true := by
    intro noRelation noShift
    simp only [List.mem_append, noRelation, noShift, false_or] at operator
    rcases operator with arithmetic | assignment
    · rw [List.contains_iff_mem.mpr arithmetic, Bool.true_or]
    · rw [suffix _ assignment, Bool.or_true]
  rw [binaryType, promote_eq leftArithmetic, usualArithmeticConversion_eq leftArithmetic rightArithmetic]
  simp only [List.contains_iff_mem]
  split_ifs with relation shift arithmetic
  · rfl
  · rfl
  · rfl
  · exact absurd (converted relation shift) arithmetic

theorem targetsKept_unary (unary : label.nodeKind = .unaryOperator) (operand : EssentialType) :
    TargetsKept label [operand] ↔ (label.opcode ∈ ["++", "--"] → rank signedInt ≤ rank operand) := by
  constructor
  · exact fun kept => kept.1 operand rfl unary
  · intro kept
    refine ⟨fun other values _ step => ?_, fun left right values => ?_⟩
    · cases values
      exact kept step
    · cases congrArg List.length values

theorem targetsKept_binary (binary : label.nodeKind = .binaryOperator) (left right : EssentialType) :
    TargetsKept label [left, right] ↔
      (label.opcode ∈ assignmentOpcodes → rank signedInt ≤ rank left ∧ rank right ≤ rank left) := by
  constructor
  · exact fun kept => kept.2 left right rfl binary
  · intro kept
    refine ⟨fun operand values => ?_, fun first second values _ assignment => ?_⟩
    · cases congrArg List.length values
    · cases values
      exact kept assignment

/-- The engine gives an operator of arithmetic operands the type of C exactly when its targets are kept. -/
theorem expressionType_eq_iff (node : CNode label operands.length)
    (arithmetic : ∀ operand ∈ operands, operand ∈ arithmeticTypes) :
    expressionType label operands = structuralType label operands ↔ TargetsKept label operands := by
  rcases node with ⟨leaf, -⟩ | ⟨unary, operator, count⟩ | ⟨binary, operator, count⟩ | ⟨conditional, count⟩
  · have others := leaf
    simp only [List.mem_cons, List.not_mem_nil, or_false, not_or] at others
    have plain : ¬ Derives label operands.length := by
      rintro (⟨unary, -⟩ | ⟨binary, -⟩ | ⟨conditional, -⟩)
      · exact others.1 unary
      · exact others.2.1 binary
      · exact others.2.2 conditional
    rw [expressionType_leaf plain, structuralType_leaf leaf]
    exact iff_of_true rfl ⟨fun _ _ unary => absurd unary others.1, fun _ _ _ binary => absurd binary others.2.1⟩
  · obtain ⟨operand, rfl⟩ := List.length_eq_one_iff.mp count
    have operandArithmetic := arithmetic operand List.mem_cons_self
    rw [expressionType_unary unary, structuralType_unary unary, unaryType_eq operandArithmetic operator,
      targetsKept_unary unary, ← promoted_eq_self_iff operandArithmetic]
    by_cases step : label.opcode ∈ ["++", "--"]
    · have noNegation : label.opcode ≠ "!" := by
        intro negation
        rw [negation] at step
        exact absurd step (by decide)
      rw [if_neg noNegation, if_neg noNegation, if_pos step]
      exact ⟨fun same _ => same, fun same => same step⟩
    · rw [if_neg step]
      exact iff_of_true rfl fun taken => absurd taken step
  · obtain ⟨left, right, rfl⟩ := List.length_eq_two.mp count
    have leftArithmetic := arithmetic left List.mem_cons_self
    have rightArithmetic := arithmetic right (List.mem_cons_of_mem _ List.mem_cons_self)
    rw [expressionType_binary binary, structuralType_binary binary,
      binaryType_eq leftArithmetic rightArithmetic operator, targetsKept_binary binary,
      ← commonReal_eq_left_iff leftArithmetic rightArithmetic]
    by_cases assignment : label.opcode ∈ assignmentOpcodes
    · have apart : ∀ opcode ∈ assignmentOpcodes, opcode ∉ relationalOpcodes ∧ opcode ∉ shiftOpcodes := by decide
      obtain ⟨noRelation, noShift⟩ := apart label.opcode assignment
      rw [if_neg noRelation, if_neg noShift, if_neg noRelation, if_neg noShift, if_pos assignment]
      exact ⟨fun same _ => same, fun same => same assignment⟩
    · rw [if_neg assignment]
      exact iff_of_true rfl fun taken => absurd taken assignment
  · obtain ⟨condition, thenType, elseType, rfl⟩ := List.length_eq_three.mp count
    rw [expressionType_conditional conditional, structuralType_conditional conditional,
      conditionalType_eq (arithmetic thenType (by simp)) (arithmetic elseType (by simp))]
    refine iff_of_true rfl ⟨fun operand values => ?_, fun left right values => ?_⟩
    · cases congrArg List.length values
    · cases congrArg List.length values

theorem structuralType_mem (node : CNode label operands.length)
    (arithmetic : ∀ operand ∈ operands, operand ∈ arithmeticTypes) : structuralType label operands ∈ arithmeticTypes := by
  have boolean_mem : boolean ∈ arithmeticTypes := by decide
  rcases node with ⟨leaf, listed⟩ | ⟨unary, operator, count⟩ | ⟨binary, operator, count⟩ | ⟨conditional, count⟩
  · rwa [structuralType_leaf leaf]
  · obtain ⟨operand, rfl⟩ := List.length_eq_one_iff.mp count
    have operandArithmetic := arithmetic operand List.mem_cons_self
    rw [structuralType_unary unary]
    split_ifs
    · exact boolean_mem
    · exact operandArithmetic
    · exact promoted_mem operandArithmetic
  · obtain ⟨left, right, rfl⟩ := List.length_eq_two.mp count
    have leftArithmetic := arithmetic left List.mem_cons_self
    have rightArithmetic := arithmetic right (List.mem_cons_of_mem _ List.mem_cons_self)
    rw [structuralType_binary binary]
    split_ifs
    · exact boolean_mem
    · exact promoted_mem leftArithmetic
    · exact leftArithmetic
    · exact commonReal_mem leftArithmetic rightArithmetic
  · obtain ⟨condition, thenType, elseType, rfl⟩ := List.length_eq_three.mp count
    rw [structuralType_conditional conditional]
    exact commonType_mem (arithmetic thenType (by simp)) (arithmetic elseType (by simp))

end Nodes

theorem CExpression.fold_mem {tree : ExpressionTree} (expression : CExpression tree) :
    tree.fold structuralType ∈ arithmeticTypes :=
  fold_induction (fun _ _ node good => structuralType_mem node good) (everywhere_count.mpr expression)

section Sample

/-- This is the expression `target = value`. -/
def assignment (target value : String) : ExpressionTree :=
  .node { nodeKind := .binaryOperator, opcode := "=" } [reference target, reference value]

theorem cExpression_assignment {target value : String} (targetArithmetic : ofText target ∈ arithmeticTypes)
    (valueArithmetic : ofText value ∈ arithmeticTypes) : CExpression (assignment target value) := by
  have kind : NodeKind.declRefExpr ∉ [.unaryOperator, .binaryOperator, .other "ConditionalOperator"] := by decide
  have leaf : ∀ typeText, ofText typeText ∈ arithmeticTypes → CExpression (reference typeText) :=
    fun typeText arithmetic => counted_node.mpr ⟨.inl ⟨kind, arithmetic⟩, by simp⟩
  refine counted_node.mpr ⟨.inr (.inr (.inl ⟨rfl, by decide, rfl⟩)), ?_⟩
  intro child listed
  simp only [List.mem_cons, List.not_mem_nil, or_false] at listed
  rcases listed with rfl | rfl
  · exact leaf target targetArithmetic
  · exact leaf value valueArithmetic

end Sample

end MisraPlatform.EssentialTyping
