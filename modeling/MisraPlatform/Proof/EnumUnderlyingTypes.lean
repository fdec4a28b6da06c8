import MisraPlatform.Proof.EssentialTypes

/-
This file proves when the underlying types of enumerations have a say in the types of expressions.
-/

namespace MisraPlatform.EssentialTyping

open EssentialType EssentialTypeAnalyzer EssentialTypeEngine LabelledTree

section Substitution

variable (name : String)

theorem essentialType_castTo (underlying : String) (operand : ExpressionTree) :
    (castTo underlying operand).essentialType = ofText underlying := by
  rw [castTo, ExpressionTree.essentialType, fold_node]
  change castType _ = _
  unfold castType
  split_ifs <;> rfl

theorem map_castOperands (underlying : String) (label : ExpressionLabel) (operands : List ExpressionTree) :
    (castOperands name underlying label operands).map ExpressionTree.essentialType =
      withUnderlying name (ofText underlying) label (operands.map ExpressionTree.essentialType) := by
  apply List.ext_getElem?
  intro position
  rw [castOperands, withUnderlying, List.getElem?_map, List.getElem?_mapIdx, List.getElem?_mapIdx, List.getElem?_map,
    Option.map_map, Option.map_map]
  refine congrArg (Option.map · operands[position]?) (funext fun operand => ?_)
  by_cases converted : converts label (operands.map ExpressionTree.essentialType) position
  · by_cases enumerated : operand.essentialType = enum name
    · simp [converted, enumerated, essentialType_castTo, underlyingOf]
    · simp [converted, enumerated, underlyingOf]
  · simp [converted]

/-- The substituted tree has the type in which the underlying type has its say. -/
theorem essentialType_substitute (enumUnderlyingTypes : List (String × String)) (tree : ExpressionTree) :
    (substitute name enumUnderlyingTypes tree).essentialType =
      tree.fold (honoredType name (ofText (underlyingText name enumUnderlyingTypes))) := by
  induction tree using LabelledTree.induction with
  | step label children ih =>
      have values : (children.map (substitute name enumUnderlyingTypes)).map ExpressionTree.essentialType =
          children.map (fold (honoredType name (ofText (underlyingText name enumUnderlyingTypes)))) := by
        rw [List.map_map]
        exact List.map_congr_left fun child listed => ih child listed
      rw [substitute, fold_node, ExpressionTree.essentialType, fold_node, fold_node, honoredType, ← values,
        ← map_castOperands]
      rfl

end Substitution

section Nodes

variable {name : String} {underlying : EssentialType} {label : ExpressionLabel} {operands : List EssentialType}

theorem promote_underlyingOf_iff (type : EssentialType) :
    promote type = promote (underlyingOf name underlying type) ↔ (type = enum name → promote underlying = signedInt) := by
  unfold underlyingOf
  split_ifs with enumerated
  · rw [enumerated, promote_enum]
    exact ⟨fun same _ => same.symm, fun same => (same rfl).symm⟩
  · exact iff_of_true rfl fun same => absurd same enumerated

theorem length_withUnderlying : (withUnderlying name underlying label operands).length = operands.length :=
  List.length_mapIdx

theorem withUnderlying_cons (operand : EssentialType) : withUnderlying name underlying label (operand :: operands) =
    (if converts label (operand :: operands) 0 then underlyingOf name underlying operand else operand) ::
      operands.mapIdx fun position type =>
        if converts label (operand :: operands) (position + 1) then underlyingOf name underlying type else type := by
  rw [withUnderlying, List.mapIdx_cons]

theorem convertsAlike_unary (unary : label.nodeKind = .unaryOperator) (operand : EssentialType) :
    ConvertsAlike name underlying label (operand :: operands) ↔
      (label.opcode ∈ ["-", "~", "+", "++", "--"] → operand = enum name → promote underlying = signedInt) := by
  constructor
  · intro alike promoting enumerated
    exact alike.promotion operands (by rw [enumerated]) (.inl ⟨unary, promoting⟩)
  · intro same
    refine ⟨fun rest values taken => ?_, fun _ _ _ _ binary => ?_, fun _ _ _ _ _ conditional => ?_⟩
    · rcases taken with taken | taken
      · exact same taken.2 (List.cons.inj values).1
      · cases unary.symm.trans taken.1
    · cases unary.symm.trans binary
    · cases unary.symm.trans conditional

theorem convertsAlike_binary (binary : label.nodeKind = .binaryOperator) (left right : EssentialType) :
    ConvertsAlike name underlying label (left :: right :: operands) ↔
      (label.opcode ∈ shiftOpcodes → left = enum name → promote underlying = signedInt) ∧
        (label.opcode ∉ relationalOpcodes → label.opcode ∉ shiftOpcodes →
          label.opcode ∈ arithmeticOpcodes ∨ "=".toList <:+ label.opcode.toList →
          usualArithmeticConversion (underlyingOf name underlying left) (underlyingOf name underlying right) =
            usualArithmeticConversion left right) := by
  constructor
  · intro alike
    refine ⟨fun shift enumerated => ?_, alike.conversion left right operands rfl binary⟩
    exact alike.promotion (right :: operands) (by rw [enumerated]) (.inr ⟨binary, shift, List.cons_ne_nil _ _⟩)
  · rintro ⟨promotion, conversion⟩
    refine ⟨fun rest values taken => ?_, fun first second rest values _ => ?_, fun _ _ _ _ _ conditional => ?_⟩
    · rcases taken with taken | taken
      · cases binary.symm.trans taken.1
      · exact promotion taken.2.1 (List.cons.inj values).1
    · cases values
      exact conversion
    · cases binary.symm.trans conditional

theorem convertsAlike_conditional (conditional : label.nodeKind = .other "ConditionalOperator")
    (condition thenType elseType : EssentialType) :
    ConvertsAlike name underlying label (condition :: thenType :: elseType :: operands) ↔
      (category thenType ≠ category elseType →
        conditionalType (underlyingOf name underlying thenType) (underlyingOf name underlying elseType) =
          usualArithmeticConversion thenType elseType) := by
  constructor
  · exact fun alike => alike.arms condition thenType elseType operands rfl conditional
  · intro arms
    refine ⟨fun rest _ taken => ?_, fun _ _ _ _ binary => ?_, fun first second third rest values _ => ?_⟩
    · rcases taken with taken | taken <;> cases conditional.symm.trans taken.1
    · cases conditional.symm.trans binary
    · cases values
      exact arms

/-- The underlying type decides the type of a unary operator through its promotion. -/
theorem honoredType_unary (unary : label.nodeKind = .unaryOperator) (operand : EssentialType) :
    expressionType label (operand :: operands) = honoredType name underlying label (operand :: operands) ↔
      ConvertsAlike name underlying label (operand :: operands) := by
  have first : converts label (operand :: operands) 0 = ["-", "~", "+", "++", "--"].contains label.opcode := by
    simp [converts, unary]
  rw [honoredType, withUnderlying_cons, expressionType_unary unary, expressionType_unary unary, first,
    convertsAlike_unary unary]
  by_cases promoting : label.opcode ∈ ["-", "~", "+", "++", "--"]
  · have promotes : ∀ type, unaryType label.opcode type = promote type := by
      intro type
      have noNegation : label.opcode ≠ "!" := by
        intro negation
        rw [negation] at promoting
        exact absurd promoting (by decide)
      rw [unaryType, if_neg noNegation, if_pos (List.contains_iff_mem.mpr promoting)]
    rw [if_pos (List.contains_iff_mem.mpr promoting), promotes, promotes, promote_underlyingOf_iff]
    exact ⟨fun same _ => same, fun same => same promoting⟩
  · rw [if_neg fun listed => promoting (List.contains_iff_mem.mp listed)]
    exact iff_of_true rfl fun taken => absurd taken promoting

/-- The underlying type decides the type of a binary operator through its promotion or its conversion. -/
theorem honoredType_binary (binary : label.nodeKind = .binaryOperator) (left right : EssentialType) :
    expressionType label (left :: right :: operands) =
        honoredType name underlying label (left :: right :: operands) ↔
      ConvertsAlike name underlying label (left :: right :: operands) := by
  rw [honoredType, withUnderlying_cons, List.mapIdx_cons, expressionType_binary binary, expressionType_binary binary,
    convertsAlike_binary binary]
  have apart : label.opcode ∈ shiftOpcodes → label.opcode ∉ relationalOpcodes := by
    have closed : ∀ opcode ∈ shiftOpcodes, opcode ∉ relationalOpcodes := by decide
    exact closed label.opcode
  by_cases relation : label.opcode ∈ relationalOpcodes
  · refine iff_of_true ?_ ⟨fun shift => absurd relation (apart shift), fun noRelation => absurd relation noRelation⟩
    simp [binaryType, relation]
  · by_cases shift : label.opcode ∈ shiftOpcodes
    · have first : converts label (left :: right :: operands) 0 = true := by simp [converts, binary, relation, shift]
      have promotes : ∀ left right, binaryType label left right = promote left := by
        intro left right
        simp [binaryType, relation, shift]
      rw [if_pos first, promotes, promotes, promote_underlyingOf_iff]
      exact ⟨fun same => ⟨fun _ => same, fun _ noShift => absurd shift noShift⟩, fun same => same.1 shift⟩
    · have noRelation : ¬ relationalOpcodes.contains label.opcode = true := by simpa using relation
      have noShift : ¬ shiftOpcodes.contains label.opcode = true := by simpa using shift
      have position : ∀ index, converts label (left :: right :: operands) index =
          ((arithmeticOpcodes.contains label.opcode || "=".toList.isSuffixOf label.opcode.toList) &&
            decide (index < 2)) := by
        intro index
        unfold converts
        rw [if_neg (by simp [binary]), if_pos binary, if_neg noShift, Bool.eq_false_iff.mpr noRelation,
          Bool.not_false, Bool.true_and]
      have types : ∀ left right, binaryType label left right =
          if arithmeticOpcodes.contains label.opcode || "=".toList.isSuffixOf label.opcode.toList then
            usualArithmeticConversion left right
          else annotated label := by
        intro left right
        rw [binaryType, if_neg noRelation, if_neg noShift]
      have listed : label.opcode ∈ arithmeticOpcodes ↔ arithmeticOpcodes.contains label.opcode = true :=
        List.contains_iff_mem.symm
      rw [types, types, position, position, listed, ← List.isSuffixOf_iff_suffix, ← Bool.or_eq_true]
      cases arithmeticOpcodes.contains label.opcode || "=".toList.isSuffixOf label.opcode.toList with
      | false => exact iff_of_true rfl ⟨fun taken => absurd taken shift, fun _ _ taken => absurd taken Bool.false_ne_true⟩
      | true => exact ⟨fun same => ⟨fun taken => absurd taken shift, fun _ _ _ => same.symm⟩,
          fun same => (same.2 relation shift rfl).symm⟩

/-- The underlying type decides the type of a conditional whose arms differ in category. -/
theorem honoredType_conditional (conditional : label.nodeKind = .other "ConditionalOperator")
    (condition thenType elseType : EssentialType) :
    expressionType label (condition :: thenType :: elseType :: operands) =
        honoredType name underlying label (condition :: thenType :: elseType :: operands) ↔
      ConvertsAlike name underlying label (condition :: thenType :: elseType :: operands) := by
  rw [honoredType, withUnderlying_cons, List.mapIdx_cons, List.mapIdx_cons, expressionType_conditional conditional,
    expressionType_conditional conditional, convertsAlike_conditional conditional]
  by_cases apart : category thenType = category elseType
  · refine iff_of_true ?_ fun different => absurd apart different
    simp [converts, conditional, apart]
  · have different : thenType ≠ elseType := fun same => apart (congrArg category same)
    have plain : conditionalType thenType elseType = usualArithmeticConversion thenType elseType := by
      rw [conditionalType, if_neg different, if_neg apart]
    have position : ∀ index, converts label (condition :: thenType :: elseType :: operands) index =
        (index == 1 || index == 2) := by
      intro index
      unfold converts
      rw [if_neg (by simp [conditional]), if_neg (by simp [conditional]), if_pos conditional]
      dsimp only
      rw [decide_eq_true apart, Bool.true_and]
    rw [plain, position, position]
    exact ⟨fun same _ => same.symm, fun same => (same apart).symm⟩

/-- A node is as the underlying type has it exactly when the type converts as `signed_int` does. -/
theorem honoredType_iff (operands : List EssentialType) :
    expressionType label operands = honoredType name underlying label operands ↔
      ConvertsAlike name underlying label operands := by
  by_cases derives : Derives label operands.length
  · rcases derives with ⟨unary, count⟩ | ⟨binary, count, -⟩ | ⟨conditional, count⟩
    · match operands, count with
      | operand :: rest, _ => exact honoredType_unary unary operand
    · match operands, count with
      | left :: right :: rest, _ => exact honoredType_binary binary left right
    · match operands, count with
      | condition :: thenType :: elseType :: rest, _ => exact honoredType_conditional conditional condition thenType elseType
  · have plain : ¬ Derives label (withUnderlying name underlying label operands).length := by
      rwa [length_withUnderlying]
    rw [honoredType, expressionType_leaf derives, expressionType_leaf plain]
    refine iff_of_true rfl ⟨?_, ?_, ?_⟩
    · rintro rest rfl (⟨unary, -⟩ | ⟨binary, shift, more⟩)
      · exact (derives (.inl ⟨unary, Nat.le_add_left 1 _⟩)).elim
      · have count := List.length_pos_iff.mpr more
        exact (derives (.inr (.inl ⟨binary, Nat.succ_le_succ count, .inr (.inl shift)⟩))).elim
    · rintro left right rest rfl binary - - opcode
      exact (derives (.inr (.inl ⟨binary, Nat.le_add_left 2 _, .inr (.inr opcode)⟩))).elim
    · rintro condition thenType elseType rest rfl conditional -
      exact (derives (.inr (.inr ⟨conditional, Nat.le_add_left 3 _⟩))).elim

end Nodes

/-- Whatever the table, the engine computes one type, and an expression and its parts have the types that the
table asks for exactly when the listed type converts as `signed_int` does. -/
theorem honors_table_iff (enumUnderlyingTypes : List (String × String)) (name : String) (tree : ExpressionTree) :
    Computes enumUnderlyingTypes tree tree.essentialType ∧
      ((∀ inner, Within inner tree →
          ExpressionTree.essentialType inner = (substitute name enumUnderlyingTypes inner).essentialType) ↔
        Everywhere (honoredType name (ofText (underlyingText name enumUnderlyingTypes)))
          (ConvertsAlike name (ofText (underlyingText name enumUnderlyingTypes))) tree) := by
  refine ⟨computes_essentialType enumUnderlyingTypes tree, ?_⟩
  simp only [essentialType_substitute]
  refine fold_eq_iff.trans ?_
  exact forall_congr' fun label => forall_congr' fun children => forall_congr' fun _ => honoredType_iff _

section Sample

/-- This is the expression `-e`. -/
def negation (typeText : String) : ExpressionTree :=
  .node { nodeKind := .unaryOperator, opcode := "-" } [reference typeText]

theorem negation_ignores_table :
    (negation "enum<Mask>").essentialType = signedInt ∧
      (substitute "Mask" [("Mask", "unsigned_int")] (negation "enum<Mask>")).essentialType = unsignedInt :=
  ⟨by decide, by decide⟩

end Sample

end MisraPlatform.EssentialTyping
