import MisraPlatform.Semantics.EssentialTypes

/-
This file proves that the engine computes the types of expression trees, and what its conversions are.
-/

namespace MisraPlatform.EssentialTyping

open EssentialType EssentialTypeAnalyzer EssentialTypeEngine LabelledTree

section Graphs

variable {graph : AstGraph} {fuel : Nat}

theorem ofGraph_cons {first : AstNode} {rest : List AstNode} {trees : List ExpressionTree}
    (unfolded : (first :: rest).mapM (ExpressionTree.ofGraph graph fuel) = some trees) :
    ∃ tree others, trees = tree :: others ∧ ExpressionTree.ofGraph graph fuel first = some tree ∧
      rest.mapM (ExpressionTree.ofGraph graph fuel) = some others := by
  rw [List.mapM_cons] at unfolded
  obtain ⟨tree, here, later⟩ := Option.bind_eq_some_iff.mp unfolded
  obtain ⟨others, there, same⟩ := Option.bind_eq_some_iff.mp later
  cases same
  exact ⟨tree, others, rfl, here, there⟩

theorem ofGraph_nil {trees : List ExpressionTree}
    (unfolded : [].mapM (ExpressionTree.ofGraph graph fuel) = some trees) : trees = [] := by
  cases unfolded
  rfl

/-- The engine computes the type of the tree below a node from whatever table it is given. -/
theorem computes_essentialType (enumUnderlyingTypes : List (String × String)) (tree : ExpressionTree) :
    Computes enumUnderlyingTypes tree tree.essentialType := by
  intro graph fuel
  induction fuel generalizing tree with
  | zero =>
      intro node unfolded
      cases unfolded
  | succ fuel ih =>
      intro node unfolded
      obtain ⟨trees, children, same⟩ := Option.bind_eq_some_iff.mp unfolded
      cases same
      rw [ExpressionTree.essentialType, fold_node]
      simp only [essentialTypeOfExpression, expressionType]
      split_ifs with cast literal unary binary conditional
      · rfl
      · rfl
      · cases found : graph.children node.nodeId with
        | nil =>
            rw [found] at children
            rw [ofGraph_nil children]
            rfl
        | cons operand rest =>
            rw [found] at children
            obtain ⟨tree, others, rfl, here, -⟩ := ofGraph_cons children
            have operandType := ih tree operand here
            simp only [operandType, Option.bind_eq_bind, Option.bind_some, List.map_cons]
            rfl
      · cases found : graph.children node.nodeId with
        | nil =>
            rw [found] at children
            rw [ofGraph_nil children]
            rfl
        | cons left rest =>
            rw [found] at children
            obtain ⟨leftTree, others, rfl, leftHere, more⟩ := ofGraph_cons children
            cases rest with
            | nil =>
                rw [ofGraph_nil more]
                rfl
            | cons right rest =>
                obtain ⟨rightTree, others, rfl, rightHere, -⟩ := ofGraph_cons more
                have leftType := ih leftTree left leftHere
                have rightType := ih rightTree right rightHere
                simp only [leftType, rightType, Option.bind_eq_bind, Option.bind_some, List.map_cons]
                rfl
      · cases found : graph.children node.nodeId with
        | nil =>
            rw [found] at children
            rw [ofGraph_nil children]
            rfl
        | cons condition rest =>
            rw [found] at children
            obtain ⟨conditionTree, others, rfl, -, more⟩ := ofGraph_cons children
            cases rest with
            | nil =>
                rw [ofGraph_nil more]
                rfl
            | cons thenArm rest =>
                obtain ⟨thenTree, others, rfl, thenHere, last⟩ := ofGraph_cons more
                cases rest with
                | nil =>
                    rw [ofGraph_nil last]
                    rfl
                | cons elseArm rest =>
                    obtain ⟨elseTree, others, rfl, elseHere, -⟩ := ofGraph_cons last
                    have thenType := ih thenTree thenArm thenHere
                    have elseType := ih elseTree elseArm elseHere
                    simp only [thenType, elseType, Option.bind_eq_bind, Option.bind_some, List.map_cons]
                    rfl
      · rfl

end Graphs

section Nodes

variable {label : ExpressionLabel} {operands : List EssentialType}

theorem expressionType_leaf (plain : ¬ Derives label operands.length) :
    expressionType label operands = leafType label := by
  simp only [leafType, expressionType]
  split_ifs with cast literal unary binary conditional
  · rfl
  · rfl
  · cases operands with
    | nil => rfl
    | cons operand rest => exact (plain (.inl ⟨unary, Nat.le_add_left 1 _⟩)).elim
  · match operands with
    | [] | [_] => rfl
    | left :: right :: rest =>
        have noOpcode : ¬ (label.opcode ∈ relationalOpcodes ∨ label.opcode ∈ shiftOpcodes ∨
            label.opcode ∈ arithmeticOpcodes ∨ "=".toList <:+ label.opcode.toList) :=
          fun opcode => plain (.inr (.inl ⟨binary, Nat.le_add_left 2 _, opcode⟩))
        obtain ⟨noRelation, noShift, noArithmetic, noAssignment⟩ := by simpa only [not_or] using noOpcode
        change binaryType label left right = annotated label
        unfold binaryType
        rw [if_neg (by simpa using noRelation), if_neg (by simpa using noShift),
          if_neg (by simpa using ⟨noArithmetic, noAssignment⟩)]
  · match operands with
    | [] | [_] | [_, _] => rfl
    | condition :: thenType :: elseType :: rest =>
        exact (plain (.inr (.inr ⟨conditional, Nat.le_add_left 3 _⟩))).elim
  · rfl

theorem expressionType_unary (unary : label.nodeKind = .unaryOperator) (operand : EssentialType) :
    expressionType label (operand :: operands) = unaryType label.opcode operand := by
  simp [expressionType, unary, castKinds]

theorem expressionType_binary (binary : label.nodeKind = .binaryOperator) (left right : EssentialType) :
    expressionType label (left :: right :: operands) = binaryType label left right := by
  simp [expressionType, binary, castKinds]

theorem expressionType_conditional (conditional : label.nodeKind = .other "ConditionalOperator")
    (condition thenType elseType : EssentialType) :
    expressionType label (condition :: thenType :: elseType :: operands) = conditionalType thenType elseType := by
  simp [expressionType, conditional, castKinds]

end Nodes

section Conversions

variable {type left right : EssentialType}

theorem known_iff : type.Known ↔ type ∈ rankOrder ∨ ∃ name, type = enum name := by
  cases type <;> simp [Known, rankOrder]

/-- Every enumeration is promoted as the default is. -/
@[simp] theorem promote_enum (name : String) : promote (enum name) = signedInt := rfl

/-- The text of a type is read back as the type. -/
theorem ofText_spelling (known : type.Known) : ofText type.spelling = type := by
  rcases known_iff.mp known with listed | ⟨name, rfl⟩
  · have closed : ∀ type ∈ rankOrder, ofText type.spelling = type := by decide
    exact closed type listed
  · have text : (enum name).spelling.toList = "enum<".toList ++ (name.toList ++ ['>']) := by
      simp [spelling]
    have missing : rankOrder.find? (fun known => known.spelling = (enum name).spelling) = none := by
      refine List.find?_eq_none.mpr fun known listed same => ?_
      have apart : ∀ known ∈ rankOrder, known.spelling.toList.head? ≠ some 'e' := by decide
      refine apart known listed ?_
      rw [of_decide_eq_true same, text]
      rfl
    have enumText : isEnumText (enum name).spelling = true := by
      rw [isEnumText, text, Bool.and_eq_true, List.isPrefixOf_iff_prefix, List.isSuffixOf_iff_suffix]
      exact ⟨List.prefix_append _ _, ⟨"enum<".toList ++ name.toList, by simp⟩⟩
    rw [ofText, missing]
    dsimp only
    rw [if_pos enumText, text]
    simp

theorem promote_mem (known : type.Known) : promote type ∈ rankOrder := by
  rcases known_iff.mp known with listed | ⟨name, rfl⟩
  · have closed : ∀ type ∈ rankOrder, promote type ∈ rankOrder := by decide
    exact closed type listed
  · rw [promote_enum]
    decide

theorem usualArithmeticConversion_mem (leftKnown : left.Known) (rightKnown : right.Known) :
    usualArithmeticConversion left right ∈ rankOrder := by
  have closed : ∀ left ∈ rankOrder, ∀ right ∈ rankOrder, convert left right ∈ rankOrder := by decide
  exact closed _ (promote_mem leftKnown) _ (promote_mem rightKnown)

/-- No two types of the rank table have one rank. -/
theorem usualArithmeticConversion_comm (leftKnown : left.Known) (rightKnown : right.Known) :
    usualArithmeticConversion left right = usualArithmeticConversion right left := by
  have symmetric : ∀ left ∈ rankOrder, ∀ right ∈ rankOrder, convert left right = convert right left := by decide
  exact symmetric _ (promote_mem leftKnown) _ (promote_mem rightKnown)

theorem rank_enum (name : String) : rank (enum name) = 17 := by
  simp [rank, rankOrder]

theorem maxByRank_comm (different : rank left = rank right → left = right) : maxByRank left right = maxByRank right left := by
  unfold maxByRank
  split_ifs with less more more
  · omega
  · rfl
  · rfl
  · exact different (by omega)

theorem rank_injective (leftKnown : left.Known) (rightKnown : right.Known)
    (oneEnum : left.isEnum → right.isEnum → left = right) (same : rank left = rank right) : left = right := by
  rcases known_iff.mp leftKnown with leftListed | ⟨name, rfl⟩ <;>
    rcases known_iff.mp rightKnown with rightListed | ⟨other, rfl⟩
  · exact List.idxOf_inj leftListed |>.mp same
  · have below := List.idxOf_lt_length_of_mem leftListed
    rw [rank_enum] at same
    exact absurd same (Nat.ne_of_lt below)
  · have below := List.idxOf_lt_length_of_mem rightListed
    rw [rank_enum] at same
    exact absurd same.symm (Nat.ne_of_lt below)
  · exact oneEnum rfl rfl

theorem conditionalType_comm (leftKnown : left.Known) (rightKnown : right.Known)
    (oneEnum : left.isEnum → right.isEnum → left = right) : conditionalType left right = conditionalType right left := by
  unfold conditionalType
  by_cases same : left = right
  · rw [same]
  · rw [if_neg same, if_neg (Ne.symm same)]
    by_cases category_same : category left = category right
    · rw [if_pos category_same, if_pos category_same.symm]
      exact maxByRank_comm (rank_injective leftKnown rightKnown oneEnum)
    · rw [if_neg category_same, if_neg (Ne.symm category_same)]
      exact usualArithmeticConversion_comm leftKnown rightKnown

end Conversions

section References

/-- A reference has the type that the compiler has annotated. -/
def reference (typeText : String) : ExpressionTree :=
  .node { nodeKind := .declRefExpr, essentialType := some typeText } []

theorem everywhere_reference {rule : ExpressionLabel → List EssentialType → EssentialType}
    {holds : ExpressionLabel → List EssentialType → Prop} (typeText : String)
    (here : holds { nodeKind := .declRefExpr, essentialType := some typeText } []) :
    Everywhere rule holds (reference typeText) :=
  everywhere_node.mpr ⟨here, fun _ listed => absurd listed List.not_mem_nil⟩

end References

end MisraPlatform.EssentialTyping
