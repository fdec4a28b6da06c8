import MisraPlatform.Construction.EssentialTypeEngine

/-
This file states what the types of expressions should not depend on and what they should agree with.
-/

namespace MisraPlatform.EssentialTyping

open EssentialType EssentialTypeAnalyzer EssentialTypeEngine LabelledTree

section Nodes

variable (label : ExpressionLabel)

/-- The type of a node with so many children is derived from theirs. -/
def Derives (count : Nat) : Prop :=
  (label.nodeKind = .unaryOperator ∧ 1 ≤ count) ∨
    (label.nodeKind = .binaryOperator ∧ 2 ≤ count ∧
      (label.opcode ∈ relationalOpcodes ∨ label.opcode ∈ shiftOpcodes ∨ label.opcode ∈ arithmeticOpcodes ∨
        "=".toList <:+ label.opcode.toList)) ∨
    (label.nodeKind = .other "ConditionalOperator" ∧ 3 ≤ count)

/-- A node whose type is not derived has the type of a leaf. -/
def leafType : EssentialType := expressionType label []

/-- Every type that is read off a node is in the rank table or is an enumeration. -/
def LeavesKnown : ExpressionTree → Prop := Counted fun label count => Derives label count ∨ (leafType label).Known

end Nodes

/-- The engine computes the type on every graph in which the tree occurs. -/
def Computes (enumUnderlyingTypes : List (String × String)) (tree : ExpressionTree) (type : EssentialType) : Prop :=
  ∀ graph fuel node, ExpressionTree.ofGraph graph fuel node = some tree →
    essentialTypeOfExpression graph enumUnderlyingTypes fuel node = some type

section OperandOrder

def commutativeOpcodes : List String := ["+", "*", "&", "|", "^", "==", "!=", "&&", "||"]

/-- The operands of a commutative operator or the two arms of a conditional change places. -/
inductive SwapsOperands {α : Type} (label : ExpressionLabel) : List α → List α → Prop
  | operands (left right : α) (rest : List α) : label.nodeKind = .binaryOperator →
      label.opcode ∈ commutativeOpcodes → SwapsOperands label (left :: right :: rest) (right :: left :: rest)
  | arms (condition thenArm elseArm : α) (rest : List α) : label.nodeKind = .other "ConditionalOperator" →
      SwapsOperands label (condition :: thenArm :: elseArm :: rest) (condition :: elseArm :: thenArm :: rest)

/-- Any number of operators of the tree have swapped their operands. -/
def Swapped : ExpressionTree → ExpressionTree → Prop := Relation.ReflTransGen (Exchanged SwapsOperands)

def OrderIndependent (tree : ExpressionTree) : Prop :=
  ∀ other, Swapped tree other → other.essentialType = tree.essentialType

/-- A conditional between two enumerations converts its arms, since each enumeration is a category of its own. -/
def distinctType (label : ExpressionLabel) (operands : List EssentialType) : EssentialType :=
  match operands with
  | _ :: thenType :: elseType :: _ =>
      if label.nodeKind = .other "ConditionalOperator" ∧ thenType.isEnum ∧ elseType.isEnum ∧ thenType ≠ elseType then
        usualArithmeticConversion thenType elseType
      else expressionType label operands
  | _ => expressionType label operands

/-- The arms of a conditional are not two different enumerations. -/
def OneEnum (label : ExpressionLabel) (operands : List EssentialType) : Prop :=
  ∀ condition thenType elseType rest, operands = condition :: thenType :: elseType :: rest →
    label.nodeKind = .other "ConditionalOperator" → thenType.isEnum → elseType.isEnum → thenType = elseType

end OperandOrder

section Conversions

/-- These are the integer and the floating types of the rank table. -/
def arithmeticTypes : List EssentialType := rankOrder.take 15

/-- The integer types have the ranks that C gives them. -/
def conversionRank : EssentialType → Nat
  | boolean => 0
  | signedChar | unsignedChar | char => 1
  | signedShort | unsignedShort => 2
  | signedInt | unsignedInt => 3
  | signedLong | unsignedLong => 4
  | _ => 5

/-- The widths are those of the candidates for a literal. -/
def bitWidth : EssentialType → Nat
  | boolean => 1
  | signedChar | unsignedChar | char => 8
  | signedShort | unsignedShort => 16
  | signedInt | unsignedInt => 32
  | signedLong | unsignedLong => 64
  | _ => 128

/-- A plain character may have a sign or not, so its values are those of both kinds. -/
def valueRange (type : EssentialType) : Int × Int :=
  if type = char then (-(2 ^ 7), 2 ^ 8 - 1)
  else if isSigned type then (-(2 ^ (bitWidth type - 1)), 2 ^ (bitWidth type - 1) - 1)
  else (0, 2 ^ bitWidth type - 1)

def Represents (wide narrow : EssentialType) : Prop :=
  (valueRange wide).1 ≤ (valueRange narrow).1 ∧ (valueRange narrow).2 ≤ (valueRange wide).2

instance (wide narrow : EssentialType) : Decidable (Represents wide narrow) := inferInstanceAs (Decidable (_ ∧ _))

/-- A type that ranks below `int` becomes `int`, or `unsigned int` where `int` has not all of its values. -/
def promoted (type : EssentialType) : EssentialType :=
  if isFloating type ∨ 3 ≤ conversionRank type then type
  else if Represents signedInt type then signedInt
  else unsignedInt

def unsignedCounterpart : EssentialType → EssentialType
  | signedInt => unsignedInt
  | signedLong => unsignedLong
  | _ => unsignedLongLong

/-- These are the usual arithmetic conversions of C for two promoted integer types. -/
def commonInteger (left right : EssentialType) : EssentialType :=
  if left = right then left
  else if isSigned left = isSigned right then if conversionRank left < conversionRank right then right else left
  else
    let signedType := if isSigned left then left else right
    let unsignedType := if isSigned left then right else left
    if conversionRank signedType ≤ conversionRank unsignedType then unsignedType
    else if Represents signedType unsignedType then signedType
    else unsignedCounterpart signedType

/-- The widest floating type among the operands is the common type, if there is one. -/
def commonReal (left right : EssentialType) : EssentialType :=
  match [longDouble, double, float].find? fun type => type = left || type = right with
  | some type => type
  | none => commonInteger (promoted left) (promoted right)

end Conversions

section Structure

def assignmentOpcodes : List String := ["=", "*=", "/=", "%=", "+=", "-=", "<<=", ">>=", "&=", "^=", "|="]

/-- Arms of one type or of one category need no conversion. -/
def commonType (thenType elseType : EssentialType) : EssentialType :=
  if thenType = elseType then thenType
  else if category thenType = category elseType then if rank thenType < rank elseType then elseType else thenType
  else commonReal thenType elseType

/-- The rules of C give an operator its type. -/
def structuralType (label : ExpressionLabel) (operands : List EssentialType) : EssentialType :=
  match operands with
  | [operand] =>
      if label.nodeKind = .unaryOperator then
        if label.opcode = "!" then boolean
        else if label.opcode ∈ ["++", "--"] then operand
        else promoted operand
      else leafType label
  | [left, right] =>
      if label.nodeKind = .binaryOperator then
        if label.opcode ∈ relationalOpcodes then boolean
        else if label.opcode ∈ shiftOpcodes then promoted left
        else if label.opcode ∈ assignmentOpcodes then left
        else commonReal left right
      else leafType label
  | [_, thenType, elseType] =>
      if label.nodeKind = .other "ConditionalOperator" then commonType thenType elseType else leafType label
  | _ => leafType label

/-- The node is a leaf of an arithmetic type, or an operator of C with its operands. -/
def CNode (label : ExpressionLabel) (count : Nat) : Prop :=
  (label.nodeKind ∉ [.unaryOperator, .binaryOperator, .other "ConditionalOperator"] ∧
      leafType label ∈ arithmeticTypes) ∨
    (label.nodeKind = .unaryOperator ∧ label.opcode ∈ ["!", "+", "-", "~", "++", "--"] ∧ count = 1) ∨
    (label.nodeKind = .binaryOperator ∧
      label.opcode ∈ relationalOpcodes ++ shiftOpcodes ++ arithmeticOpcodes ++ assignmentOpcodes ∧ count = 2) ∨
    (label.nodeKind = .other "ConditionalOperator" ∧ count = 3)

def CExpression : ExpressionTree → Prop := Counted CNode

/-- The operand of an increment or a decrement and the target of an assignment are not promoted, and no
value of an assignment ranks above its target. -/
def TargetsKept (label : ExpressionLabel) (operands : List EssentialType) : Prop :=
  (∀ operand, operands = [operand] → label.nodeKind = .unaryOperator → label.opcode ∈ ["++", "--"] →
      rank signedInt ≤ rank operand) ∧
    ∀ left right, operands = [left, right] → label.nodeKind = .binaryOperator → label.opcode ∈ assignmentOpcodes →
      rank signedInt ≤ rank left ∧ rank right ≤ rank left

end Structure

section UnderlyingTypes

variable (name : String)

/-- The operand at the position takes part in a promotion or in an arithmetic conversion. -/
def converts (label : ExpressionLabel) (operands : List EssentialType) (position : Nat) : Bool :=
  if label.nodeKind = .unaryOperator then
    ["-", "~", "+", "++", "--"].contains label.opcode && position == 0
  else if label.nodeKind = .binaryOperator then
    !relationalOpcodes.contains label.opcode &&
      if shiftOpcodes.contains label.opcode then position == 0
      else (arithmeticOpcodes.contains label.opcode || "=".toList.isSuffixOf label.opcode.toList) && decide (position < 2)
  else if label.nodeKind = .other "ConditionalOperator" then
    match operands with
    | _ :: thenType :: elseType :: _ =>
        decide (category thenType ≠ category elseType) && (position == 1 || position == 2)
    | _ => false
  else false

/-- This is the type with which an operand takes part in a conversion. -/
def underlyingOf (underlying type : EssentialType) : EssentialType := if type = enum name then underlying else type

/-- The enumeration at a converting position is replaced by its underlying type. -/
def withUnderlying (underlying : EssentialType) (label : ExpressionLabel) (operands : List EssentialType) :
    List EssentialType :=
  operands.mapIdx fun position type =>
    if converts label operands position then underlyingOf name underlying type else type

/-- The underlying type has a say in the type of the node. -/
def honoredType (underlying : EssentialType) (label : ExpressionLabel) (operands : List EssentialType) :
    EssentialType :=
  expressionType label (withUnderlying name underlying label operands)

/-- The cast gives an operand the underlying type. -/
def castTo (underlying : String) (operand : ExpressionTree) : ExpressionTree :=
  .node { nodeKind := .other "CStyleCastExpr", fundamentalKind := underlying, essentialType := some underlying } [operand]

def castOperands (underlying : String) (label : ExpressionLabel) (operands : List ExpressionTree) :
    List ExpressionTree :=
  operands.mapIdx fun position operand =>
    if converts label (operands.map ExpressionTree.essentialType) position && operand.essentialType = enum name then
      castTo underlying operand
    else operand

/-- An enumeration that the table does not list has the default. -/
def underlyingText (enumUnderlyingTypes : List (String × String)) : String :=
  (enumUnderlyingTypes.lookup name).getD "signed_int"

/-- Each converted operand that has the type of the enumeration is given its type in the table. -/
def substitute (enumUnderlyingTypes : List (String × String)) (tree : ExpressionTree) : ExpressionTree :=
  tree.fold fun label operands => .node label (castOperands name (underlyingText name enumUnderlyingTypes) label operands)

/-- Where the enumeration is converted, its underlying type converts to what `signed_int` converts to. -/
structure ConvertsAlike (underlying : EssentialType) (label : ExpressionLabel) (operands : List EssentialType) :
    Prop where
  promotion : ∀ rest, operands = enum name :: rest →
    (label.nodeKind = .unaryOperator ∧ label.opcode ∈ ["-", "~", "+", "++", "--"]) ∨
      (label.nodeKind = .binaryOperator ∧ label.opcode ∈ shiftOpcodes ∧ rest ≠ []) →
    promote underlying = signedInt
  conversion : ∀ left right rest, operands = left :: right :: rest → label.nodeKind = .binaryOperator →
    label.opcode ∉ relationalOpcodes → label.opcode ∉ shiftOpcodes →
    label.opcode ∈ arithmeticOpcodes ∨ "=".toList <:+ label.opcode.toList →
    usualArithmeticConversion (underlyingOf name underlying left) (underlyingOf name underlying right) =
      usualArithmeticConversion left right
  arms : ∀ condition thenType elseType rest, operands = condition :: thenType :: elseType :: rest →
    label.nodeKind = .other "ConditionalOperator" → category thenType ≠ category elseType →
    conditionalType (underlyingOf name underlying thenType) (underlyingOf name underlying elseType) =
      usualArithmeticConversion thenType elseType

end UnderlyingTypes

end MisraPlatform.EssentialTyping
