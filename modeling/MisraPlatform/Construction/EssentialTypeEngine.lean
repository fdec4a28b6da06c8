import MisraPlatform.Construction.Ast
import MisraPlatform.Library.LabelledTree
import Mathlib.Algebra.Ring.Int.Defs
import Mathlib.Algebra.Ring.Nat
import Mathlib.Data.List.DropRight

/-
This file is the essential types and the engine that derives those of composite expressions.
-/

namespace MisraPlatform

/-- A text outside the rank table is an enumeration, or it is kept as it is. -/
inductive EssentialType where
  | boolean | signedChar | unsignedChar | char | signedShort | unsignedShort | signedInt | unsignedInt
  | signedLong | unsignedLong | signedLongLong | unsignedLongLong | float | double | longDouble
  | complex | unknown
  | enum (name : String)
  | other (spelling : String)
  deriving DecidableEq, Repr

namespace EssentialType

/-- This list is `_RANK_ORDER`. -/
def rankOrder : List EssentialType :=
  [boolean, signedChar, unsignedChar, char, signedShort, unsignedShort, signedInt, unsignedInt, signedLong,
    unsignedLong, signedLongLong, unsignedLongLong, float, double, longDouble, complex, unknown]

def spelling : EssentialType → String
  | boolean => "boolean"
  | signedChar => "signed_char"
  | unsignedChar => "unsigned_char"
  | char => "char"
  | signedShort => "signed_short"
  | unsignedShort => "unsigned_short"
  | signedInt => "signed_int"
  | unsignedInt => "unsigned_int"
  | signedLong => "signed_long"
  | unsignedLong => "unsigned_long"
  | signedLongLong => "signed_long_long"
  | unsignedLongLong => "unsigned_long_long"
  | float => "float"
  | double => "double"
  | longDouble => "long_double"
  | complex => "complex"
  | unknown => "unknown"
  | enum name => "enum<" ++ name ++ ">"
  | other spelling => spelling

/-- This is `is_enum_type` on the text of a type. -/
def isEnumText (text : String) : Bool := "enum<".toList.isPrefixOf text.toList && ">".toList.isSuffixOf text.toList

def ofText (text : String) : EssentialType :=
  match rankOrder.find? fun known => known.spelling = text with
  | some known => known
  | none => if isEnumText text then enum (String.ofList (text.toList.drop 5).dropLast) else other text

/-- The type is in the rank table, or it is an enumeration. -/
def Known : EssentialType → Prop
  | other _ => False
  | _ => True

instance : DecidablePred Known := fun type => by cases type <;> unfold Known <;> infer_instance

def isEnum : EssentialType → Bool
  | enum _ => true
  | _ => false

end EssentialType

namespace EssentialTypeAnalyzer

open EssentialType

inductive Category where
  | boolean | signed | unsigned | character | floating | complex | unknown
  deriving DecidableEq, Repr

/-- A type that is not in the list ranks after all of it. -/
def rank (type : EssentialType) : Nat := rankOrder.idxOf type

def category : EssentialType → Category
  | boolean => .boolean
  | signedChar | signedShort | signedInt | signedLong | signedLongLong => .signed
  | unsignedChar | unsignedShort | unsignedInt | unsignedLong | unsignedLongLong => .unsigned
  | char => .character
  | float | double | longDouble => .floating
  | complex => .complex
  | unknown | enum _ | other _ => .unknown

def isSigned (type : EssentialType) : Bool := category type = .signed

def isFloating (type : EssentialType) : Bool := category type = .floating

end EssentialTypeAnalyzer

/-- This is the part of a node that its essential type is derived from. -/
structure ExpressionLabel where
  nodeKind : NodeKind
  opcode : String := ""
  value : String := "0"
  fundamentalKind : String := ""
  essentialType : Option String := none
  deriving DecidableEq, Repr

def AstNode.expressionLabel (node : AstNode) : ExpressionLabel where
  nodeKind := node.nodeKind
  opcode := node.property "opcode" ""
  value := node.property "value" "0"
  fundamentalKind := node.fundamentalKind
  essentialType := node.essentialType

namespace EssentialTypeEngine

open EssentialType EssentialTypeAnalyzer

def relationalOpcodes : List String := ["==", "!=", "<", ">", "<=", ">=", "&&", "||"]

def shiftOpcodes : List String := ["<<", ">>"]

def arithmeticOpcodes : List String := ["+", "-", "*", "/", "%", "&", "|", "^"]

/-- The underlying type of every enumeration is the default. -/
def enumUnderlyingType (_ : EssentialType) : EssentialType := signedInt

/-- This is the promotion of a type that is no enumeration. -/
def promotePlain (type : EssentialType) : EssentialType :=
  if type = unknown ∨ type = complex then type
  else if rank signedInt ≤ rank type then type
  else signedInt

/-- The underlying type is no enumeration, so the promotion calls itself at most once. -/
def promote (type : EssentialType) : EssentialType :=
  if type.isEnum then promotePlain (enumUnderlyingType type) else promotePlain type

/-- This is `max` by rank, which returns the first of two equal ranks. -/
def maxByRank (first second : EssentialType) : EssentialType :=
  if rank first < rank second then second else first

/-- This is the conversion of two promoted types. -/
def convert (left right : EssentialType) : EssentialType :=
  if left = unknown ∨ left = complex ∨ right = unknown ∨ right = complex then unknown
  else if isFloating left || isFloating right then
    if isFloating left && isFloating right then maxByRank left right
    else if isFloating left then left else right
  else if left = right then left
  else if isSigned left = isSigned right then maxByRank left right
  else
    let signedType := if isSigned left then left else right
    let unsignedType := if isSigned left then right else left
    if rank signedType ≤ rank unsignedType then unsignedType else signedType

def usualArithmeticConversion (left right : EssentialType) : EssentialType := convert (promote left) (promote right)

section Literals

/-- The digits outside ASCII are left out. -/
def digitOf (base : Nat) (char : Char) : Option Nat :=
  let digit :=
    if '0' ≤ char ∧ char ≤ '9' then some (char.toNat - '0'.toNat)
    else if 'a' ≤ char ∧ char ≤ 'z' then some (char.toNat - 'a'.toNat + 10)
    else if 'A' ≤ char ∧ char ≤ 'Z' then some (char.toNat - 'A'.toNat + 10)
    else none
  digit.filter fun value => value < base

/-- These characters are the whitespace that `int` strips. -/
def whitespace : List Char :=
  ['\t', '\n', '\x0b', '\x0c', '\r', '\x1c', '\x1d', '\x1e', '\x1f', ' ', '\u0085', '\u00a0', '\u1680', '\u2000',
    '\u2001', '\u2002', '\u2003', '\u2004', '\u2005', '\u2006', '\u2007', '\u2008', '\u2009', '\u200a', '\u2028',
    '\u2029', '\u202f', '\u205f', '\u3000']

/-- An underscore may stand before a further digit. -/
def moreDigits (base : Nat) : Nat → List Char → Option Nat
  | value, [] => some value
  | value, '_' :: next :: rest => do moreDigits base (value * base + (← digitOf base next)) rest
  | value, next :: rest => do moreDigits base (value * base + (← digitOf base next)) rest

def readDigits (base : Nat) : List Char → Option Nat
  | [] => none
  | first :: rest => do moreDigits base (← digitOf base first) rest

/-- An underscore may follow the mark of a base. -/
def markedDigits (base : Nat) : List Char → Option Nat
  | '_' :: rest => readDigits base rest
  | rest => readDigits base rest

/-- Digits after a leading zero must all be zero when they have no mark. -/
def magnitude : List Char → Option Nat
  | '0' :: 'x' :: rest | '0' :: 'X' :: rest => markedDigits 16 rest
  | '0' :: 'o' :: rest | '0' :: 'O' :: rest => markedDigits 8 rest
  | '0' :: 'b' :: rest | '0' :: 'B' :: rest => markedDigits 2 rest
  | '0' :: rest => (readDigits 10 ('0' :: rest)).filter fun value => value = 0
  | chars => readDigits 10 chars

/-- This is `int(text, 0)`, and a `ValueError` is `none`. -/
def toInteger (chars : List Char) : Option Int :=
  match (chars.dropWhile whitespace.contains).rdropWhile whitespace.contains with
  | '-' :: rest => (magnitude rest).map fun value => -(value : Int)
  | '+' :: rest => (magnitude rest).map Int.ofNat
  | rest => (magnitude rest).map Int.ofNat

def unsignedCandidates : List (EssentialType × Int) :=
  [(unsignedChar, 0xFF), (unsignedShort, 0xFFFF), (unsignedInt, 0xFFFFFFFF), (unsignedLong, 0xFFFFFFFFFFFFFFFF),
    (unsignedLongLong, 2 ^ 128 - 1)]

def signedCandidates : List (EssentialType × Int) :=
  [(signedChar, 0x7F), (signedShort, 0x7FFF), (signedInt, 0x7FFFFFFF), (signedLong, 0x7FFFFFFFFFFFFFFF),
    (signedLongLong, 2 ^ 127 - 1)]

def candidates (isUnsigned : Bool) : List (EssentialType × Int) :=
  if isUnsigned then unsignedCandidates else signedCandidates

def isUnsignedText (lower : List Char) : Bool :=
  ["u", "ul", "ull", "lu", "llu"].any fun suffix => suffix.toList.isSuffixOf lower

/-- This is the search among the candidates, whose last one is returned when all are too small. -/
def smallest (value : Int) (candidates : List (EssentialType × Int)) (last : EssentialType) : EssentialType :=
  match candidates.find? fun candidate => value ≤ candidate.2 with
  | some candidate => candidate.1
  | none => last

/-- This is `_literal_essential_type` on the text of the value. -/
def literalEssentialType (raw : String) : EssentialType :=
  let lower := raw.toList.map Char.toLower
  let isUnsigned := isUnsignedText lower
  let isLong := lower.contains 'l'
  match toInteger (raw.toList.rdropWhile fun char => "uUlL".toList.contains char) with
  | none => unknown
  | some value =>
      smallest value ((candidates isUnsigned).drop (if isLong then 2 else 0))
        (if isUnsigned then unsignedLongLong else signedLongLong)

end Literals

section Expressions

def castKinds : List NodeKind := [.other "CStyleCastExpr", .other "ExplicitCastExpr", .other "CastExpr"]

/-- This is `node.get("essential_type", "unknown")`. -/
def annotated (label : ExpressionLabel) : EssentialType := ofText (label.essentialType.getD "unknown")

def castType (label : ExpressionLabel) : EssentialType :=
  if label.fundamentalKind ≠ "" then ofText label.fundamentalKind else annotated label

def literalType (label : ExpressionLabel) : EssentialType :=
  if label.essentialType.getD "" ≠ "" then ofText (label.essentialType.getD "") else literalEssentialType label.value

def unaryType (opcode : String) (operandType : EssentialType) : EssentialType :=
  if opcode = "!" then boolean
  else if ["-", "~", "+", "++", "--"].contains opcode then promote operandType
  else operandType

def binaryType (label : ExpressionLabel) (leftType rightType : EssentialType) : EssentialType :=
  if relationalOpcodes.contains label.opcode then boolean
  else if shiftOpcodes.contains label.opcode then promote leftType
  else if arithmeticOpcodes.contains label.opcode || "=".toList.isSuffixOf label.opcode.toList then
    usualArithmeticConversion leftType rightType
  else annotated label

def conditionalType (thenType elseType : EssentialType) : EssentialType :=
  if thenType = elseType then thenType
  else if category thenType = category elseType then maxByRank thenType elseType
  else usualArithmeticConversion thenType elseType

/-- This is `essential_type_of_expression`, and a recursion that does not end is `none`. -/
def essentialTypeOfExpression (graph : AstGraph) (enumUnderlyingTypes : List (String × String)) :
    Nat → AstNode → Option EssentialType
  | 0, _ => none
  | fuel + 1, node =>
      let label := node.expressionLabel
      if castKinds.contains label.nodeKind then some (castType label)
      else if label.nodeKind = .other "IntegerLiteral" then some (literalType label)
      else if label.nodeKind = .unaryOperator then
        match graph.children node.nodeId with
        | operand :: _ => do
            let operandType ← essentialTypeOfExpression graph enumUnderlyingTypes fuel operand
            some (unaryType label.opcode operandType)
        | [] => some (annotated label)
      else if label.nodeKind = .binaryOperator then
        match graph.children node.nodeId with
        | left :: right :: _ => do
            let leftType ← essentialTypeOfExpression graph enumUnderlyingTypes fuel left
            let rightType ← essentialTypeOfExpression graph enumUnderlyingTypes fuel right
            some (binaryType label leftType rightType)
        | _ => some (annotated label)
      else if label.nodeKind = .other "ConditionalOperator" then
        match graph.children node.nodeId with
        | _ :: thenArm :: elseArm :: _ => do
            let thenType ← essentialTypeOfExpression graph enumUnderlyingTypes fuel thenArm
            let elseType ← essentialTypeOfExpression graph enumUnderlyingTypes fuel elseArm
            some (conditionalType thenType elseType)
        | _ => some (annotated label)
      else some (annotated label)

/-- The type of a node comes from its label and from the types of its children. -/
def expressionType (label : ExpressionLabel) (operands : List EssentialType) : EssentialType :=
  if castKinds.contains label.nodeKind then castType label
  else if label.nodeKind = .other "IntegerLiteral" then literalType label
  else if label.nodeKind = .unaryOperator then
    match operands with
    | operandType :: _ => unaryType label.opcode operandType
    | [] => annotated label
  else if label.nodeKind = .binaryOperator then
    match operands with
    | leftType :: rightType :: _ => binaryType label leftType rightType
    | _ => annotated label
  else if label.nodeKind = .other "ConditionalOperator" then
    match operands with
    | _ :: thenType :: elseType :: _ => conditionalType thenType elseType
    | _ => annotated label
  else annotated label

end Expressions

end EssentialTypeEngine

abbrev ExpressionTree := LabelledTree ExpressionLabel

namespace ExpressionTree

/-- The tree is what the graph has below the node. -/
def ofGraph (graph : AstGraph) : Nat → AstNode → Option ExpressionTree
  | 0, _ => none
  | fuel + 1, node => do
      let children ← (graph.children node.nodeId).mapM (ofGraph graph fuel)
      some (.node node.expressionLabel children)

def essentialType (tree : ExpressionTree) : EssentialType := tree.fold EssentialTypeEngine.expressionType

end ExpressionTree

end MisraPlatform
