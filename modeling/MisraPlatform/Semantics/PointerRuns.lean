import MisraPlatform.Construction.PointerRules
import MisraPlatform.Semantics.StreamUses

/-
This file states what the pointers of a function hold in its runs.
-/

namespace MisraPlatform
open DataFlowEngineV2

namespace AliasAnalyzer

/-- An address is that of a declared object or one that the calls of a function return. -/
inductive Address where
  | object (declaration : String)
  | heap (callee : String) (number : Nat)
  deriving DecidableEq

/-- A reference denotes a declaration of its name, and a declaration denotes itself. -/
structure Resolution where
  denotes : AstNode → String
  nameOf : String → String
  named : ∀ node, nameOf (denotes node) = declRefName node

/-- A pointer without an address is null or not set. -/
abbrev Pointers := String → Option Address

def castKinds : List NodeKind := [.other "CStyleCastExpr", .other "ImplicitCastExpr"]

section Runs

variable (functionNode : AstNode) (graph : AstGraph) (resolution : Resolution)

/-- The right side has this value. A call may return any address, and so may `&` in front of an operand that is
no reference. -/
inductive Evaluates (pointers : Pointers) : AstNode → Option Address → Prop
  | designator {ref : AstNode} (kind : ref.nodeKind = .declRefExpr) (named : declRefName ref ≠ "")
      (decays : ref.truthy "is_function" = true ∨ ref.isArray = true) :
      Evaluates pointers ref (some (.object (resolution.denotes ref)))
  | pointer {ref : AstNode} (kind : ref.nodeKind = .declRefExpr) (named : declRefName ref ≠ "")
      (function : ref.truthy "is_function" = false) (array : ref.isArray = false) :
      Evaluates pointers ref (pointers (resolution.denotes ref))
  | addressOf {node operand : AstNode} (kind : node.nodeKind = .unaryOperator) (ampersand : opcode node = "&")
      (child : (graph.children node.nodeId).head? = some operand) (ref : operand.nodeKind = .declRefExpr)
      (named : declRefName operand ≠ "") : Evaluates pointers node (some (.object (resolution.denotes operand)))
  | addressInside {node operand : AstNode} {address : Address} (kind : node.nodeKind = .unaryOperator)
      (ampersand : opcode node = "&") (child : (graph.children node.nodeId).head? = some operand)
      (other : operand.nodeKind ≠ .declRefExpr) : Evaluates pointers node (some address)
  | call {node : AstNode} {value : Option Address} (kind : node.nodeKind = .callExpr) :
      Evaluates pointers node value
  | cast {node operand : AstNode} {value : Option Address} (kind : node.nodeKind ∈ castKinds)
      (child : (graph.children node.nodeId).head? = some operand) (inner : Evaluates pointers operand value) :
      Evaluates pointers node value
  | conditional {node condition thenExpr elseExpr operand : AstNode} {value : Option Address}
      (kind : node.nodeKind = .other "ConditionalOperator")
      (children : graph.children node.nodeId = [condition, thenExpr, elseExpr])
      (chosen : operand = thenExpr ∨ operand = elseExpr) (inner : Evaluates pointers operand value) :
      Evaluates pointers node value
  | null {node : AstNode} (kind : node.nodeKind = .other "IntegerLiteral") : Evaluates pointers node none

/-- A declaration sets its own variable and an assignment the variable on its left. -/
def targetOf (node : AstNode) : AstNode :=
  if node.nodeKind = .varDecl then node else (graph.children node.nodeId).head?.getD node

/-- An assignment of the function has given its target the value of its right side. -/
inductive Assigned (pointers : Pointers) (rhs : AstNode) (value : Option Address) : Pointers → Prop
  | intro {node : AstNode} {name : String} (inside : node ∈ relevant functionNode graph)
      (assigns : AssignsTo graph node name rhs) (evaluates : Evaluates graph resolution pointers rhs value) :
      Assigned pointers rhs value (Function.update pointers (resolution.denotes (targetOf graph node)) value)

/-- The assignments of a run come in any order and any number. -/
def PointerStep (pointers next : Pointers) : Prop :=
  ∃ rhs value, Assigned functionNode graph resolution pointers rhs value next

/-- A value that is not null comes from no cast and no conditional expression. A call returns null or an address
that only the calls of its function return. -/
def Told (rhs : AstNode) (value : Option Address) : Prop :=
  ∀ address, value = some address → rhs.nodeKind ∉ castKinds ∧ rhs.nodeKind ≠ .other "ConditionalOperator" ∧
    (rhs.nodeKind = .callExpr → ∃ number, address = .heap (callee rhs) number)

def ToldStep (pointers next : Pointers) : Prop :=
  ∃ rhs value, Assigned functionNode graph resolution pointers rhs value next ∧ Told rhs value

/-- At the start only the parameters hold addresses. -/
def Initial (pointers : Pointers) : Prop :=
  ∀ variable_ address, pointers variable_ = some address →
    IsParameter functionNode graph (resolution.nameOf variable_)

/-- The references of the function to one name denote one object. -/
def OneObjectPerName : Prop :=
  ∀ first ∈ graph.descendants functionNode.nodeId, ∀ second ∈ graph.descendants functionNode.nodeId,
    first.nodeKind = .declRefExpr → second.nodeKind = .declRefExpr → declRefName first = declRefName second →
      resolution.denotes first = resolution.denotes second

/-- Two pointers with one address may alias. -/
def AliasesFound (pointers : Pointers) : Prop :=
  ∀ first second address, pointers first = some address → pointers second = some address →
    (mayAlias (analyze functionNode graph) (resolution.nameOf first) (resolution.nameOf second)).1 = true

/-- Two pointers that alias definitely hold one address when both hold one. -/
def DefiniteAliasesEqual (pointers : Pointers) : Prop :=
  ∀ first second, mayAlias (analyze functionNode graph) (resolution.nameOf first) (resolution.nameOf second) =
    (true, .definite) → ∀ address other, pointers first = some address → pointers second = some other →
      address = other

end Runs

/-! ### Overlapping copies -/

/-- An array is passed as its own address and a pointer as the address that it holds. -/
def argumentAddress (resolution : Resolution) (pointers : Pointers) (ref : AstNode) : Option Address :=
  if ref.isArray then some (.object (resolution.denotes ref)) else pointers (resolution.denotes ref)

/-- The call copies between its first two arguments, which are references. -/
structure CopyCall (graph : AstGraph) (call dest source : AstNode) : Prop where
  kind : call.nodeKind = .callExpr
  callee : callee call ∈ Rule19_1.OVERLAP_SENSITIVE_CALLEES
  arguments : ∃ rest, graph.children call.nodeId = dest :: source :: rest
  dest : dest.nodeKind = .declRefExpr ∧ declRefName dest ≠ ""
  source : source.nodeKind = .declRefExpr ∧ declRefName source ≠ ""

/-- Both arguments have one address. -/
def Overlaps (resolution : Resolution) (pointers : Pointers) (dest source : AstNode) : Prop :=
  ∃ address, argumentAddress resolution pointers dest = some address ∧
    argumentAddress resolution pointers source = some address

end AliasAnalyzer
end MisraPlatform
