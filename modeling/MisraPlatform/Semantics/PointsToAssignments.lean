import MisraPlatform.Construction.AliasAnalyzer
import MisraPlatform.Library.Sweep
import MisraPlatform.Semantics.Scoping

/-
This file reads the declarations and assignments of pointers as additions to the sets of names.
-/

namespace MisraPlatform
open DataFlowEngineV2

namespace AliasAnalyzer

/-- A right side gives its own pointees or copies those of a name. -/
inductive Origin where
  | found (pointees : Finset Pointee)
  | copy (name : String)
  deriving DecidableEq

structure Assignment where
  target : String
  origin : Origin
  deriving DecidableEq

def originOf (rhs : AstNode) (graph : AstGraph) : Origin :=
  if rhs.nodeKind = .unaryOperator ∧ opcode rhs = "&" then
    .found {addressOf (graph.children rhs.nodeId).head?}
  else
    match rhs.nodeKind with
    | .declRefExpr =>
        if rhs.truthy "is_function" then .found (namedPointee rhs .functionKind)
        else if rhs.isArray then .found (namedPointee rhs .arrayKind)
        else .copy (declRefName rhs)
    | .callExpr => .found {⟨"<heap:" ++ callee rhs ++ ">", .heapKind, .possible⟩}
    | _ => .found ∅

/-- The node adds the pointees of a right side to this name. -/
def assignmentOf (graph : AstGraph) (node : AstNode) : Option Assignment :=
  if node.nodeKind = .varDecl then
    if declRefName node = "" ∨ node.isPointer = false then none
    else ((graph.children node.nodeId).find? fun child => !isTypeNode child).map fun initializer =>
      ⟨declRefName node, originOf initializer graph⟩
  else
    match graph.children node.nodeId with
    | lhs :: rhs :: _ =>
        if lhs.nodeKind ≠ .declRefExpr ∨ declRefName lhs = "" then none
        else some ⟨declRefName lhs, originOf rhs graph⟩
    | _ => none

/-- The copy of an empty set is unknown. -/
def copiedSet (existing : Finset Pointee) : Finset Pointee :=
  if existing = ∅ then {unknownPointee} else existing.image (downgrade (1 < existing.card))

def Origin.value (origin : Origin) (sets : String → Finset Pointee) : Finset Pointee :=
  match origin with
  | .found pointees => pointees
  | .copy name => copiedSet (sets name)

/-- The nodes of a function are assignments to the sets of its names. -/
def rules (graph : AstGraph) : Sweep.Rules AstNode String Pointee where
  target node := ((assignmentOf graph node).map Assignment.target).getD ""
  value node sets := ((assignmentOf graph node).map fun assignment => assignment.origin.value sets).getD ∅

/-! ### Pairs of a target and a kind -/

/-- The confidence of a pointee is left out. -/
def Pointee.pair (pointee : Pointee) : String × PointeeKind := (pointee.target, pointee.kind)

/-- These are the targets and kinds of `points_to`. -/
def pairs (pointsTo : PointsTo) (name : String) : Finset (String × PointeeKind) :=
  (pointees pointsTo name).image Pointee.pair

/-- A declaration or an assignment of the function is this one. -/
def Assigns (functionNode : AstNode) (graph : AstGraph) (assignment : Assignment) : Prop :=
  ∃ node ∈ relevant functionNode graph, assignmentOf graph node = some assignment

/-- The pointer parameters have their sets from the start. -/
def seeds (functionNode : AstNode) (graph : AstGraph) : String → Finset Pointee :=
  pointees (seedPointerParameters functionNode graph)

section Orders

variable (start : String → Finset Pointee) (assigns : Assignment → Prop)

/-- Copies lead to the name from a parameter or from a pointee of the text. -/
inductive Grounded : String → Prop
  | seeded {name : String} (filled : start name ≠ ∅) : Grounded name
  | found {target : String} {pointees : Finset Pointee} (assigned : assigns ⟨target, .found pointees⟩)
      (filled : pointees ≠ ∅) : Grounded target
  | copied {target name : String} (assigned : assigns ⟨target, .copy name⟩) (source : Grounded name) :
      Grounded target

/-- The name holds the pair in every order of the text. A copy of a name that is not grounded is
unknown in every order. -/
inductive Holds : String → String × PointeeKind → Prop
  | seeded {name : String} {pointee : Pointee} (inside : pointee ∈ start name) : Holds name pointee.pair
  | found {target : String} {pointees : Finset Pointee} {pointee : Pointee}
      (assigned : assigns ⟨target, .found pointees⟩) (inside : pointee ∈ pointees) :
      Holds target pointee.pair
  | copied {target name : String} {pair : String × PointeeKind} (assigned : assigns ⟨target, .copy name⟩)
      (held : Holds name pair) : Holds target pair
  | unset {target name : String} (assigned : assigns ⟨target, .copy name⟩)
      (missing : ¬ Grounded start assigns name) : Holds target unknownPointee.pair

/-- A copy of a grounded name that is no parameter goes to a name that holds the unknown pair anyway. -/
def OrderFree : Prop :=
  ∀ target name, assigns ⟨target, .copy name⟩ → Grounded start assigns name → start name = ∅ →
    Holds start assigns target unknownPointee.pair

end Orders

/-- The nodes stand at other places of the text. -/
def reposition (positions : AstNode → SourceRange) (node : AstNode) : AstNode :=
  { node with sourceRange := positions node }

/-- The declarations and assignments have exchanged their positions. -/
def Permutes (positions : AstNode → SourceRange) (functionNode : AstNode) (graph : AstGraph) : Prop :=
  ((relevant functionNode graph).map positions).Perm
    ((relevant functionNode graph).map AstNode.sourceRange)

/-- No two declarations or assignments start at the same place. -/
def Apart (functionNode : AstNode) (graph : AstGraph) : Prop :=
  (relevant functionNode graph).Pairwise fun first second =>
    ¬ (precedes first second ∧ precedes second first)

/-- Every name has the same targets and kinds at the other positions. -/
def SamePairs (positions : AstNode → SourceRange) (functionNode : AstNode) (graph : AstGraph) : Prop :=
  ∀ name, pairs (analyze functionNode (graph.relabel (reposition positions))) name =
    pairs (analyze functionNode graph) name

end AliasAnalyzer
end MisraPlatform
