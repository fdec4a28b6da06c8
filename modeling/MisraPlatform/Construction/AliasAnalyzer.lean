import MisraPlatform.Construction.DataFlowEngineV2

/-
This file is the points-to analyzer and the queries that the rules put to its result.
-/

namespace MisraPlatform
open DataFlowEngineV2

namespace AliasAnalyzer

inductive Confidence where
  | definite | possible | unknown
  deriving DecidableEq, Repr

inductive PointeeKind where
  | variableKind | arrayKind | functionKind | heapKind | unknownKind
  deriving DecidableEq, Repr

/-- This text stands for a target that the function does not tell. -/
def UNKNOWN_TARGET : String := "<unknown>"

structure Pointee where
  target : String
  kind : PointeeKind
  confidence : Confidence
  deriving DecidableEq, Repr

def unknownPointee : Pointee := ⟨UNKNOWN_TARGET, .unknownKind, .unknown⟩

/-- A name has a set only when something has been added to it. -/
abbrev PointsTo := OrderedDict String (Finset Pointee)

/-- Each pointee is added with `setdefault(name, set()).add(pointee)`. -/
def addAll (pointsTo : PointsTo) (name : String) (pointees : Finset Pointee) : PointsTo :=
  if pointees = ∅ then pointsTo
  else pointsTo.insert name ((pointsTo.get? name).getD ∅ ∪ pointees)

/-- This is the result of `points_to`. -/
def pointees (pointsTo : PointsTo) (name : String) : Finset Pointee := (pointsTo.get? name).getD ∅

/-! ### Right sides -/

/-- A copy of a set with several members is no longer definite. -/
def downgrade (several : Bool) (pointee : Pointee) : Pointee :=
  if several ∧ pointee.confidence = .definite then { pointee with confidence := .possible } else pointee

/-- The address of anything but a named reference is unknown. -/
def addressOf (operand : Option AstNode) : Pointee :=
  match operand with
  | none => unknownPointee
  | some operand =>
      if operand.nodeKind = .declRefExpr ∧ declRefName operand ≠ "" then
        { target := declRefName operand
          kind := if operand.truthy "is_function" then .functionKind else .variableKind
          confidence := .definite }
      else unknownPointee

/-- A reference without a name has no target. -/
def namedPointee (rhs : AstNode) (kind : PointeeKind) : Finset Pointee :=
  if declRefName rhs = "" then ∅ else {⟨declRefName rhs, kind, .definite⟩}

/-- A copy takes over the set of a name. A name without a set may point anywhere. -/
def copied (pointsTo : PointsTo) (name : String) : Finset Pointee :=
  match pointsTo.get? name with
  | none => {unknownPointee}
  | some existing => existing.image (downgrade (1 < existing.card))

def resolveRhs (pointsTo : PointsTo) (rhs : AstNode) (graph : AstGraph) : Finset Pointee :=
  if rhs.nodeKind = .unaryOperator ∧ opcode rhs = "&" then {addressOf (graph.children rhs.nodeId).head?}
  else
    match rhs.nodeKind with
    | .declRefExpr =>
        if rhs.truthy "is_function" then namedPointee rhs .functionKind
        else if rhs.isArray then namedPointee rhs .arrayKind
        else copied pointsTo (declRefName rhs)
    | .callExpr => {⟨"<heap:" ++ callee rhs ++ ">", .heapKind, .possible⟩}
    | _ => ∅

/-! ### Statements -/

def seedPointerParameters (functionNode : AstNode) (graph : AstGraph) : PointsTo :=
  ((graph.children functionNode.nodeId).filter fun node =>
    node.nodeKind = .parmVarDecl ∧ node.isPointer = true ∧ declRefName node ≠ "").foldl
      (fun pointsTo node => addAll pointsTo (declRefName node) {unknownPointee}) .empty

def handleVarDecl (pointsTo : PointsTo) (node : AstNode) (graph : AstGraph) : PointsTo :=
  if declRefName node = "" ∨ node.isPointer = false then pointsTo
  else
    match (graph.children node.nodeId).find? fun child => !isTypeNode child with
    | none => pointsTo
    | some initializer => addAll pointsTo (declRefName node) (resolveRhs pointsTo initializer graph)

def handleAssignment (pointsTo : PointsTo) (node : AstNode) (graph : AstGraph) : PointsTo :=
  match graph.children node.nodeId with
  | lhs :: rhs :: _ =>
      if lhs.nodeKind ≠ .declRefExpr ∨ declRefName lhs = "" then pointsTo
      else addAll pointsTo (declRefName lhs) (resolveRhs pointsTo rhs graph)
  | _ => pointsTo

def handle (graph : AstGraph) (pointsTo : PointsTo) (node : AstNode) : PointsTo :=
  if node.nodeKind = .varDecl then handleVarDecl pointsTo node graph
  else handleAssignment pointsTo node graph

def isRelevant (node : AstNode) : Bool :=
  node.nodeKind = .varDecl || node.nodeKind = .binaryOperator && opcode node = "="

/-- The declarations and assignments stand in the order of the text. -/
def relevant (functionNode : AstNode) (graph : AstGraph) : List AstNode :=
  linearize ((graph.descendants functionNode.nodeId).filter isRelevant)

/-- One pass handles every declaration and assignment once. -/
def pass (graph : AstGraph) (nodes : List AstNode) (pointsTo : PointsTo) : PointsTo :=
  nodes.foldl (handle graph) pointsTo

/-- The passes go on until one of them adds nothing or the bound is reached. -/
def iterate (graph : AstGraph) (nodes : List AstNode) : Nat → PointsTo → PointsTo
  | 0, pointsTo => pointsTo
  | bound + 1, before =>
      let after := pass graph nodes before
      if after.entries = before.entries then after else iterate graph nodes bound after

def analyze (functionNode : AstNode) (graph : AstGraph) : PointsTo :=
  let nodes := relevant functionNode graph
  iterate graph nodes (nodes.length + 1) (seedPointerParameters functionNode graph)

end AliasAnalyzer
end MisraPlatform

namespace MisraPlatform
open DataFlowEngineV2

namespace AliasAnalyzer

/-! ### Aliases -/

def hasUnknown (pointees : Finset Pointee) : Prop := ∃ pointee ∈ pointees, pointee.kind = .unknownKind

instance (pointees : Finset Pointee) : Decidable (hasUnknown pointees) :=
  inferInstanceAs (Decidable (∃ pointee ∈ pointees, _))

def targetsOf (pointees : Finset Pointee) : Finset String := pointees.image Pointee.target

/-- Both sets have one definite member. -/
def areDefinite (first second : Finset Pointee) : Prop :=
  first.card = 1 ∧ second.card = 1 ∧ ∀ pointee ∈ first ∪ second, pointee.confidence = .definite

instance (first second : Finset Pointee) : Decidable (areDefinite first second) :=
  inferInstanceAs (Decidable (_ ∧ _))

/-- Two names may alias when their sets share a target or when one of them is unknown. -/
def mayAlias (pointsTo : PointsTo) (first second : String) : Bool × Confidence :=
  let firstSet := pointees pointsTo first
  let secondSet := pointees pointsTo second
  if firstSet = ∅ ∨ secondSet = ∅ then (false, .unknown)
  else if hasUnknown firstSet ∨ hasUnknown secondSet then (true, .unknown)
  else if targetsOf firstSet ∩ targetsOf secondSet = ∅ then (false, .definite)
  else (true, if areDefinite firstSet secondSet then .definite else .possible)

def aliasesOf (pointsTo : PointsTo) (name : String) : Finset String :=
  insert name (pointsTo.keys.filter fun other => other ≠ name ∧ (mayAlias pointsTo name other).1 = true).toFinset

/-! ### Closed streams -/

def FILE_INVALIDATORS : List String := ["fclose"]

def functionNodes (functionNode : AstNode) (graph : AstGraph) : List AstNode :=
  functionNode :: graph.descendants functionNode.nodeId

def declRefNamesIn (node : AstNode) (graph : AstGraph) : List String :=
  (((node :: graph.descendants node.nodeId).filter fun inner => inner.nodeKind = .declRefExpr).map
    declRefName).filter fun name => name ≠ ""

def closesFile (node : AstNode) : Bool := node.nodeKind = .callExpr && callee node ∈ FILE_INVALIDATORS

/-- The call closes the streams that its first child names. -/
def closedNames (call : AstNode) (graph : AstGraph) : List String :=
  if closesFile call = true then
    ((graph.children call.nodeId).head?.map fun arg => declRefNamesIn arg graph).getD []
  else []

/-- A reference right under the closing call is no use of the stream. -/
def usesClosed (graph : AstGraph) (closed : Finset String) (node : AstNode) : Bool :=
  node.nodeKind = .declRefExpr && !(graph.get node.parentId).any closesFile &&
    (node.truthy "use_after_file_close" || declRefName node ≠ "" && declRefName node ∈ closed)

/-- A call adds the aliases of the streams that it closes. -/
def scanUses (pointsTo : PointsTo) (graph : AstGraph) : Finset String → List AstNode → List AstNode
  | _, [] => []
  | closed, node :: rest =>
      if node.nodeKind = .callExpr then
        scanUses pointsTo graph
          (closed ∪ (closedNames node graph).toFinset.biUnion (aliasesOf pointsTo)) rest
      else if usesClosed graph closed node = true then node :: scanUses pointsTo graph closed rest
      else scanUses pointsTo graph closed rest

def useAfterFileCloseReads (pointsTo : PointsTo) (functionNode : AstNode) (graph : AstGraph) :
    List AstNode :=
  scanUses pointsTo graph ∅ (linearize (functionNodes functionNode graph))

end AliasAnalyzer
end MisraPlatform
