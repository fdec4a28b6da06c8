import Mathlib.Data.List.Basic

/-
This file is the serialized AST and the graph that the rules query.
-/

namespace MisraPlatform

/-- The analyzers compare a node kind with these names and keep every other name as text. -/
inductive NodeKind where
  | compoundStmt | ifStmt | forStmt | whileStmt | doStmt | switchStmt
  | caseStmt | defaultStmt | labelStmt | gotoStmt | returnStmt | breakStmt | continueStmt
  | functionDecl | parmVarDecl | varDecl | enumDecl
  | builtinType | pointerType | recordType
  | declRefExpr | binaryOperator | unaryOperator | callExpr
  | other (spelling : String)
  deriving DecidableEq, Repr

/-- The spelling is the class name that the serializer writes. -/
def NodeKind.spelling : NodeKind → String
  | .compoundStmt => "CompoundStmt"
  | .ifStmt => "IfStmt"
  | .forStmt => "ForStmt"
  | .whileStmt => "WhileStmt"
  | .doStmt => "DoStmt"
  | .switchStmt => "SwitchStmt"
  | .caseStmt => "CaseStmt"
  | .defaultStmt => "DefaultStmt"
  | .labelStmt => "LabelStmt"
  | .gotoStmt => "GotoStmt"
  | .returnStmt => "ReturnStmt"
  | .breakStmt => "BreakStmt"
  | .continueStmt => "ContinueStmt"
  | .functionDecl => "FunctionDecl"
  | .parmVarDecl => "ParmVarDecl"
  | .varDecl => "VarDecl"
  | .enumDecl => "EnumDecl"
  | .builtinType => "BuiltinType"
  | .pointerType => "PointerType"
  | .recordType => "RecordType"
  | .declRefExpr => "DeclRefExpr"
  | .binaryOperator => "BinaryOperator"
  | .unaryOperator => "UnaryOperator"
  | .callExpr => "CallExpr"
  | .other spelling => spelling

/-- This set is `_LOOP_KINDS`. -/
def NodeKind.isLoop : NodeKind → Bool
  | .forStmt | .whileStmt | .doStmt => true
  | _ => false

/-- An absent file path makes the reader fall back on the path of the translation unit. -/
structure SourceRange where
  filePath : Option String := none
  lineStart : Nat := 0
  lineEnd : Nat := 0
  columnStart : Nat := 0
  columnEnd : Nat := 0
  deriving DecidableEq, Repr

structure AstNode where
  nodeId : String
  nodeKind : NodeKind
  parentId : String := ""
  childrenIds : List String := []
  sourceRange : SourceRange := {}
  semanticProperties : List (String × String) := []
  essentialType : Option String := none
  typeSpelling : String := ""
  fundamentalKind : String := ""
  expansionChain : List String := []
  isPointer : Bool := false
  isArray : Bool := false
  flags : List (String × Bool) := []
  typedefChain : String := ""
  designatorIndex : Option Int := none
  deriving DecidableEq, Repr

/-- This is `node.get("semantic_properties", {}).get(key, default)`. -/
def AstNode.property (node : AstNode) (key default : String) : String :=
  (node.semanticProperties.lookup key).getD default

/-- A semantic property is text on the wire. A test may give a boolean instead, and the node keeps
such properties in its flags. -/
inductive PropertyValue where
  | text (value : String)
  | flag (value : Bool)
  deriving DecidableEq, Repr

/-- Every text but the empty one counts as true. -/
def PropertyValue.truthy : PropertyValue → Bool
  | .text value => value ≠ ""
  | .flag value => value

/-- This is `node.get("semantic_properties", {}).get(key)`. -/
def AstNode.value (node : AstNode) (key : String) : Option PropertyValue :=
  ((node.flags.lookup key).map .flag).or ((node.semanticProperties.lookup key).map .text)

/-- An absent property counts as false. -/
def AstNode.truthy (node : AstNode) (key : String) : Bool := (node.value key).any PropertyValue.truthy

structure AstGraph where
  nodes : List AstNode

namespace AstGraph

/-- A later node with the same id replaces an earlier one. -/
def get (graph : AstGraph) (nodeId : String) : Option AstNode :=
  graph.nodes.reverse.find? fun node => node.nodeId = nodeId

def nodesByKind (graph : AstGraph) (kind : NodeKind) : List AstNode :=
  graph.nodes.filter fun node => node.nodeKind = kind

/-- A child id that names no node is left out. -/
def children (graph : AstGraph) (nodeId : String) : List AstNode :=
  match graph.get nodeId with
  | none => []
  | some node => node.childrenIds.filterMap graph.get

/-- The stack grows at its end, so the last child is collected first. -/
def collect (graph : AstGraph) : Nat → List AstNode → List AstNode → Option (List AstNode)
  | _, collected, [] => some collected
  | 0, _, _ :: _ => none
  | fuel + 1, collected, current :: stack =>
      graph.collect fuel (collected ++ [current]) ((graph.children current.nodeId).reverse ++ stack)

/-- In a forest every node is collected at most once, so the node count is enough fuel. -/
def descendants (graph : AstGraph) (nodeId : String) : List AstNode :=
  (graph.collect graph.nodes.length [] (graph.children nodeId).reverse).getD []

/-- The path climbs through parent ids until one is empty. -/
def climb (graph : AstGraph) : Nat → String → List String
  | 0, _ => []
  | fuel + 1, nodeId =>
      if nodeId = "" then []
      else nodeId :: graph.climb fuel (((graph.get nodeId).map AstNode.parentId).getD "")

def nodePath (graph : AstGraph) (nodeId : String) : List String :=
  (graph.climb (graph.nodes.length + 1) nodeId).reverse

/-- This is the text that a report shows for its node. -/
def offendingText (node : AstNode) : String :=
  let name := node.property "name" ""
  let kind := node.nodeKind.spelling
  if name ≠ "" then kind ++ " " ++ name
  else if node.typeSpelling ≠ "" then kind ++ " (" ++ node.typeSpelling ++ ")"
  else kind ++ " [" ++ node.essentialType.getD "" ++ "]"

def sourceSnippet (filePath : String) (node : AstNode) : String :=
  filePath ++ ":" ++ toString node.sourceRange.lineStart

end AstGraph

end MisraPlatform
