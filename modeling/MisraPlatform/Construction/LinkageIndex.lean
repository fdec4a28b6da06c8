import MisraPlatform.Construction.Ast
import MisraPlatform.Library.OrderedDict

/-
This file is the index of the names that several translation units declare.
-/

namespace MisraPlatform

namespace AstGraph

def isFileScope (graph : AstGraph) (nodeId : String) : Bool :=
  (graph.get nodeId).any fun node => node.parentId = ""

/-- The rules tell a definition from a prototype by a compound child. -/
def hasCompoundChild (graph : AstGraph) (nodeId : String) : Bool :=
  (graph.children nodeId).any fun child => child.nodeKind = .compoundStmt

end AstGraph

namespace LinkageIndex

structure Unit where
  translationUnitId : String
  filePath : String
  graph : AstGraph

structure Occurrence where
  translationUnitId : String
  filePath : String
  storageClass : String
  hasBody : Bool
  typeSpelling : String
  nodeKind : NodeKind
  deriving DecidableEq, Repr

structure Data where
  symbols : OrderedDict String (List Occurrence)
  callGraph : OrderedDict String (List String)

/-- The set has no order, and this is one of its orders. -/
def DEFINITION_KINDS : List NodeKind := [.functionDecl, .varDecl]

def occurrence (unit : Unit) (kind : NodeKind) (node : AstNode) : Occurrence where
  translationUnitId := unit.translationUnitId
  filePath := unit.filePath
  storageClass := node.property "storage_class" "external"
  hasBody := kind = .functionDecl && unit.graph.hasCompoundChild node.nodeId
  typeSpelling := node.typeSpelling
  nodeKind := kind

/-- The nodes of a kind that have a name and stand at file scope. -/
def fileScopeNodes (graph : AstGraph) (kind : NodeKind) : List AstNode :=
  (graph.nodesByKind kind).filter fun node =>
    node.property "name" "" ≠ "" && graph.isFileScope node.nodeId

/-- This is `setdefault(key, []).append(value)`. -/
def appendTo {ν : Type} (dict : OrderedDict String (List ν)) (key : String) (value : ν) :
    OrderedDict String (List ν) :=
  dict.insert key ((dict.get? key).getD [] ++ [value])

def symbolEntries (units : List Unit) : List (String × Occurrence) :=
  units.flatMap fun unit => DEFINITION_KINDS.flatMap fun kind =>
    (fileScopeNodes unit.graph kind).map fun node => (node.property "name" "", occurrence unit kind node)

/-- A callee is listed once. -/
def addCallee (callees : List String) (callee : String) : List String :=
  if callee = "" ∨ callee ∈ callees then callees else callees ++ [callee]

def calleesOf (graph : AstGraph) (func : AstNode) : List String :=
  ((graph.descendants func.nodeId).filter fun node => node.nodeKind = .callExpr).foldl
    (fun callees node => addCallee callees (node.property "callee" "")) []

def addCallees (callGraph : OrderedDict String (List String)) (name : String) (callees : List String) :
    OrderedDict String (List String) :=
  if callees = [] then callGraph
  else callGraph.insert name (callees.foldl addCallee ((callGraph.get? name).getD []))

def definedFunctions (graph : AstGraph) : List AstNode :=
  (graph.nodesByKind .functionDecl).filter fun func =>
    func.property "name" "" ≠ "" && graph.hasCompoundChild func.nodeId

def build (units : List Unit) : Data where
  symbols := (symbolEntries units).foldl (fun symbols entry => appendTo symbols entry.1 entry.2) .empty
  callGraph := units.foldl (fun callGraph unit => (definedFunctions unit.graph).foldl (fun callGraph func =>
    addCallees callGraph (func.property "name" "") (calleesOf unit.graph func)) callGraph) .empty

def Data.occurrences (data : Data) (name : String) : List Occurrence := (data.symbols.get? name).getD []

def Data.externalOccurrences (data : Data) (name : String) : List Occurrence :=
  (data.occurrences name).filter fun occurrence => occurrence.storageClass ≠ "static"

def Data.definitions (data : Data) (name : String) : List Occurrence :=
  (data.externalOccurrences name).filter Occurrence.hasBody

end LinkageIndex
end MisraPlatform
