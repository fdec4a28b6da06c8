import Mathlib.Data.List.Infix
import MisraPlatform.Construction.LinkageIndex
import MisraPlatform.Library.OrderedPairs

/-
This file is the index of the named declarations of one translation unit.
-/

namespace MisraPlatform

namespace SymbolIndex

/-- This set is `_DECL_KINDS`. -/
def DECL_KINDS : List NodeKind :=
  [.varDecl, .functionDecl, .other "TypedefDecl", .enumDecl, .other "RecordDecl", .parmVarDecl,
    .other "FieldDecl"]

/-- Tags, members and all other identifiers have name spaces of their own. -/
inductive NameSpace where
  | tag | member | ordinary
  deriving DecidableEq

/-- This is `_namespace`. -/
def namespaceOf (node : AstNode) : NameSpace :=
  if [NodeKind.other "RecordDecl", .enumDecl].contains node.nodeKind then .tag
  else if node.nodeKind = .other "FieldDecl" then .member
  else .ordinary

def isNamedDecl (node : AstNode) : Bool := node.nodeKind ∈ DECL_KINDS && node.property "name" "" ≠ ""

/-- The declarations of a name stand in the order of the nodes. -/
def byName (graph : AstGraph) : OrderedDict String (List AstNode) :=
  (graph.nodes.filter isNamedDecl).foldl
    (fun index node => LinkageIndex.appendTo index (node.property "name" "") node) .empty

/-- A group has several declarations, and one of them is marked. -/
def isIncompatible (decls : List AstNode) : Bool :=
  2 ≤ decls.length && decls.any fun decl => decl.truthy "declaration_incompatible"

def incompatibleDeclarationGroups (graph : AstGraph) : List (String × List AstNode) :=
  (byName graph).entries.filter fun entry => isIncompatible entry.2

def allNames (graph : AstGraph) : List String := (byName graph).keys

def declarations (graph : AstGraph) (name : String) : List AstNode := ((byName graph).get? name).getD []

def storageClass (node : AstNode) : String := node.property "storage_class" "automatic"

/-- An object, a parameter or a function is referenced wherever an expression has its name. -/
def isReferenced (graph : AstGraph) (node : AstNode) : Bool :=
  let name := node.property "name" ""
  name = "" || (graph.nodesByKind .declRefExpr).any fun candidate =>
    candidate.nodeId ≠ node.nodeId && candidate.property "name" "" = name

/-- This is `candidate.get("semantic_properties", {}).get("type_name") == name`. -/
def namesType (name : String) (candidate : AstNode) : Bool := candidate.value "type_name" = some (.text name)

/-- A type is referenced wherever a type name is its name or a typedef chain contains it. -/
def isTypeReferenced (graph : AstGraph) (node : AstNode) : Bool :=
  let name := node.property "name" ""
  name = "" || graph.nodes.any fun candidate => candidate.nodeId ≠ node.nodeId &&
    (namesType name candidate || name.toList <:+: candidate.typedefChain.toList)

/-- The parent of a declaration is its scope, and the outer declaration comes first. -/
def orderByEnclosingScope (graph : AstGraph) (first second : AstNode) : Option (AstNode × AstNode) :=
  if first.parentId = second.parentId then none
  else if first.parentId = "" then some (first, second)
  else if second.parentId = "" then some (second, first)
  else if (graph.nodePath second.nodeId).contains first.parentId then some (first, second)
  else if (graph.nodePath first.nodeId).contains second.parentId then some (second, first)
  else none

def shadowingPairs (graph : AstGraph) : List (AstNode × AstNode) :=
  (byName graph).values.flatMap fun decls =>
    (orderedPairs decls).filterMap fun pair => orderByEnclosingScope graph pair.1 pair.2

def crossNamespaceCollisions (graph : AstGraph) : List (AstNode × AstNode) :=
  (byName graph).values.flatMap fun decls =>
    (orderedPairs decls).filter fun pair => namespaceOf pair.1 ≠ namespaceOf pair.2

end SymbolIndex
end MisraPlatform
