import Mathlib.Logic.Relation
import MisraPlatform.Construction.Ast
import MisraPlatform.Library.Preorder

/-
This file is the forest that parent ids and lists of children describe together.
-/

namespace MisraPlatform.AstGraph

variable (graph : AstGraph)

/-- The parent id of the child names the parent. -/
def ParentOf (parent child : AstNode) : Prop :=
  parent ∈ graph.nodes ∧ child ∈ graph.nodes ∧ child.parentId = parent.nodeId

/-- A node has no parent id or its parent is a node, and its children are the nodes with its id as
their parent id. -/
structure Forest : Prop where
  ids : (graph.nodes.map AstNode.nodeId).Nodup
  parents : ∀ node ∈ graph.nodes, node.parentId ≠ "" → ∃ parent, graph.ParentOf parent node
  once : ∀ node ∈ graph.nodes, node.childrenIds.Nodup
  children : ∀ node ∈ graph.nodes, ∀ childId,
    childId ∈ node.childrenIds ↔ ∃ child, graph.ParentOf node child ∧ child.nodeId = childId
  acyclic : ∀ node, ¬ Relation.TransGen graph.ParentOf node node

/-- The node stands strictly below the top. -/
def StrictlyBelow (top node : AstNode) : Prop := Relation.TransGen graph.ParentOf top node

/-- The ids lead from a root down to the node. -/
inductive RootPath : List String → AstNode → Prop
  | root {node : AstNode} (present : node ∈ graph.nodes) (top : ∀ parent, ¬ graph.ParentOf parent node) :
      RootPath [node.nodeId] node
  | child {path : List String} {parent node : AstNode} (above : RootPath path parent)
      (step : graph.ParentOf parent node) : RootPath (path ++ [node.nodeId]) node

/-- The ids and the lists of children below them lead to the nodes of the forest. -/
inductive Shows : List String → MisraPlatform.Forest AstNode → Prop
  | nil : Shows [] .nil
  | cons {ids : List String} {node : AstNode} {children rest : MisraPlatform.Forest AstNode}
      (found : graph.get node.nodeId = some node) (below : Shows node.childrenIds children)
      (after : Shows ids rest) : Shows (node.nodeId :: ids) (.cons node children rest)

/-- The traversal below the node ends with the strict descendants, each once. -/
structure DescendsExactly (node : AstNode) : Prop where
  ends : graph.collect graph.nodes.length [] (graph.children node.nodeId).reverse =
    some (graph.descendants node.nodeId)
  nodup : (graph.descendants node.nodeId).Nodup
  members : ∀ other, other ∈ graph.descendants node.nodeId ↔ graph.StrictlyBelow node other

/-- The climb from the node ends with the only path from a root to it. -/
structure ClimbsExactly (node : AstNode) : Prop where
  path : graph.RootPath (graph.nodePath node.nodeId) node
  unique : ∀ path, graph.RootPath path node → path = graph.nodePath node.nodeId

end MisraPlatform.AstGraph
