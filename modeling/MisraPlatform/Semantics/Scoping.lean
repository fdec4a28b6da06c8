import MisraPlatform.Construction.CfgEngine
import MisraPlatform.Semantics.Evaluation

/-
This file is the scopes of C and the renaming of one variable.
-/

namespace MisraPlatform
open DataFlowEngineV2

/-! ### Scopes -/

def opensScope (node : AstNode) : Bool :=
  node.nodeKind ∈ [NodeKind.compoundStmt, .forStmt, .functionDecl]

section Scopes

variable (graph : AstGraph)

/-- A declaration belongs to the innermost scope around it. -/
def scopeOf (node : AstNode) : Option AstNode :=
  ((graph.climb (graph.nodes.length + 1) node.parentId).filterMap graph.get).find? opensScope

/-- The second node stands inside the first one or after it in the text. -/
def Follows (first second : AstNode) : Prop :=
  InSubtree graph first second ∨ ∃ node ∈ graph.nodes, ∃ pair ∈ orderedPairs (graph.children node.nodeId),
    InSubtree graph pair.1 first ∧ InSubtree graph pair.2 second

instance (first second : AstNode) : Decidable (Follows graph first second) :=
  inferInstanceAs (Decidable (_ ∨ _))

/-- A name is visible from its declaration to the end of the scope. -/
def Visible (varDecl ref : AstNode) : Prop :=
  (∃ scope ∈ scopeOf graph varDecl, InSubtree graph scope ref) ∧ Follows graph varDecl ref

instance (varDecl ref : AstNode) : Decidable (Visible graph varDecl ref) :=
  inferInstanceAs (Decidable (_ ∧ _))

/-- A reference is bound to the visible declaration of its name in the innermost scope. -/
def BindsTo (varDecl ref : AstNode) : Prop :=
  (isDeclRef ref = true ∧ declRefName ref = declRefName varDecl ∧ Visible graph varDecl ref) ∧
    ∀ other ∈ graph.nodes, other.nodeKind ∈ [NodeKind.varDecl, .parmVarDecl] →
      declRefName other = declRefName varDecl → Visible graph other ref →
        ∃ outer ∈ scopeOf graph other, ∃ scope ∈ scopeOf graph varDecl, InSubtree graph outer scope

instance (varDecl ref : AstNode) : Decidable (BindsTo graph varDecl ref) :=
  inferInstanceAs (Decidable (_ ∧ _))

end Scopes

/-! ### Renaming -/

def AstNode.setName (node : AstNode) (name : String) : AstNode :=
  { node with semanticProperties := node.semanticProperties.map fun entry =>
      if entry.1 = "name" then (entry.1, name) else entry }

/-- The declaration and the references that are bound to it get the name. -/
def renameVariable (graph : AstGraph) (varDecl : AstNode) (name : String) (node : AstNode) : AstNode :=
  if node = varDecl ∨ BindsTo graph varDecl node then node.setName name else node

def AstGraph.relabel (graph : AstGraph) (relabel : AstNode → AstNode) : AstGraph := ⟨graph.nodes.map relabel⟩

/-- No node of the function has the name. -/
def Fresh (functionNode : AstNode) (graph : AstGraph) (name : String) : Prop :=
  name ≠ "" ∧ ∀ node ∈ graph.descendants functionNode.nodeId, declRefName node ≠ name

instance (functionNode : AstNode) (graph : AstGraph) (name : String) :
    Decidable (Fresh functionNode graph name) :=
  inferInstanceAs (Decidable (_ ∧ _))

/-- These are the node ids and the argument positions that the analyses of one function report. -/
structure Report where
  reads : List String
  stores : List String
  arguments : List (String × Nat)
  deriving DecidableEq

def report (functionNode : AstNode) (graph : AstGraph) (sources sinks : Finset String) : Option Report := do
  let cfg ← CFGEngine.build functionNode graph
  let reads ← uninitializedReads functionNode cfg graph
  let stores ← deadStores cfg graph
  let findings ← propagateTaint cfg graph sources sinks
  let arguments := (cfg.sinkArguments graph sinks).filter fun sink => sink.finding ∈ findings
  some
    { reads := reads.map AstNode.nodeId
      stores := stores.map AstNode.nodeId
      arguments := arguments.map fun sink => (sink.call.nodeId, sink.position) }

def Report.Same (first second : Report) : Prop :=
  (∀ nodeId, nodeId ∈ first.reads ↔ nodeId ∈ second.reads) ∧
    (∀ nodeId, nodeId ∈ first.stores ↔ nodeId ∈ second.stores) ∧
    ∀ position, position ∈ first.arguments ↔ position ∈ second.arguments

end MisraPlatform
