import MisraPlatform.Construction.AliasAnalyzer
import MisraPlatform.Construction.CfgEngine
import MisraPlatform.Proof.Forest
import Mathlib.Data.Finset.Option

/-
This file states which references of a straight-line function read a closed stream.
-/

namespace MisraPlatform
open DataFlowEngineV2

namespace AliasAnalyzer

/-! ### Streams -/

/-- The caller has opened the given streams, and every `fopen` opens another one. -/
inductive Stream where
  | given (number : Nat)
  | opened (number : Nat)
  deriving DecidableEq

/-- A name without a value points to no stream. -/
structure Streams where
  value : String → Option Stream
  opened : Nat := 0
  closed : Finset Stream := ∅

/-- The right side of an assignment is a call, another name or an expression without a stream. -/
inductive StreamValue where
  | result (callee : String)
  | copy (source : String)
  | plain
  deriving DecidableEq

/-- A statement passes at most one name to `fclose` and assigns at most one name. -/
structure StreamStmt where
  closes : Option String := none
  assigns : Option (String × StreamValue) := none
  deriving DecidableEq

def Streams.start (given : String → Option Nat) : Streams :=
  { value := fun name => (given name).map .given }

def Streams.close (streams : Streams) (name : String) : Streams :=
  { streams with closed := streams.closed ∪ (streams.value name).toFinset }

def Streams.set (streams : Streams) (name : String) (stream : Option Stream) : Streams :=
  { streams with value := Function.update streams.value name stream }

/-- Only `fopen` gives a stream, and it gives a new one. -/
def Streams.assign (streams : Streams) (name : String) : StreamValue → Streams
  | .result callee =>
      if callee = "fopen" then
        { streams.set name (some (.opened streams.opened)) with opened := streams.opened + 1 }
      else streams.set name none
  | .copy source => streams.set name (streams.value source)
  | .plain => streams.set name none

/-- The call is evaluated before the assignment. -/
def Streams.step (streams : Streams) (effect : StreamStmt) : Streams :=
  let left := (effect.closes.map streams.close).getD streams
  (effect.assigns.map fun entry => left.assign entry.1 entry.2).getD left

def streamsAfter (given : String → Option Nat) (effects : List StreamStmt) : Streams :=
  effects.foldl Streams.step (.start given)

def HoldsClosed (streams : Streams) (name : String) : Prop :=
  ∃ stream ∈ streams.value name, stream ∈ streams.closed

instance (streams : Streams) (name : String) : Decidable (HoldsClosed streams name) :=
  match same : streams.value name with
  | none => .isFalse (by simp [HoldsClosed, same])
  | some stream => decidable_of_iff (stream ∈ streams.closed) (by simp [HoldsClosed, same])

/-! ### Statements -/

section Statements

variable (graph : AstGraph)

def NamedRef (node : AstNode) : Prop := node.nodeKind = .declRefExpr ∧ declRefName node ≠ ""

instance (node : AstNode) : Decidable (NamedRef node) := inferInstanceAs (Decidable (_ ∧ _))

/-- The reference is the left side of an assignment. -/
def IsTarget (ref : AstNode) : Prop :=
  ∃ parent ∈ graph.nodes, parent.nodeKind = .binaryOperator ∧ opcode parent = "=" ∧
    (graph.children parent.nodeId).head? = some ref

instance (ref : AstNode) : Decidable (IsTarget graph ref) :=
  inferInstanceAs (Decidable (∃ parent ∈ graph.nodes, _))

/-- A pointer with an initializer or a variable on the left of `=` gets the right side. -/
def AssignsTo (node : AstNode) (name : String) (rhs : AstNode) : Prop :=
  name ≠ "" ∧
    (node.nodeKind = .varDecl ∧ node.isPointer = true ∧ declRefName node = name ∧
        ((graph.children node.nodeId).find? fun child => !isTypeNode child) = some rhs ∨
      node.nodeKind = .binaryOperator ∧ opcode node = "=" ∧ ∃ lhs rest,
        graph.children node.nodeId = lhs :: rhs :: rest ∧ lhs.nodeKind = .declRefExpr ∧
          declRefName lhs = name)

def Assigning (node : AstNode) : Prop := ∃ name rhs, AssignsTo graph node name rhs

/-- The value of the node may be a stream. -/
def mayGiveStream (node : AstNode) : Bool :=
  node.nodeKind = .callExpr && callee node = "fopen" || node.nodeKind = .declRefExpr && node.isPointer

def StreamValue.Reads (rhs : AstNode) : StreamValue → Prop
  | .result name => rhs.nodeKind = .callExpr ∧ callee rhs = name
  | .copy source => rhs.nodeKind = .declRefExpr ∧ rhs.truthy "is_function" = false ∧ rhs.isArray = false ∧
      declRefName rhs = source ∧ source ≠ ""
  | .plain => rhs.nodeKind ∉ [NodeKind.declRefExpr, .callExpr] ∧
      ¬ (rhs.nodeKind = .unaryOperator ∧ opcode rhs = "&") ∧
      ∀ node, graph.Under rhs node → mayGiveStream node = false

/-- This is the only assignment of the statement. -/
def AssignsOnly (statement : AstNode) (name : String) (value : StreamValue) : Prop :=
  ∃ node rhs, graph.Under statement node ∧ AssignsTo graph node name rhs ∧ value.Reads graph rhs ∧
    ∀ other, graph.Under statement other → Assigning graph other → other = node

/-- This is the only `fclose` of the statement. Besides its argument, only a variable that gets the result
is named, and it stands before the call. -/
def ClosesOnly (statement : AstNode) (name : String) : Prop :=
  ∃ call arg, graph.Under statement call ∧ closesFile call = true ∧ graph.children call.nodeId = [arg] ∧
    graph.children arg.nodeId = [] ∧ arg.nodeKind = .declRefExpr ∧ declRefName arg = name ∧ name ≠ "" ∧
    ∀ other, graph.Under statement other → (closesFile other = true → other = call) ∧
      (other.nodeKind = .declRefExpr → other ≠ arg → IsTarget graph other ∧ ¬ precedes call other)

structure StreamStmt.Reads (statement : AstNode) (effect : StreamStmt) : Prop where
  assigned : ∀ name value, effect.assigns = some (name, value) → AssignsOnly graph statement name value
  unassigned : effect.assigns = none → ∀ node, graph.Under statement node → ¬ Assigning graph node
  closed : ∀ name, effect.closes = some name → ClosesOnly graph statement name
  unclosed : effect.closes = none → ∀ node, graph.Under statement node → closesFile node = false

/-- The node opens no scope and does not change the order of execution. -/
def isStraight (node : AstNode) : Bool :=
  !node.nodeKind.isLoop && node.nodeKind ∉ [NodeKind.compoundStmt, .ifStmt, .switchStmt, .caseStmt, .defaultStmt,
      .labelStmt, .gotoStmt, .breakStmt, .continueStmt, .returnStmt, .other "ConditionalOperator"] &&
    !(node.nodeKind = .binaryOperator && opcode node ∈ ["&&", "||", ","])

/-- The node has a part in the streams. -/
def Touches (node : AstNode) : Prop :=
  node.nodeKind = .declRefExpr ∨ closesFile node = true ∨ Assigning graph node

end Statements

/-- The body is a sequence of statements that open, copy, use and close streams in the order of the text. The
last statement may be a `return`. -/
structure StreamBody (functionNode : AstNode) (graph : AstGraph) (program : List (AstNode × StreamStmt)) :
    Prop where
  statements : program.map Prod.fst = CFGEngine.bodyStatements functionNode graph
  reads : ∀ entry ∈ program, entry.2.Reads graph entry.1
  straight : ∀ before entry after, program = before ++ entry :: after → ∀ node, graph.Under entry.1 node →
    isStraight node = true ∨ node.nodeKind = .returnStmt ∧ after = []
  inside : ∀ node ∈ graph.descendants functionNode.nodeId, Touches graph node →
    ∃ entry ∈ program, graph.Under entry.1 node
  ordered : program.Pairwise fun early late => ∀ first second, graph.Under early.1 first →
    graph.Under late.1 second → ¬ precedes second first
  unmarked : ∀ node ∈ graph.descendants functionNode.nodeId, node.truthy "use_after_file_close" = false

def effects (program : List (AstNode × StreamStmt)) : List StreamStmt := program.map Prod.snd

/-- Exactly the references that read a closed stream are reported. An argument of `fclose` is read, and a target
of an assignment is not. -/
structure StreamUsesExact (functionNode : AstNode) (graph : AstGraph) (given : String → Option Nat)
    (program : List (AstNode × StreamStmt)) : Prop where
  located : ∀ ref ∈ useAfterFileCloseReads (analyze functionNode graph) functionNode graph,
    NamedRef ref ∧ ∃ entry ∈ program, graph.Under entry.1 ref
  agrees : ∀ before entry after, program = before ++ entry :: after → ∀ ref, graph.Under entry.1 ref →
    NamedRef ref → (ref ∈ useAfterFileCloseReads (analyze functionNode graph) functionNode graph ↔
      ¬ IsTarget graph ref ∧ HoldsClosed (streamsAfter given (effects before)) (declRefName ref))

/-! ### Related names -/

def IsParameter (functionNode : AstNode) (graph : AstGraph) (name : String) : Prop :=
  ∃ node ∈ graph.children functionNode.nodeId, node.nodeKind = .parmVarDecl ∧ node.isPointer = true ∧
    declRefName node = name ∧ name ≠ ""

/-- The statement assigns the name a copy or the result of a call. -/
def StreamStmt.binds (effect : StreamStmt) (name : String) : Prop :=
  ∃ value, effect.assigns = some (name, value) ∧ value ≠ .plain

section Related

variable (parameters : String → Prop) (program : List StreamStmt)

/-- Copies lead to the name from a parameter or from a name that is not bound before it is copied. -/
inductive Unclear : String → Prop
  | parameter {name : String} (given : parameters name) : Unclear name
  | early {before after : List StreamStmt} {effect : StreamStmt} {target source : String}
      (split : program = before ++ effect :: after) (copies : effect.assigns = some (target, .copy source))
      (unbound : ¬ parameters source ∧ ∀ other ∈ before, ¬ other.binds source) : Unclear target
  | copied {effect : StreamStmt} {target source : String} (inside : effect ∈ program)
      (copies : effect.assigns = some (target, .copy source)) (unclear : Unclear source) : Unclear target

/-- Copies lead to the name from the result of a call of this function. -/
inductive Returned : String → String → Prop
  | called {effect : StreamStmt} {target callee : String} (inside : effect ∈ program)
      (calls : effect.assigns = some (target, .result callee)) : Returned target callee
  | copied {effect : StreamStmt} {target source callee : String} (inside : effect ∈ program)
      (copies : effect.assigns = some (target, .copy source)) (returned : Returned source callee) :
      Returned target callee

def Bound (name : String) : Prop := Unclear parameters program name ∨ ∃ callee, Returned program name callee

/-- The names are the same, or one of them is unclear and the other one bound, or both of them come from calls of
one function. -/
def Related (first second : String) : Prop :=
  first = second ∨ Unclear parameters program first ∧ Bound parameters program second ∨
    Bound parameters program first ∧ Unclear parameters program second ∨
    ∃ callee, Returned program first callee ∧ Returned program second callee

/-- A related name has been passed to `fclose`. -/
def ClosedBefore (before : List StreamStmt) (name : String) : Prop :=
  ∃ effect ∈ before, ∃ pointer, effect.closes = some pointer ∧ Related parameters program pointer name

end Related

/-- No closed stream is closed again, no assignment comes after an `fclose` of a name that is related to its
target, and any other name is read with a closed stream exactly after an `fclose` of a related name. -/
structure StreamsTidy (functionNode : AstNode) (graph : AstGraph) (given : String → Option Nat)
    (program : List (AstNode × StreamStmt)) : Prop where
  closes : ∀ before entry after, program = before ++ entry :: after → ∀ name, entry.2.closes = some name →
    ¬ HoldsClosed (streamsAfter given (effects before)) name
  targets : ∀ before entry after, program = before ++ entry :: after → ∀ ref, graph.Under entry.1 ref →
    NamedRef ref → IsTarget graph ref →
      ¬ ClosedBefore (IsParameter functionNode graph) (effects program) (effects before) (declRefName ref)
  reads : ∀ before entry after, program = before ++ entry :: after → entry.2.closes = none →
    ∀ ref, graph.Under entry.1 ref → NamedRef ref → ¬ IsTarget graph ref →
      (ClosedBefore (IsParameter functionNode graph) (effects program) (effects before) (declRefName ref) ↔
        HoldsClosed (streamsAfter given (effects before)) (declRefName ref))

end AliasAnalyzer
end MisraPlatform
