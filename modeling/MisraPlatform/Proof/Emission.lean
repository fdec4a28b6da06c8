import MisraPlatform.Semantics.Execution
import Mathlib.Algebra.GroupWithZero.Nat

/-
This file is the writer view of the builder. The structure of a body fixes every table operation.
-/

namespace MisraPlatform
open CFGEngine

/-- One call of the builder on its tables. A new block takes the next number. -/
inductive Op where
  | newBlock
  | append (number : Nat) (statement : AstNode)
  | edge (source : Nat) (target : BlockId) (kind : EdgeKind)
  | label (name : String) (number : Nat)
  | goto (number : Nat) (name : String)

/-- The cursor is the last number in use, the current block and the statements in that block. -/
structure Cursor where
  next : Nat
  block : Nat
  statements : List AstNode

/-- The current block is a block that was just allocated. -/
def Cursor.fresh (next : Nat) : Cursor := ⟨next + 1, next + 1, []⟩

/-- A simple statement moves the cursor. -/
def Cursor.after (cursor : Cursor) (statement : AstNode) : Cursor :=
  if statement.nodeKind = .labelStmt ∧ cursor.statements ≠ [] then
    ⟨cursor.next + 1, cursor.next + 1, [statement]⟩
  else if statement.nodeKind.isJump then .fresh cursor.next
  else { cursor with statements := cursor.statements ++ [statement] }

mutual

/-- This is the cursor after a statement list. -/
def Code.last : Code → Cursor → Cursor
  | .nil, cursor => cursor
  | .simple statement rest, cursor => rest.last (cursor.after statement)
  | .compound _ body rest, cursor => rest.last (.fresh (body.last (.fresh cursor.next)).next)
  | .ifStmt _ thenBranch elseBranch rest, cursor =>
      rest.last ⟨elseBranch.last (thenBranch.last (cursor.next + 1)), cursor.next + 1, []⟩
  | .loop _ body rest, cursor => rest.last ⟨body.last (cursor.next + 2), cursor.next + 2, []⟩
  | .switch _ groups rest, cursor => rest.last ⟨groups.last (cursor.next + 1), cursor.next + 1, []⟩
  | .bareSwitch _ rest, cursor => rest.last ⟨cursor.next + 1, cursor.next + 1, []⟩

def Branch.last : Branch → Nat → Nat
  | .absent, next => next
  | .present body, next => (body.last (.fresh next)).next

def Groups.last : Groups → Nat → Nat
  | .nil, next => next
  | .cons label body more, next => more.last (body.last ((Cursor.fresh next).after label)).next

end

/-- The edges of a return, a break and a continue are written at once. -/
def jumpOps (stack : LoopStack) (statement : AstNode) (number : Nat) : List Op :=
  match statement.nodeKind with
  | .returnStmt => [.edge number .exit .returnEdge]
  | .breakStmt => stack.head?.toList.map fun targets => .edge number targets.2 .breakEdge
  | .continueStmt => stack.head?.toList.map fun targets => .edge number targets.1 .continueEdge
  | .gotoStmt => [.goto number (targetLabel statement)]
  | _ => []

/-- A simple statement writes these operations. -/
def simpleOps (stack : LoopStack) (statement : AstNode) (cursor : Cursor) : List Op :=
  if statement.nodeKind = .labelStmt then
    if cursor.statements = [] then
      [.label (labelName statement) cursor.block, .append cursor.block statement]
    else
      [.newBlock, .edge cursor.block (.block (cursor.next + 1)) .fallthrough,
        .label (labelName statement) (cursor.next + 1), .append (cursor.next + 1) statement]
  else if statement.nodeKind.isJump then
    .append cursor.block statement :: jumpOps stack statement cursor.block ++ [.newBlock]
  else [.append cursor.block statement]

mutual

/-- A statement list writes these operations in the order of the source. -/
def Code.emit : Code → LoopStack → Cursor → List Op
  | .nil, _, _ => []
  | .simple statement rest, stack, cursor =>
      simpleOps stack statement cursor ++ rest.emit stack (cursor.after statement)
  | .compound _ body rest, stack, cursor =>
      let inner := Cursor.fresh cursor.next
      .newBlock :: body.emit stack inner ++
        [.edge cursor.block (.block inner.block) .fallthrough, .newBlock] ++
        rest.emit stack (.fresh (body.last inner).next)
  | .ifStmt statement thenBranch elseBranch rest, stack, cursor =>
      let join := cursor.next + 1
      let between := thenBranch.last join
      [.append cursor.block statement, .newBlock] ++
        thenBranch.emit stack cursor.block .trueEdge .fallthrough join
          [.edge cursor.block (.block join) .trueEdge] join ++
        elseBranch.emit stack cursor.block .falseEdge .fallthrough join
          [.edge cursor.block (.block join) .falseEdge] between ++
        rest.emit stack ⟨elseBranch.last between, join, []⟩
  | .loop statement body rest, stack, cursor =>
      let header := cursor.next + 1
      let afterLoop := cursor.next + 2
      [.newBlock, .append header statement, .newBlock,
          .edge cursor.block (.block header) .fallthrough] ++
        body.emit ((.block header, .block afterLoop) :: stack) header (loopEntryKind statement)
          .loopBack header [] afterLoop ++
        [.edge header (.block afterLoop) .falseEdge] ++
        rest.emit stack ⟨body.last afterLoop, afterLoop, []⟩
  | .switch statement groups rest, stack, cursor =>
      let afterSwitch := cursor.next + 1
      [.append cursor.block statement, .newBlock] ++
        groups.emit ((.block cursor.block, .block afterSwitch) :: stack) cursor.block none
          afterSwitch afterSwitch ++
        (if groups.hasDefault then [] else [.edge cursor.block (.block afterSwitch) .noMatch]) ++
        rest.emit stack ⟨groups.last afterSwitch, afterSwitch, []⟩
  | .bareSwitch statement rest, stack, cursor =>
      let afterSwitch := cursor.next + 1
      [.append cursor.block statement, .newBlock,
          .edge cursor.block (.block afterSwitch) .fallthrough] ++
        rest.emit stack ⟨afterSwitch, afterSwitch, []⟩

/-- The source block enters the branch and the tail of the branch goes on to the target. -/
def Branch.emit : Branch → LoopStack → Nat → EdgeKind → EdgeKind → Nat → List Op → Nat → List Op
  | .absent, _, _, _, _, _, missing, _ => missing
  | .present body, stack, source, entryKind, tailKind, target, _, next =>
      let inner := Cursor.fresh next
      .newBlock :: body.emit stack inner ++
        [.edge source (.block inner.block) entryKind,
          .edge (body.last inner).block (.block target) tailKind]

/-- The tail of each group falls into the next group and the last one leaves the switch. -/
def Groups.emit : Groups → LoopStack → Nat → Option Nat → Nat → Nat → List Op
  | .nil, _, _, previous, afterSwitch, _ =>
      previous.toList.map fun tail => .edge tail (.block afterSwitch) .fallthrough
  | .cons label body more, stack, switchBlock, previous, afterSwitch, next =>
      let entry := Cursor.fresh next
      let tail := body.last (entry.after label)
      .newBlock :: simpleOps stack label entry ++ body.emit stack (entry.after label) ++
        [.edge switchBlock (.block entry.block) (caseEdgeKind label)] ++
        (previous.toList.map fun tail => .edge tail (.block entry.block) .switchFallthrough) ++
        more.emit stack switchBlock (some tail.block) afterSwitch tail.next

end

/-! ### Projections of the operations -/

namespace Op

/-- This is the number of the block that an operation writes to. -/
def subject : Op → Option Nat
  | .newBlock => none
  | .append number _ | .edge number _ _ | .label _ number | .goto number _ => some number

/-- This is the number of the block that an edge leaves, now or when the gotos are wired. -/
def source : Op → Option Nat
  | .edge number _ _ | .goto number _ => some number
  | _ => none

def put (number : Nat) : Op → Option AstNode
  | .append other statement => if other = number then some statement else none
  | _ => none

def toEdge : Op → Option CFGEdge
  | .edge number target kind => some ⟨.block number, target, kind, none⟩
  | _ => none

def toGoto : Op → Option (BlockId × String)
  | .goto number name => some (.block number, name)
  | _ => none

def toLabel : Op → Option (String × BlockId)
  | .label name number => some (name, .block number)
  | _ => none

end Op

/-- The statements that the operations append to one block. -/
def puts (ops : List Op) (number : Nat) : List AstNode := ops.filterMap (Op.put number)

/-- The edges that the operations write out of one block. -/
def edgesFrom (ops : List Op) (number : Nat) : List CFGEdge :=
  (ops.filterMap Op.toEdge).filter fun edge => edge.source = .block number

/-- The edges that the gotos of one block get in the end. -/
def gotosFrom (resolve : String → BlockId) (ops : List Op) (number : Nat) : List CFGEdge :=
  ((ops.filterMap Op.toGoto).filter fun pending => pending.1 = .block number).map
    fun pending => ⟨pending.1, resolve pending.2, .gotoEdge, some pending.2⟩

def Op.allocates : Op → Nat
  | .newBlock => 1
  | _ => 0

def allocations (ops : List Op) : Nat := (ops.map Op.allocates).sum

end MisraPlatform
