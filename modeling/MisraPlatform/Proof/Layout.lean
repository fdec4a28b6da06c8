import MisraPlatform.Semantics.Execution

/-
This file says what it means that a graph lays a statement list out.
-/

namespace MisraPlatform
open CFGEngine

/-- A point is a block and the number of its statements that stand before. -/
abbrev Point := BlockId × Nat

namespace ControlFlowGraph

variable (cfg : ControlFlowGraph)

def Holds (point : Point) (statement : AstNode) : Prop :=
  (cfg.statementsOf point.1)[point.2]? = some statement

/-- No statement follows the point in its block. -/
def Ends (point : Point) : Prop := (cfg.statementsOf point.1).length = point.2

/-- The point is the last one of its block and one edge leaves the block. An empty block in front
of a fallthrough edge may be missing. -/
def Flows (point : Point) (kind : EdgeKind) (target : BlockId) : Prop :=
  (kind = .fallthrough ∧ point = (target, 0)) ∨
    (cfg.Ends point ∧ cfg.successors point.1 = [⟨point.1, target, kind, none⟩])

/-- The statement is the last one of its block and these edges leave the block. -/
def Closes (point : Point) (statement : AstNode) (edges : List CFGEdge) : Prop :=
  cfg.Holds point statement ∧ cfg.Ends (point.1, point.2 + 1) ∧ cfg.successors point.1 = edges

/-- The point is the last one of its block and no edge leaves the block. -/
def Dangles (point : Point) : Prop := cfg.Ends point ∧ cfg.successors point.1 = []

end ControlFlowGraph

/-- The edges that leave a block which a jump ends. -/
def jumpEdges (resolve : String → BlockId) (stack : LoopStack) (statement : AstNode)
    (source : BlockId) : List CFGEdge :=
  match statement.nodeKind with
  | .returnStmt => [⟨source, .exit, .returnEdge, none⟩]
  | .breakStmt => stack.head?.toList.map fun targets => ⟨source, targets.2, .breakEdge, none⟩
  | .continueStmt => stack.head?.toList.map fun targets => ⟨source, targets.1, .continueEdge, none⟩
  | .gotoStmt => [⟨source, resolve (targetLabel statement), .gotoEdge, some (targetLabel statement)⟩]
  | _ => []

section Layout

variable (cfg : ControlFlowGraph) (resolve : String → BlockId)

/-- A label begins its block, a jump ends its block and the other statements follow each other. -/
def SimpleLaid (stack : LoopStack) (statement : AstNode) (point spot after : Point) : Prop :=
  cfg.Holds spot statement ∧
    if statement.nodeKind = .labelStmt then
      cfg.Flows point .fallthrough spot.1 ∧ spot.2 = 0 ∧ after = (spot.1, 1)
    else
      spot = point ∧
        if statement.nodeKind.isJump then
          cfg.Closes point statement (jumpEdges resolve stack statement point.1) ∧ after.2 = 0
        else after = (point.1, point.2 + 1)

mutual

/-- The graph lays a statement list out from one point to another. The spots are the points of the
statements in the order of the source. -/
def Code.Laid : Code → LoopStack → Point → Point → List (AstNode × Point) → Prop
  | .nil, _, point, last, spots =>
      point = last ∧ point.1 ≠ .entry ∧ point.1 ≠ .exit ∧ spots = []
  | .simple statement rest, stack, point, last, spots => ∃ spot after others,
      SimpleLaid cfg resolve stack statement point spot after ∧
      rest.Laid stack after last others ∧ spots = (statement, spot) :: others
  | .compound _ body rest, stack, point, last, spots => ∃ first final next inner outer,
      cfg.Flows point .fallthrough first ∧ body.Laid stack (first, 0) final inner ∧
      cfg.Dangles final ∧ rest.Laid stack (next, 0) last outer ∧ spots = inner ++ outer
  | .ifStmt statement thenBranch elseBranch rest, stack, point, last, spots =>
      ∃ join thenEdges elseEdges first second outer,
      cfg.Closes point statement (thenEdges ++ elseEdges) ∧
      thenBranch.Laid stack point.1 .trueEdge .fallthrough join
        [⟨point.1, join, .trueEdge, none⟩] thenEdges first ∧
      elseBranch.Laid stack point.1 .falseEdge .fallthrough join
        [⟨point.1, join, .falseEdge, none⟩] elseEdges second ∧
      rest.Laid stack (join, 0) last outer ∧
      spots = (statement, point) :: first ++ second ++ outer
  | .loop statement body rest, stack, point, last, spots =>
      ∃ header after edges inner outer,
      cfg.Flows point .fallthrough header ∧
      cfg.Closes (header, 0) statement (edges ++ [⟨header, after, .falseEdge, none⟩]) ∧
      body.Laid ((header, after) :: stack) header (loopEntryKind statement) .loopBack header []
        edges inner ∧
      rest.Laid stack (after, 0) last outer ∧ spots = (statement, (header, 0)) :: inner ++ outer
  | .switch statement groups rest, stack, point, last, spots => ∃ after edges inner outer,
      cfg.Closes point statement (edges ++
        if groups.hasDefault then [] else [⟨point.1, after, .noMatch, none⟩]) ∧
      groups.Laid ((point.1, after) :: stack) point.1 none after edges inner ∧
      rest.Laid stack (after, 0) last outer ∧ spots = (statement, point) :: inner ++ outer
  | .bareSwitch statement rest, stack, point, last, spots => ∃ after outer,
      cfg.Closes point statement [⟨point.1, after, .fallthrough, none⟩] ∧
      rest.Laid stack (after, 0) last outer ∧ spots = (statement, point) :: outer

/-- An edge enters the branch, and the tail of the branch flows to the target. -/
def Branch.Laid : Branch → LoopStack → BlockId → EdgeKind → EdgeKind → BlockId → List CFGEdge →
    List CFGEdge → List (AstNode × Point) → Prop
  | .absent, _, _, _, _, _, missing, edges, spots => edges = missing ∧ spots = []
  | .present body, stack, source, entryKind, tailKind, target, _, edges, spots => ∃ first final,
      edges = [⟨source, first, entryKind, none⟩] ∧ body.Laid stack (first, 0) final spots ∧
      cfg.Flows final tailKind target

/-- An edge enters each group, and the tail before it flows into it. -/
def Groups.Laid : Groups → LoopStack → BlockId → Option Point → BlockId → List CFGEdge →
    List (AstNode × Point) → Prop
  | .nil, _, _, previous, after, edges, spots => edges = [] ∧ spots = [] ∧
      ∀ tail, previous = some tail → cfg.Flows tail .fallthrough after
  | .cons label body more, stack, source, previous, after, edges, spots =>
      ∃ first spot next final others inner outer,
      SimpleLaid cfg resolve stack label (first, 0) spot next ∧ body.Laid stack next final inner ∧
      more.Laid stack source (some final) after others outer ∧
      edges = ⟨source, first, caseEdgeKind label, none⟩ :: others ∧
      spots = (label, spot) :: inner ++ outer ∧
      ∀ tail, previous = some tail → cfg.Flows tail .switchFallthrough first

end

end Layout

/-- The labels of a layout with their blocks. -/
def labelBlocks (spots : List (AstNode × Point)) : List (String × BlockId) :=
  (labelled spots).map fun entry => (entry.1, entry.2.1)

@[simp] theorem labelBlocks_nil : labelBlocks [] = [] := rfl

@[simp] theorem labelBlocks_append (first second : List (AstNode × Point)) :
    labelBlocks (first ++ second) = labelBlocks first ++ labelBlocks second := by
  simp [labelBlocks]

theorem labelBlocks_label {statement : AstNode} (kind : statement.nodeKind = .labelStmt)
    (spot : Point) (rest : List (AstNode × Point)) :
    labelBlocks ((statement, spot) :: rest) = (labelName statement, spot.1) :: labelBlocks rest := by
  simp [labelBlocks, labelled_cons, kind]

theorem labelBlocks_other {statement : AstNode} (kind : statement.nodeKind ≠ .labelStmt)
    (spot : Point) (rest : List (AstNode × Point)) :
    labelBlocks ((statement, spot) :: rest) = labelBlocks rest := by
  simp [labelBlocks, labelled_cons, kind]

/-- The end of the body leaves the function or leads nowhere. -/
def endEdges (fed : Bool) (last : BlockId) : List CFGEdge :=
  if fed then [⟨last, .exit, .implicitReturn, none⟩] else []

/-- A goto leads to the block of its label, and to the exit when there is no such label. -/
def spotBlock (spots : List (AstNode × Point)) (name : String) : BlockId :=
  ((labelBlocks spots).reverse.lookup name).getD .exit

/-- The graph lays a whole body out between its entry and its exit. -/
structure LaysOut (cfg : ControlFlowGraph) (body : Code) (fed : Bool) (first : BlockId) (last : Point)
    (spots : List (AstNode × Point)) : Prop where
  entry : cfg.successors .entry = [⟨.entry, first, .fallthrough, none⟩]
  laid : body.Laid cfg (spotBlock spots) [] (first, 0) last spots
  ends : cfg.Ends last
  leaves : cfg.successors last.1 = endEdges fed last.1
  exit : cfg.successors .exit = []
  bounds : cfg.statementsOf .entry = [] ∧ cfg.statementsOf .exit = []

def Lays (cfg : ControlFlowGraph) (body : Code) (fed : Bool) : Prop :=
  ∃ first last spots, LaysOut cfg body fed first last spots

end MisraPlatform
