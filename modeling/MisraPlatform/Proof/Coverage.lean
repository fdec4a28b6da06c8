import MisraPlatform.Proof.BlockShape
import MisraPlatform.Proof.Standing

/-
This file says which statements of an AST get a place of their own in the graph.
-/

namespace MisraPlatform
open CFGEngine

/-! ### Spots -/

/-- An item of a list has its partner in a related list. -/
theorem related_partner {α β : Type} {related : α → β → Prop} {first : List α} {second : List β}
    (pairs : List.Forall₂ related first second) {item : α} (inside : item ∈ first) :
    ∃ partner ∈ second, related item partner := by
  induction pairs with
  | nil => exact absurd inside List.not_mem_nil
  | cons head _ ih =>
      rcases List.mem_cons.mp inside with rfl | later
      · exact ⟨_, List.mem_cons_self, head⟩
      · obtain ⟨partner, listed, matched⟩ := ih later
        exact ⟨partner, List.mem_cons_of_mem _ listed, matched⟩

namespace LaysOut

variable {cfg : ControlFlowGraph} {body : Code} {fed : Bool} {first : BlockId} {last : Point}
  {spots : List (AstNode × Point)}

/-- Every position has its spot. -/
theorem spot (lays : LaysOut cfg body fed first last spots) (kinded : body.Kinded)
    {position : AstNode × State} (inside : position ∈ body.positions body .stop) :
    ∃ point, Seated cfg position.1 point ∧
      Matches cfg (spotBlock spots) fed position (position.1, point) := by
  obtain ⟨spot, listed, matched⟩ := related_partner (lays.matched kinded) inside
  have seated := body.seated [] (first, 0) last spots kinded lays.laid spot listed
  rw [← matched.same] at seated
  exact ⟨spot.2, seated, by rw [matched.same]; exact matched⟩

end LaysOut

theorem node_position {body : Code} {statement : AstNode} (inside : statement ∈ body.nodes) :
    ∃ state, (statement, state) ∈ body.positions body .stop := by
  rw [← body.positions_nodes body .stop] at inside
  obtain ⟨⟨same, state⟩, listed, rfl⟩ := List.mem_map.mp inside
  exact ⟨state, listed⟩

/-- A simple statement stands before its list. -/
theorem simple_position {body : Code} (kinded : body.Kinded) {statement : AstNode} {state : State}
    (inside : (statement, state) ∈ body.positions body .stop)
    (simple : statement.nodeKind.isSimple = true) :
    ∃ lead rest next, state = .run lead (.simple statement rest) next := by
  obtain ⟨current, fits⟩ := body.positions_fitting body .stop kinded _ inside
  cases state with
  | left departure => simp [State.current] at current
  | head header inner rest next fresh =>
      obtain rfl := Option.some.inj current
      rcases (isLoop_iff _).mp fits with kind | kind | kind <;>
        simp [kind, NodeKind.isSimple] at simple
  | run lead code next =>
      cases code with
      | nil | compound | loop => simp [State.current] at current
      | simple first rest =>
          obtain rfl := Option.some.inj current
          exact ⟨lead, rest, next, rfl⟩
      | ifStmt | switch | bareSwitch =>
          obtain rfl := Option.some.inj current
          have kind : _ = _ := fits
          simp [kind, NodeKind.isSimple] at simple

/-! ### Edges -/

section Edges

variable {cfg : ControlFlowGraph} {resolve : String → BlockId} {fed : Bool}

/-- A branch is entered by one edge, whether it is there or not. -/
theorem Branch.entry_edge {branch : Branch} {stack : LoopStack} {source join : BlockId}
    {entryKind : EdgeKind} {edges : List CFGEdge} {spots : List (AstNode × Point)}
    (laid : branch.Laid cfg resolve stack source entryKind .fallthrough join
      [⟨source, join, entryKind, none⟩] edges spots) :
    ∃ target, edges = [⟨source, target, entryKind, none⟩] := by
  cases branch with
  | absent => exact ⟨join, laid.1⟩
  | present body =>
      obtain ⟨first, final, same, _⟩ := laid
      exact ⟨first, same⟩

/-- Only a place outside of every loop and switch has no targets. -/
theorem Cont.stack_of_target {next : Cont} {stack : LoopStack} {last : Point}
    (laid : next.Laid cfg resolve fed stack last) (enclosed : next.breakTarget ≠ none) :
    ∃ targets outer, stack = targets :: outer := by
  obtain ⟨_, missing⟩ | ⟨again, after, outer, _, same, _⟩ := Cont.breakTarget_laid laid
  · exact absurd missing enclosed
  · exact ⟨_, outer, same⟩

end Edges

/-- Edges of these kinds leave the block of a statement. -/
def NodeKind.leaving : NodeKind → List EdgeKind
  | .returnStmt => [.returnEdge]
  | .breakStmt => [.breakEdge]
  | .continueStmt => [.continueEdge]
  | .gotoStmt => [.gotoEdge]
  | .ifStmt => [.trueEdge, .falseEdge]
  | .forStmt | .whileStmt | .doStmt => [.falseEdge]
  | _ => []

/-- The statement stands in a loop or a switch of the body. -/
def Code.Encloses (body : Code) (statement : AstNode) : Prop :=
  ∃ lead rest next, (statement, .run lead (.simple statement rest) next) ∈ body.positions body .stop ∧
    next.breakTarget ≠ none

/-- A block holds the statement, and the edges that its kind calls for leave the block. -/
def ControlFlowGraph.Owns (cfg : ControlFlowGraph) (body : Code) (statement : AstNode) : Prop :=
  ∃ block, statement ∈ cfg.statementsOf block ∧
    ((statement.nodeKind = .breakStmt ∨ statement.nodeKind = .continueStmt → body.Encloses statement) →
      ∀ kind ∈ statement.nodeKind.leaving, ∃ edge ∈ cfg.successors block, edge.kind = kind)

section Owns

variable {cfg : ControlFlowGraph} {body : Code} (represents : Represents cfg body)

include represents

/-- A break and a continue have their edge in a loop or a switch. -/
theorem Represents.owns_enclosed {statement : AstNode} (encloses : body.Encloses statement)
    (kind : statement.nodeKind = .breakStmt ∨ statement.nodeKind = .continueStmt) :
    cfg.Owns body statement := by
  obtain ⟨first, last, spots, lays⟩ := represents.lays
  obtain ⟨lead, rest, next, inside, enclosed⟩ := encloses
  obtain ⟨point, seated, matched⟩ := lays.spot represents.kinded inside
  have jump : statement.nodeKind.isJump = true := by
    rcases kind with kind | kind <;> rw [kind] <;> rfl
  obtain ⟨stack, final, closes, following⟩ := State.jump_closes matched.laid jump
  obtain ⟨targets, outer, rfl⟩ := Cont.stack_of_target following enclosed
  refine ⟨point.1, List.mem_of_getElem? seated.holds, fun _ leaving listed => ?_⟩
  rw [closes.2.2]
  rcases kind with kind | kind
  · rw [kind, NodeKind.leaving, List.mem_singleton] at listed
    exact ⟨⟨point.1, targets.2, .breakEdge, none⟩, by simp [jumpEdges, kind], listed.symm⟩
  · rw [kind, NodeKind.leaving, List.mem_singleton] at listed
    exact ⟨⟨point.1, targets.1, .continueEdge, none⟩, by simp [jumpEdges, kind], listed.symm⟩

/-- Every statement that the builder visits has its place and its edges. -/
theorem Represents.owns {statement : AstNode} (inside : statement ∈ body.nodes) :
    cfg.Owns body statement := by
  by_cases enclosed : (statement.nodeKind = .breakStmt ∨ statement.nodeKind = .continueStmt) ∧
      body.Encloses statement
  · exact represents.owns_enclosed enclosed.2 enclosed.1
  obtain ⟨first, last, spots, lays⟩ := represents.lays
  obtain ⟨state, listed⟩ := node_position inside
  obtain ⟨point, seated, matched⟩ := lays.spot represents.kinded listed
  have laid := matched.laid
  refine ⟨point.1, List.mem_of_getElem? seated.holds, fun encloses leaving called => ?_⟩
  obtain ⟨current, fits⟩ := body.positions_fitting body .stop represents.kinded _ listed
  cases state with
  | left departure => simp [State.current] at current
  | head header inner rest next fresh =>
      obtain rfl := Option.some.inj current
      obtain ⟨after, outer, final, start, ⟨edges, spots, _, closes, _⟩, _⟩ := laid
      have successors := closes.2.2
      simp only at successors
      rw [successors]
      have only : header.nodeKind.leaving = [.falseEdge] := by
        rcases (isLoop_iff _).mp fits with kind | kind | kind <;> rw [kind] <;> rfl
      rw [only, List.mem_singleton] at called
      exact ⟨_, List.mem_append_right _ (List.mem_singleton.mpr rfl), called.symm⟩
  | run lead code next =>
      cases code with
      | nil | compound | loop => simp [State.current] at current
      | ifStmt here thenBranch elseBranch rest =>
          obtain rfl := Option.some.inj current
          obtain ⟨stack, final, _, _, ⟨join, thenEdges, elseEdges, _, _, _, closes, thenLaid, elseLaid,
            _⟩, _⟩ := laid
          obtain ⟨yes, rfl⟩ := Branch.entry_edge thenLaid
          obtain ⟨no, rfl⟩ := Branch.entry_edge elseLaid
          have kind : here.nodeKind = .ifStmt := fits
          rw [closes.2.2]
          rw [kind, NodeKind.leaving, List.mem_pair] at called
          rcases called with rfl | rfl
          · exact ⟨_, List.mem_append_left _ (List.mem_singleton.mpr rfl), rfl⟩
          · exact ⟨_, List.mem_append_right _ (List.mem_singleton.mpr rfl), rfl⟩
      | switch here groups rest =>
          obtain rfl := Option.some.inj current
          have kind : here.nodeKind = .switchStmt := fits
          simp [kind, NodeKind.leaving] at called
      | bareSwitch here rest =>
          obtain rfl := Option.some.inj current
          have kind : here.nodeKind = .switchStmt := fits
          simp [kind, NodeKind.leaving] at called
      | simple here rest =>
          obtain rfl := Option.some.inj current
          have closing := State.jump_closes laid
          cases kind : here.nodeKind with
          | returnStmt =>
              obtain ⟨_, _, closes, _⟩ := closing (by rw [kind]; rfl)
              rw [kind, NodeKind.leaving, List.mem_singleton] at called
              exact ⟨_, by rw [closes.2.2, jumpEdges, kind]; exact List.mem_singleton.mpr rfl,
                called.symm⟩
          | gotoStmt =>
              obtain ⟨_, _, closes, _⟩ := closing (by rw [kind]; rfl)
              rw [kind, NodeKind.leaving, List.mem_singleton] at called
              exact ⟨_, by rw [closes.2.2, jumpEdges, kind]; exact List.mem_singleton.mpr rfl,
                called.symm⟩
          | breakStmt => exact absurd ⟨.inl kind, encloses (.inl kind)⟩ enclosed
          | continueStmt => exact absurd ⟨.inr kind, encloses (.inr kind)⟩ enclosed
          | _ => simp_all [State.Fits, NodeKind.isSimple, NodeKind.leaving]

end Owns

/-! ### Coverage -/

/-- Braces and labels stand around statements. -/
def isWrapper (statement : AstNode) : Bool := statement.nodeKind = .compoundStmt || isLabel statement

/-- The graph of a function together with the body that the builder visits. -/
structure Reads (graph : AstGraph) (functionNode : AstNode) (cfg : ControlFlowGraph) (body : Code) :
    Prop where
  built : build functionNode graph = some cfg
  read : readCode graph (graph.nodes.length + 1) (bodyStatements functionNode graph) = some body
  owns : ∀ statement ∈ body.nodes, cfg.Owns body statement
  inside : ∀ block, ∀ statement ∈ cfg.statementsOf block, statement ∈ body.nodes

theorem build_reads {graph : AstGraph} (wellFormed : graph.WellFormed) (functionNode : AstNode) :
    ∃ cfg body, Reads graph functionNode cfg body := by
  obtain ⟨body, reads, kinded, nodup⟩ := body_reading wellFormed functionNode
  by_cases empty : bodyStatements functionNode graph = []
  · obtain ⟨cfg, built, trivial⟩ := build_trivial functionNode graph empty
    have nothing : body = .nil := by
      rw [empty] at reads
      exact (Option.some.inj reads).symm
    refine ⟨cfg, body, built, reads, ?_, fun block statement inside => ?_⟩
    · rw [nothing]
      exact fun _ inside => absurd inside List.not_mem_nil
    · rw [trivial.empty] at inside
      exact absurd inside List.not_mem_nil
  · obtain ⟨cfg, built, represents⟩ := build_represents functionNode graph body empty reads kinded nodup
    exact ⟨cfg, body, built, reads, fun _ => represents.owns, represents.places.inside⟩

/-- A body with a statement is represented by its graph. -/
theorem Reads.represents {graph : AstGraph} (wellFormed : graph.WellFormed) {functionNode : AstNode}
    {cfg : ControlFlowGraph} {body : Code} (reads : Reads graph functionNode cfg body) {statement : AstNode}
    (listed : statement ∈ body.nodes) : Represents cfg body := by
  obtain ⟨other, read, kinded, nodup⟩ := body_reading wellFormed functionNode
  obtain rfl := Option.some.inj (read.symm.trans reads.read)
  have filled : bodyStatements functionNode graph ≠ [] := by
    intro empty
    rw [empty] at read
    cases read
    exact absurd listed List.not_mem_nil
  obtain ⟨twin, built, represents⟩ := build_represents functionNode graph other filled read kinded nodup
  cases built.symm.trans reads.built
  exact represents

/-- Every statement has a block of the graph exactly when none stands where the builder does not
look. -/
theorem build_owns_iff {graph : AstGraph} (wellFormed : graph.WellFormed) (shaped : SwitchesShaped graph)
    {functionNode : AstNode} (present : functionNode ∈ graph.nodes)
    (declares : functionNode.nodeKind = .functionDecl) :
    ∃ cfg body, Reads graph functionNode cfg body ∧
      ((∀ kept statement, Stands graph functionNode kept statement → isWrapper statement = false →
        cfg.Owns body statement) ↔
      ∀ kept statement, Stands graph functionNode kept statement → isWrapper statement = false →
        kept = true) := by
  obtain ⟨cfg, body, reads⟩ := build_reads wellFormed functionNode
  refine ⟨cfg, body, reads, fun owned kept statement stands own => ?_, fun visited kept statement stands
    own => ?_⟩
  · obtain ⟨block, held, _⟩ := owned kept statement stands own
    have listed := reads.inside block statement held
    have visits := ((mem_nodes_iff wellFormed shaped present declares reads.read statement).mp listed).1
    exact (stands.unique wellFormed present declares present declares visits).2
  · obtain rfl := visited kept statement stands own
    refine reads.owns statement
      ((mem_nodes_iff wellFormed shaped present declares reads.read statement).mpr ⟨stands, ?_⟩)
    intro compound
    simp [isWrapper, compound] at own

/-! ### A nested label -/

/-- These are the nodes of `f() { switch (c) { case 1: return; } }` as the serializer nests them. -/
def nestedFunction : AstNode := { nodeId := "f", nodeKind := .functionDecl, childrenIds := ["b"] }

def nestedSwitch : AstNode :=
  { nodeId := "s", nodeKind := .switchStmt, parentId := "b", childrenIds := ["c", "g"] }

def nestedGroup : AstNode :=
  { nodeId := "g", nodeKind := .compoundStmt, parentId := "s", childrenIds := ["l"] }

def nestedLabel : AstNode :=
  { nodeId := "l", nodeKind := .caseStmt, parentId := "g", childrenIds := ["v", "r"] }

def nestedReturn : AstNode := { nodeId := "r", nodeKind := .returnStmt, parentId := "l" }

def nestedGraph : AstGraph where
  nodes :=
    [nestedFunction, { nodeId := "b", nodeKind := .compoundStmt, parentId := "f", childrenIds := ["s"] },
      nestedSwitch, { nodeId := "c", nodeKind := .declRefExpr, parentId := "s" }, nestedGroup,
      nestedLabel, { nodeId := "v", nodeKind := .other "IntegerLiteral", parentId := "l" }, nestedReturn]

theorem nestedGraph_wellFormed : nestedGraph.WellFormed := by
  apply AstGraph.WellFormed.of_order <;> decide

theorem nestedGraph_shaped : SwitchesShaped nestedGraph := by
  unfold SwitchesShaped
  decide

theorem nestedReturn_stands : Stands nestedGraph nestedFunction false nestedReturn := by
  have outer : Stands nestedGraph nestedFunction true nestedSwitch := .top (by decide)
  have group : Stands nestedGraph nestedFunction true nestedGroup :=
    outer.nested (Passes.switch rfl (by decide))
  have label : Stands nestedGraph nestedFunction true nestedLabel :=
    group.nested (Passes.group rfl (by decide) (by decide))
  exact label.nested (Passes.labelled (by decide) (by decide))

/-- The return under the case label is in no block of the graph. -/
theorem nestedReturn_lost :
    Stands nestedGraph nestedFunction false nestedReturn ∧ isWrapper nestedReturn = false ∧
      ∃ cfg, build nestedFunction nestedGraph = some cfg ∧
        ∀ block, nestedReturn ∉ cfg.statementsOf block := by
  obtain ⟨cfg, body, reads⟩ := build_reads nestedGraph_wellFormed nestedFunction
  refine ⟨nestedReturn_stands, rfl, cfg, reads.built, fun block held => ?_⟩
  have listed := (mem_nodes_iff nestedGraph_wellFormed nestedGraph_shaped (by decide) rfl reads.read
    nestedReturn).mp (reads.inside block _ held)
  have flags := nestedReturn_stands.unique nestedGraph_wellFormed (by decide) rfl (by decide) rfl listed.1
  exact Bool.false_ne_true flags.2

/-- The equivalence holds of the nested label. -/
theorem build_owns_iff_nested :
    ∃ cfg body, Reads nestedGraph nestedFunction cfg body ∧
      ((∀ kept statement, Stands nestedGraph nestedFunction kept statement →
        isWrapper statement = false → cfg.Owns body statement) ↔
      ∀ kept statement, Stands nestedGraph nestedFunction kept statement →
        isWrapper statement = false → kept = true) :=
  build_owns_iff nestedGraph_wellFormed nestedGraph_shaped (by decide) rfl

end MisraPlatform
