import MisraPlatform.Proof.GraphShape
import MisraPlatform.Proof.Positions
import MisraPlatform.Proof.Reading

/-
This file is the shape of the blocks that the engine returns for an arbitrary function node.
-/

namespace MisraPlatform
open CFGEngine

/-- The engine appends nothing to a block after a statement of these kinds. -/
def NodeKind.endsBlock (kind : NodeKind) : Bool :=
  kind.isJump || kind.isLoop || kind = .ifStmt || kind = .switchStmt

/-- A statement stands at a point of a graph where its kind allows it to stand. -/
structure Seated (cfg : ControlFlowGraph) (statement : AstNode) (point : Point) : Prop where
  holds : cfg.Holds point statement
  last : statement.nodeKind.endsBlock = true → cfg.Ends (point.1, point.2 + 1)
  first : statement.nodeKind = .labelStmt → point.2 = 0
  returns : statement.nodeKind = .returnStmt →
    cfg.successors point.1 = [⟨point.1, .exit, .returnEdge, none⟩]

section Seats

variable {cfg : ControlFlowGraph} {resolve : String → BlockId}

/-- A statement that closes its block without being a jump or a label is seated. -/
theorem ControlFlowGraph.Closes.seated {statement : AstNode} {point : Point} {edges : List CFGEdge}
    (closes : cfg.Closes point statement edges) (label : statement.nodeKind ≠ .labelStmt)
    (returns : statement.nodeKind ≠ .returnStmt) : Seated cfg statement point where
  holds := closes.1
  last _ := closes.2.1
  first kind := absurd kind label
  returns kind := absurd kind returns

theorem SimpleLaid.seated {stack : LoopStack} {statement : AstNode} {point spot after : Point}
    (simple : statement.nodeKind.isSimple = true)
    (laid : SimpleLaid cfg resolve stack statement point spot after) :
    Seated cfg statement spot := by
  by_cases label : statement.nodeKind = .labelStmt
  · have placed := SimpleLaid.label label laid
    refine ⟨placed.1, fun ends => ?_, fun _ => congrArg Prod.snd placed.2.2.1, fun returns => ?_⟩
    · simp [label, NodeKind.endsBlock, NodeKind.isJump, NodeKind.isLoop] at ends
    · simp [label] at returns
  · by_cases jump : statement.nodeKind.isJump = true
    · obtain ⟨closes, here, _⟩ := SimpleLaid.jump label jump laid
      subst here
      refine ⟨closes.1, fun _ => closes.2.1, fun kind => absurd kind label, fun kind => ?_⟩
      rw [closes.2.2]
      simp only [jumpEdges, kind]
    · obtain ⟨holds, here, _⟩ := SimpleLaid.plain label (by simpa using jump) laid
      subst here
      refine ⟨holds, fun ends => ?_, fun kind => absurd kind label, fun kind => ?_⟩
      · cases kind : statement.nodeKind <;>
          simp [kind, NodeKind.endsBlock, NodeKind.isJump, NodeKind.isLoop, NodeKind.isSimple] at *
      · simp [kind, NodeKind.isJump] at jump

theorem isLoop_simple {statement : AstNode} (kind : statement.nodeKind.isLoop = true) :
    statement.nodeKind ≠ .returnStmt := by
  intro returns
  simp [returns, NodeKind.isLoop] at kind

theorem isCaseLabel_simple {statement : AstNode} (kind : isCaseLabel statement = true) :
    statement.nodeKind.isSimple = true := by
  simp only [isCaseLabel, Bool.or_eq_true, decide_eq_true_eq] at kind
  rcases kind with kind | kind <;> rw [kind] <;> rfl

mutual

/-- Every statement that a layout places is seated. -/
theorem Code.seated : ∀ (code : Code) (stack : LoopStack) (point last : Point)
    (spots : List (AstNode × Point)), code.Kinded → code.Laid cfg resolve stack point last spots →
    ∀ spot ∈ spots, Seated cfg spot.1 spot.2
  | .nil, _, _, _, _, _, laid, _, inside => by
      obtain ⟨_, _, _, rfl⟩ := laid
      exact absurd inside List.not_mem_nil
  | .simple statement rest, stack, _, last, _, kinded, laid, spot, inside => by
      obtain ⟨here, after, others, simpleLaid, restLaid, rfl⟩ := laid
      rcases List.mem_cons.mp inside with rfl | later
      · exact simpleLaid.seated kinded.1
      · exact rest.seated stack after last others kinded.2 restLaid spot later
  | .compound _ body rest, stack, _, last, _, kinded, laid, spot, inside => by
      obtain ⟨first, final, next, inner, outer, _, bodyLaid, _, restLaid, rfl⟩ := laid
      rcases List.mem_append.mp inside with early | later
      · exact body.seated stack (first, 0) final inner kinded.2.1 bodyLaid spot early
      · exact rest.seated stack (next, 0) last outer kinded.2.2 restLaid spot later
  | .ifStmt statement thenBranch elseBranch rest, stack, point, last, _, kinded, laid, spot,
      inside => by
      obtain ⟨join, thenEdges, elseEdges, first, second, outer, closes, thenLaid, elseLaid, restLaid,
        rfl⟩ := laid
      simp only [List.cons_append, List.mem_cons, List.mem_append] at inside
      rcases inside with rfl | (early | middle) | later
      · exact closes.seated (by simp [kinded.1]) (by simp [kinded.1])
      · exact thenBranch.seated stack _ _ _ _ _ _ first kinded.2.1 thenLaid spot early
      · exact elseBranch.seated stack _ _ _ _ _ _ second kinded.2.2.1 elseLaid spot middle
      · exact rest.seated stack (join, 0) last outer kinded.2.2.2 restLaid spot later
  | .loop statement body rest, stack, _, last, _, kinded, laid, spot, inside => by
      obtain ⟨header, after, edges, inner, outer, _, closes, bodyLaid, restLaid, rfl⟩ := laid
      simp only [List.cons_append, List.mem_cons, List.mem_append] at inside
      rcases inside with rfl | early | later
      · exact closes.seated (label_of_isLoop kinded.1) (isLoop_simple kinded.1)
      · exact body.seated _ _ _ _ _ _ _ inner kinded.2.1 bodyLaid spot early
      · exact rest.seated stack (after, 0) last outer kinded.2.2 restLaid spot later
  | .switch statement groups rest, stack, point, last, _, kinded, laid, spot, inside => by
      obtain ⟨after, edges, inner, outer, closes, groupsLaid, restLaid, rfl⟩ := laid
      simp only [List.cons_append, List.mem_cons, List.mem_append] at inside
      rcases inside with rfl | early | later
      · exact closes.seated (by simp [kinded.1]) (by simp [kinded.1])
      · exact groups.seated _ _ _ _ _ inner kinded.2.1 groupsLaid spot early
      · exact rest.seated stack (after, 0) last outer kinded.2.2 restLaid spot later
  | .bareSwitch statement rest, stack, point, last, _, kinded, laid, spot, inside => by
      obtain ⟨after, outer, closes, restLaid, rfl⟩ := laid
      rcases List.mem_cons.mp inside with rfl | later
      · exact closes.seated (by simp [kinded.1]) (by simp [kinded.1])
      · exact rest.seated stack (after, 0) last outer kinded.2 restLaid spot later

theorem Branch.seated : ∀ (branch : Branch) (stack : LoopStack) (source : BlockId)
    (entryKind tailKind : EdgeKind) (target : BlockId) (missing edges : List CFGEdge)
    (spots : List (AstNode × Point)), branch.Kinded →
    branch.Laid cfg resolve stack source entryKind tailKind target missing edges spots →
    ∀ spot ∈ spots, Seated cfg spot.1 spot.2
  | .absent, _, _, _, _, _, _, _, _, _, laid, _, inside => by
      obtain ⟨_, rfl⟩ := laid
      exact absurd inside List.not_mem_nil
  | .present body, stack, _, _, _, _, _, _, spots, kinded, laid, spot, inside => by
      obtain ⟨first, final, _, bodyLaid, _⟩ := laid
      exact body.seated stack (first, 0) final spots kinded bodyLaid spot inside

theorem Groups.seated : ∀ (groups : Groups) (stack : LoopStack) (source : BlockId)
    (previous : Option Point) (after : BlockId) (edges : List CFGEdge)
    (spots : List (AstNode × Point)), groups.Kinded →
    groups.Laid cfg resolve stack source previous after edges spots →
    ∀ spot ∈ spots, Seated cfg spot.1 spot.2
  | .nil, _, _, _, _, _, _, _, laid, _, inside => by
      obtain ⟨_, rfl, _⟩ := laid
      exact absurd inside List.not_mem_nil
  | .cons label body more, stack, source, _, after, _, _, kinded, laid, spot, inside => by
      obtain ⟨first, here, next, final, others, inner, outer, labelLaid, bodyLaid, moreLaid, _, rfl,
        _⟩ := laid
      simp only [List.cons_append, List.mem_cons, List.mem_append] at inside
      rcases inside with rfl | early | later
      · exact labelLaid.seated (isCaseLabel_simple kinded.1)
      · exact body.seated stack next final inner kinded.2.1 bodyLaid spot early
      · exact more.seated stack source (some final) after others outer kinded.2.2 moreLaid spot later

end

end Seats

/-- A graph that represents a body seats every statement that a block holds. -/
theorem Represents.seated {cfg : ControlFlowGraph} {body : Code} (represents : Represents cfg body)
    (point : Point) {statement : AstNode} (holds : cfg.Holds point statement) :
    Seated cfg statement point := by
  obtain ⟨first, last, spots, lays⟩ := represents.lays
  have here : statement ∈ cfg.statementsOf point.1 := List.mem_of_getElem? holds
  have listed : statement ∈ spots.map Prod.fst := by
    rw [lays.spots_nodes represents.kinded]
    exact represents.places.inside point.1 statement here
  obtain ⟨⟨same, spot⟩, inside, rfl⟩ := List.mem_map.mp listed
  have seated := body.seated [] (first, 0) last spots represents.kinded lays.laid (same, spot) inside
  have there : same ∈ cfg.statementsOf spot.1 := List.mem_of_getElem? seated.holds
  have block := represents.places.once point.1 spot.1 same here there
  have index : point.2 = spot.2 := by
    obtain ⟨bound, found⟩ := List.getElem?_eq_some_iff.mp holds
    have other := seated.holds
    unfold ControlFlowGraph.Holds at other
    rw [← block] at other
    obtain ⟨limit, known⟩ := List.getElem?_eq_some_iff.mp other
    exact (List.Nodup.getElem_inj_iff (represents.places.nodup point.1)).mp (found.trans known.symm)
  rw [show point = spot from Prod.ext block index]
  exact seated

/-- This is the shape that a returned graph keeps. -/
structure BlockShape (cfg : ControlFlowGraph) : Prop where
  endpoints : ∀ edge ∈ cfg.edges, edge.source ∈ cfg.blocks.keys ∧ edge.target ∈ cfg.blocks.keys
  entry : cfg.predecessors .entry = [] ∧ ∃ edge, cfg.successors .entry = [edge]
  exit : cfg.successors .exit = []
  nodup : ∀ block, ((cfg.statementsOf block).map AstNode.nodeId).Nodup
  once : ∀ first second, ∀ left ∈ cfg.statementsOf first, ∀ right ∈ cfg.statementsOf second,
    left.nodeId = right.nodeId → first = second
  last : ∀ block statement index, (cfg.statementsOf block)[index]? = some statement →
    statement.nodeKind.endsBlock = true → index + 1 = (cfg.statementsOf block).length
  label : ∀ block statement index, (cfg.statementsOf block)[index]? = some statement →
    statement.nodeKind = .labelStmt → index = 0
  returns : ∀ block statement, (cfg.statementsOf block).getLast? = some statement →
    statement.nodeKind = .returnStmt →
    cfg.successors block = [⟨block, .exit, .returnEdge, none⟩]

/-- The reading of a body visits nodes of the graph only. -/
theorem reading_present {graph : AstGraph} (wellFormed : graph.WellFormed) {functionNode : AstNode}
    {body : Code}
    (reads : readCode graph (graph.nodes.length + 1) (bodyStatements functionNode graph) = some body) :
    ∀ node ∈ body.nodes, node ∈ graph.nodes := by
  intro node inside
  have covers := (readCode_once wellFormed _ _ _ reads (fun _ => bodyStatements_present)
    (bodyStatements_apart wellFormed functionNode)).2
  obtain ⟨top, listed, under⟩ := covers.2 node inside
  cases under with
  | refl => exact bodyStatements_present listed
  | tail _ child => exact (AstGraph.mem_children child.2).1

/-- A graph that represents a body has the shape. -/
theorem Represents.shape {cfg : ControlFlowGraph} {body : Code} (represents : Represents cfg body)
    (named : ∀ left ∈ body.nodes, ∀ right ∈ body.nodes, left.nodeId = right.nodeId → left = right) :
    BlockShape cfg := by
  have places := represents.places
  have anchored := represents.anchored
  obtain ⟨first, last, spots, lays⟩ := represents.lays
  constructor
  · intro edge inside
    exact ⟨anchored.sources edge inside, (anchored.targets edge inside).1⟩
  · refine ⟨?_, _, lays.entry⟩
    apply List.filter_eq_nil_iff.mpr
    intro edge inside
    simpa using (anchored.targets edge inside).2
  · exact lays.exit
  · intro block
    apply List.Nodup.map_on _ (places.nodup block)
    intro left leftInside right rightInside
    exact named left (places.inside block left leftInside) right (places.inside block right rightInside)
  · intro one other left leftInside right rightInside same
    have equal := named left (places.inside one left leftInside) right
      (places.inside other right rightInside) same
    subst equal
    exact places.once one other left leftInside rightInside
  · intro block statement index holds ends
    exact ((represents.seated (block, index) holds).last ends).symm
  · intro block statement index holds kind
    exact (represents.seated (block, index) holds).first kind
  · intro block statement ending kind
    rw [List.getLast?_eq_getElem?] at ending
    exact (represents.seated (block, _) ending).returns kind

/-- The graph of a function without statements has the shape. -/
theorem Trivial.shape {cfg : ControlFlowGraph} (trivial : Trivial cfg) : BlockShape cfg := by
  constructor
  · simp [trivial.edges, trivial.keys]
  · simp [ControlFlowGraph.predecessors, ControlFlowGraph.successors, trivial.edges]
  · simp [ControlFlowGraph.successors, trivial.edges]
  all_goals simp [trivial.empty]

/-- The engine returns a graph of this shape for every function node over a forest. -/
theorem build_shape {graph : AstGraph} (wellFormed : graph.WellFormed) (functionNode : AstNode) :
    ∃ cfg, build functionNode graph = some cfg ∧ BlockShape cfg := by
  by_cases empty : bodyStatements functionNode graph = []
  · obtain ⟨cfg, built, trivial⟩ := build_trivial functionNode graph empty
    exact ⟨cfg, built, trivial.shape⟩
  · obtain ⟨body, reads, kinded, nodup⟩ := body_reading wellFormed functionNode
    obtain ⟨cfg, built, represents⟩ := build_represents functionNode graph body empty reads kinded nodup
    have present := reading_present wellFormed reads
    refine ⟨cfg, built, represents.shape fun left leftInside right rightInside => ?_⟩
    exact wellFormed.unique (present left leftInside) (present right rightInside)

/-- This is the forest of `f() { return; }`. -/
def returningGraph : AstGraph where
  nodes :=
    [{ nodeId := "f", nodeKind := .functionDecl, childrenIds := ["b"] },
      { nodeId := "b", nodeKind := .compoundStmt, parentId := "f", childrenIds := ["r"] },
      { nodeId := "r", nodeKind := .returnStmt, parentId := "b" }]

theorem returningGraph_wellFormed : returningGraph.WellFormed := by
  apply AstGraph.WellFormed.of_order <;> decide

theorem build_shape_returning :
    ∃ cfg, build { nodeId := "f", nodeKind := .functionDecl, childrenIds := ["b"] } returningGraph =
      some cfg ∧ BlockShape cfg :=
  build_shape returningGraph_wellFormed _

end MisraPlatform
