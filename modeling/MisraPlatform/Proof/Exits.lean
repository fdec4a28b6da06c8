import MisraPlatform.Proof.BodyEnd
import MisraPlatform.Proof.Coverage
import MisraPlatform.Proof.Soundness

/-
This file says which exits of a function the graph knows and where its paths end.
-/

namespace MisraPlatform
open CFGEngine

/-! ### Ends of paths -/

theorem State.EndsBlock.form {state : State} (ends : state.EndsBlock) :
    ∃ lead rest next, state = .run lead .nil (.block rest next) := by
  cases state with
  | left | head => exact ends.elim
  | run lead code next =>
      cases code with
      | nil =>
          cases next with
          | block rest next => exact ⟨lead, rest, next, rfl⟩
          | _ => exact ends.elim
      | _ => exact ends.elim

theorem State.EndsBody.form {state : State} (ends : state.EndsBody) :
    ∃ lead, state = .run lead .nil .stop := by
  cases state with
  | left | head => exact ends.elim
  | run lead code next =>
      cases code with
      | nil =>
          cases next with
          | stop => exact ⟨lead, rfl⟩
          | _ => exact ends.elim
      | _ => exact ends.elim

/-- Control goes no further in the graph. -/
inductive State.Halts (fed : Bool) : State → Prop
  | endsBlock {lead rest next} : Halts fed (.run lead .nil (.block rest next))
  | endsBody {lead} (unfed : fed = false) : Halts fed (.run lead .nil .stop)
  | jumps {lead statement rest next}
      (kind : statement.nodeKind = .breakStmt ∨ statement.nodeKind = .continueStmt)
      (outside : next.breakTarget = none) : Halts fed (.run lead (.simple statement rest) next)

section Halts

variable {cfg : ControlFlowGraph} {resolve : String → BlockId} {fed : Bool} {body : Code}
  {state : State} {point : Point}

/-- Nothing leaves the block, so the next code stands at the same point. -/
theorem flows_here {kind : EdgeKind} {target : BlockId} (flows : cfg.Flows point kind target)
    (alone : cfg.successors point.1 = []) : kind = .fallthrough ∧ point = (target, 0) := by
  obtain here | ⟨_, leaves⟩ := flows
  · exact here
  · rw [alone] at leaves
    exact absurd leaves (by simp)

theorem not_closes {statement : AstNode} {edges : List CFGEdge}
    (closes : cfg.Closes point statement edges) (filled : edges ≠ [])
    (alone : cfg.successors point.1 = []) : False := by
  rw [← closes.2.2] at filled
  exact filled alone

/-- A jump without an edge is a break or a continue outside of every loop and switch. -/
theorem jump_halts {lead rest : Code} {statement : AstNode} {next : Cont}
    (laid : (State.run lead (.simple statement rest) next).Laid cfg resolve fed point)
    (jump : statement.nodeKind.isJump = true) (alone : cfg.successors point.1 = []) :
    (State.run lead (.simple statement rest) next).Halts fed := by
  obtain ⟨stack, last, closes, following⟩ := State.jump_closes laid jump
  have outside : ∀ targets outer, stack = targets :: outer →
      statement.nodeKind = .breakStmt ∨ statement.nodeKind = .continueStmt → False := by
    rintro targets outer rfl kind
    have leaves := closes.2.2
    rw [alone] at leaves
    rcases kind with kind | kind <;> simp [jumpEdges, kind] at leaves
  have open_ : statement.nodeKind = .breakStmt ∨ statement.nodeKind = .continueStmt →
      next.breakTarget = none := by
    intro kind
    obtain ⟨_, missing⟩ | ⟨again, after, outer, _, same, _⟩ := Cont.breakTarget_laid following
    · exact missing
    · exact (outside _ _ same kind).elim
  cases kind : statement.nodeKind with
  | breakStmt => exact .jumps (.inl kind) (open_ (.inl kind))
  | continueStmt => exact .jumps (.inr kind) (open_ (.inr kind))
  | returnStmt => exact (not_closes closes (by simp [jumpEdges, kind]) alone).elim
  | gotoStmt => exact (not_closes closes (by simp [jumpEdges, kind]) alone).elim
  | _ => simp [kind, NodeKind.isJump] at jump

/-- The groups of a switch with a default have an edge. -/
theorem Groups.some_edge {groups : Groups} {stack : LoopStack} {source after : BlockId}
    {previous : Option Point} {edges : List CFGEdge} {spots : List (AstNode × Point)}
    (laid : groups.Laid cfg resolve stack source previous after edges spots)
    (closed : groups.hasDefault = true) : edges ≠ [] := by
  cases groups with
  | nil => simp [Groups.hasDefault] at closed
  | cons label body more =>
      obtain ⟨first, _, _, _, others, _, _, _, _, _, rfl, _, _⟩ := laid
      exact List.cons_ne_nil _ _

/-- Control reads the rest of a block that no edge leaves, and halts there. -/
theorem State.halts (laid : state.Laid cfg resolve fed point) (alone : cfg.successors point.1 = [])
    (inner : point.1 ≠ .exit) :
    ∃ trace last, Walk (Step .engine body) state trace last ∧ last.Halts fed := by
  generalize bound : state.size = size
  induction size using Nat.strongRecOn generalizing state point with
  | _ size ih =>
  subst bound
  have onward : ∀ {next : State} {further : Point}, Step .engine body state next →
      next.Laid cfg resolve fed further → further.1 = point.1 → next.size < state.size →
      ∃ trace last, Walk (Step .engine body) state trace last ∧ last.Halts fed := by
    intro next further taken there same smaller
    obtain ⟨trace, last, walk, halts⟩ := ih _ smaller there (same ▸ alone) (same ▸ inner) rfl
    exact ⟨_, last, Walk.cons taken walk, halts⟩
  cases state with
  | left departure =>
      obtain rfl := laid
      exact absurd rfl inner
  | head statement loopBody rest next fresh =>
      obtain ⟨after, outer, last, start, ⟨edges, inner, spots, closes, _⟩, _⟩ := laid
      have leaves : cfg.successors point.1 = _ := closes.2.2
      rw [alone] at leaves
      exact absurd leaves (by simp)
  | run lead code next =>
      obtain ⟨stack, last, spots, leadLaid, codeLaid, following⟩ := id laid
      cases code with
      | nil =>
          obtain ⟨rfl, _⟩ := codeLaid
          cases next with
          | stop =>
              obtain ⟨_, _, only⟩ := following
              rw [alone, endEdges] at only
              cases fed with
              | false => exact ⟨[], _, .start, .endsBody rfl⟩
              | true => simp at only
          | seq rest next =>
              obtain ⟨join, final, _, flows, restLaid, further⟩ := following
              obtain ⟨_, rfl⟩ := flows_here flows alone
              exact onward .endSeq (State.enter_laid restLaid further) rfl
                (by simp [State.size, State.enter, Code.size, Cont.size])
          | block rest next => exact ⟨[], _, .start, .endsBlock⟩
          | loop statement loopBody rest next =>
              obtain ⟨header, after, outer, final, rfl, flows, _⟩ := following
              exact absurd (flows_here flows alone).1 (by simp)
          | switch switchLead more rest next =>
              obtain ⟨source, after, outer, final, edges, inner, restSpots, front, rfl, moreLaid,
                restLaid, _, further⟩ := following
              cases more with
              | nil =>
                  obtain ⟨_, rfl⟩ := flows_here (moreLaid.2.2 point rfl) alone
                  exact onward .endSwitch (State.enter_laid restLaid further) rfl
                    (by simp [State.size, State.enter, Code.size, Cont.size, Groups.size])
              | cons label body more =>
                  obtain ⟨first, others, deeper, ending, rests, outside, _, _, _, flows⟩ :=
                    Groups.start_laid moreLaid
                  exact absurd (flows_here (flows point rfl) alone).1 (by simp)
      | simple statement rest =>
          by_cases jump : statement.nodeKind.isJump = true
          · exact ⟨[], _, .start, jump_halts laid jump alone⟩
          · have straight : statement.nodeKind.isJump = false := by simpa using jump
            obtain ⟨spot, after, others, simpleLaid, restLaid, _⟩ := codeLaid
            have smaller : ∀ lead', (State.run lead' rest next).size <
                (State.run lead (.simple statement rest) next).size := fun _ => by
              simp [State.size, Code.size]
            by_cases label : statement.nodeKind = .labelStmt
            · obtain ⟨_, flows, start, behind⟩ := SimpleLaid.label label simpleLaid
              obtain ⟨_, here⟩ := flows_here flows alone
              have again : (Code.simple statement rest).Laid cfg resolve stack (spot.1, 0) last _ :=
                ⟨spot, after, others, SimpleLaid.again label simpleLaid, restLaid, rfl⟩
              refine @onward _ after (.simple straight) ⟨stack, last, others, fun _ => ?_,
                restLaid, following⟩ (by rw [behind, here]) (smaller _)
              rw [leadAfter, if_neg jump, leadAt, if_pos label, behind]
              exact ⟨_, again⟩
            · obtain ⟨_, _, behind⟩ := SimpleLaid.plain label straight simpleLaid
              refine @onward _ after (.simple straight) ⟨stack, last, others, fun _ => ?_,
                restLaid, following⟩ (by rw [behind]) (smaller _)
              rw [leadAfter, if_neg jump, leadAt, if_neg label, behind]
              exact leadLaid (by simp [Code.usesLead, label])
      | compound statement inner rest =>
          obtain ⟨first, final, after, innerSpots, outerSpots, flows, innerLaid, dangles, restLaid, _⟩ :=
            codeLaid
          obtain ⟨_, rfl⟩ := flows_here flows alone
          exact onward .compound (State.enter_laid innerLaid
            ⟨dangles, after, last, outerSpots, restLaid, following⟩) rfl
            (by simp [State.size, State.enter, Code.size, Cont.size]; omega)
      | ifStmt statement thenBranch elseBranch rest =>
          obtain ⟨join, thenEdges, elseEdges, _, _, outer, closes, thenLaid, _⟩ := codeLaid
          obtain ⟨target, rfl⟩ := Branch.entry_edge thenLaid
          exact (not_closes closes (by simp) alone).elim
      | loop statement loopBody rest =>
          obtain ⟨header, after, edges, innerSpots, outerSpots, flows, closes, _⟩ := codeLaid
          obtain ⟨_, rfl⟩ := flows_here flows alone
          exact (not_closes closes (by simp) alone).elim
      | switch statement groups rest =>
          obtain ⟨after, edges, inner, outer, closes, groupsLaid, _⟩ := codeLaid
          refine (not_closes closes ?_ alone).elim
          cases closed : groups.hasDefault with
          | false => simp
          | true => simpa using Groups.some_edge groupsLaid closed
      | bareSwitch statement rest =>
          obtain ⟨after, outer, closes, _⟩ := codeLaid
          exact (not_closes closes (by simp) alone).elim

end Halts

/-! ### Exits of a function -/

/-- An edge into the exit from a reachable block stands for the departure. -/
def ControlFlowGraph.LeavesBy (cfg : ControlFlowGraph) : Departure → Prop
  | .returned statement => ∃ block, cfg.Reachable block ∧ statement ∈ cfg.statementsOf block ∧
      ⟨block, .exit, .returnEdge, none⟩ ∈ cfg.edges
  | .jumped statement => ∃ block, cfg.Reachable block ∧ statement ∈ cfg.statementsOf block ∧
      ⟨block, .exit, .gotoEdge, some (targetLabel statement)⟩ ∈ cfg.edges
  | .fellOff => ∃ edge ∈ cfg.edges, cfg.Reachable edge.source ∧ edge.target = .exit ∧
      (edge.kind = .implicitReturn ∨ edge.kind = .fallthrough)

/-- Every break and every continue stands in a loop or a switch. -/
def Code.JumpsEnclosed (body : Code) : Prop :=
  ∀ statement lead rest next,
    (statement, .run lead (.simple statement rest) next) ∈ body.positions body .stop →
    statement.nodeKind = .breakStmt ∨ statement.nodeKind = .continueStmt → next.breakTarget ≠ none

/-- No path of the graph ends before the exit. -/
def ControlFlowGraph.GoesOn (cfg : ControlFlowGraph) : Prop :=
  ∀ block, cfg.Reachable block → block ≠ .exit → cfg.successors block ≠ []

section Represents

variable {cfg : ControlFlowGraph} {body : Code} (represents : Represents cfg body)

include represents

/-- A run that the engine follows leaves by an edge, at the end of the body if the end is fed. -/
theorem Represents.leavesBy {trace : List AstNode} {departure : Departure}
    (walk : Walk (FollowedStep body) (.start body) trace (.left departure))
    (fed : departure = .fellOff → body.EndFed) : cfg.LeavesBy departure := by
  obtain ⟨first, last, spots, lays⟩ := represents.lays
  have narrow := fun state target (taken : FollowedStep body state target) => taken.engine
  obtain ⟨before, state, walked, _, at_, _⟩ := walk.leaves represents.kinded narrow
  have stays : state ≠ .left .fellOff := by
    rintro rfl
    nomatch at_
  obtain ⟨point, laid, reachable⟩ := walk_reachable lays represents.kinded
    (fun _ _ taken => ⟨narrow _ _ taken.1, fun fell => absurd fell taken.2⟩)
    (walk_inside narrow walked stays)
  have listed : ∀ {edge : CFGEdge}, cfg.successors point.1 = [edge] → edge ∈ cfg.edges := by
    intro edge alone
    exact (ControlFlowGraph.mem_successors.mp (alone ▸ List.mem_singleton_self edge)).1
  cases at_ with
  | returned kind =>
      obtain ⟨stack, _, closes, _⟩ := State.jump_closes laid (by rw [kind]; rfl)
      refine ⟨point.1, reachable, List.mem_of_getElem? closes.1, listed ?_⟩
      rw [closes.2.2, jumpEdges, kind]
  | @jumped lead statement rest next kind missing =>
      obtain ⟨stack, _, closes, _⟩ := State.jump_closes laid (by rw [kind]; rfl)
      refine ⟨point.1, reachable, List.mem_of_getElem? closes.1, listed ?_⟩
      obtain ⟨_, away⟩ | ⟨_, _, found, _⟩ := lays.resolves represents.kinded (targetLabel statement)
      · rw [closes.2.2]
        simp only [jumpEdges, kind, away]
      · rw [missing] at found
        exact absurd found (by simp)
  | fellOff =>
      obtain ⟨_, _, _, _, ⟨rfl, _⟩, _, _, only⟩ := laid
      rw [body.fed_iff.mpr (fed rfl), endEdges, if_pos rfl] at only
      exact ⟨_, listed only, reachable, rfl, .inl rfl⟩

/-- The graph goes on everywhere exactly when the engine reading never comes to the brace of a bare
block or to an end that is not fed. -/
theorem Represents.goesOn_iff (enclosed : body.JumpsEnclosed) :
    cfg.GoesOn ↔ ∀ state, Reading.engine.Gets body state →
      ¬ state.EndsBlock ∧ (state.EndsBody → body.EndFed) := by
  obtain ⟨first, last, spots, lays⟩ := represents.lays
  constructor
  · rintro onward state ⟨trace, walk⟩
    have located : state ≠ .left .fellOff → ∃ point : Point,
        state.Laid cfg (spotBlock spots) body.fed point ∧ cfg.Reachable point.1 := by
      intro stays
      exact walk_reachable lays represents.kinded
        (fun _ _ taken => ⟨taken.1, fun fell => absurd fell taken.2⟩)
        (walk_inside (fun _ _ => id) walk stays)
    refine ⟨fun ends => ?_, fun ends => ?_⟩
    · obtain ⟨lead, rest, next, rfl⟩ := ends.form
      obtain ⟨point, laid, reachable⟩ := located (by simp)
      obtain ⟨_, _, _, _, ⟨rfl, _, away, _⟩, dangles, _⟩ := laid
      exact onward point.1 reachable away dangles.2
    · obtain ⟨lead, rfl⟩ := ends.form
      obtain ⟨point, laid, reachable⟩ := located (by simp)
      obtain ⟨_, _, _, _, ⟨rfl, _, away, _⟩, _, _, only⟩ := laid
      rw [← body.fed_iff]
      by_contra unfed
      rw [endEdges, if_neg unfed] at only
      exact onward point.1 reachable away only
  · intro clear block reachable away alone
    obtain ⟨edges, left, path⟩ := (ControlFlowGraph.reachable_iff_path block).mp reachable
    have inner : block ≠ .entry := by
      rintro rfl
      rw [lays.entry] at alone
      exact absurd alone (by simp)
    obtain ⟨state, walk, laid, _⟩ := path_walk lays represents.kinded represents.anchored path inner
    obtain ⟨trace, final, further, halts⟩ := @State.halts _ _ _ body _ _ laid alone away
    have whole := walk.trans further
    have gets : Reading.engine.Gets body final := ⟨_, whole⟩
    cases halts with
    | endsBlock => exact (clear _ gets).1 trivial
    | endsBody unfed =>
        have fed := body.fed_iff.mpr ((clear _ gets).2 trivial)
        rw [unfed] at fed
        exact Bool.false_ne_true fed
    | @jumps lead statement rest next kind outside =>
        have placed := walk_placed (fun _ _ taken => taken) whole
        have current : (State.run lead (.simple statement rest) next).current = some statement := rfl
        obtain ⟨position, inside, alike⟩ := placed.position current
        cases position with
        | run other code following =>
            obtain ⟨rfl, rfl⟩ := alike
            exact enclosed _ _ _ _ inside kind outside
        | head | left => exact alike.elim

end Represents

/-- A function without statements is left by its one edge. -/
theorem Trivial.exits {cfg : ControlFlowGraph} (trivial : Trivial cfg) :
    cfg.LeavesBy .fellOff ∧ cfg.GoesOn := by
  have only : (⟨.entry, .exit, .fallthrough, none⟩ : CFGEdge) ∈ cfg.edges := by
    rw [trivial.edges]
    exact List.mem_singleton.mpr rfl
  refine ⟨⟨_, only, .refl, rfl, .inr rfl⟩, fun block reachable away alone => ?_⟩
  have ends : block = .entry ∨ block = .exit := by
    induction reachable with
    | refl => exact .inl rfl
    | tail _ arrow _ =>
        obtain ⟨edge, inside, same⟩ := List.mem_map.mp arrow
        rw [trivial.edges, List.mem_singleton] at inside
        rw [inside] at same
        exact .inr (Prod.mk.inj same).2.symm
  obtain rfl := ends.resolve_right away
  have leaves := ControlFlowGraph.mem_successors.mpr ⟨only, rfl⟩
  rw [alone] at leaves
  exact List.not_mem_nil leaves

/-- A run that the engine follows leaves the function by an edge of the graph, at the end of the body
if the end is fed. No path of the graph ends early exactly when the engine reading stays clear of bare
braces and of an end that is not fed. -/
theorem exits_complete {graph : AstGraph} (wellFormed : graph.WellFormed) (functionNode : AstNode)
    (body : Code) (layout : FunctionBody graph functionNode body) (enclosed : body.JumpsEnclosed) :
    ∃ cfg, build functionNode graph = some cfg ∧
      (∀ trace departure, Run (FollowedStep body) (.start body) trace (.left departure) →
        (departure = .fellOff → body.EndFed) → cfg.LeavesBy departure) ∧
      (cfg.GoesOn ↔ ∀ state, Reading.engine.Gets body state →
        ¬ state.EndsBlock ∧ (state.EndsBody → body.EndFed)) := by
  obtain ⟨reads, kinded, nodup⟩ := layout.reading wellFormed
  by_cases empty : bodyStatements functionNode graph = []
  · obtain ⟨cfg, built, trivial⟩ := build_trivial functionNode graph empty
    rw [empty] at reads
    cases reads
    have nothing : ∀ {reading : Reading} {trace : List AstNode} {state : State},
        Walk (Step reading .nil) (.start .nil) trace state →
        state = .start .nil ∨ state = .left .fellOff := by
      intro reading trace state walk
      induction walk with
      | start => exact .inl rfl
      | step _ taken ih =>
          rcases ih with rfl | rfl
          · cases taken
            exact .inr rfl
          · cases taken
    refine ⟨cfg, built, fun trace departure run _ => ?_, iff_of_true trivial.exits.2 ?_⟩
    · obtain ⟨left, walk, _⟩ := run_iff_walk.mp run
      rcases nothing (walk.mono fun _ _ taken => taken.engine) with other | same
      · exact State.noConfusion other
      · obtain rfl := State.left.inj same
        exact trivial.exits.1
    · rintro state ⟨trace, walk⟩
      rcases nothing walk with rfl | rfl
      · exact ⟨id, fun _ => rfl⟩
      · exact ⟨id, fun ends => ends.elim⟩
  · obtain ⟨cfg, built, represents⟩ := build_represents functionNode graph body empty reads kinded nodup
    refine ⟨cfg, built, fun trace departure run fed => ?_, represents.goesOn_iff enclosed⟩
    obtain ⟨left, walk, _⟩ := run_iff_walk.mp run
    exact represents.leavesBy walk fed

/-! ### An end behind a goto -/

/-- These are the nodes of `f() { goto end; return; end: x(); }`. -/
def skippingFunction : AstNode := { nodeId := "f", nodeKind := .functionDecl, childrenIds := ["b"] }

def skippingGoto : AstNode :=
  { nodeId := "g", nodeKind := .gotoStmt, parentId := "b",
    semanticProperties := [("target_label", "end")] }

def skippingReturn : AstNode := { nodeId := "r", nodeKind := .returnStmt, parentId := "b" }

def skippingLabel : AstNode :=
  { nodeId := "l", nodeKind := .labelStmt, parentId := "b", semanticProperties := [("name", "end")] }

def skippingCall : AstNode := { nodeId := "x", nodeKind := .callExpr, parentId := "b" }

def skippingGraph : AstGraph where
  nodes :=
    [skippingFunction,
      { nodeId := "b", nodeKind := .compoundStmt, parentId := "f", childrenIds := ["g", "r", "l", "x"] },
      skippingGoto, skippingReturn, skippingLabel, skippingCall]

def skippingBody : Code :=
  .simple skippingGoto (.simple skippingReturn (.simple skippingLabel (.simple skippingCall .nil)))

theorem skippingGraph_wellFormed : skippingGraph.WellFormed := by
  apply AstGraph.WellFormed.of_order <;> decide

theorem skippingGraph_layout : FunctionBody skippingGraph skippingFunction skippingBody :=
  ⟨_, by decide, rfl, _, rfl, rfl, _, rfl, rfl, _, rfl, rfl, rfl⟩

theorem skipping_enclosed : skippingBody.JumpsEnclosed := by
  intro statement lead rest next inside kind
  have listed : statement ∈ skippingBody.nodes := by
    rw [← skippingBody.positions_nodes skippingBody .stop]
    exact List.mem_map_of_mem (f := Prod.fst) inside
  have none_ : ∀ node ∈ skippingBody.nodes,
      ¬ (node.nodeKind = .breakStmt ∨ node.nodeKind = .continueStmt) := by decide
  exact absurd kind (none_ statement listed)

/-- Control jumps over the return and falls off the end. -/
theorem skipping_fallsOff : ∃ trace, Executes skippingBody trace (.left .fellOff) := by
  have found : skippingBody.resolve (targetLabel skippingGoto) =
      some (.enter (.simple skippingLabel (.simple skippingCall .nil)) .stop) := by decide
  have jumps : Step .c skippingBody (.start skippingBody)
      (.enter (.simple skippingLabel (.simple skippingCall .nil)) .stop) := .gotoStmt rfl found
  have labelled := (Run.step .start jumps).step (Step.simple rfl)
  have called := labelled.step (Step.simple rfl)
  exact ⟨_, called.step Step.fallOff⟩

/-- The graph has no edge for the end, and the block of the label is reachable and leads nowhere. -/
theorem skipping_lost : (∃ trace, Executes skippingBody trace (.left .fellOff)) ∧
    ∃ cfg, build skippingFunction skippingGraph = some cfg ∧ ¬ cfg.LeavesBy .fellOff ∧
      ¬ cfg.GoesOn := by
  have written : (build skippingFunction skippingGraph).map (fun cfg => (cfg.edges,
      decide (.block 3 ∈ cfg.reachableBlocks))) =
      some ([⟨.block 2, .exit, .returnEdge, none⟩, ⟨.entry, .block 1, .fallthrough, none⟩,
        ⟨.block 1, .block 3, .gotoEdge, some "end"⟩], true) := by decide
  obtain ⟨cfg, built, same⟩ := Option.map_eq_some_iff.mp written
  obtain ⟨edges, reached⟩ := Prod.mk.inj same
  refine ⟨skipping_fallsOff, cfg, built, ?_, fun onward => ?_⟩
  · rintro ⟨edge, inside, _, leaves, kind⟩
    rw [edges] at inside
    have other : ∀ edge ∈ ([⟨.block 2, .exit, .returnEdge, none⟩,
        ⟨.entry, .block 1, .fallthrough, none⟩, ⟨.block 1, .block 3, .gotoEdge, some "end"⟩] :
          List CFGEdge), edge.target = .exit →
        ¬ (edge.kind = .implicitReturn ∨ edge.kind = .fallthrough) := by decide
    exact other edge inside leaves kind
  · have reachable := (cfg.mem_reachableBlocks _).mp (of_decide_eq_true reached)
    refine onward (.block 3) reachable (by simp) ?_
    rw [ControlFlowGraph.successors, edges]
    decide

/-- Both halves hold of the end behind the goto. -/
theorem exits_complete_skipping :
    ∃ cfg, build skippingFunction skippingGraph = some cfg ∧
      (∀ trace departure, Run (FollowedStep skippingBody) (.start skippingBody) trace (.left departure) →
        (departure = .fellOff → skippingBody.EndFed) → cfg.LeavesBy departure) ∧
      (cfg.GoesOn ↔ ∀ state, Reading.engine.Gets skippingBody state →
        ¬ state.EndsBlock ∧ (state.EndsBody → skippingBody.EndFed)) :=
  exits_complete skippingGraph_wellFormed skippingFunction skippingBody skippingGraph_layout
    skipping_enclosed

end MisraPlatform
