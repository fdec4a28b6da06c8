import MisraPlatform.Proof.Coverage
import MisraPlatform.Proof.PathSimulation

/-
This file says where the breaks and continues of a body lead in the graph.
-/

namespace MisraPlatform
open CFGEngine

/-! ### Straight code before a switch -/

/-- A switch stands behind simple statements, so a simple statement or the switch comes first. -/
def Code.LeadsSwitch : Code → Prop
  | .simple statement _ => statement.nodeKind.isSimple = true
  | .switch statement _ _ => statement.nodeKind = .switchStmt
  | _ => False

/-- The straight code of every switch around a place leads to that switch. -/
def Cont.LeadSwitches : Cont → Prop
  | .stop => True
  | .seq _ next | .block _ next | .loop _ _ _ next => next.LeadSwitches
  | .switch lead _ _ next => lead.LeadsSwitch ∧ next.LeadSwitches

def State.LeadSwitches : State → Prop
  | .run _ _ next | .head _ _ _ next _ => next.LeadSwitches
  | .left _ => True

/-- The lead of a list is the list or begins with a simple statement. -/
def Code.Ahead (lead code : Code) : Prop :=
  lead = code ∨ ∃ statement rest, lead = .simple statement rest ∧ statement.nodeKind.isSimple = true

theorem Code.Ahead.after {lead rest : Code} {statement : AstNode}
    (ahead : lead.Ahead (.simple statement rest)) (simple : statement.nodeKind.isSimple = true) :
    (leadAfter lead statement rest).Ahead rest := by
  unfold leadAfter leadAt
  split
  · exact .inl rfl
  · split
    · exact .inr ⟨statement, rest, rfl, simple⟩
    · rcases ahead with rfl | first
      · exact .inr ⟨statement, rest, rfl, simple⟩
      · exact .inr first

theorem Code.Ahead.switch {lead rest : Code} {statement : AstNode} {groups : Groups}
    (ahead : lead.Ahead (.switch statement groups rest)) (kind : statement.nodeKind = .switchStmt) :
    lead.LeadsSwitch := by
  rcases ahead with rfl | ⟨first, others, rfl, simple⟩
  · exact kind
  · exact simple

mutual

theorem Code.positions_lead : ∀ (code lead : Code) (next : Cont), code.Kinded → lead.Ahead code →
    next.LeadSwitches → ∀ position ∈ code.positions lead next, position.2.LeadSwitches
  | .nil, _, _, _, _, _, _, inside => absurd inside List.not_mem_nil
  | .simple statement rest, lead, next, kinded, ahead, outer, position, inside => by
      rcases List.mem_cons.mp inside with rfl | later
      · exact outer
      · exact rest.positions_lead _ next kinded.2 (ahead.after kinded.1) outer position later
  | .compound _ body rest, _, next, kinded, _, outer, position, inside => by
      rcases List.mem_append.mp inside with early | later
      · exact body.positions_lead body (.block rest next) kinded.2.1 (.inl rfl) outer position early
      · exact rest.positions_lead rest next kinded.2.2 (.inl rfl) outer position later
  | .ifStmt _ thenBranch elseBranch rest, _, next, kinded, _, outer, position, inside => by
      simp only [Code.positions, List.cons_append, List.mem_cons, List.mem_append] at inside
      rcases inside with rfl | (first | second) | later
      · exact outer
      · exact thenBranch.positions_lead (.seq rest next) kinded.2.1 outer position first
      · exact elseBranch.positions_lead (.seq rest next) kinded.2.2.1 outer position second
      · exact rest.positions_lead rest next kinded.2.2.2 (.inl rfl) outer position later
  | .loop statement body rest, _, next, kinded, _, outer, position, inside => by
      simp only [Code.positions, List.cons_append, List.mem_cons, List.mem_append] at inside
      rcases inside with rfl | first | later
      · exact outer
      · exact body.positions_lead (.loop statement body rest next) kinded.2.1 outer position first
      · exact rest.positions_lead rest next kinded.2.2 (.inl rfl) outer position later
  | .switch _ groups rest, lead, next, kinded, ahead, outer, position, inside => by
      simp only [Code.positions, List.cons_append, List.mem_cons, List.mem_append] at inside
      rcases inside with rfl | first | later
      · exact outer
      · exact groups.positions_lead lead rest next kinded.2.1 (ahead.switch kinded.1) outer position first
      · exact rest.positions_lead rest next kinded.2.2 (.inl rfl) outer position later
  | .bareSwitch _ rest, _, next, kinded, _, outer, position, inside => by
      rcases List.mem_cons.mp inside with rfl | later
      · exact outer
      · exact rest.positions_lead rest next kinded.2 (.inl rfl) outer position later

theorem Branch.positions_lead : ∀ (branch : Branch) (next : Cont), branch.Kinded → next.LeadSwitches →
    ∀ position ∈ branch.positions next, position.2.LeadSwitches
  | .absent, _, _, _, _, inside => absurd inside List.not_mem_nil
  | .present body, next, kinded, outer, position, inside =>
      body.positions_lead body next kinded (.inl rfl) outer position inside

theorem Groups.positions_lead : ∀ (groups : Groups) (lead rest : Code) (next : Cont), groups.Kinded →
    lead.LeadsSwitch → next.LeadSwitches →
    ∀ position ∈ groups.positions lead rest next, position.2.LeadSwitches
  | .nil, _, _, _, _, _, _, _, inside => absurd inside List.not_mem_nil
  | .cons label body more, lead, rest, next, kinded, leads, outer, position, inside => by
      simp only [Groups.positions, List.cons_append, List.mem_cons, List.mem_append] at inside
      rcases inside with rfl | first | later
      · exact ⟨leads, outer⟩
      · exact body.positions_lead _ (.switch lead more rest next) kinded.2.1
          (Code.Ahead.after (.inl rfl) (isCaseLabel_simple kinded.1)) ⟨leads, outer⟩ position first
      · exact more.positions_lead lead rest next kinded.2.2 leads outer position later

end

/-! ### The innermost loop and switch -/

/-- This is the innermost loop around a place. -/
def Cont.innermostLoop : Cont → Option AstNode
  | .stop => none
  | .seq _ next | .block _ next | .switch _ _ _ next => next.innermostLoop
  | .loop statement _ _ _ => some statement

theorem Cont.Placed.innermostLoop {all : List (AstNode × State)} {next : Cont} {loop : AstNode}
    (placed : next.Placed all) (innermost : next.innermostLoop = some loop) :
    ∃ inner rest outer fresh, (loop, .head loop inner rest outer fresh) ∈ all := by
  induction next with
  | stop => simp [Cont.innermostLoop] at innermost
  | seq rest next ih => exact ih placed.2 innermost
  | block rest next ih => exact ih placed.2 innermost
  | loop statement body rest next =>
      obtain rfl := Option.some.inj innermost
      exact ⟨_, _, _, _, placed.1⟩
  | switch lead more rest next ih => exact ih placed.2.2.2 innermost

section Targets

variable {cfg : ControlFlowGraph} {resolve : String → BlockId} {fed : Bool} {stack : LoopStack}
  {last : Point} {next : Cont}

/-- A loop is the innermost pair of targets, its header and the block behind its exit edge. -/
theorem Cont.Laid.loop_targets (laid : next.Laid cfg resolve fed stack last)
    (direct : next.underSwitch = false) {loop : AstNode} (innermost : next.innermostLoop = some loop) :
    ∃ header after outer, stack = (header, after) :: outer ∧ loop ∈ cfg.statementsOf header ∧
      ⟨header, after, .falseEdge, none⟩ ∈ cfg.edges := by
  induction next generalizing stack last with
  | stop => simp [Cont.innermostLoop] at innermost
  | seq rest next ih =>
      obtain ⟨_, final, _, _, _, following⟩ := laid
      exact ih following direct innermost
  | block rest next ih =>
      obtain ⟨_, _, final, _, _, following⟩ := laid
      exact ih following direct innermost
  | loop statement body rest next =>
      obtain rfl := Option.some.inj innermost
      obtain ⟨header, after, outer, _, same, _, ⟨edges, _, _, closes, _⟩, _⟩ := laid
      refine ⟨header, after, outer, same, List.mem_of_getElem? closes.1, ?_⟩
      have leaves : (⟨header, after, .falseEdge, none⟩ : CFGEdge) ∈ cfg.successors header := by
        rw [show cfg.successors header = _ from closes.2.2]
        exact List.mem_append_right _ (List.mem_singleton.mpr rfl)
      exact (ControlFlowGraph.mem_successors.mp leaves).1
  | switch => simp [Cont.underSwitch] at direct

/-- Straight code that leads to a switch does not begin with a loop. -/
theorem Code.LeadsSwitch.other {lead : Code} {outer : LoopStack} {source : BlockId}
    {final : Point} {spots : List (AstNode × Point)} (leads : lead.LeadsSwitch)
    (laid : lead.Laid cfg resolve outer (source, 0) final spots) {loop : AstNode}
    (kind : loop.nodeKind.isLoop = true) : cfg.statementsOf source ≠ [loop] := by
  intro only
  have begins : ∀ statement, cfg.Holds (source, 0) statement → statement = loop := by
    intro statement holds
    have first : (cfg.statementsOf source)[0]? = some statement := holds
    rw [only] at first
    exact (Option.some.inj first).symm
  cases lead with
  | simple statement rest =>
      obtain ⟨spot, after, others, simpleLaid, _⟩ := laid
      have simple : statement.nodeKind.isSimple = true := leads
      have same : statement = loop := by
        by_cases label : statement.nodeKind = .labelStmt
        · obtain ⟨holds, flows, start, _⟩ := SimpleLaid.label label simpleLaid
          obtain ⟨_, here⟩ | ⟨ends, _⟩ := flows
          · rw [start, ← here] at holds
            exact begins statement holds
          · have empty : (cfg.statementsOf source).length = 0 := ends
            simp [only] at empty
        · have placed := simpleLaid.2
          rw [if_neg label] at placed
          exact begins statement (placed.1 ▸ simpleLaid.1)
      rw [same] at simple
      rcases (isLoop_iff _).mp kind with loops | loops | loops <;>
        simp [loops, NodeKind.isSimple] at simple
  | switch statement groups rest =>
      obtain ⟨after, edges, inner, outside, closes, _⟩ := laid
      have switch : statement.nodeKind = .switchStmt := leads
      rw [begins statement closes.1] at switch
      simp [switch, NodeKind.isLoop] at kind
  | nil | compound | ifStmt | loop | bareSwitch => exact leads.elim

/-- Under a switch the innermost pair of targets belongs to the switch. -/
theorem Cont.Laid.switch_targets (laid : next.Laid cfg resolve fed stack last)
    (leads : next.LeadSwitches) (under : next.underSwitch = true) {loop : AstNode}
    (kind : loop.nodeKind.isLoop = true) :
    ∃ source after outer, stack = (source, after) :: outer ∧ cfg.statementsOf source ≠ [loop] := by
  induction next generalizing stack last with
  | stop => simp [Cont.underSwitch] at under
  | seq rest next ih =>
      obtain ⟨_, final, _, _, _, following⟩ := laid
      exact ih following leads under
  | block rest next ih =>
      obtain ⟨_, _, final, _, _, following⟩ := laid
      exact ih following leads under
  | loop => simp [Cont.underSwitch] at under
  | switch lead more rest next =>
      obtain ⟨source, after, outer, _, _, _, _, _, same, _, _, leadLaid, _⟩ := laid
      exact ⟨source, after, outer, same, leads.1.other leadLaid kind⟩

end Targets

/-! ### Jumps -/

/-- From the block on, the graph lays out what control does from the state on. -/
def ControlFlowGraph.Continues (cfg : ControlFlowGraph) (body : Code) (block : BlockId) (state : State) :
    Prop :=
  ∃ first last spots, LaysOut cfg body body.fed first last spots ∧
    state.Laid cfg (spotBlock spots) body.fed (block, 0)

/-- A break leads to what follows the innermost loop or switch, which behind a loop is the target of
its exit edge. A continue leads to the header of the innermost loop. -/
structure JumpsRight (cfg : ControlFlowGraph) (body : Code) : Prop where
  breaks : ∀ statement lead rest next target,
    (statement, .run lead (.simple statement rest) next) ∈ body.positions body .stop →
    statement.nodeKind = .breakStmt → next.breakTarget = some target →
    ∃ source after, statement ∈ cfg.statementsOf source ∧
      ⟨source, after, .breakEdge, none⟩ ∈ cfg.edges ∧ cfg.Continues body after target ∧
      ∀ loop, next.underSwitch = false → next.innermostLoop = some loop → ∃ header,
        loop ∈ cfg.statementsOf header ∧ ⟨header, after, .falseEdge, none⟩ ∈ cfg.edges
  continues : ∀ statement lead rest next loop,
    (statement, .run lead (.simple statement rest) next) ∈ body.positions body .stop →
    statement.nodeKind = .continueStmt → next.innermostLoop = some loop →
    ∃ source header, statement ∈ cfg.statementsOf source ∧ loop ∈ cfg.statementsOf header ∧
      ⟨source, header, .continueEdge, none⟩ ∈ cfg.edges

/-- No switch stands between a continue and its loop. -/
def ContinuesDirect (body : Code) : Prop :=
  ∀ statement lead rest next,
    (statement, .run lead (.simple statement rest) next) ∈ body.positions body .stop →
    statement.nodeKind = .continueStmt → next.innermostLoop ≠ none → next.underSwitch = false

section Represents

variable {cfg : ControlFlowGraph} {body : Code}

/-- A jump stands in one block and has the edge of its place. -/
theorem jump_edge {first : BlockId} {final : Point} {spots : List (AstNode × Point)}
    (lays : LaysOut cfg body body.fed first final spots) (kinded : body.Kinded) {statement : AstNode}
    {lead rest : Code} {next : Cont}
    (inside : (statement, .run lead (.simple statement rest) next) ∈ body.positions body .stop)
    (jump : statement.nodeKind.isJump = true) :
    ∃ source stack last, statement ∈ cfg.statementsOf source ∧
      cfg.successors source = jumpEdges (spotBlock spots) stack statement source ∧
      next.Laid cfg (spotBlock spots) body.fed stack last := by
  obtain ⟨point, seated, matched⟩ := lays.spot kinded inside
  obtain ⟨stack, last, closes, following⟩ := State.jump_closes matched.laid jump
  exact ⟨point.1, stack, last, List.mem_of_getElem? seated.holds, closes.2.2, following⟩

/-- A continue of a graph leads to the loop exactly when no switch is in between. -/
theorem Represents.jumps_iff (represents : Represents cfg body) :
    JumpsRight cfg body ↔ ContinuesDirect body := by
  obtain ⟨first, final, spots, lays⟩ := represents.lays
  have edges : ∀ {source : BlockId} {edge : CFGEdge} {others : List CFGEdge},
      cfg.successors source = edge :: others → edge ∈ cfg.edges := by
    intro source edge others same
    exact (ControlFlowGraph.mem_successors.mp (same ▸ List.mem_cons_self)).1
  constructor
  · intro right statement lead rest next inside kind enclosed
    by_contra under
    obtain ⟨loop, innermost⟩ := Option.ne_none_iff_exists'.mp enclosed
    obtain ⟨source, header, held, heads, edge⟩ :=
      right.continues statement lead rest next loop inside kind innermost
    obtain ⟨other, stack, last, here, leaves, following⟩ :=
      jump_edge lays represents.kinded inside (by rw [kind]; rfl)
    obtain rfl := represents.places.once source other statement held here
    have placed := body.positions_placed body .stop (List.Subset.refl _) (List.Subset.refl _) trivial _
      inside
    obtain ⟨inner, after, outer, fresh, loops⟩ := placed.2.2.innermostLoop innermost
    have fits := (body.positions_fitting body .stop represents.kinded _ loops).2
    obtain ⟨point, seated, matched⟩ := lays.spot represents.kinded loops
    obtain ⟨_, _, _, _, ⟨_, _, _, closes, _⟩, _⟩ := matched.laid
    obtain rfl := represents.places.once header point.1 loop heads (List.mem_of_getElem? seated.holds)
    have leads := body.positions_lead body .stop represents.kinded (.inl rfl) trivial _ inside
    obtain ⟨again, _, _, rfl, differs⟩ :=
      following.switch_targets leads (by simpa using under) (show loop.nodeKind.isLoop = true from fits)
    have listed := ControlFlowGraph.mem_successors.mpr ⟨edge, rfl⟩
    simp only [leaves, jumpEdges, kind, List.head?_cons, Option.toList_some, List.map_cons,
      List.map_nil, List.mem_singleton, CFGEdge.mk.injEq, true_and, and_true] at listed
    subst listed
    exact differs (drop_of_closes closes)
  · intro direct
    refine ⟨fun statement lead rest next target inside kind enclosed => ?_,
      fun statement lead rest next loop inside kind innermost => ?_⟩
    · obtain ⟨source, stack, last, held, leaves, following⟩ :=
        jump_edge lays represents.kinded inside (by rw [kind]; rfl)
      obtain ⟨again, after, outer, rfl, there⟩ := Cont.breakTarget_laid' following enclosed
      have alone : cfg.successors source = [⟨source, after, .breakEdge, none⟩] := by
        simp [leaves, jumpEdges, kind]
      refine ⟨source, after, held, edges alone, ⟨first, final, spots, lays, there⟩, ?_⟩
      intro loop straight innermost
      obtain ⟨header, behind, outside, same, heads, exits⟩ :=
        following.loop_targets straight innermost
      obtain ⟨pair, _⟩ := List.cons.inj same
      obtain ⟨_, rfl⟩ := Prod.mk.inj pair
      exact ⟨header, heads, exits⟩
    · obtain ⟨source, stack, last, held, leaves, following⟩ :=
        jump_edge lays represents.kinded inside (by rw [kind]; rfl)
      have straight := direct statement lead rest next inside kind (by simp [innermost])
      obtain ⟨header, after, outer, rfl, heads, _⟩ := following.loop_targets straight innermost
      have alone : cfg.successors source = [⟨source, header, .continueEdge, none⟩] := by
        simp [leaves, jumpEdges, kind]
      exact ⟨source, header, held, heads, edges alone⟩

end Represents

/-- A function over a forest sends its jumps to the right places exactly when no switch stands
between a continue and its loop. -/
theorem build_jumps_iff {graph : AstGraph} (wellFormed : graph.WellFormed) (functionNode : AstNode) :
    ∃ cfg body, Reads graph functionNode cfg body ∧ (JumpsRight cfg body ↔ ContinuesDirect body) := by
  obtain ⟨cfg, body, reads⟩ := build_reads wellFormed functionNode
  refine ⟨cfg, body, reads, ?_⟩
  obtain ⟨other, read, kinded, nodup⟩ := body_reading wellFormed functionNode
  obtain rfl := Option.some.inj (read.symm.trans reads.read)
  by_cases empty : bodyStatements functionNode graph = []
  · rw [empty] at read
    cases read
    exact ⟨fun _ _ _ _ _ inside => absurd inside List.not_mem_nil, fun _ =>
      ⟨fun _ _ _ _ _ inside => absurd inside List.not_mem_nil,
        fun _ _ _ _ _ inside => absurd inside List.not_mem_nil⟩⟩
  · obtain ⟨twin, built, represents⟩ := build_represents functionNode graph other empty read kinded nodup
    cases built.symm.trans reads.built
    exact represents.jumps_iff

/-! ### A continue under a switch -/

/-- These are the nodes of `f() { while (c) switch (d) { case 1: continue; } }`. -/
def steeredFunction : AstNode := { nodeId := "f", nodeKind := .functionDecl, childrenIds := ["b"] }

def steeredLoop : AstNode :=
  { nodeId := "w", nodeKind := .whileStmt, parentId := "b", childrenIds := ["c", "s"] }

def steeredSwitch : AstNode :=
  { nodeId := "s", nodeKind := .switchStmt, parentId := "w", childrenIds := ["d", "g"] }

def steeredContinue : AstNode := { nodeId := "n", nodeKind := .continueStmt, parentId := "g" }

def steeredGraph : AstGraph where
  nodes :=
    [steeredFunction, { nodeId := "b", nodeKind := .compoundStmt, parentId := "f", childrenIds := ["w"] },
      steeredLoop, { nodeId := "c", nodeKind := .declRefExpr, parentId := "w" }, steeredSwitch,
      { nodeId := "d", nodeKind := .declRefExpr, parentId := "s" },
      { nodeId := "g", nodeKind := .compoundStmt, parentId := "s", childrenIds := ["k", "n"] },
      { nodeId := "k", nodeKind := .caseStmt, parentId := "g" }, steeredContinue]

theorem steeredGraph_wellFormed : steeredGraph.WellFormed := by
  apply AstGraph.WellFormed.of_order <;> decide

/-- The continue goes back to the switch, and the header of the loop is another block. -/
theorem steeredContinue_wrong :
    ∃ cfg source target, build steeredFunction steeredGraph = some cfg ∧
      cfg.statementsOf source = [{ nodeId := "k", nodeKind := .caseStmt, parentId := "g" },
        steeredContinue] ∧
      cfg.successors source = [⟨source, target, .continueEdge, none⟩] ∧
      cfg.statementsOf target = [steeredSwitch] ∧ steeredLoop ∉ cfg.statementsOf target := by
  have written : (build steeredFunction steeredGraph).map (fun cfg => (cfg.statementsOf (.block 6),
      cfg.successors (.block 6), cfg.statementsOf (.block 4))) =
      some ([{ nodeId := "k", nodeKind := .caseStmt, parentId := "g" }, steeredContinue],
        [⟨.block 6, .block 4, .continueEdge, none⟩], [steeredSwitch]) := by decide
  obtain ⟨cfg, built, same⟩ := Option.map_eq_some_iff.mp written
  obtain ⟨here, rest⟩ := Prod.mk.inj same
  obtain ⟨leaves, there⟩ := Prod.mk.inj rest
  refine ⟨cfg, .block 6, .block 4, built, here, leaves, there, ?_⟩
  rw [there]
  decide

/-- The equivalence holds of the loop around the switch. -/
theorem build_jumps_iff_steered :
    ∃ cfg body, Reads steeredGraph steeredFunction cfg body ∧
      (JumpsRight cfg body ↔ ContinuesDirect body) :=
  build_jumps_iff steeredGraph_wellFormed steeredFunction

end MisraPlatform
