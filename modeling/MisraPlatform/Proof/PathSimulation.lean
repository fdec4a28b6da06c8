import MisraPlatform.Proof.GraphShape
import MisraPlatform.Proof.Positions
import MisraPlatform.Semantics.Path

/-
This file matches the runs of the engine reading with the paths of the graph.
-/

namespace MisraPlatform
open CFGEngine

variable {cfg : ControlFlowGraph} {resolve : String → BlockId} {fed : Bool} {body : Code}

/-! ### Trails -/

/-- A path leads to the block of the point, and these are the statements up to the point. -/
def Trail (cfg : ControlFlowGraph) (edges : List CFGEdge) (trace : List AstNode) (point : Point) : Prop :=
  ∃ left, cfg.Path edges left point.1 ∧ trace = left ++ (cfg.statementsOf point.1).take point.2

section Trail

variable {edges out : List CFGEdge} {trace : List AstNode} {point : Point} {statement : AstNode}
  {edge : CFGEdge}

theorem Trail.read (trail : Trail cfg edges trace point) (holds : cfg.Holds point statement) :
    Trail cfg edges (trace ++ [statement]) (point.1, point.2 + 1) := by
  obtain ⟨left, path, rfl⟩ := trail
  refine ⟨left, path, ?_⟩
  rw [List.append_assoc, List.take_add_one, holds]
  rfl

theorem Trail.cross (edge : CFGEdge) (trail : Trail cfg edges trace point) (ends : cfg.Ends point)
    (leaves : edge ∈ cfg.successors point.1) :
    Trail cfg (edges ++ [edge]) trace (edge.target, 0) := by
  obtain ⟨left, path, rfl⟩ := trail
  refine ⟨_, path.follow leaves, ?_⟩
  rw [← ends, List.take_length, List.take_zero, List.append_nil]

theorem Trail.close (trail : Trail cfg edges trace point) (closes : cfg.Closes point statement out)
    (leaves : edge ∈ out) :
    Trail cfg (edges ++ [edge]) (trace ++ [statement]) (edge.target, 0) :=
  (trail.read closes.1).cross edge closes.2.1 (closes.2.2 ▸ leaves)

/-- A point that flows to a block is the block or has one edge to it. -/
theorem Trail.flow {kind : EdgeKind} {target : BlockId} (trail : Trail cfg edges trace point)
    (flows : cfg.Flows point kind target) :
    ∃ further, Trail cfg further trace (target, 0) ∧
      ((further = edges ∧ (target, 0) = point) ∨
        further = edges ++ [⟨point.1, target, kind, none⟩]) := by
  obtain ⟨_, rfl⟩ | ⟨ends, alone⟩ := flows
  · exact ⟨edges, trail, .inl ⟨rfl, rfl⟩⟩
  · refine ⟨_, trail.cross ⟨point.1, target, kind, none⟩ ends ?_, .inr rfl⟩
    rw [alone]
    exact List.mem_singleton.mpr rfl

end Trail

/-! ### Steps -/

/-- A state that begins a block and is no header is entered from the front. -/
def Fronts (edges : List CFGEdge) (state : State) (point : Point) : Prop :=
  point.2 = 0 → ¬ state.IsHead → ∀ edge ∈ edges.getLast?, ¬ edge.Returns

theorem fronts_snoc {edges : List CFGEdge} {edge : CFGEdge} {state : State} {point : Point}
    (front : ¬ edge.Returns) : Fronts (edges ++ [edge]) state point := by
  intro _ _ last inside
  rw [List.getLast?_concat] at inside
  exact Option.some.inj inside ▸ front

/-- The path goes on to a point of the next state. -/
def Reaches (cfg : ControlFlowGraph) (resolve : String → BlockId) (fed : Bool) (state : State)
    (edges : List CFGEdge) (trace : List AstNode) (point : Point) (target : State) : Prop :=
  ∃ further next, Trail cfg further (trace ++ state.reached) next ∧
    target.Laid cfg resolve fed next ∧
    (¬ state.ContinuesInSwitch → Fronts edges state point → Fronts further target next)

section Steps

variable {edges out : List CFGEdge} {trace : List AstNode} {point : Point} {statement : AstNode}
  {edge : CFGEdge} {state target : State}

theorem Reaches.close (edge : CFGEdge) (trail : Trail cfg edges trace point) (reached : state.reached = [statement])
    (closes : cfg.Closes point statement out) (leaves : edge ∈ out)
    (laid : target.Laid cfg resolve fed (edge.target, 0))
    (front : ¬ state.ContinuesInSwitch → ¬ target.IsHead → ¬ edge.Returns) :
    Reaches cfg resolve fed state edges trace point target := by
  refine ⟨_, _, reached ▸ trail.close closes leaves, laid, fun through _ start running => ?_⟩
  exact fronts_snoc (front through running) start running

theorem Reaches.flow {kind : EdgeKind} {block : BlockId} (trail : Trail cfg edges trace point)
    (reached : state.reached = []) (running : ¬ state.IsHead) (flows : cfg.Flows point kind block)
    (laid : target.Laid cfg resolve fed (block, 0))
    (front : target.IsHead ∨ kind ≠ .loopBack ∧ kind ≠ .continueEdge) :
    Reaches cfg resolve fed state edges trace point target := by
  obtain ⟨further, there, moved⟩ := trail.flow flows
  refine ⟨further, _, by rw [reached, List.append_nil]; exact there, laid, fun _ fronts => ?_⟩
  rcases front with head | ⟨first, second⟩
  · exact fun _ other => absurd head other
  · rcases moved with ⟨rfl, same⟩ | rfl
    · exact fun start _ => fronts (same ▸ start) running
    · exact fronts_snoc (by rintro (back | back) <;> contradiction)

theorem Cont.breakTarget_laid' {next : Cont} {stack : LoopStack}
    (laid : next.Laid cfg resolve fed stack point) (found : next.breakTarget = some target) :
    ∃ again after outer, stack = (again, after) :: outer ∧ target.Laid cfg resolve fed (after, 0) := by
  obtain ⟨_, missing⟩ | ⟨again, after, outer, other, same, there, targetLaid⟩ :=
    Cont.breakTarget_laid laid
  · rw [missing] at found
    exact absurd found (by simp)
  · obtain rfl := Option.some.inj (there.symm.trans found)
    exact ⟨again, after, outer, same, targetLaid⟩

theorem Cont.continueTarget_laid' {next : Cont} {stack : LoopStack}
    (laid : next.Laid cfg resolve fed stack point) (found : next.continueTarget .engine = some target) :
    ∃ again after outer, stack = (again, after) :: outer ∧ target.Laid cfg resolve fed (again, 0) := by
  obtain ⟨_, missing⟩ | ⟨again, after, outer, other, same, there, targetLaid⟩ :=
    Cont.continueTarget_laid laid
  · rw [missing] at found
    exact absurd found (by simp)
  · obtain rfl := Option.some.inj (there.symm.trans found)
    exact ⟨again, after, outer, same, targetLaid⟩

theorem Cont.continueTarget_head {next : Cont} (direct : next.underSwitch = false)
    (found : next.continueTarget .engine = some target) : target.IsHead := by
  induction next with
  | stop => simp [Cont.continueTarget] at found
  | seq rest next ih => exact ih direct found
  | block rest next ih => exact ih direct found
  | loop statement body rest next =>
      simp only [Cont.continueTarget, Option.some.injEq] at found
      rw [← found]
      trivial
  | switch => simp [Cont.underSwitch] at direct

/-- A jump follows the one edge of its block. -/
theorem jump_reaches (edge : CFGEdge) {lead rest : Code} {next : Cont} {stack : LoopStack}
    (trail : Trail cfg edges trace point)
    (closes : cfg.Closes point statement (jumpEdges resolve stack statement point.1))
    (leaves : edge ∈ jumpEdges resolve stack statement point.1)
    (laid : target.Laid cfg resolve fed (edge.target, 0))
    (front : edge.kind = .continueEdge → next.underSwitch = false → target.IsHead)
    (kind : edge.kind = .continueEdge → statement.nodeKind = .continueStmt)
    (other : edge.kind ≠ .loopBack) :
    Reaches cfg resolve fed (.run lead (.simple statement rest) next) edges trace point target := by
  refine Reaches.close edge trail rfl closes leaves laid fun through running => ?_
  rintro (back | back)
  · exact other back
  · refine running (front back ?_)
    simpa [State.ContinuesInSwitch, kind back] using through

end Steps

/-- Every step of the engine reading follows the graph. Only an end that is not fed leads nowhere. -/
theorem step_reaches (resolves : Resolves cfg fed body resolve) {state target : State}
    {edges : List CFGEdge} {trace : List AstNode} {point : Point} (trail : Trail cfg edges trace point)
    (laid : state.Laid cfg resolve fed point) (taken : Step .engine body state target)
    (falls : target = .left .fellOff → fed = true) :
    Reaches cfg resolve fed state edges trace point target := by
  cases taken with
  | @simple lead statement rest next straight =>
      obtain ⟨stack, last, spots, leadLaid, ⟨spot, after, others, simpleLaid, restLaid, _⟩, following⟩ :=
        laid
      by_cases kind : statement.nodeKind = .labelStmt
      · obtain ⟨holds, flows, start, behind⟩ := SimpleLaid.label kind simpleLaid
        obtain ⟨further, there, _⟩ := trail.flow flows
        have again : (Code.simple statement rest).Laid cfg resolve stack (spot.1, 0) last _ :=
          ⟨spot, after, others, SimpleLaid.again kind simpleLaid, restLaid, rfl⟩
        refine ⟨further, _, there.read (start ▸ holds), ⟨stack, last, others, fun _ => ?_, ?_, following⟩,
          fun _ _ begins => absurd begins (Nat.succ_ne_zero _)⟩
        · rw [leadAfter, if_neg (by simp [straight]), leadAt, if_pos kind]
          exact ⟨_, again⟩
        · rw [← behind]
          exact restLaid
      · obtain ⟨holds, _, behind⟩ := SimpleLaid.plain kind straight simpleLaid
        refine ⟨edges, _, trail.read holds, ⟨stack, last, others, fun _ => ?_, ?_, following⟩,
          fun _ _ begins => absurd begins (Nat.succ_ne_zero _)⟩
        · rw [leadAfter, if_neg (by simp [straight]), leadAt, if_neg kind]
          exact leadLaid (by simp [Code.usesLead, kind])
        · rw [← behind]
          exact restLaid
  | @returnStmt lead statement rest next kind =>
      obtain ⟨stack, last, closes, following⟩ := State.jump_closes laid (by rw [kind]; rfl)
      exact jump_reaches ⟨point.1, .exit, .returnEdge, none⟩ trail closes (by simp [jumpEdges, kind]) rfl (by simp) (by simp)
        (by simp)
  | @breakStmt lead statement rest next target kind enclosed =>
      obtain ⟨stack, last, closes, following⟩ := State.jump_closes laid (by rw [kind]; rfl)
      obtain ⟨again, away, outer, rfl, there⟩ := Cont.breakTarget_laid' following enclosed
      exact jump_reaches ⟨point.1, away, .breakEdge, none⟩ trail closes
        (by simp [jumpEdges, kind]) there (by simp) (by simp) (by simp)
  | @continueStmt lead statement rest next target kind enclosed =>
      obtain ⟨stack, last, closes, following⟩ := State.jump_closes laid (by rw [kind]; rfl)
      obtain ⟨again, away, outer, rfl, there⟩ := Cont.continueTarget_laid' following enclosed
      exact jump_reaches ⟨point.1, again, .continueEdge, none⟩ trail closes
        (by simp [jumpEdges, kind]) there (fun _ direct => Cont.continueTarget_head direct enclosed)
        (fun _ => kind) (by simp)
  | @gotoStmt lead statement rest next target kind found =>
      obtain ⟨stack, last, closes, following⟩ := State.jump_closes laid (by rw [kind]; rfl)
      obtain ⟨missing, _⟩ | ⟨code, onward, same, there⟩ := resolves (targetLabel statement)
      · rw [missing] at found
        exact absurd found (by simp)
      · obtain rfl := Option.some.inj (same.symm.trans found)
        exact jump_reaches ⟨point.1, resolve (targetLabel statement), .gotoEdge, some (targetLabel statement)⟩ trail closes (by simp [jumpEdges, kind]) there (by simp) (by simp)
          (by simp)
  | @gotoMissing lead statement rest next kind missing =>
      obtain ⟨stack, last, closes, following⟩ := State.jump_closes laid (by rw [kind]; rfl)
      obtain ⟨_, away⟩ | ⟨code, onward, same, _⟩ := resolves (targetLabel statement)
      · exact jump_reaches ⟨point.1, resolve (targetLabel statement), .gotoEdge, some (targetLabel statement)⟩ trail closes (by simp [jumpEdges, kind]) (by rw [away]; rfl)
          (by simp) (by simp) (by simp)
      · rw [missing] at same
        exact absurd same (by simp)
  | compound =>
      obtain ⟨stack, last, spots, _, ⟨first, final, after, inner, outer, flows, innerLaid, dangles,
        restLaid, _⟩, following⟩ := laid
      exact Reaches.flow trail rfl id flows
        (State.enter_laid innerLaid ⟨dangles, after, last, outer, restLaid, following⟩) (.inr (by simp))
  | thenBranch =>
      obtain ⟨stack, last, spots, _, ⟨join, thenEdges, elseEdges, _, _, outer, closes, thenLaid, _,
        restLaid, _⟩, following⟩ := laid
      obtain ⟨first, rfl, there⟩ := Branch.enter_laid thenLaid restLaid following
      exact Reaches.close _ trail rfl closes (List.mem_append_left _ (List.mem_singleton.mpr rfl)) there
        fun _ _ => by simp [CFGEdge.Returns]
  | elseBranch =>
      obtain ⟨stack, last, spots, _, ⟨join, thenEdges, elseEdges, _, _, outer, closes, _, elseLaid,
        restLaid, _⟩, following⟩ := laid
      obtain ⟨first, rfl, there⟩ := Branch.enter_laid elseLaid restLaid following
      exact Reaches.close _ trail rfl closes (List.mem_append_right _ (List.mem_singleton.mpr rfl)) there
        fun _ _ => by simp [CFGEdge.Returns]
  | loop =>
      obtain ⟨stack, last, spots, _, ⟨header, after, out, inner, outer, flows, closes, bodyLaid, restLaid,
        _⟩, following⟩ := laid
      exact Reaches.flow trail rfl id flows
        ⟨after, stack, last, rfl, ⟨out, inner, outer, closes, bodyLaid, restLaid⟩, following⟩
        (.inl trivial)
  | iterate =>
      obtain ⟨after, outer, last, start, headerLaid, following⟩ := laid
      obtain ⟨block, index⟩ := point
      simp only at start
      subst start
      obtain ⟨_, inner, spots, closes, ⟨first, final, rfl, nested, flows⟩, restLaid⟩ := id headerLaid
      refine Reaches.close _ trail rfl closes (List.mem_append_left _ (List.mem_singleton.mpr rfl))
        (State.enter_laid nested ⟨block, after, outer, last, rfl, flows, headerLaid, following⟩)
        fun _ _ => ?_
      simp only [CFGEdge.Returns, loopEntryKind]
      split <;> simp
  | leave =>
      obtain ⟨after, outer, last, start, ⟨out, inner, spots, closes, _, restLaid⟩, following⟩ := laid
      obtain ⟨block, index⟩ := point
      simp only at start
      subst start
      exact Reaches.close _ trail rfl closes (List.mem_append_right _ (List.mem_singleton.mpr rfl))
        (State.enter_laid restLaid following) fun _ _ => by simp [CFGEdge.Returns]
  | dispatch inside =>
      obtain ⟨stack, last, spots, leadLaid, ⟨after, out, inner, outer, closes, groupsLaid, restLaid, _⟩,
        following⟩ := laid
      obtain ⟨front, frontLaid⟩ := leadLaid rfl
      obtain ⟨earlier, others, deeper, tailLaid, kept⟩ := Groups.enter_laid inside groupsLaid
      obtain ⟨first, rests, groupSpots, final, moreEdges, moreSpots, rfl, groupLaid, moreLaid, _⟩ :=
        Groups.start_laid tailLaid
      refine Reaches.close _ trail rfl closes (List.mem_append_left _ (kept _ List.mem_cons_self))
        (State.enter_laid groupLaid ⟨point.1, after, stack, last, moreEdges, moreSpots, outer, front, rfl,
          moreLaid, restLaid, frontLaid, following⟩) fun _ _ => ?_
      simp only [CFGEdge.Returns, caseEdgeKind]
      split <;> simp
  | noMatch open_ =>
      obtain ⟨stack, last, spots, _, ⟨after, out, inner, outer, closes, _, restLaid, _⟩, following⟩ := laid
      exact Reaches.close ⟨point.1, after, .noMatch, none⟩ trail rfl closes
        (by simp [open_]) (State.enter_laid restLaid following) fun _ _ => by simp [CFGEdge.Returns]
  | bareSwitch =>
      obtain ⟨stack, last, spots, _, ⟨after, outer, closes, restLaid, _⟩, following⟩ := laid
      exact Reaches.close _ trail rfl closes (List.mem_singleton.mpr rfl)
        (State.enter_laid restLaid following) fun _ _ => by simp [CFGEdge.Returns]
  | endSeq =>
      obtain ⟨stack, last, spots, _, ⟨rfl, _⟩, join, final, _, flows, restLaid, following⟩ := laid
      exact Reaches.flow trail rfl id flows (State.enter_laid restLaid following) (.inr (by simp))
  | endBlock leaves => exact absurd leaves (by simp [Reading.engine])
  | endLoop =>
      obtain ⟨stack, last, spots, _, ⟨rfl, _⟩, header, after, outer, final, rfl, flows, headerLaid,
        following⟩ := laid
      exact Reaches.flow trail rfl id flows ⟨after, outer, final, rfl, headerLaid, following⟩
        (.inl trivial)
  | endGroup =>
      obtain ⟨stack, last, spots, _, ⟨rfl, _⟩, source, after, outer, final, out, inner, restSpots, front,
        rfl, moreLaid, restLaid, frontLaid, following⟩ := laid
      obtain ⟨first, rests, groupSpots, tail, moreEdges, moreSpots, _, groupLaid, laterLaid, flows⟩ :=
        Groups.start_laid moreLaid
      exact Reaches.flow trail rfl id (flows point rfl)
        (State.enter_laid groupLaid ⟨source, after, outer, final, moreEdges, moreSpots, restSpots, front,
          rfl, laterLaid, restLaid, frontLaid, following⟩) (.inr (by simp))
  | endSwitch =>
      obtain ⟨stack, last, spots, _, ⟨rfl, _⟩, source, after, outer, final, out, inner, restSpots, front,
        rfl, moreLaid, restLaid, _, following⟩ := laid
      exact Reaches.flow trail rfl id (moreLaid.2.2 point rfl) (State.enter_laid restLaid following)
        (.inr (by simp))
  | fallOff =>
      obtain ⟨stack, last, spots, _, ⟨rfl, _⟩, _, ends, only⟩ := laid
      rw [falls rfl, endEdges, if_pos rfl] at only
      have there := trail.cross ⟨point.1, .exit, .implicitReturn, none⟩ ends (by simp [only])
      exact ⟨_, _, by simpa [State.reached, State.current] using there, rfl, fun _ _ =>
        fronts_snoc (by simp [CFGEdge.Returns])⟩

/-! ### Runs -/

/-- A run of the engine reading follows a path. -/
theorem walk_trail (resolves : Resolves cfg fed body resolve) {step : State → State → Prop}
    (narrow : ∀ state target, step state target → Step .engine body state target ∧
      (target = .left .fellOff → fed = true))
    {start last : State} {edges : List CFGEdge} {trace : List AstNode} {point : Point}
    (trail : Trail cfg edges [] point) (laid : start.Laid cfg resolve fed point)
    (walk : Walk step start trace last) :
    ∃ further next, Trail cfg further trace next ∧ last.Laid cfg resolve fed next ∧
      ((∀ state target, step state target → ¬ state.ContinuesInSwitch) →
        Fronts edges start point → Fronts further last next) := by
  induction walk with
  | start => exact ⟨edges, point, trail, laid, fun _ => id⟩
  | step _ taken ih =>
      obtain ⟨further, next, there, standing, fronts⟩ := ih
      obtain ⟨single, falls⟩ := narrow _ _ taken
      obtain ⟨beyond, after, onward, again, moved⟩ := step_reaches resolves there standing single falls
      exact ⟨beyond, after, onward, again, fun through start =>
        moved (through _ _ taken) (fronts through start)⟩

/-- The statement that a state has reached stands at the point of the state or right behind it. -/
theorem current_held {state : State} {point : Point} {statement : AstNode}
    (laid : state.Laid cfg resolve fed point) (current : state.current = some statement) :
    cfg.Holds point statement ∨ statement.nodeKind = .labelStmt ∧ cfg.Ends point ∧
      ∃ edge ∈ cfg.successors point.1, cfg.Holds (edge.target, 0) statement := by
  cases state with
  | left departure => simp [State.current] at current
  | head header loopBody rest next fresh =>
      obtain ⟨after, outer, last, start, ⟨edges, inner, spots, closes, _⟩, _⟩ := laid
      obtain rfl := Option.some.inj current
      obtain ⟨block, index⟩ := point
      simp only at start
      subst start
      exact .inl closes.1
  | run lead code next =>
      obtain ⟨stack, last, spots, _, codeLaid, _⟩ := laid
      cases code with
      | nil | compound | loop => simp [State.current] at current
      | ifStmt =>
          obtain ⟨_, _, _, _, _, _, closes, _⟩ := codeLaid
          exact .inl (Option.some.inj current ▸ closes.1)
      | switch =>
          obtain ⟨_, _, _, _, closes, _⟩ := codeLaid
          exact .inl (Option.some.inj current ▸ closes.1)
      | bareSwitch =>
          obtain ⟨_, _, closes, _⟩ := codeLaid
          exact .inl (Option.some.inj current ▸ closes.1)
      | simple first rest =>
          obtain rfl := Option.some.inj current
          obtain ⟨spot, after, others, simpleLaid, _⟩ := codeLaid
          by_cases kind : first.nodeKind = .labelStmt
          · obtain ⟨holds, flows, start, _⟩ := SimpleLaid.label kind simpleLaid
            obtain ⟨_, same⟩ | ⟨ends, alone⟩ := flows
            · exact .inl (by rw [same, ← start]; exact holds)
            · exact .inr ⟨kind, ends, _, by rw [alone]; exact List.mem_singleton.mpr rfl,
                by rw [← start]; exact holds⟩
          · have placed := simpleLaid.2
            rw [if_neg kind] at placed
            exact .inl (placed.1 ▸ simpleLaid.1)

/-! ### Whole graphs -/

theorem path_entry (anchored : Anchored cfg) {edges : List CFGEdge} {left : List AstNode}
    (path : cfg.Path edges left .entry) : edges = [] ∧ left = [] := by
  generalize same : BlockId.entry = block at path
  cases path with
  | start => exact ⟨rfl, rfl⟩
  | follow _ leaves =>
      exact absurd same.symm (anchored.targets _ (ControlFlowGraph.mem_successors.mp leaves).1).2

theorem Walk.prefix_run {step : State → State → Prop} {start last : State} {trace : List AstNode}
    (walk : Walk step start trace last) : Run step start (trace ++ last.reached) last :=
  run_iff_walk.mpr ⟨trace, walk, rfl⟩

/-- Every statement of a run but the last one has been left behind. -/
theorem Walk.mem_split {step : State → State → Prop} {start last : State} {trace : List AstNode}
    {statement : AstNode} (walk : Walk step start trace last) (inside : statement ∈ trace) :
    ∃ front state, Walk step start front state ∧ state.current = some statement := by
  induction walk with
  | start => exact absurd inside List.not_mem_nil
  | @step trace state target before taken ih =>
      rcases List.mem_append.mp inside with early | here
      · exact ih early
      · exact ⟨trace, state, before, Option.mem_toList.mp here⟩

section Graph

variable {first : BlockId} {last : Point} {spots : List (AstNode × Point)}
  (lays : LaysOut cfg body fed first last spots)

include lays

theorem start_trail : Trail cfg [⟨.entry, first, .fallthrough, none⟩] [] (first, 0) := by
  have path := ControlFlowGraph.Path.start.follow
    (show (⟨.entry, first, .fallthrough, none⟩ : CFGEdge) ∈ cfg.successors .entry by
      rw [lays.entry]
      exact List.mem_singleton.mpr rfl)
  rw [lays.bounds.1] at path
  exact ⟨[], path, rfl⟩

variable (kinded : body.Kinded)

include kinded

/-- Every path of the graph is a run of the engine reading. -/
theorem path_walk (anchored : Anchored cfg) {edges : List CFGEdge} {left : List AstNode}
    {block : BlockId} (path : cfg.Path edges left block) (inner : block ≠ .entry) :
    ∃ state, Walk (Step .engine body) (.start body) left state ∧
      state.Laid cfg (spotBlock spots) fed (block, 0) ∧
      (state.IsHead → ∀ edge ∈ edges.getLast?, edge.Returns) := by
  induction path with
  | start => exact absurd rfl inner
  | @follow edges left block edge before leaves ih =>
      by_cases entry : block = .entry
      · subst entry
        obtain ⟨rfl, rfl⟩ := path_entry anchored before
        rw [lays.entry, List.mem_singleton] at leaves
        rw [lays.bounds.1, leaves]
        exact ⟨_, .start, lays.start_laid, fun head => head.elim⟩
      · obtain ⟨state, walk, laid, _⟩ := ih entry
        obtain ⟨target, further, there, back⟩ :=
          State.crosses (lays.resolves kinded) lays.exit lays.bounds.2 laid edge leaves
        refine ⟨target, walk.trans further, there, fun head other inside => ?_⟩
        rw [List.getLast?_concat] at inside
        exact Option.some.inj inside ▸ back head

/-- A path, read to the end of its last block, is a run of the engine reading. -/
theorem path_run (anchored : Anchored cfg) {edges : List CFGEdge} {left : List AstNode}
    {block : BlockId} (path : cfg.Path edges left block) :
    ∃ trace state, Walk (Step .engine body) (.start body) trace state ∧
      left ++ cfg.statementsOf block <+: trace ++ state.reached := by
  by_cases entry : block = .entry
  · subst entry
    obtain ⟨rfl, rfl⟩ := path_entry anchored path
    exact ⟨[], _, .start, by rw [lays.bounds.1]; exact List.nil_prefix⟩
  · obtain ⟨state, walk, laid, _⟩ := path_walk lays kinded anchored path entry
    obtain nothing | ⟨trace, final, further, same⟩ :=
      State.completes (lays.resolves kinded) lays.exit lays.bounds.2 laid
    · rw [List.drop_zero] at nothing
      exact ⟨left, state, walk, by rw [nothing, List.append_nil]; exact List.prefix_append _ _⟩
    · rw [List.drop_zero] at same
      exact ⟨left ++ trace, final, walk.trans further, [], by
        rw [List.append_nil, same, List.append_assoc]⟩

/-- A run of the engine reading ends at a reachable point. -/
theorem walk_reachable {step : State → State → Prop}
    (narrow : ∀ state target, step state target → Step .engine body state target ∧
      (target = .left .fellOff → fed = true)) {trace : List AstNode} {state : State}
    (walk : Walk step (.start body) trace state) :
    ∃ point, state.Laid cfg (spotBlock spots) fed point ∧ cfg.Reachable point.1 := by
  obtain ⟨edges, point, ⟨left, path, _⟩, laid, _⟩ :=
    walk_trail (lays.resolves kinded) narrow (start_trail lays) lays.start_laid walk
  exact ⟨point, laid, (ControlFlowGraph.reachable_iff_path _).mpr ⟨edges, left, path⟩⟩

/-- A statement that a run of the engine reading reaches stands in a reachable block. -/
theorem walk_held {step : State → State → Prop}
    (narrow : ∀ state target, step state target → Step .engine body state target ∧
      (target = .left .fellOff → fed = true)) {trace : List AstNode} {state : State}
    (walk : Walk step (.start body) trace state) {statement : AstNode}
    (current : state.current = some statement) :
    ∃ block, cfg.Reachable block ∧ statement ∈ cfg.statementsOf block := by
  obtain ⟨point, laid, reachable⟩ := walk_reachable lays kinded narrow walk
  obtain holds | ⟨_, _, edge, leaves, holds⟩ := current_held laid current
  · exact ⟨point.1, reachable, List.mem_of_getElem? holds⟩
  · obtain ⟨inside, source⟩ := ControlFlowGraph.mem_successors.mp leaves
    refine ⟨edge.target, reachable.tail (List.mem_map.mpr ⟨edge, inside, ?_⟩),
      List.mem_of_getElem? holds⟩
    rw [source]

omit lays kinded in
/-- A run that has not fallen off the end has no such step. -/
theorem walk_inside {reading : Reading} {step : State → State → Prop}
    (narrow : ∀ state target, step state target → Step reading body state target)
    {start state : State} {trace : List AstNode} (walk : Walk step start trace state)
    (stays : state ≠ .left .fellOff) :
    Walk (fun state target => step state target ∧ target ≠ .left .fellOff) start trace state := by
  induction walk with
  | start => exact .start
  | @step trace state target _ taken ih =>
      refine (ih fun fell => ?_).step ⟨taken, stays⟩
      have impossible := narrow _ _ taken
      rw [fell] at impossible
      nomatch impossible

/-- The reachable blocks hold exactly the statements that the engine reading reaches. -/
theorem reachable_iff_reached (anchored : Anchored cfg) (statement : AstNode) :
    (∃ block, cfg.Reachable block ∧ statement ∈ cfg.statementsOf block) ↔
      ∃ trace state, Walk (Step .engine body) (.start body) trace state ∧
        state.current = some statement := by
  constructor
  · rintro ⟨block, reachable, inside⟩
    obtain ⟨edges, left, path⟩ := (ControlFlowGraph.reachable_iff_path block).mp reachable
    obtain ⟨trace, state, walk, covers⟩ := path_run lays kinded anchored path
    have read := covers.subset (List.mem_append_right _ inside)
    rcases List.mem_append.mp read with early | here
    · exact walk.mem_split early
    · exact ⟨trace, state, walk, Option.mem_toList.mp here⟩
  · rintro ⟨trace, state, walk, current⟩
    have stays : state ≠ .left .fellOff := by
      rintro rfl
      simp [State.current] at current
    exact walk_held lays kinded (fun _ _ taken => ⟨taken.1, fun fell => absurd fell taken.2⟩)
      (walk_inside (fun _ _ => id) walk stays) current

end Graph

end MisraPlatform
