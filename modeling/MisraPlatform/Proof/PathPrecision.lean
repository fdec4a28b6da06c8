import MisraPlatform.Proof.JumpTargets
import MisraPlatform.Proof.Soundness

/-
This file compares the paths of the graph of a function with the runs of C.
-/

namespace MisraPlatform
open CFGEngine

/-! ### Precise paths -/

/-- Every path, read as the statements of its blocks, begins a run of C. -/
def ControlFlowGraph.BeginsRuns (cfg : ControlFlowGraph) (body : Code) : Prop :=
  ∀ edges left block, cfg.Path edges left block →
    ∃ trace state, Executes body trace state ∧ left ++ cfg.statementsOf block <+: trace

/-- A path that leaves a `do` at its test has come back from the body of the loop. -/
def ControlFlowGraph.TestsLate (cfg : ControlFlowGraph) : Prop :=
  ∀ edges left block statement exit, cfg.Path edges left block → statement ∈ cfg.statementsOf block →
    statement.nodeKind = .doStmt → exit ∈ cfg.successors block → exit.kind = .falseEdge →
    ∀ last ∈ edges.getLast?, last.Returns

/-- A step of C that does not pass the brace of a bare block. -/
def UnbracedStep (body : Code) (state target : State) : Prop :=
  ¬ state.EndsBlock ∧ Step .c body state target

/-- Without passing the brace of a bare block, control comes to no `do` from the front and to no
continue whose innermost loop or switch is a switch. -/
def Code.Direct (body : Code) : Prop :=
  ∀ trace state, Run (UnbracedStep body) (.start body) trace state →
    ¬ state.TestsFirst ∧ ¬ state.ContinuesInSwitch

/-- A run of the engine reading is such a run of C. -/
theorem Code.Direct.walk {body : Code} (direct : body.Direct) {trace : List AstNode} {state : State}
    (walk : Walk (Step .engine body) (.start body) trace state) :
    Walk (UnbracedStep body) (.start body) trace state := by
  induction walk with
  | start => exact .start
  | @step trace state target _ taken ih =>
      obtain ⟨tests, continues⟩ := direct _ state (run_iff_walk.mpr ⟨trace, ih, rfl⟩)
      refine ih.step ⟨fun ends => ?_, taken.reread (fun _ => rfl) continues fun first _ =>
        absurd first tests⟩
      cases taken with
      | endBlock leaves => exact Bool.false_ne_true leaves
      | _ => exact ends.elim

theorem UnbracedStep.engine {body : Code} {state target : State} (taken : UnbracedStep body state target)
    (continues : ¬ state.ContinuesInSwitch) : Step .engine body state target :=
  Step.reread taken.2 (fun ends => absurd ends taken.1) continues fun _ skips =>
    absurd skips Bool.false_ne_true

/-! ### Statements that follow each other -/

/-- In a run, a statement is followed by one that some step leads to. -/
theorem Run.follows {step : State → State → Prop} {start last : State} {statement : AstNode}
    {good : AstNode → Prop}
    (leads : ∀ trace state target, Run step start trace state → state.current = some statement →
      step state target → ∃ next, target.current = some next ∧ good next)
    {trace : List AstNode} (run : Run step start trace last) :
    (trace.getLast? = some statement → last.current = some statement) ∧
      ∀ front next back, trace = front ++ statement :: next :: back → good next := by
  induction run with
  | start =>
      cases same : start.current with
      | none => simp [State.reached, same]
      | some first =>
          refine ⟨fun ends => by simpa [State.reached, same] using ends, fun front next back split => ?_⟩
          have short := congrArg List.length split
          simp [State.reached, same] at short
          omega
  | @step trace state target before taken ih =>
      obtain ⟨ends, follows⟩ := ih
      cases same : target.current with
      | none =>
          simp only [State.reached, same, Option.toList_none, List.append_nil]
          refine ⟨fun closes => ?_, follows⟩
          obtain ⟨next, there, _⟩ := leads trace state target before (ends closes) taken
          rw [same] at there
          exact absurd there (by simp)
      | some reached =>
          simp only [State.reached, same, Option.toList_some]
          refine ⟨fun closes => by simpa using closes, fun front next back split => ?_⟩
          induction back using List.reverseRecOn with
          | nil =>
              have parted : trace ++ [reached] = (front ++ [statement]) ++ [next] := by simpa using split
              obtain ⟨rfl, tail⟩ := List.append_inj' parted rfl
              obtain rfl := (List.cons.inj tail).1
              obtain ⟨other, there, fits⟩ :=
                leads _ state target before (ends List.getLast?_concat) taken
              obtain rfl := Option.some.inj (same.symm.trans there)
              exact fits
          | append_singleton back final _ =>
              have parted : trace ++ [reached] = (front ++ statement :: next :: back) ++ [final] := by
                simpa using split
              exact follows front next back (List.append_inj' parted rfl).1

theorem Cont.continueTarget_c {next : Cont} {target : State}
    (enclosed : next.continueTarget .c = some target) :
    ∃ statement body rest following, target = .head statement body rest following false := by
  induction next with
  | stop => simp [Cont.continueTarget] at enclosed
  | seq rest next ih => exact ih enclosed
  | block rest next ih => exact ih enclosed
  | loop statement body rest next =>
      exact ⟨statement, body, rest, next, (Option.some.inj enclosed).symm⟩
  | switch lead more rest next ih => exact ih enclosed

/-- The engine continues at the straight code before a switch. -/
theorem Cont.continueTarget_lead {next : Cont} (under : next.underSwitch = true)
    (leads : next.LeadSwitches) :
    ∃ code following, next.continueTarget .engine = some (.enter code following) ∧ code.LeadsSwitch := by
  induction next with
  | stop | loop => simp [Cont.underSwitch] at under
  | seq rest next ih => exact ih under leads
  | block rest next ih => exact ih under leads
  | switch lead more rest next => exact ⟨lead, next, rfl, leads.1⟩

theorem Code.LeadsSwitch.current {code : Code} (leads : code.LeadsSwitch) (following : Cont) :
    ∃ statement, (State.enter code following).current = some statement ∧
      statement.nodeKind.isLoop = false := by
  cases code with
  | simple statement rest =>
      have simple : statement.nodeKind.isSimple = true := leads
      refine ⟨statement, rfl, ?_⟩
      cases kind : statement.nodeKind <;> simp_all [NodeKind.isSimple, NodeKind.isLoop]
  | switch statement groups rest =>
      have kind : statement.nodeKind = .switchStmt := leads
      exact ⟨statement, rfl, by rw [kind]; rfl⟩
  | nil | compound | ifStmt | loop | bareSwitch => exact leads.elim

/-- In C a continue leads to the header of a loop. -/
theorem continues_loop {body : Code} (kinded : body.Kinded) {state target : State}
    (placed : state.Placed (body.positions body .stop)) {statement : AstNode}
    (current : state.current = some statement) (kind : statement.nodeKind = .continueStmt)
    (taken : Step .c body state target) :
    ∃ next, target.current = some next ∧ next.nodeKind.isLoop = true := by
  have fits := placed.fits kinded
  have onward := (step_placed placed taken).fits kinded
  cases taken with
  | continueStmt _ enclosed =>
      obtain ⟨loop, _, _, _, rfl⟩ := Cont.continueTarget_c enclosed
      exact ⟨loop, rfl, onward⟩
  | simple straight =>
      obtain rfl := Option.some.inj current
      simp [kind, NodeKind.isJump] at straight
  | returnStmt other | breakStmt other | gotoStmt other | gotoMissing other =>
      obtain rfl := Option.some.inj current
      rw [kind] at other
      exact absurd other (by simp)
  | thenBranch | elseBranch | dispatch | noMatch | bareSwitch =>
      obtain rfl := Option.some.inj current
      simp [State.Fits, kind] at fits
  | iterate | leave =>
      obtain rfl := Option.some.inj current
      simp [State.Fits, kind, NodeKind.isLoop] at fits
  | compound | loop | endSeq | endBlock | endLoop | endGroup | endSwitch | fallOff =>
      simp [State.current] at current

/-! ### Loops from the front -/

/-- Control comes to the header of a fresh `do` from the front alone. -/
theorem Step.enters {reading : Reading} {body : Code} {state target : State}
    (taken : Step reading body state target) (fresh : target.TestsFirst)
    (labels : ∀ name found, body.resolve name = some found → ¬ found.IsHead) :
    ∃ lead statement loopBody rest next, state = .run lead (.loop statement loopBody rest) next ∧
      statement.nodeKind = .doStmt := by
  cases taken with
  | loop => exact ⟨_, _, _, _, _, rfl, of_decide_eq_true fresh⟩
  | breakStmt _ enclosed =>
      have away := Cont.breakTarget_enter enclosed
      cases target with
      | head => exact absurd trivial away
      | _ => exact fresh.elim
  | @continueStmt _ _ _ next _ _ enclosed =>
      have late : ∀ {next : Cont} {found : State}, next.continueTarget reading = some found →
          ¬ found.TestsFirst := by
        intro next found reached
        induction next with
        | stop => simp [Cont.continueTarget] at reached
        | seq rest next ih => exact ih reached
        | block rest next ih => exact ih reached
        | loop => exact Option.some.inj reached ▸ Bool.false_ne_true
        | switch lead more rest next ih =>
            simp only [Cont.continueTarget] at reached
            split at reached
            · exact Option.some.inj reached ▸ id
            · exact ih reached
      exact absurd fresh (late enclosed)
  | gotoStmt _ found =>
      cases target with
      | head => exact absurd trivial (labels _ _ found)
      | _ => exact fresh.elim
  | @thenBranch _ _ branch => cases branch <;> exact fresh.elim
  | @elseBranch _ _ _ branch => cases branch <;> exact fresh.elim
  | endLoop => exact absurd fresh Bool.false_ne_true
  | _ => exact fresh.elim

/-- A loop is the current statement at its header alone. -/
theorem State.Fits.head {state : State} {statement : AstNode} (fits : state.Fits)
    (current : state.current = some statement) (kind : statement.nodeKind.isLoop = true) :
    ∃ body rest next fresh, state = .head statement body rest next fresh := by
  cases state with
  | left => simp [State.current] at current
  | head header body rest next fresh =>
      obtain rfl := Option.some.inj current
      exact ⟨body, rest, next, fresh, rfl⟩
  | run lead code next =>
      cases code with
      | nil | compound | loop => simp [State.current] at current
      | simple first rest =>
          obtain rfl := Option.some.inj current
          rcases (isLoop_iff _).mp kind with loops | loops | loops <;>
            simp [State.Fits, loops, NodeKind.isSimple] at fits
      | ifStmt first thenBranch elseBranch rest =>
          obtain rfl := Option.some.inj current
          simp [show first.nodeKind = .ifStmt from fits, NodeKind.isLoop] at kind
      | switch first groups rest | bareSwitch first rest =>
          obtain rfl := Option.some.inj current
          simp [show first.nodeKind = .switchStmt from fits, NodeKind.isLoop] at kind

theorem current_of_reached {state : State} {statement : AstNode} (reached : state.reached = [statement]) :
    state.current = some statement := by
  cases same : state.current with
  | none => simp [State.reached, same] at reached
  | some other => simpa [State.reached, same] using reached

/-! ### Paths and runs -/

theorem path_nil {cfg : ControlFlowGraph} {left : List AstNode} {block : BlockId}
    (path : cfg.Path [] left block) : block = .entry := by
  generalize same : ([] : List CFGEdge) = edges at path
  cases path with
  | start => rfl
  | follow => exact absurd same (by simp)

section Represents

variable {cfg : ControlFlowGraph} {body : Code} (represents : Represents cfg body)

include represents

/-- A path that begins a run of C has never come to a continue under a switch. -/
theorem Represents.begins_continues (begins : cfg.BeginsRuns body) {trace : List AstNode} {state : State}
    (walk : Walk (Step .engine body) (.start body) trace state) : ¬ state.ContinuesInSwitch := by
  intro continues
  obtain ⟨first, last, spots, lays⟩ := represents.lays
  have placed := walk_placed (fun _ _ taken => taken) walk
  cases state with
  | left | head => exact continues.elim
  | run lead code next =>
      cases code with
      | simple statement rest =>
          obtain ⟨kind, under⟩ := continues
          obtain ⟨position, inside, alike⟩ := placed.position rfl
          have leads := body.positions_lead body .stop represents.kinded (.inl rfl) trivial _ inside
          cases position with
          | left | head => exact alike.elim
          | run other others following =>
              obtain ⟨rfl, rfl⟩ := alike
              obtain ⟨code, outer, found, straight⟩ := Cont.continueTarget_lead under leads
              obtain ⟨after, current, noLoop⟩ := straight.current outer
              have onward := walk.step (Step.continueStmt kind found)
              obtain ⟨edges, point, trail, laid, _⟩ := walk_trail (lays.resolves represents.kinded)
                (fun _ _ taken => ⟨taken.1, fun fell => absurd fell taken.2⟩) (start_trail lays)
                lays.start_laid (walk_inside (fun _ _ => id) onward (by simp [State.enter]))
              have read : ∃ edges further, Trail cfg edges (trace ++ [statement] ++ [after]) further := by
                obtain holds | ⟨_, ends, edge, leaves, holds⟩ := current_held laid current
                · exact ⟨_, _, trail.read holds⟩
                · exact ⟨_, _, (trail.cross edge ends leaves).read holds⟩
              obtain ⟨edges, further, left, path, same⟩ := read
              obtain ⟨whole, final, run, covers⟩ := begins _ _ _ path
              obtain ⟨back, split⟩ := covers
              have parted : whole = trace ++ statement :: after ::
                  ((cfg.statementsOf further.1).drop further.2 ++ back) := by
                rw [← split, ← List.take_append_drop further.2 (cfg.statementsOf further.1),
                  ← List.append_assoc, ← same]
                simp
              have loops : ∀ front state target, Run (Step .c body) (.start body) front state →
                  state.current = some statement → Step .c body state target →
                  ∃ next, target.current = some next ∧ next.nodeKind.isLoop = true := by
                intro front state target before at_ taken
                obtain ⟨_, walked, _⟩ := run_iff_walk.mp before
                exact continues_loop represents.kinded (walk_placed (fun _ _ taken => taken) walked) at_
                  kind taken
              exact Bool.false_ne_true (noLoop.symm.trans ((Run.follows loops run).2 _ _ _ parted))
      | _ => exact continues.elim

/-- A run that comes to a `do` from the front makes a path that leaves the loop before its body. -/
theorem Represents.late_tests (late : cfg.TestsLate) {trace : List AstNode} {state : State}
    (walk : Walk (fun state target => UnbracedStep body state target ∧ ¬ state.ContinuesInSwitch)
      (.start body) trace state) : ¬ state.TestsFirst := by
  intro fresh
  obtain ⟨first, last, spots, lays⟩ := represents.lays
  have resolves := lays.resolves represents.kinded
  cases walk with
  | start => exact fresh.elim
  | @step trace before _ walk taken =>
      have labels : ∀ name found, body.resolve name = some found → ¬ found.IsHead := by
        intro name found same
        obtain ⟨missing, _⟩ | ⟨code, next, there, _⟩ := resolves name
        · rw [missing] at same
          exact absurd same (by simp)
        · exact Option.some.inj (there.symm.trans same) ▸ id
      obtain ⟨lead, statement, loopBody, rest, next, rfl, kind⟩ := taken.1.2.enters fresh labels
      have walked := walk_inside (fun _ _ taken => taken.1.2) walk (by simp)
      obtain ⟨edges, point, trail, laid, fronts⟩ := walk_trail resolves
        (fun _ _ taken => ⟨taken.1.1.engine taken.1.2, fun fell => absurd fell taken.2⟩)
        (start_trail lays) lays.start_laid walked
      have front := fronts (fun _ _ taken => taken.1.2) (@fronts_snoc [] _ _ _ (by simp [CFGEdge.Returns]))
      obtain ⟨stack, final, _, _, ⟨header, after, out, inner, outer, flows, closes, _⟩, _⟩ := laid
      obtain ⟨further, ⟨left, path, _⟩, moved⟩ := trail.flow flows
      have leaves : (⟨header, after, .falseEdge, none⟩ : CFGEdge) ∈ cfg.successors header := by
        rw [show cfg.successors header = _ from closes.2.2]
        exact List.mem_append_right _ (List.mem_singleton.mpr rfl)
      have returns := late _ _ _ _ _ path (List.mem_of_getElem? closes.1) kind leaves rfl
      rcases moved with ⟨rfl, same⟩ | rfl
      · have begins := front (same ▸ rfl) id
        rcases further.eq_nil_or_concat with rfl | ⟨_, edge, rfl⟩
        · obtain rfl := path_nil path
          have held := List.mem_of_getElem? closes.1
          rw [lays.bounds.1] at held
          exact absurd held List.not_mem_nil
        · exact begins edge (by simp) (returns edge (by simp))
      · have back := returns _ List.getLast?_concat
        simp [CFGEdge.Returns] at back

/-- Control that comes to no `do` from the front comes back to its header. -/
theorem Represents.tests_late (direct : body.Direct) : cfg.TestsLate := by
  obtain ⟨first, last, spots, lays⟩ := represents.lays
  intro edges left block statement exit path held kind _ _ edge closing
  obtain ⟨position, inside⟩ := node_position (represents.places.inside block statement held)
  have fitting := body.positions_fitting body .stop represents.kinded _ inside
  obtain ⟨current, fits⟩ : position.current = some statement ∧ position.Fits := fitting
  obtain ⟨point, seated, matched⟩ := lays.spot represents.kinded inside
  obtain rfl := represents.places.once block point.1 statement held (List.mem_of_getElem? seated.holds)
  have loops : statement.nodeKind.isLoop = true := by rw [kind]; rfl
  obtain ⟨_, _, _, _, rfl⟩ := fits.head current loops
  obtain ⟨_, _, _, start, _⟩ := matched.laid
  have holds : cfg.Holds (point.1, 0) statement := start ▸ seated.holds
  have inner : point.1 ≠ .entry := by
    intro entry
    rw [entry, lays.bounds.1] at held
    exact absurd held List.not_mem_nil
  obtain ⟨state, walk, laid, back⟩ := path_walk lays represents.kinded represents.anchored path inner
  have stands : ∀ {trace : List AstNode} {state : State},
      Walk (Step .engine body) (.start body) trace state → state.reached = [statement] →
      ∃ body rest next fresh, state = .head statement body rest next fresh := by
    intro trace state walk reached
    have placed := walk_placed (fun _ _ taken => taken) walk
    exact (placed.fits represents.kinded).head (current_of_reached reached) loops
  obtain here | ⟨before, target, further, taken, _, reached, entered⟩ :=
    State.before_loop (lays.resolves represents.kinded) lays.exit lays.bounds.2 laid holds
  · obtain ⟨_, _, _, _, rfl⟩ := stands walk here
    exact back trivial edge closing
  · have whole := (walk.trans further).step taken
    obtain ⟨_, _, _, fresh, rfl⟩ := stands whole reached
    have first : fresh = true := by
      have front := entered trivial
      cases before with
      | left | head => exact front.elim
      | run lead code next =>
          cases code with
          | loop =>
              cases taken
              exact decide_eq_true kind
          | _ => exact front.elim
    exact absurd first (direct _ _ (direct.walk whole).prefix_run).1

/-- The paths of a graph are precise exactly when control comes to no `do` from the front and to no
continue under a switch. -/
theorem Represents.precise_iff : cfg.BeginsRuns body ∧ cfg.TestsLate ↔ body.Direct := by
  obtain ⟨first, last, spots, lays⟩ := represents.lays
  constructor
  · rintro ⟨begins, late⟩
    have steers : ∀ {trace : List AstNode} {state : State},
        Walk (UnbracedStep body) (.start body) trace state →
        Walk (fun state target => UnbracedStep body state target ∧ ¬ state.ContinuesInSwitch)
          (.start body) trace state := by
      intro trace state walk
      induction walk with
      | start => exact .start
      | step _ taken ih =>
          exact ih.step ⟨taken, represents.begins_continues begins
            (ih.mono fun _ _ taken => taken.1.engine taken.2)⟩
    intro trace state run
    obtain ⟨left, walk, _⟩ := run_iff_walk.mp run
    have steered := steers walk
    exact ⟨represents.late_tests late steered,
      represents.begins_continues begins (steered.mono fun _ _ taken => taken.1.engine taken.2)⟩
  · intro direct
    refine ⟨fun edges left block path => ?_, represents.tests_late direct⟩
    obtain ⟨trace, state, walk, covers⟩ := path_run lays represents.kinded represents.anchored path
    exact ⟨_, state, ((direct.walk walk).mono fun _ _ taken => taken.2).prefix_run, covers⟩

end Represents

/-- The paths of the graph of a function are precise exactly when control comes to no `do` from the
front and to no continue under a switch. -/
theorem pathPrecision_iff {graph : AstGraph} (wellFormed : graph.WellFormed) (functionNode : AstNode)
    (body : Code) (layout : FunctionBody graph functionNode body) :
    ∃ cfg, build functionNode graph = some cfg ∧
      (cfg.BeginsRuns body ∧ cfg.TestsLate ↔ body.Direct) := by
  obtain ⟨reads, kinded, nodup⟩ := layout.reading wellFormed
  by_cases empty : bodyStatements functionNode graph = []
  · obtain ⟨cfg, built, trivial⟩ := build_trivial functionNode graph empty
    rw [empty] at reads
    cases reads
    have silent : ∀ edges left block, cfg.Path edges left block → left = [] := by
      intro edges left block path
      induction path with
      | start => rfl
      | follow _ _ ih => rw [ih, trivial.empty]; rfl
    refine ⟨cfg, built, iff_of_true ⟨fun edges left block path => ?_, ?_⟩ ?_⟩
    · rw [silent _ _ _ path, trivial.empty]
      exact ⟨_, _, .start, List.nil_prefix⟩
    · intro edges left block statement exit path held
      rw [trivial.empty] at held
      exact absurd held List.not_mem_nil
    · intro trace state run
      have outside : state = .start .nil ∨ state = .left .fellOff := by
        induction run with
        | start => exact .inl rfl
        | step _ taken ih =>
            rcases ih with rfl | rfl
            · cases taken.2
              exact .inr rfl
            · nomatch taken.2
      rcases outside with rfl | rfl
      · exact ⟨id, id⟩
      · exact ⟨id, id⟩
  · obtain ⟨cfg, built, represents⟩ := build_represents functionNode graph body empty reads kinded nodup
    exact ⟨cfg, built, represents.precise_iff⟩

/-! ### A do loop -/

/-- These are the nodes of `f() { do { x(); } while (c); y(); }`. -/
def testedFunction : AstNode := { nodeId := "f", nodeKind := .functionDecl, childrenIds := ["b"] }

def testedLoop : AstNode :=
  { nodeId := "d", nodeKind := .doStmt, parentId := "b", childrenIds := ["l", "c"] }

def testedCall : AstNode := { nodeId := "x", nodeKind := .callExpr, parentId := "l" }

def testedLater : AstNode := { nodeId := "y", nodeKind := .callExpr, parentId := "b" }

def testedGraph : AstGraph where
  nodes :=
    [testedFunction,
      { nodeId := "b", nodeKind := .compoundStmt, parentId := "f", childrenIds := ["d", "y"] }, testedLoop,
      { nodeId := "l", nodeKind := .compoundStmt, parentId := "d", childrenIds := ["x"] }, testedCall,
      { nodeId := "c", nodeKind := .declRefExpr, parentId := "d" }, testedLater]

def testedBody : Code :=
  .loop testedLoop (.present (.simple testedCall .nil)) (.simple testedLater .nil)

theorem testedGraph_wellFormed : testedGraph.WellFormed := by
  apply AstGraph.WellFormed.of_order <;> decide

theorem testedGraph_layout : FunctionBody testedGraph testedFunction testedBody := by
  have statements : bodyStatements testedFunction testedGraph = [testedLoop, testedLater] := by decide
  refine ⟨[testedLater], { nodeId := "l", nodeKind := .compoundStmt, parentId := "d", childrenIds := ["x"] },
    [{ nodeId := "c", nodeKind := .declRefExpr, parentId := "d" }], statements, rfl, by decide, ?_,
    [], rfl, rfl, rfl⟩
  exact ⟨_, rfl, [], by decide, rfl, rfl⟩

/-- In C the body of the loop comes first. -/
theorem tested_run {trace : List AstNode} {state : State} (run : Executes testedBody trace state) :
    trace = [] ∧ state = .start testedBody ∨
      trace = [testedLoop] ∧ state = .head testedLoop (.present (.simple testedCall .nil))
        (.simple testedLater .nil) .stop true ∨
      [testedLoop, testedCall] <+: trace := by
  induction run with
  | start => exact .inl ⟨rfl, rfl⟩
  | step _ taken ih =>
      obtain ⟨rfl, rfl⟩ | ⟨rfl, rfl⟩ | before := ih
      · cases taken
        exact .inr (.inl ⟨rfl, rfl⟩)
      · cases taken with
        | iterate => exact .inr (.inr (List.prefix_refl _))
        | leave tested => exact absurd tested (by simp [Reading.c])
      · exact .inr (.inr (before.trans (List.prefix_append _ _)))

/-- A path leaves the loop before its body, and what it reads begins no run of C. -/
theorem tested_imprecise : ∃ cfg, build testedFunction testedGraph = some cfg ∧
    ¬ cfg.BeginsRuns testedBody ∧ ¬ cfg.TestsLate := by
  have written : (build testedFunction testedGraph).map (fun cfg => (cfg.successors .entry,
      cfg.successors (.block 2), cfg.statementsOf .entry, cfg.statementsOf (.block 2),
      cfg.statementsOf (.block 3))) =
      some ([⟨.entry, .block 2, .fallthrough, none⟩], [⟨.block 2, .block 4, .fallthrough, none⟩,
        ⟨.block 2, .block 3, .falseEdge, none⟩], [], [testedLoop], [testedLater]) := by decide
  obtain ⟨cfg, built, same⟩ := Option.map_eq_some_iff.mp written
  simp only [Prod.mk.injEq] at same
  obtain ⟨enters, leaves, nothing, header, later⟩ := same
  have exits : (⟨.block 2, .block 3, .falseEdge, none⟩ : CFGEdge) ∈ cfg.successors (.block 2) := by
    rw [leaves]
    exact List.mem_cons_of_mem _ List.mem_cons_self
  have path := ControlFlowGraph.Path.start.follow
    (show (⟨.entry, .block 2, .fallthrough, none⟩ : CFGEdge) ∈ cfg.successors .entry by
      rw [enters]
      exact List.mem_cons_self)
  refine ⟨cfg, built, fun begins => ?_, fun late => ?_⟩
  · obtain ⟨trace, state, run, covers⟩ := begins _ _ _ (path.follow exits)
    simp only [nothing, header, later, List.nil_append, List.singleton_append] at covers
    obtain ⟨rfl, _⟩ | ⟨rfl, _⟩ | other := tested_run run
    · exact absurd covers (by decide)
    · exact absurd covers (by decide)
    · have same := List.prefix_of_prefix_length_le covers other (by simp)
      exact absurd same (by decide)
  · have returns := late _ _ _ testedLoop _ path (by rw [header]; exact List.mem_cons_self) rfl exits rfl
      ⟨.entry, .block 2, .fallthrough, none⟩ rfl
    simp [CFGEdge.Returns] at returns

/-- The equivalence holds of the loop. -/
theorem pathPrecision_iff_tested : ∃ cfg, build testedFunction testedGraph = some cfg ∧
    (cfg.BeginsRuns testedBody ∧ cfg.TestsLate ↔ testedBody.Direct) :=
  pathPrecision_iff testedGraph_wellFormed testedFunction testedBody testedGraph_layout

end MisraPlatform
