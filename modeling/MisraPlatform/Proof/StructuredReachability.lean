import MisraPlatform.Proof.Coverage
import MisraPlatform.Proof.Soundness
import MisraPlatform.Semantics.Execution

/-
This file shows that reachability in the graph is exact on structured bodies.
-/

namespace MisraPlatform
open CFGEngine

/-! ### Structured states -/

section Structured

theorem Groups.IsTail.structured {tail groups : Groups} (inside : tail.IsTail groups)
    (structured : groups.Structured) : tail.Structured := by
  induction inside with
  | here => exact structured
  | later label body _ ih => exact ih structured.2.2.2

theorem State.enter_structured {code : Code} {next : Cont} (inner : code.Structured)
    (outer : next.Structured) : (State.enter code next).Structured := ⟨inner, inner, outer⟩

theorem Branch.enter_structured {branch : Branch} {rest : Code} {next : Cont}
    (inner : branch.Structured) (after : rest.Structured) (outer : next.Structured) :
    (branch.enter rest next).Structured := by
  cases branch with
  | absent => exact State.enter_structured after outer
  | present body => exact State.enter_structured inner ⟨after, outer⟩

theorem Cont.breakTarget_structured {next : Cont} {target : State} (structured : next.Structured)
    (found : next.breakTarget = some target) : target.Structured := by
  induction next with
  | stop => simp [Cont.breakTarget] at found
  | seq rest next ih => exact ih structured.2 found
  | block => exact structured.elim
  | loop statement body rest next =>
      obtain rfl := Option.some.inj found
      exact State.enter_structured structured.2.1 structured.2.2
  | switch lead more rest next =>
      obtain rfl := Option.some.inj found
      exact State.enter_structured structured.2.2.1 structured.2.2.2

theorem Cont.continueTarget_structured {reading : Reading} {next : Cont} {target : State}
    (structured : next.Structured) (found : next.continueTarget reading = some target) :
    target.Structured := by
  induction next with
  | stop => simp [Cont.continueTarget] at found
  | seq rest next ih => exact ih structured.2 found
  | block => exact structured.elim
  | loop statement body rest next =>
      obtain rfl := Option.some.inj found
      exact structured
  | switch lead more rest next ih =>
      simp only [Cont.continueTarget] at found
      split at found
      · obtain rfl := Option.some.inj found
        exact State.enter_structured structured.1 structured.2.2.2
      · exact ih structured.2.2.2 found

/-- Straight code that goes on keeps its lead. -/
theorem leadAfter_structured {lead rest : Code} {statement : AstNode} (ahead : lead.Structured)
    (structured : (Code.simple statement rest).Structured) :
    (leadAfter lead statement rest).Structured := by
  unfold leadAfter leadAt
  split
  · exact structured.2.2
  · rw [if_neg structured.1]
    exact ahead

/-- Every step stays in structured code. -/
theorem Step.structured {reading : Reading} {body : Code} {state target : State}
    (structured : state.Structured) (taken : Step reading body state target) : target.Structured := by
  cases taken with
  | simple straight =>
      obtain ⟨ahead, inner, outer⟩ := structured
      exact ⟨leadAfter_structured ahead inner, inner.2.2, outer⟩
  | returnStmt | gotoMissing | fallOff => trivial
  | breakStmt _ enclosed => exact Cont.breakTarget_structured structured.2.2 enclosed
  | continueStmt _ enclosed => exact Cont.continueTarget_structured structured.2.2 enclosed
  | gotoStmt kind _ => exact absurd kind structured.2.1.2.1
  | compound => exact structured.2.1.elim
  | thenBranch =>
      obtain ⟨_, ⟨first, _, after⟩, outer⟩ := structured
      exact Branch.enter_structured first after outer
  | elseBranch =>
      obtain ⟨_, ⟨_, second, after⟩, outer⟩ := structured
      exact Branch.enter_structured second after outer
  | loop =>
      obtain ⟨_, ⟨inner, after⟩, outer⟩ := structured
      exact ⟨inner, after, outer⟩
  | iterate => exact State.enter_structured structured.1 structured
  | leave => exact State.enter_structured structured.2.1 structured.2.2
  | dispatch inside =>
      obtain ⟨ahead, ⟨groups, after⟩, outer⟩ := structured
      obtain ⟨label, jump, inner, more⟩ := inside.structured groups
      exact State.enter_structured ⟨label, jump, inner⟩ ⟨ahead, more, after, outer⟩
  | noMatch => exact State.enter_structured structured.2.1.2 structured.2.2
  | bareSwitch => exact structured.2.1.elim
  | endSeq => exact State.enter_structured structured.2.2.1 structured.2.2.2
  | endBlock => exact structured.2.2.elim
  | endLoop => exact structured.2.2
  | endGroup =>
      obtain ⟨_, _, ahead, ⟨label, jump, inner, more⟩, after, outer⟩ := structured
      exact State.enter_structured ⟨label, jump, inner⟩ ⟨ahead, more, after, outer⟩
  | endSwitch => exact State.enter_structured structured.2.2.2.2.1 structured.2.2.2.2.2

end Structured

/-! ### Two readings -/

section Grounded

variable (known : State → Prop)

/-- Control can get to the header of every loop and to the start of every switch around a place. -/
def Cont.Grounded : Cont → Prop
  | .stop => True
  | .seq _ next | .block _ next => next.Grounded
  | .loop statement body rest next => known (.head statement body rest next false) ∧ next.Grounded
  | .switch lead _ _ next => known (.enter lead next) ∧ next.Grounded

def State.Grounded : State → Prop
  | .run lead _ next => known (.enter lead next) ∧ next.Grounded known
  | .head _ _ _ next fresh => fresh = false ∧ next.Grounded known
  | .left _ => True

variable {known}

theorem State.enter_grounded {code : Code} {next : Cont} (here : known (.enter code next))
    (outer : next.Grounded known) : (State.enter code next).Grounded known := ⟨here, outer⟩

theorem Cont.breakTarget_grounded {next : Cont} {target : State} (grounded : next.Grounded known)
    (found : next.breakTarget = some target) (here : known target) : target.Grounded known := by
  induction next with
  | stop => simp [Cont.breakTarget] at found
  | seq rest next ih => exact ih grounded found
  | block rest next ih => exact ih grounded found
  | loop statement body rest next =>
      obtain rfl := Option.some.inj found
      exact State.enter_grounded here grounded.2
  | switch lead more rest next =>
      obtain rfl := Option.some.inj found
      exact State.enter_grounded here grounded.2

/-- A continue goes to a place that control has come through, in either reading. -/
theorem Cont.continueTarget_grounded {reading : Reading} {next : Cont} {target : State}
    (grounded : next.Grounded known) (found : next.continueTarget reading = some target) :
    known target ∧ target.Grounded known := by
  induction next with
  | stop => simp [Cont.continueTarget] at found
  | seq rest next ih => exact ih grounded found
  | block rest next ih => exact ih grounded found
  | loop statement body rest next =>
      obtain rfl := Option.some.inj found
      exact ⟨grounded.1, rfl, grounded.2⟩
  | switch lead more rest next ih =>
      simp only [Cont.continueTarget] at found
      split at found
      · obtain rfl := Option.some.inj found
        exact ⟨grounded.1, State.enter_grounded grounded.1 grounded.2⟩
      · exact ih grounded.2 found

theorem Branch.enter_grounded {branch : Branch} {rest : Code} {next : Cont}
    (here : known (branch.enter rest next)) (outer : next.Grounded known) :
    (branch.enter rest next).Grounded known := by
  cases branch with
  | absent => exact State.enter_grounded here outer
  | present body => exact State.enter_grounded here outer

/-- A step of one reading from a grounded state leads where the other reading gets as well. -/
theorem Step.grounded {first second : Reading} {body : Code} {state target : State}
    (closed : ∀ state target, known state → Step first body state target → known target)
    (before : body.TestsBefore) (structured : state.Structured)
    (placed : state.Placed (body.positions body .stop)) (here : known state)
    (grounded : state.Grounded known) (taken : Step second body state target) :
    known target ∧ target.Grounded known := by
  cases taken with
  | @simple lead statement rest next straight =>
      refine ⟨closed _ _ here (.simple straight), ?_, grounded.2⟩
      have same : leadAfter lead statement rest = lead := by
        rw [leadAfter, if_neg (by simp [straight]), leadAt, if_neg structured.2.1.1]
      rw [same]
      exact grounded.1
  | returnStmt kind => exact ⟨closed _ _ here (.returnStmt kind), trivial⟩
  | breakStmt kind enclosed =>
      have there := closed _ _ here (.breakStmt kind enclosed)
      exact ⟨there, Cont.breakTarget_grounded grounded.2 enclosed there⟩
  | continueStmt _ enclosed => exact Cont.continueTarget_grounded grounded.2 enclosed
  | gotoStmt kind _ => exact absurd kind structured.2.1.2.1
  | gotoMissing kind _ => exact absurd kind structured.2.1.2.1
  | compound => exact structured.2.1.elim
  | thenBranch =>
      have there := closed _ _ here .thenBranch
      exact ⟨there, Branch.enter_grounded there grounded.2⟩
  | elseBranch =>
      have there := closed _ _ here .elseBranch
      exact ⟨there, Branch.enter_grounded there grounded.2⟩
  | @loop lead statement inner rest next =>
      have listed : statement ∈ body.nodes := by
        rw [← body.positions_nodes body .stop]
        exact List.mem_map_of_mem (f := Prod.fst)
          (placed.2.1 (List.mem_append_left _ List.mem_cons_self))
      exact ⟨closed _ _ here .loop, decide_eq_false (before statement listed), grounded.2⟩
  | iterate =>
      obtain ⟨rfl, outer⟩ := grounded
      have there := closed _ _ here .iterate
      exact ⟨there, there, here, outer⟩
  | leave =>
      obtain ⟨rfl, outer⟩ := grounded
      have there := closed _ _ here (.leave (.inl rfl))
      exact ⟨there, there, outer⟩
  | dispatch inside =>
      have there := closed _ _ here (.dispatch inside)
      exact ⟨there, there, grounded⟩
  | noMatch open_ =>
      have there := closed _ _ here (.noMatch open_)
      exact ⟨there, there, grounded.2⟩
  | bareSwitch => exact structured.2.1.elim
  | endSeq =>
      have there := closed _ _ here .endSeq
      exact ⟨there, there, grounded.2⟩
  | endBlock => exact structured.2.2.elim
  | endLoop =>
      have there := closed _ _ here .endLoop
      exact ⟨there, rfl, grounded.2.2⟩
  | endGroup =>
      have there := closed _ _ here .endGroup
      exact ⟨there, there, grounded.2⟩
  | endSwitch =>
      have there := closed _ _ here .endSwitch
      exact ⟨there, there, grounded.2.2⟩
  | fallOff => exact ⟨closed _ _ here .fallOff, trivial⟩

end Grounded

/-- Two readings of a structured body get to the same states. -/
theorem gets_same {body : Code} (structured : body.Structured) (before : body.TestsBefore)
    (first second : Reading) {state : State} (gets : second.Gets body state) :
    first.Gets body state := by
  have closed : ∀ state target, first.Gets body state → Step first body state target →
      first.Gets body target := by
    rintro state target ⟨trace, walk⟩ taken
    exact ⟨_, walk.step taken⟩
  obtain ⟨trace, walk⟩ := gets
  have kept : first.Gets body state ∧ state.Grounded (first.Gets body) ∧ state.Structured := by
    induction walk with
    | start =>
        have here : first.Gets body (.start body) := ⟨[], .start⟩
        exact ⟨here, ⟨here, trivial⟩, State.enter_structured structured trivial⟩
    | step walked taken ih =>
        obtain ⟨here, grounded, inner⟩ := ih
        have placed := walk_placed (fun _ _ step => step) walked
        obtain ⟨there, after⟩ := Step.grounded closed before inner placed here grounded taken
        exact ⟨there, after, Step.structured inner taken⟩
  exact kept.1

/-! ### Exact reachability -/

theorem executable_iff_gets (body : Code) (statement : AstNode) :
    Executable body statement ↔
      ∃ state, Reading.c.Gets body state ∧ state.current = some statement := by
  constructor
  · rintro ⟨trace, state, run, current⟩
    obtain ⟨left, walk, _⟩ := run_iff_walk.mp run
    exact ⟨state, ⟨left, walk⟩, current⟩
  · rintro ⟨state, ⟨left, walk⟩, current⟩
    exact ⟨_, state, walk.prefix_run, current⟩

/-- The reachable blocks of a structured body hold exactly the statements that C executes. -/
theorem Represents.executable {cfg : ControlFlowGraph} {body : Code} (represents : Represents cfg body)
    (structured : body.Structured) (before : body.TestsBefore) (statement : AstNode) :
    (∃ block, cfg.Reachable block ∧ statement ∈ cfg.statementsOf block) ↔
      Executable body statement := by
  obtain ⟨first, last, spots, lays⟩ := represents.lays
  rw [reachable_iff_reached lays represents.kinded represents.anchored, executable_iff_gets]
  constructor
  · rintro ⟨trace, state, walk, current⟩
    exact ⟨state, gets_same structured before .c .engine ⟨trace, walk⟩, current⟩
  · rintro ⟨state, gets, current⟩
    obtain ⟨trace, walk⟩ := gets_same structured before .engine .c gets
    exact ⟨trace, state, walk, current⟩

/-- The unreachable blocks hold the other statements of the body. -/
theorem Represents.dead {cfg : ControlFlowGraph} {body : Code} (represents : Represents cfg body)
    (structured : body.Structured) (before : body.TestsBefore) (statement : AstNode) :
    (∃ block ∈ cfg.unreachableBlocks, statement ∈ block.statements) ↔
      statement ∈ body.nodes ∧ ¬ Executable body statement := by
  have exact_ := represents.executable structured before statement
  constructor
  · rintro ⟨block, listed, held⟩
    obtain ⟨blockId, found, missed, _⟩ := (cfg.mem_unreachableBlocks block).mp listed
    rw [← ControlFlowGraph.statementsOf_of_get found] at held
    refine ⟨represents.places.inside blockId statement held, fun executable => ?_⟩
    obtain ⟨other, reachable, there⟩ := exact_.mpr executable
    exact missed (represents.places.once other blockId statement there held ▸ reachable)
  · rintro ⟨inside, never⟩
    obtain ⟨blockId, held, _⟩ := represents.owns inside
    have unreachable : ¬ cfg.Reachable blockId := fun reachable =>
      never (exact_.mp ⟨blockId, reachable, held⟩)
    obtain ⟨first, last, spots, lays⟩ := represents.lays
    have synthetic : blockId ≠ .entry ∧ blockId ≠ .exit := by
      constructor
      · rintro rfl
        rw [lays.bounds.1] at held
        exact absurd held List.not_mem_nil
      · rintro rfl
        rw [lays.bounds.2] at held
        exact absurd held List.not_mem_nil
    cases found : cfg.blocks.get? blockId with
    | none => simp [ControlFlowGraph.statementsOf, found] at held
    | some block =>
        rw [ControlFlowGraph.statementsOf_of_get found] at held
        exact ⟨block, (cfg.mem_unreachableBlocks block).mpr ⟨blockId, found, unreachable, synthetic.1,
          synthetic.2, List.ne_nil_of_mem held⟩, held⟩

/-- Reachability is exact on structured bodies. -/
theorem structured_reachability {graph : AstGraph} (wellFormed : graph.WellFormed)
    (functionNode : AstNode) (body : Code) (layout : FunctionBody graph functionNode body)
    (structured : body.Structured) (before : body.TestsBefore) :
    ∃ cfg, build functionNode graph = some cfg ∧ ∀ statement,
      ((∃ block, cfg.Reachable block ∧ statement ∈ cfg.statementsOf block) ↔
        Executable body statement) ∧
      ((∃ block ∈ cfg.unreachableBlocks, statement ∈ block.statements) ↔
        statement ∈ body.nodes ∧ ¬ Executable body statement) := by
  obtain ⟨reads, kinded, nodup⟩ := layout.reading wellFormed
  by_cases empty : bodyStatements functionNode graph = []
  · obtain ⟨cfg, built, trivial⟩ := build_trivial functionNode graph empty
    rw [empty] at reads
    cases reads
    have nothing : ∀ statement, ¬ Executable .nil statement := by
      rintro statement ⟨trace, state, run, current⟩
      obtain ⟨left, walk, _⟩ := run_iff_walk.mp run
      have placed := walk_placed (fun _ _ taken => taken) walk
      exact absurd (current_mem_nodes placed current) List.not_mem_nil
    refine ⟨cfg, built, fun statement => ⟨⟨?_, fun executable => absurd executable (nothing _)⟩,
      ⟨?_, fun inside => absurd inside.1 List.not_mem_nil⟩⟩⟩
    · rintro ⟨block, _, held⟩
      rw [trivial.empty] at held
      exact absurd held List.not_mem_nil
    · rintro ⟨block, listed, _⟩
      obtain ⟨blockId, found, _, _, _, filled⟩ := (cfg.mem_unreachableBlocks block).mp listed
      rw [← ControlFlowGraph.statementsOf_of_get found, trivial.empty] at filled
      exact absurd rfl filled
  · obtain ⟨cfg, built, represents⟩ := build_represents functionNode graph body empty reads kinded nodup
    exact ⟨cfg, built, fun statement => ⟨represents.executable structured before statement,
      represents.dead structured before statement⟩⟩

/-! ### A loop that is left by a return -/

/-- These are the nodes of `f() { while (c) { return; x(); } }`. -/
def leavingFunction : AstNode := { nodeId := "f", nodeKind := .functionDecl, childrenIds := ["b"] }

def leavingLoop : AstNode :=
  { nodeId := "w", nodeKind := .whileStmt, parentId := "b", childrenIds := ["c", "l"] }

def leavingReturn : AstNode := { nodeId := "r", nodeKind := .returnStmt, parentId := "l" }

def leavingLater : AstNode := { nodeId := "x", nodeKind := .callExpr, parentId := "l" }

def leavingGraph : AstGraph where
  nodes :=
    [leavingFunction, { nodeId := "b", nodeKind := .compoundStmt, parentId := "f", childrenIds := ["w"] },
      leavingLoop, { nodeId := "c", nodeKind := .declRefExpr, parentId := "w" },
      { nodeId := "l", nodeKind := .compoundStmt, parentId := "w", childrenIds := ["r", "x"] },
      leavingReturn, leavingLater]

def leavingBody : Code :=
  .loop leavingLoop (.present (.simple leavingReturn (.simple leavingLater .nil))) .nil

theorem leavingGraph_wellFormed : leavingGraph.WellFormed := by
  apply AstGraph.WellFormed.of_order <;> decide

theorem leavingGraph_layout : FunctionBody leavingGraph leavingFunction leavingBody := by
  have statements : bodyStatements leavingFunction leavingGraph = [leavingLoop] := by decide
  refine ⟨[], { nodeId := "l", nodeKind := .compoundStmt, parentId := "w", childrenIds := ["r", "x"] },
    [{ nodeId := "c", nodeKind := .declRefExpr, parentId := "w" }], statements, rfl, by decide, ?_, rfl⟩
  exact ⟨_, rfl, [leavingLater], by decide, rfl, [], rfl, rfl, rfl⟩

/-- The loop that is left by a return is a structured body. -/
theorem structured_reachability_leaving :
    ∃ cfg, build leavingFunction leavingGraph = some cfg ∧ ∀ statement,
      ((∃ block, cfg.Reachable block ∧ statement ∈ cfg.statementsOf block) ↔
        Executable leavingBody statement) ∧
      ((∃ block ∈ cfg.unreachableBlocks, statement ∈ block.statements) ↔
        statement ∈ leavingBody.nodes ∧ ¬ Executable leavingBody statement) :=
  structured_reachability leavingGraph_wellFormed leavingFunction leavingBody leavingGraph_layout
    ⟨⟨by decide, by decide, by decide, by decide, trivial⟩, trivial⟩ (by
      unfold Code.TestsBefore
      decide)

end MisraPlatform
