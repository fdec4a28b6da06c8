import MisraPlatform.Semantics.Execution

/-
This file shows that every state of a run stands at a position of the body.
-/

namespace MisraPlatform
open CFGEngine

/-! ### Walks -/

/-- A walk collects the statements that control leaves behind. -/
inductive Walk (step : State → State → Prop) (start : State) : List AstNode → State → Prop
  | start : Walk step start [] start
  | step {trace : List AstNode} {state target : State} (before : Walk step start trace state)
      (taken : step state target) : Walk step start (trace ++ state.reached) target

theorem Walk.trans {step : State → State → Prop} {first second third : State}
    {front back : List AstNode} (head : Walk step first front second)
    (tail : Walk step second back third) : Walk step first (front ++ back) third := by
  induction tail with
  | start => simpa using head
  | step _ taken ih =>
      rw [← List.append_assoc]
      exact ih.step taken

theorem Walk.single {step : State → State → Prop} {state target : State} (taken : step state target) :
    Walk step state state.reached target := by
  simpa using Walk.start.step taken

theorem Walk.cons {step : State → State → Prop} {first second third : State} {back : List AstNode}
    (taken : step first second) (tail : Walk step second back third) :
    Walk step first (first.reached ++ back) third := (Walk.single taken).trans tail

theorem Walk.mono {step wider : State → State → Prop} (weaker : ∀ state target, step state target →
    wider state target) {start last : State} {trace : List AstNode}
    (walk : Walk step start trace last) : Walk wider start trace last := by
  induction walk with
  | start => exact .start
  | step _ taken ih => exact ih.step (weaker _ _ taken)

/-- A run is a walk and the statement that it has reached. -/
theorem run_iff_walk {step : State → State → Prop} {start last : State} {trace : List AstNode} :
    Run step start trace last ↔ ∃ left, Walk step start left last ∧ trace = left ++ last.reached := by
  constructor
  · intro run
    induction run with
    | start => exact ⟨[], .start, rfl⟩
    | step _ taken ih =>
        obtain ⟨left, walk, same⟩ := ih
        exact ⟨left ++ _, walk.step taken, by rw [same]⟩
  · rintro ⟨left, walk, rfl⟩
    induction walk with
    | start => exact .start
    | step _ taken ih => exact ih.step taken

/-- Control gets to the state in this reading of the body. -/
def Reading.Gets (reading : Reading) (body : Code) (state : State) : Prop :=
  ∃ trace, Walk (Step reading body) (.start body) trace state

/-! ### Readings -/

theorem Cont.continueTarget_reading {next : Cont} (direct : next.underSwitch = false)
    (first second : Reading) : next.continueTarget first = next.continueTarget second := by
  induction next with
  | stop | loop => rfl
  | seq rest next ih => exact ih direct
  | block rest next ih => exact ih direct
  | switch => exact absurd direct (by simp [Cont.underSwitch])

/-- A step of one reading is a step of another one when they agree at the state. -/
theorem Step.reread {first second : Reading} {body : Code} {state target : State}
    (taken : Step first body state target)
    (ends : state.EndsBlock → second.leavesBlock = true)
    (continues : ¬ state.ContinuesInSwitch)
    (skips : state.TestsFirst → first.skipsDoBody = true → second.skipsDoBody = true) :
    Step second body state target := by
  cases taken with
  | continueStmt kind enclosed =>
      have direct := not_and.mp continues kind
      rw [Cont.continueTarget_reading (by simpa using direct) first second] at enclosed
      exact .continueStmt kind enclosed
  | @leave _ _ _ _ fresh tested =>
      cases fresh with
      | false => exact .leave (.inl rfl)
      | true => exact .leave (.inr (skips rfl (tested.resolve_left (by simp))))
  | endBlock => exact .endBlock (ends trivial)
  | simple straight => exact .simple straight
  | returnStmt kind => exact .returnStmt kind
  | breakStmt kind enclosed => exact .breakStmt kind enclosed
  | gotoStmt kind found => exact .gotoStmt kind found
  | gotoMissing kind missing => exact .gotoMissing kind missing
  | compound => exact .compound
  | thenBranch => exact .thenBranch
  | elseBranch => exact .elseBranch
  | loop => exact .loop
  | iterate => exact .iterate
  | dispatch inside => exact .dispatch inside
  | noMatch open_ => exact .noMatch open_
  | bareSwitch => exact .bareSwitch
  | endSeq => exact .endSeq
  | endLoop => exact .endLoop
  | endGroup => exact .endGroup
  | endSwitch => exact .endSwitch
  | fallOff => exact .fallOff

/-! ### Positions -/

mutual

theorem Code.positions_nodes : ∀ (code lead : Code) (next : Cont),
    (code.positions lead next).map Prod.fst = code.nodes
  | .nil, _, _ => rfl
  | .simple _ rest, _, _ => by simp [Code.positions, Code.nodes, rest.positions_nodes]
  | .compound _ body rest, _, _ => by
      simp [Code.positions, Code.nodes, body.positions_nodes, rest.positions_nodes]
  | .ifStmt _ thenBranch elseBranch rest, _, _ => by
      simp [Code.positions, Code.nodes, thenBranch.positions_nodes, elseBranch.positions_nodes,
        rest.positions_nodes]
  | .loop _ body rest, _, _ => by
      simp [Code.positions, Code.nodes, body.positions_nodes, rest.positions_nodes]
  | .switch _ groups rest, _, _ => by
      simp [Code.positions, Code.nodes, groups.positions_nodes, rest.positions_nodes]
  | .bareSwitch _ rest, _, _ => by simp [Code.positions, Code.nodes, rest.positions_nodes]

theorem Branch.positions_nodes : ∀ (branch : Branch) (next : Cont),
    (branch.positions next).map Prod.fst = branch.nodes
  | .absent, _ => rfl
  | .present body, _ => body.positions_nodes _ _

theorem Groups.positions_nodes : ∀ (groups : Groups) (lead rest : Code) (next : Cont),
    (groups.positions lead rest next).map Prod.fst = groups.nodes
  | .nil, _, _, _ => rfl
  | .cons _ body more, _, _, _ => by
      simp [Groups.positions, Groups.nodes, body.positions_nodes, more.positions_nodes]

end

/-- The kind of the statement that a state has reached fits the state. -/
def State.Fits : State → Prop
  | .run _ (.simple statement _) _ => statement.nodeKind.isSimple = true
  | .run _ (.ifStmt statement _ _ _) _ => statement.nodeKind = .ifStmt
  | .run _ (.switch statement _ _) _ => statement.nodeKind = .switchStmt
  | .run _ (.bareSwitch statement _) _ => statement.nodeKind = .switchStmt
  | .head statement _ _ _ _ => statement.nodeKind.isLoop = true
  | _ => True

/-- The lead has no part in it. -/
theorem State.fits_lead {lead other code : Code} {next : Cont} (fits : (State.run lead code next).Fits) :
    (State.run other code next).Fits := by
  cases code <;> exact fits

/-- A position of a statement has reached that statement. -/
def Fitting (position : AstNode × State) : Prop :=
  position.2.current = some position.1 ∧ position.2.Fits

mutual

theorem Code.positions_fitting : ∀ (code lead : Code) (next : Cont), code.Kinded →
    ∀ position ∈ code.positions lead next, Fitting position
  | .nil, _, _, _, _, inside => absurd inside List.not_mem_nil
  | .simple statement rest, _, _, kinded, position, inside => by
      rcases List.mem_cons.mp inside with rfl | later
      · exact ⟨rfl, kinded.1⟩
      · exact rest.positions_fitting _ _ kinded.2 position later
  | .compound _ body rest, _, _, kinded, position, inside => by
      rcases List.mem_append.mp inside with early | later
      · exact body.positions_fitting _ _ kinded.2.1 position early
      · exact rest.positions_fitting _ _ kinded.2.2 position later
  | .ifStmt _ thenBranch elseBranch rest, _, _, kinded, position, inside => by
      simp only [Code.positions, List.cons_append, List.mem_cons, List.mem_append] at inside
      rcases inside with rfl | (first | second) | later
      · exact ⟨rfl, kinded.1⟩
      · exact thenBranch.positions_fitting _ kinded.2.1 position first
      · exact elseBranch.positions_fitting _ kinded.2.2.1 position second
      · exact rest.positions_fitting _ _ kinded.2.2.2 position later
  | .loop _ body rest, _, _, kinded, position, inside => by
      simp only [Code.positions, List.cons_append, List.mem_cons, List.mem_append] at inside
      rcases inside with rfl | first | later
      · exact ⟨rfl, kinded.1⟩
      · exact body.positions_fitting _ kinded.2.1 position first
      · exact rest.positions_fitting _ _ kinded.2.2 position later
  | .switch _ groups rest, _, _, kinded, position, inside => by
      simp only [Code.positions, List.cons_append, List.mem_cons, List.mem_append] at inside
      rcases inside with rfl | first | later
      · exact ⟨rfl, kinded.1⟩
      · exact groups.positions_fitting _ _ _ kinded.2.1 position first
      · exact rest.positions_fitting _ _ kinded.2.2 position later
  | .bareSwitch _ rest, _, _, kinded, position, inside => by
      rcases List.mem_cons.mp inside with rfl | later
      · exact ⟨rfl, kinded.1⟩
      · exact rest.positions_fitting _ _ kinded.2 position later

theorem Branch.positions_fitting : ∀ (branch : Branch) (next : Cont), branch.Kinded →
    ∀ position ∈ branch.positions next, Fitting position
  | .absent, _, _, _, inside => absurd inside List.not_mem_nil
  | .present body, _, kinded, position, inside => body.positions_fitting _ _ kinded position inside

theorem Groups.positions_fitting : ∀ (groups : Groups) (lead rest : Code) (next : Cont),
    groups.Kinded → ∀ position ∈ groups.positions lead rest next, Fitting position
  | .nil, _, _, _, _, _, inside => absurd inside List.not_mem_nil
  | .cons label body more, _, _, _, kinded, position, inside => by
      simp only [Groups.positions, List.cons_append, List.mem_cons, List.mem_append] at inside
      rcases inside with rfl | first | later
      · refine ⟨rfl, ?_⟩
        have kind := kinded.1
        simp only [isCaseLabel, Bool.or_eq_true, decide_eq_true_eq] at kind
        rcases kind with case | default_
        · simp [State.Fits, case, NodeKind.isSimple]
        · simp [State.Fits, default_, NodeKind.isSimple]
      · exact body.positions_fitting _ _ kinded.2.1 position first
      · exact more.positions_fitting _ _ _ kinded.2.2 position later

end

/-! ### States at positions -/

section Placed

variable (all : List (AstNode × State))

/-- The positions of the code that waits are positions of the body. -/
def Cont.Placed : Cont → Prop
  | .stop => True
  | .seq rest next | .block rest next => rest.positions rest next ⊆ all ∧ next.Placed
  | .loop statement body rest next =>
      (statement, .head statement body rest next (statement.nodeKind = .doStmt)) ∈ all ∧
        body.positions (.loop statement body rest next) ⊆ all ∧ rest.positions rest next ⊆ all ∧
        next.Placed
  | .switch lead more rest next => lead.positions lead next ⊆ all ∧
      more.positions lead rest next ⊆ all ∧ rest.positions rest next ⊆ all ∧ next.Placed

/-- The positions of the code that is left to run are positions of the body. -/
def State.Placed : State → Prop
  | .run lead code next => lead.positions lead next ⊆ all ∧ code.positions lead next ⊆ all ∧
      next.Placed all
  | .head statement body rest next _ => (Cont.loop statement body rest next).Placed all
  | .left _ => True

end Placed

variable {all : List (AstNode × State)}

theorem State.enter_placed {code : Code} {next : Cont} (inside : code.positions code next ⊆ all)
    (following : next.Placed all) : (State.enter code next).Placed all := ⟨inside, inside, following⟩

@[simp] theorem leadAt_leadAt (lead rest : Code) (statement : AstNode) :
    leadAt (leadAt lead statement rest) statement rest = leadAt lead statement rest := by
  unfold leadAt
  split <;> rfl

@[simp] theorem leadAt_self (rest : Code) (statement : AstNode) :
    leadAt (.simple statement rest) statement rest = .simple statement rest := by
  unfold leadAt
  split <;> rfl

@[simp] theorem leadAfter_leadAt (lead rest : Code) (statement : AstNode) :
    leadAfter (leadAt lead statement rest) statement rest = leadAfter lead statement rest := by
  unfold leadAfter
  split
  · rfl
  · exact leadAt_leadAt lead rest statement

/-- A label is the lead of its own list. -/
theorem leadAt_placed {lead rest : Code} {statement : AstNode} {next : Cont}
    (ahead : lead.positions lead next ⊆ all)
    (inside : (Code.simple statement rest).positions lead next ⊆ all) :
    (leadAt lead statement rest).positions (leadAt lead statement rest) next ⊆ all := by
  unfold leadAt
  split
  · rename_i kind
    have same : (Code.simple statement rest).positions (.simple statement rest) next =
        (Code.simple statement rest).positions lead next := by
      simp [Code.positions, leadAt, leadAfter, kind, NodeKind.isJump]
    rw [same]
    exact inside
  · exact ahead

theorem leadAfter_placed {lead rest : Code} {statement : AstNode} {next : Cont}
    (ahead : lead.positions lead next ⊆ all)
    (inside : (Code.simple statement rest).positions lead next ⊆ all) :
    (leadAfter lead statement rest).positions (leadAfter lead statement rest) next ⊆ all := by
  by_cases jump : statement.nodeKind.isJump = true
  · have restInside : rest.positions (leadAfter lead statement rest) next ⊆ all :=
      fun _ listed => inside (List.mem_cons_of_mem _ listed)
    rw [leadAfter, if_pos jump] at restInside ⊢
    exact restInside
  · rw [leadAfter, if_neg jump]
    exact leadAt_placed ahead inside

/-- A label of a group stands in front of the list of the group. -/
theorem group_placed {label : AstNode} {body lead rest : Code} {more : Groups} {next : Cont}
    (placed : (Groups.cons label body more).positions lead rest next ⊆ all) :
    (Code.simple label body).positions (.simple label body) (.switch lead more rest next) ⊆ all := by
  intro position listed
  rcases List.mem_cons.mp listed with rfl | deeper
  · rw [leadAt_self]
    exact placed List.mem_cons_self
  · exact placed (List.mem_append_left _ (List.mem_cons_of_mem _ deeper))

mutual

/-- Every position of a placed list is placed. -/
theorem Code.positions_placed : ∀ (code lead : Code) (next : Cont),
    code.positions lead next ⊆ all → lead.positions lead next ⊆ all → next.Placed all →
    ∀ position ∈ code.positions lead next, position.2.Placed all
  | .nil, _, _, _, _, _, _, inside => absurd inside List.not_mem_nil
  | .simple statement rest, lead, next, placed, ahead, following, position, inside => by
      rcases List.mem_cons.mp inside with rfl | later
      · refine ⟨leadAt_placed ahead placed, ?_, following⟩
        intro other listed
        rcases List.mem_cons.mp listed with rfl | deeper
        · rw [leadAt_leadAt]
          exact placed List.mem_cons_self
        · rw [leadAfter_leadAt] at deeper
          exact placed (List.mem_cons_of_mem _ deeper)
      · exact rest.positions_placed _ next (fun _ listed => placed (List.mem_cons_of_mem _ listed))
          (leadAfter_placed ahead placed) following position later
  | .compound _ body rest, _, next, placed, _, following, position, inside => by
      have bodyPlaced : body.positions body (.block rest next) ⊆ all := fun _ listed =>
        placed (List.mem_append_left _ listed)
      have restPlaced : rest.positions rest next ⊆ all := fun _ listed =>
        placed (List.mem_append_right _ listed)
      rcases List.mem_append.mp inside with early | later
      · exact body.positions_placed _ _ bodyPlaced bodyPlaced ⟨restPlaced, following⟩ position early
      · exact rest.positions_placed _ _ restPlaced restPlaced following position later
  | .ifStmt statement thenBranch elseBranch rest, lead, next, placed, ahead, following, position,
      inside => by
      have whole := placed
      simp only [Code.positions, List.cons_append, List.cons_subset, List.append_subset] at placed
      obtain ⟨_, ⟨thenPlaced, elsePlaced⟩, restPlaced⟩ := placed
      simp only [Code.positions, List.cons_append, List.mem_cons, List.mem_append] at inside
      rcases inside with rfl | (first | second) | later
      · exact ⟨ahead, whole, following⟩
      · exact thenBranch.positions_placed _ thenPlaced ⟨restPlaced, following⟩ position first
      · exact elseBranch.positions_placed _ elsePlaced ⟨restPlaced, following⟩ position second
      · exact rest.positions_placed _ _ restPlaced restPlaced following position later
  | .loop statement body rest, _, next, placed, _, following, position, inside => by
      simp only [Code.positions, List.cons_append, List.cons_subset, List.append_subset] at placed
      obtain ⟨here, bodyPlaced, restPlaced⟩ := placed
      have waiting : (Cont.loop statement body rest next).Placed all :=
        ⟨here, bodyPlaced, restPlaced, following⟩
      simp only [Code.positions, List.cons_append, List.mem_cons, List.mem_append] at inside
      rcases inside with rfl | first | later
      · exact waiting
      · exact body.positions_placed _ bodyPlaced waiting position first
      · exact rest.positions_placed _ _ restPlaced restPlaced following position later
  | .switch statement groups rest, lead, next, placed, ahead, following, position, inside => by
      have whole := placed
      simp only [Code.positions, List.cons_append, List.cons_subset, List.append_subset] at placed
      obtain ⟨_, groupsPlaced, restPlaced⟩ := placed
      simp only [Code.positions, List.cons_append, List.mem_cons, List.mem_append] at inside
      rcases inside with rfl | first | later
      · exact ⟨ahead, whole, following⟩
      · exact groups.positions_placed _ _ _ groupsPlaced ahead restPlaced following position first
      · exact rest.positions_placed _ _ restPlaced restPlaced following position later
  | .bareSwitch statement rest, lead, next, placed, ahead, following, position, inside => by
      have restPlaced : rest.positions rest next ⊆ all := fun _ listed =>
        placed (List.mem_cons_of_mem _ listed)
      rcases List.mem_cons.mp inside with rfl | later
      · exact ⟨ahead, placed, following⟩
      · exact rest.positions_placed _ _ restPlaced restPlaced following position later

theorem Branch.positions_placed : ∀ (branch : Branch) (next : Cont),
    branch.positions next ⊆ all → next.Placed all →
    ∀ position ∈ branch.positions next, position.2.Placed all
  | .absent, _, _, _, _, inside => absurd inside List.not_mem_nil
  | .present body, _, placed, following, position, inside =>
      body.positions_placed _ _ placed placed following position inside

theorem Groups.positions_placed : ∀ (groups : Groups) (lead rest : Code) (next : Cont),
    groups.positions lead rest next ⊆ all → lead.positions lead next ⊆ all →
    rest.positions rest next ⊆ all → next.Placed all →
    ∀ position ∈ groups.positions lead rest next, position.2.Placed all
  | .nil, _, _, _, _, _, _, _, _, inside => absurd inside List.not_mem_nil
  | .cons label body more, lead, rest, next, placed, ahead, after, following, position, inside => by
      have own := group_placed placed
      simp only [Groups.positions, List.cons_append, List.cons_subset, List.append_subset] at placed
      obtain ⟨_, bodyPlaced, morePlaced⟩ := placed
      have waiting : (Cont.switch lead more rest next).Placed all := ⟨ahead, morePlaced, after, following⟩
      simp only [Groups.positions, List.cons_append, List.mem_cons, List.mem_append] at inside
      rcases inside with rfl | first | later
      · exact ⟨own, own, waiting⟩
      · exact body.positions_placed _ _ bodyPlaced (leadAfter_placed own own) waiting position first
      · exact more.positions_placed _ _ _ morePlaced ahead after following position later

end

/-! ### Steps -/

theorem Groups.isTail_placed {tail groups : Groups} (inside : tail.IsTail groups) {lead rest : Code}
    {next : Cont} (placed : groups.positions lead rest next ⊆ all) :
    tail.positions lead rest next ⊆ all := by
  induction inside with
  | here => exact placed
  | later label body _ ih =>
      simp only [Groups.positions, List.cons_append, List.cons_subset, List.append_subset] at placed
      exact ih placed.2.2

theorem Branch.enter_placed {branch : Branch} {rest : Code} {next : Cont}
    (placed : branch.positions (.seq rest next) ⊆ all) (after : rest.positions rest next ⊆ all)
    (following : next.Placed all) : (branch.enter rest next).Placed all := by
  cases branch with
  | absent => exact State.enter_placed after following
  | present body => exact State.enter_placed placed ⟨after, following⟩

theorem Cont.breakTarget_placed {next : Cont} {target : State} (placed : next.Placed all)
    (found : next.breakTarget = some target) : target.Placed all := by
  induction next with
  | stop => simp [Cont.breakTarget] at found
  | seq rest next ih => exact ih placed.2 found
  | block rest next ih => exact ih placed.2 found
  | loop statement body rest next =>
      obtain rfl := Option.some.inj found
      exact State.enter_placed placed.2.2.1 placed.2.2.2
  | switch lead more rest next =>
      obtain rfl := Option.some.inj found
      exact State.enter_placed placed.2.2.1 placed.2.2.2

theorem Cont.continueTarget_placed {reading : Reading} {next : Cont} {target : State}
    (placed : next.Placed all) (found : next.continueTarget reading = some target) :
    target.Placed all := by
  induction next with
  | stop => simp [Cont.continueTarget] at found
  | seq rest next ih => exact ih placed.2 found
  | block rest next ih => exact ih placed.2 found
  | loop statement body rest next =>
      obtain rfl := Option.some.inj found
      exact placed
  | switch lead more rest next ih =>
      simp only [Cont.continueTarget] at found
      split at found
      · obtain rfl := Option.some.inj found
        exact State.enter_placed placed.1 placed.2.2.2
      · exact ih placed.2.2.2 found

/-- A name stands for a position of the body. -/
theorem resolve_position {body : Code} {name : String} {target : State}
    (found : body.resolve name = some target) :
    ∃ statement, (statement, target) ∈ body.positions body .stop ∧
      statement.nodeKind = .labelStmt ∧ labelName statement = name := by
  obtain ⟨front, back, same, _⟩ := List.lookup_eq_some_iff.mp found
  have inside : (name, target) ∈ labelled (body.positions body .stop) :=
    List.mem_reverse.mp (by rw [same]; simp)
  obtain ⟨⟨statement, state⟩, present, named⟩ := List.mem_filterMap.mp inside
  simp only at named
  split at named
  · rename_i kind
    obtain ⟨rfl, rfl⟩ := Prod.mk.inj (Option.some.inj named)
    exact ⟨statement, present, kind, rfl⟩
  · exact absurd named (by simp)

theorem start_placed (body : Code) : (State.start body).Placed (body.positions body .stop) :=
  State.enter_placed (List.Subset.refl _) trivial

/-- A step leads from a position of the body to a position of the body. -/
theorem step_placed {reading : Reading} {body : Code} {state target : State}
    (placed : state.Placed (body.positions body .stop)) (taken : Step reading body state target) :
    target.Placed (body.positions body .stop) := by
  cases taken with
  | simple =>
      obtain ⟨ahead, inside, following⟩ := placed
      exact ⟨leadAfter_placed ahead inside, fun _ listed => inside (List.mem_cons_of_mem _ listed),
        following⟩
  | returnStmt | gotoMissing | fallOff => trivial
  | breakStmt _ enclosed => exact Cont.breakTarget_placed placed.2.2 enclosed
  | continueStmt _ enclosed => exact Cont.continueTarget_placed placed.2.2 enclosed
  | gotoStmt _ found =>
      obtain ⟨statement, inside, _⟩ := resolve_position found
      exact body.positions_placed body .stop (List.Subset.refl _) (List.Subset.refl _) trivial _ inside
  | compound =>
      obtain ⟨_, inside, following⟩ := placed
      obtain ⟨first, second⟩ := List.append_subset.mp inside
      exact State.enter_placed first ⟨second, following⟩
  | thenBranch =>
      obtain ⟨_, inside, following⟩ := placed
      simp only [Code.positions, List.cons_append, List.cons_subset, List.append_subset] at inside
      exact Branch.enter_placed inside.2.1.1 inside.2.2 following
  | elseBranch =>
      obtain ⟨_, inside, following⟩ := placed
      simp only [Code.positions, List.cons_append, List.cons_subset, List.append_subset] at inside
      exact Branch.enter_placed inside.2.1.2 inside.2.2 following
  | loop =>
      obtain ⟨_, inside, following⟩ := placed
      simp only [Code.positions, List.cons_append, List.cons_subset, List.append_subset] at inside
      exact ⟨inside.1, inside.2.1, inside.2.2, following⟩
  | iterate => exact State.enter_placed placed.2.1 placed
  | leave => exact State.enter_placed placed.2.2.1 placed.2.2.2
  | dispatch picked =>
      obtain ⟨ahead, inside, following⟩ := placed
      simp only [Code.positions, List.cons_append, List.cons_subset, List.append_subset] at inside
      have tail := Groups.isTail_placed picked inside.2.1
      have more := tail
      simp only [Groups.positions, List.cons_append, List.cons_subset, List.append_subset] at more
      exact State.enter_placed (group_placed tail) ⟨ahead, more.2.2, inside.2.2, following⟩
  | noMatch =>
      obtain ⟨_, inside, following⟩ := placed
      simp only [Code.positions, List.cons_append, List.cons_subset, List.append_subset] at inside
      exact State.enter_placed inside.2.2 following
  | bareSwitch =>
      obtain ⟨_, inside, following⟩ := placed
      exact State.enter_placed (fun _ listed => inside (List.mem_cons_of_mem _ listed)) following
  | endSeq => exact State.enter_placed placed.2.2.1 placed.2.2.2
  | endBlock => exact State.enter_placed placed.2.2.1 placed.2.2.2
  | endLoop => exact placed.2.2
  | endGroup =>
      obtain ⟨_, _, ahead, inside, after, following⟩ := placed
      have more := inside
      simp only [Groups.positions, List.cons_append, List.cons_subset, List.append_subset] at more
      exact State.enter_placed (group_placed inside) ⟨ahead, more.2.2, after, following⟩
  | endSwitch => exact State.enter_placed placed.2.2.2.2.1 placed.2.2.2.2.2

/-- Two states have the same code in front of them, whatever led to them. -/
def State.Alike : State → State → Prop
  | .run _ code next, .run _ other following => code = other ∧ next = following
  | .head statement body rest next _, .head header inner after following _ =>
      statement = header ∧ body = inner ∧ rest = after ∧ next = following
  | .left departure, .left other => departure = other
  | _, _ => False

/-- A placed state that has reached a statement is the position of that statement. -/
theorem State.Placed.position {state : State} {statement : AstNode} (placed : state.Placed all)
    (current : state.current = some statement) :
    ∃ position, (statement, position) ∈ all ∧ state.Alike position := by
  cases state with
  | left => simp [State.current] at current
  | head header body rest next fresh =>
      obtain rfl := Option.some.inj current
      exact ⟨_, placed.1, rfl, rfl, rfl, rfl⟩
  | run lead code next =>
      obtain ⟨_, inside, _⟩ := placed
      cases code with
      | nil | compound | loop => simp [State.current] at current
      | simple first rest =>
          obtain rfl := Option.some.inj current
          exact ⟨_, inside List.mem_cons_self, rfl, rfl⟩
      | ifStmt first thenBranch elseBranch rest =>
          obtain rfl := Option.some.inj current
          exact ⟨_, inside (List.mem_append_left _ List.mem_cons_self), rfl, rfl⟩
      | switch first groups rest =>
          obtain rfl := Option.some.inj current
          exact ⟨_, inside (List.mem_append_left _ List.mem_cons_self), rfl, rfl⟩
      | bareSwitch first rest =>
          obtain rfl := Option.some.inj current
          exact ⟨_, inside List.mem_cons_self, rfl, rfl⟩

/-- The kind of a statement that a run has reached fits the state. -/
theorem State.Placed.fits {body : Code} (kinded : body.Kinded) {state : State}
    (placed : state.Placed (body.positions body .stop)) : state.Fits := by
  cases same : state.current with
  | none =>
      cases state with
      | left => trivial
      | head => simp [State.current] at same
      | run lead code next => cases code <;> trivial
  | some statement =>
      obtain ⟨position, inside, alike⟩ := placed.position same
      have fitting := (body.positions_fitting body .stop kinded _ inside).2
      cases state <;> cases position <;> try exact alike.elim
      · obtain ⟨rfl, rfl⟩ := alike
        exact State.fits_lead fitting
      · obtain ⟨rfl, rfl, rfl, rfl⟩ := alike
        exact fitting
      · trivial

theorem walk_placed {reading : Reading} {body : Code} {step : State → State → Prop}
    (narrow : ∀ state target, step state target → Step reading body state target) {state : State}
    {trace : List AstNode} (walk : Walk step (.start body) trace state) :
    state.Placed (body.positions body .stop) := by
  induction walk with
  | start => exact start_placed body
  | step _ taken ih => exact step_placed ih (narrow _ _ taken)

end MisraPlatform
