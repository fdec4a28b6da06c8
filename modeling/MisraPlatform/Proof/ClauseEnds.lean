import Mathlib.Logic.Relation
import MisraPlatform.Proof.Placement
import MisraPlatform.Proof.Descendants
import MisraPlatform.Semantics.ControlStatements

/-
This file computes from the code alone how control can leave a statement list without labels, and shows
which clauses of a switch the query returns.
-/

namespace MisraPlatform
open CFGEngine CFGBuilder

/-! ### The ways out of a list -/

/-- Control that stays in the function leaves a list in one of these ways. -/
inductive Ending where
  | falls | breaks | continues
  deriving DecidableEq

/-- This is the way in which a jump leaves its list. The other jumps leave the function. -/
def Ending.madeBy (ending : Ending) (statement : AstNode) : Bool :=
  match ending with
  | .falls => false
  | .breaks => statement.nodeKind = .breakStmt
  | .continues => statement.nodeKind = .continueStmt

/-- The ways out of a list follow from those of the rest behind its first statement. -/
def Ending.behind (ending : Ending) (statement : AstNode) (rest : Bool) : Bool :=
  if statement.nodeKind.isJump then ending.madeBy statement else rest

mutual

/-- The list can be left in this way when every condition is free. -/
def Code.ends : Code → Ending → Bool
  | .nil, ending => ending = .falls
  | .simple statement rest, ending => ending.behind statement (rest.ends ending)
  | .compound _ body rest, ending =>
      ending ≠ .falls && body.ends ending || body.ends .falls && rest.ends ending
  | .ifStmt _ thenBranch elseBranch rest, ending =>
      ending ≠ .falls && (thenBranch.ends ending || elseBranch.ends ending) ||
        (thenBranch.ends .falls || elseBranch.ends .falls) && rest.ends ending
  | .loop statement body rest, ending =>
      (statement.nodeKind ≠ .doStmt || body.iterates) && rest.ends ending
  | .switch _ groups rest, ending =>
      ending = .continues && groups.entered .continues ||
        (!groups.hasDefault || groups.entered .falls || groups.entered .breaks) && rest.ends ending
  | .bareSwitch _ rest, ending => rest.ends ending

def Branch.ends : Branch → Ending → Bool
  | .absent, ending => ending = .falls
  | .present body, ending => body.ends ending

/-- A loop goes on behind its body in every one of the three ways. -/
def Branch.iterates : Branch → Bool
  | .absent => false
  | .present body => body.ends .falls || body.ends .breaks || body.ends .continues

/-- Control enters at the first label and falls from group to group. -/
def Groups.ends : Groups → Ending → Bool
  | .nil, ending => ending = .falls
  | .cons label body more, ending =>
      ending ≠ .falls && ending.behind label (body.ends ending) ||
        Ending.falls.behind label (body.ends .falls) && more.ends ending

/-- Control enters at any of the labels. -/
def Groups.entered : Groups → Ending → Bool
  | .nil, _ => false
  | .cons label body more, ending =>
      (ending ≠ .falls && ending.behind label (body.ends ending) ||
        Ending.falls.behind label (body.ends .falls) && more.ends ending) || more.entered ending

end

/-! ### From a run to a way out -/

/-- The list is left in a way after which control can fall off the body. -/
def Code.Leads (code : Code) (onwards : Ending → Prop) : Prop := ∃ ending, code.ends ending = true ∧ onwards ending

/-- Control that comes to this continuation in this way can fall off the body. -/
def Cont.Falls : Cont → Ending → Prop
  | .stop, ending => ending = .falls
  | .seq rest next, ending | .block rest next, ending =>
      if ending = .falls then rest.Leads next.Falls else next.Falls ending
  | .loop _ _ rest next, _ => rest.Leads next.Falls
  | .switch _ more rest next, ending =>
      match ending with
      | .falls => more.ends .continues = true ∧ next.Falls .continues ∨
          (more.ends .falls = true ∨ more.ends .breaks = true) ∧ rest.Leads next.Falls
      | .breaks => rest.Leads next.Falls
      | .continues => next.Falls .continues

def State.Falls : State → Prop
  | .run _ code next => code.Leads next.Falls
  | .head _ body rest next fresh => (fresh = true → body.iterates = true) ∧ rest.Leads next.Falls
  | .left departure => departure = .fellOff

theorem Cont.breakTarget_falls {next : Cont} {target : State} (enclosed : next.breakTarget = some target)
    (falls : target.Falls) : next.Falls .breaks := by
  induction next with
  | stop => simp [Cont.breakTarget] at enclosed
  | seq rest next ih => exact ih enclosed
  | block rest next ih => exact ih enclosed
  | loop | switch =>
      obtain rfl := Option.some.inj enclosed
      exact falls

theorem Cont.continueTarget_falls {next : Cont} {target : State}
    (enclosed : next.continueTarget .c = some target) (falls : target.Falls) : next.Falls .continues := by
  induction next with
  | stop => simp [Cont.continueTarget] at enclosed
  | seq rest next ih => exact ih enclosed
  | block rest next ih => exact ih enclosed
  | loop =>
      obtain rfl := Option.some.inj enclosed
      exact falls.2
  | switch lead more rest next ih => exact ih enclosed

theorem Branch.enter_falls {branch : Branch} {rest : Code} {next : Cont} (falls : (branch.enter rest next).Falls) :
    ∃ ending, branch.ends ending = true ∧ if ending = .falls then rest.Leads next.Falls else next.Falls ending := by
  cases branch with
  | absent => exact ⟨.falls, rfl, falls⟩
  | present body => exact falls

/-- A way out of the first statement is one of the list. -/
theorem Leads.first {onwards : Ending → Prop} {ending : Ending} {rest code : Code}
    (here : ending ≠ .falls → code.ends ending = true)
    (later : ending = .falls → ∀ other, rest.ends other = true → code.ends other = true)
    (falls : if ending = .falls then rest.Leads onwards else onwards ending) : code.Leads onwards := by
  split at falls
  · rename_i same
    obtain ⟨other, ends, further⟩ := falls
    exact ⟨other, later same other ends, further⟩
  · rename_i different
    exact ⟨ending, here different, falls⟩

/-- A group is entered at its label. -/
theorem group_falls {label : AstNode} {body : Code} {more : Groups} {lead : Code} {rest : Code} {next : Cont}
    (falls : (State.enter (.simple label body) (.switch lead more rest next)).Falls) :
    (Cont.switch lead (.cons label body more) rest next).Falls .falls := by
  obtain ⟨ending, ends, further⟩ := falls
  have here : ending.behind label (body.ends ending) = true := ends
  cases ending with
  | falls =>
      rcases further with ⟨later, onwards⟩ | ⟨later, onwards⟩
      · exact .inl ⟨by simp [Groups.ends, here, later], onwards⟩
      · exact .inr ⟨later.imp (fun ends => by simp [Groups.ends, here, ends])
          fun ends => by simp [Groups.ends, here, ends], onwards⟩
  | breaks => exact .inr ⟨.inr (by simp [Groups.ends, here]), further⟩
  | continues => exact .inl ⟨by simp [Groups.ends, here], further⟩

/-- A switch can enter at each of its labels. -/
theorem Groups.IsTail.entered {label : AstNode} {body : Code} {more groups : Groups}
    (inside : Groups.IsTail (.cons label body more) groups) {ending : Ending}
    (ends : (Groups.cons label body more).ends ending = true) : groups.entered ending = true := by
  induction inside with
  | here =>
      rw [Groups.ends] at ends
      rw [Groups.entered, ends, Bool.true_or]
  | later other inner _ ih => rw [Groups.entered, ih, Bool.or_true]

theorem switch_leads {statement : AstNode} {groups : Groups} {rest : Code} {onwards : Ending → Prop}
    (ways : groups.entered .continues = true ∧ onwards .continues ∨
      (groups.entered .falls = true ∨ groups.entered .breaks = true) ∧ rest.Leads onwards) :
    (Code.switch statement groups rest).Leads onwards := by
  rcases ways with ⟨enters, further⟩ | ⟨enters, ending, ends, further⟩
  · exact ⟨.continues, by simp [Code.ends, enters], further⟩
  · refine ⟨ending, ?_, further⟩
    cases enters with
    | inl enters => simp [Code.ends, enters, ends]
    | inr enters => simp [Code.ends, enters, ends]

/-- Every step goes from a state that can fall off to such a state, and not from any other. -/
theorem Step.falls {body : Code} (unlabelled : ∀ name, body.resolve name = none) {state target : State}
    (taken : Step .c body state target) (falls : target.Falls) : state.Falls := by
  cases taken with
  | simple straight =>
      obtain ⟨ending, ends, further⟩ := falls
      exact ⟨ending, by simp [Code.ends, Ending.behind, straight, ends], further⟩
  | returnStmt kind => cases falls
  | breakStmt kind enclosed =>
      refine ⟨.breaks, ?_, Cont.breakTarget_falls enclosed falls⟩
      simp [Code.ends, Ending.behind, Ending.madeBy, kind, NodeKind.isJump]
  | continueStmt kind enclosed =>
      refine ⟨.continues, ?_, Cont.continueTarget_falls enclosed falls⟩
      simp [Code.ends, Ending.behind, Ending.madeBy, kind, NodeKind.isJump]
  | gotoStmt kind found =>
      rw [unlabelled] at found
      cases found
  | gotoMissing kind missing => cases falls
  | compound =>
      obtain ⟨ending, ends, further⟩ := falls
      refine Leads.first (fun different => ?_) (fun same other later => ?_) further
      · simp [Code.ends, different, ends]
      · subst same
        simp [Code.ends, ends, later]
  | thenBranch =>
      obtain ⟨ending, ends, further⟩ := Branch.enter_falls falls
      refine Leads.first (fun different => ?_) (fun same other later => ?_) further
      · simp [Code.ends, different, ends]
      · subst same
        simp [Code.ends, ends, later]
  | elseBranch =>
      obtain ⟨ending, ends, further⟩ := Branch.enter_falls falls
      refine Leads.first (fun different => ?_) (fun same other later => ?_) further
      · simp [Code.ends, different, ends]
      · subst same
        simp [Code.ends, ends, later]
  | @loop lead statement loopBody rest next =>
      obtain ⟨iterates, ending, ends, further⟩ := falls
      refine ⟨ending, ?_, further⟩
      rw [Code.ends, ends, Bool.and_true, Bool.or_eq_true, decide_eq_true_eq]
      by_cases kind : statement.nodeKind = .doStmt
      · exact .inr (iterates (decide_eq_true kind))
      · exact .inl kind
  | iterate =>
      obtain ⟨ending, ends, further⟩ := falls
      refine ⟨fun _ => ?_, further⟩
      cases ending with
      | falls | breaks | continues => simp [Branch.iterates, ends]
  | leave tested =>
      refine ⟨fun fresh => ?_, falls⟩
      rcases tested with again | skips
      · exact Bool.noConfusion (fresh.symm.trans again)
      · exact absurd skips Bool.false_ne_true
  | dispatch inside =>
      refine switch_leads ((group_falls falls).imp ?_ ?_)
      · exact And.imp_left inside.entered
      · exact And.imp_left (Or.imp inside.entered inside.entered)
  | noMatch missing =>
      obtain ⟨ending, ends, further⟩ := falls
      exact ⟨ending, by simp [Code.ends, missing, ends], further⟩
  | bareSwitch => exact falls
  | endSeq => exact ⟨.falls, rfl, falls⟩
  | endBlock => exact ⟨.falls, rfl, falls⟩
  | endLoop => exact ⟨.falls, rfl, falls.2⟩
  | endGroup => exact ⟨.falls, rfl, group_falls falls⟩
  | endSwitch => exact ⟨.falls, rfl, .inr ⟨.inl rfl, falls⟩⟩
  | fallOff => exact ⟨.falls, rfl, rfl⟩

/-! ### From a way out to a run -/

section Runs

variable {whole : Code}

abbrev LeadsTo (whole : Code) : State → State → Prop := Relation.ReflTransGen (Step .c whole)

/-- Control gets from the state to the place where this way out of the continuation leads. -/
def Cont.Takes (whole : Code) (next : Cont) (state : State) : Ending → Prop
  | .falls => ∃ lead, LeadsTo whole state (.run lead .nil next)
  | .breaks => ∀ target, next.breakTarget = some target → LeadsTo whole state target
  | .continues => ∀ target, next.continueTarget .c = some target → LeadsTo whole state target

theorem Cont.Takes.head {next : Cont} {first second : State} {ending : Ending}
    (takes : next.Takes whole second ending) (reaches : LeadsTo whole first second) :
    next.Takes whole first ending := by
  cases ending with
  | falls =>
      obtain ⟨lead, further⟩ := takes
      exact ⟨lead, reaches.trans further⟩
  | breaks | continues => exact fun target enclosed => reaches.trans (takes target enclosed)

theorem simple_takes {statement : AstNode} {rest lead : Code} {next : Cont} {ending : Ending}
    (later : rest.ends ending = true → ∀ lead, next.Takes whole (.run lead rest next) ending)
    (ends : ending.behind statement (rest.ends ending) = true) :
    next.Takes whole (.run lead (.simple statement rest) next) ending := by
  rw [Ending.behind] at ends
  split at ends
  · cases ending with
    | falls => exact absurd ends Bool.false_ne_true
    | breaks => exact fun target enclosed => .single (.breakStmt (of_decide_eq_true ends) enclosed)
    | continues => exact fun target enclosed => .single (.continueStmt (of_decide_eq_true ends) enclosed)
  · rename_i straight
    exact (later ends _).head (.single (.simple (Bool.not_eq_true _ ▸ straight)))

/-- A switch passes a `continue` on and ends for every other way out of its groups. -/
def SwitchTakes (whole rest : Code) (next : Cont) (state : State) : Ending → Prop
  | .falls | .breaks => LeadsTo whole state (.enter rest next)
  | .continues => ∀ target, next.continueTarget .c = some target → LeadsTo whole state target

theorem SwitchTakes.head {rest : Code} {next : Cont} {first second : State} {ending : Ending}
    (takes : SwitchTakes whole rest next second ending) (reaches : LeadsTo whole first second) :
    SwitchTakes whole rest next first ending := by
  cases ending with
  | falls | breaks => exact reaches.trans takes
  | continues => exact fun target enclosed => reaches.trans (takes target enclosed)

/-- A group is left in its own way or through the next one. -/
theorem group_takes {label : AstNode} {body : Code} {more : Groups} {lead rest : Code} {next : Cont}
    {ending : Ending}
    (inner : ∀ (ending : Ending) (lead : Code) (next : Cont), body.ends ending = true →
      next.Takes whole (.run lead body next) ending)
    (later : more.ends ending = true → ∀ start,
      SwitchTakes whole rest next (.run start .nil (.switch lead more rest next)) ending)
    (ends : (Groups.cons label body more).ends ending = true) :
    SwitchTakes whole rest next (.enter (.simple label body) (.switch lead more rest next)) ending := by
  rw [Groups.ends, Bool.or_eq_true, Bool.and_eq_true, Bool.and_eq_true, decide_eq_true_eq] at ends
  rcases ends with ⟨different, here⟩ | ⟨here, ends⟩
  · have takes : (Cont.switch lead more rest next).Takes whole
        (.enter (.simple label body) (.switch lead more rest next)) ending :=
      simple_takes (fun ends lead => inner ending lead _ ends) here
    cases ending with
    | falls => exact absurd rfl different
    | breaks => exact takes _ rfl
    | continues => exact takes
  · obtain ⟨start, reaches⟩ : (Cont.switch lead more rest next).Takes whole
        (.enter (.simple label body) (.switch lead more rest next)) .falls :=
      simple_takes (fun ends lead => inner .falls lead _ ends) here
    exact (later ends start).head reaches

theorem Groups.IsTail.more {label : AstNode} {body : Code} {more groups : Groups}
    (inside : Groups.IsTail (.cons label body more) groups) : more.IsTail groups := by
  induction inside with
  | here => exact .later label body (.here more)
  | later other inner _ ih => exact .later other inner ih

mutual

/-- Every way out of a list is taken by a run. -/
theorem Code.takes : ∀ (code : Code) (ending : Ending) (lead : Code) (next : Cont), code.ends ending = true →
    next.Takes whole (.run lead code next) ending
  | .nil, ending, lead, next, ends => by
      obtain rfl := of_decide_eq_true ends
      exact ⟨lead, .refl⟩
  | .simple statement rest, ending, lead, next, ends =>
      simple_takes (fun ends lead => rest.takes ending lead next ends) ends
  | .compound statement body rest, ending, lead, next, ends => by
      rw [Code.ends, Bool.or_eq_true, Bool.and_eq_true, Bool.and_eq_true, decide_eq_true_eq] at ends
      rcases ends with ⟨different, ends⟩ | ⟨inner, ends⟩
      · have takes : (Cont.block rest next).Takes whole (.run lead (.compound statement body rest) next) ending :=
          (body.takes ending body (.block rest next) ends).head (.single .compound)
        cases ending with
        | falls => exact absurd rfl different
        | breaks | continues => exact takes
      · obtain ⟨start, reaches⟩ := body.takes .falls body (.block rest next) inner
        exact (rest.takes ending rest next ends).head
          ((reaches.head .compound).tail (.endBlock rfl))
  | .ifStmt statement thenBranch elseBranch rest, ending, lead, next, ends => by
      rw [Code.ends, Bool.or_eq_true, Bool.and_eq_true, Bool.and_eq_true, decide_eq_true_eq] at ends
      rcases ends with ⟨different, ends⟩ | ⟨inner, ends⟩
      · rcases Bool.or_eq_true _ _ ▸ ends with ends | ends
        · exact (thenBranch.takes ending rest next different ends).head (.single .thenBranch)
        · exact (elseBranch.takes ending rest next different ends).head (.single .elseBranch)
      · rcases Bool.or_eq_true _ _ ▸ inner with inner | inner
        · exact (rest.takes ending rest next ends).head
            ((thenBranch.joins rest next inner).head .thenBranch)
        · exact (rest.takes ending rest next ends).head
            ((elseBranch.joins rest next inner).head .elseBranch)
  | .loop statement body rest, ending, lead, next, ends => by
      rw [Code.ends, Bool.and_eq_true, Bool.or_eq_true, decide_eq_true_eq] at ends
      obtain ⟨tested, ends⟩ := ends
      have later := rest.takes ending rest next ends
      by_cases kind : statement.nodeKind = .doStmt
      · have again := body.returns statement rest next (statement.nodeKind = .doStmt)
          (tested.resolve_left (not_not_intro kind))
        exact later.head (again.head .loop)
      · have leaves : LeadsTo whole (.head statement body rest next (statement.nodeKind = .doStmt))
            (.enter rest next) := .single (.leave (.inl (decide_eq_false kind)))
        exact later.head (leaves.head .loop)
  | .switch statement groups rest, ending, lead, next, ends => by
      rw [Code.ends, Bool.or_eq_true, Bool.and_eq_true, Bool.and_eq_true, decide_eq_true_eq] at ends
      rcases ends with ⟨rfl, ends⟩ | ⟨passes, ends⟩
      · exact groups.enteredTakes groups .continues statement lead rest next (.here groups) ends
      · have later := rest.takes ending rest next ends
        simp only [Bool.or_eq_true, Bool.not_eq_true'] at passes
        rcases passes with (missing | falls) | breaks
        · exact later.head (.single (.noMatch missing))
        · exact later.head (groups.enteredTakes groups .falls statement lead rest next (.here groups) falls)
        · exact later.head (groups.enteredTakes groups .breaks statement lead rest next (.here groups) breaks)
  | .bareSwitch statement rest, ending, lead, next, ends =>
      (rest.takes ending rest next ends).head (.single .bareSwitch)

/-- A branch is left in its own way. -/
theorem Branch.takes : ∀ (branch : Branch) (ending : Ending) (rest : Code) (next : Cont), ending ≠ .falls →
    branch.ends ending = true → next.Takes whole (branch.enter rest next) ending
  | .absent, ending, rest, next, different, ends => absurd (of_decide_eq_true ends) different
  | .present body, ending, rest, next, different, ends => by
      have takes := body.takes ending body (.seq rest next) ends
      cases ending with
      | falls => exact absurd rfl different
      | breaks | continues => exact takes

/-- Behind a branch control goes on with the rest. -/
theorem Branch.joins : ∀ (branch : Branch) (rest : Code) (next : Cont), branch.ends .falls = true →
    LeadsTo whole (branch.enter rest next) (.enter rest next)
  | .absent, rest, next, ends => .refl
  | .present body, rest, next, ends => by
      obtain ⟨start, leads⟩ := body.takes .falls body (.seq rest next) ends
      exact leads.tail .endSeq

/-- A loop whose body can be left in one of the three ways can be left. -/
theorem Branch.returns : ∀ (branch : Branch) (statement : AstNode) (rest : Code) (next : Cont) (fresh : Bool),
    branch.iterates = true → LeadsTo whole (.head statement branch rest next fresh) (.enter rest next)
  | .absent, statement, rest, next, fresh, iterates => absurd iterates Bool.false_ne_true
  | .present body, statement, rest, next, fresh, iterates => by
      have leave : LeadsTo whole (.head statement (.present body) rest next false) (.enter rest next) :=
        .single (.leave (.inl rfl))
      simp only [Branch.iterates, Bool.or_eq_true] at iterates
      rcases iterates with (ends | ends) | ends
      · obtain ⟨start, leads⟩ := body.takes .falls body (.loop statement (.present body) rest next) ends
        exact ((leads.tail .endLoop).trans leave).head .iterate
      · exact (body.takes .breaks body (.loop statement (.present body) rest next) ends _ rfl).head .iterate
      · exact ((body.takes .continues body (.loop statement (.present body) rest next) ends _ rfl).trans
          leave).head .iterate

/-- Control that falls into the groups leaves the switch. -/
theorem Groups.takes : ∀ (groups : Groups) (ending : Ending) (start lead rest : Code) (next : Cont),
    groups.ends ending = true → SwitchTakes whole rest next (.run start .nil (.switch lead groups rest next)) ending
  | .nil, ending, start, lead, rest, next, ends => by
      obtain rfl := of_decide_eq_true ends
      exact .single .endSwitch
  | .cons label body more, ending, start, lead, rest, next, ends => by
      have taken : SwitchTakes whole rest next (.enter (.simple label body) (.switch lead more rest next)) ending :=
        group_takes (fun ending lead next ends => body.takes ending lead next ends)
          (fun ends start => more.takes ending start lead rest next ends) ends
      exact taken.head (.single .endGroup)

/-- Control that enters at a label leaves the switch. -/
theorem Groups.enteredTakes : ∀ (groups all : Groups) (ending : Ending) (statement : AstNode) (lead rest : Code)
    (next : Cont), groups.IsTail all → groups.entered ending = true →
    SwitchTakes whole rest next (.run lead (.switch statement all rest) next) ending
  | .nil, all, ending, statement, lead, rest, next, inside, entered => absurd entered Bool.false_ne_true
  | .cons label body more, all, ending, statement, lead, rest, next, inside, entered => by
      rw [Groups.entered, Bool.or_eq_true] at entered
      rcases entered with here | later
      · have taken : SwitchTakes whole rest next (.enter (.simple label body) (.switch lead more rest next)) ending :=
          group_takes (fun ending lead next ends => body.takes ending lead next ends)
            (fun ends start => more.takes ending start lead rest next ends) here
        exact taken.head (.single (.dispatch inside))
      · exact more.enteredTakes all ending statement lead rest next inside.more later

end

end Runs

theorem exists_executes_iff {body : Code} {state : State} :
    (∃ trace, Executes body trace state) ↔ LeadsTo body (.start body) state := by
  constructor
  · rintro ⟨trace, run⟩
    induction run with
    | start => exact .refl
    | step _ taken ih => exact ih.tail taken
  · intro leads
    induction leads with
    | refl => exact ⟨_, .start⟩
    | tail _ taken ih =>
        obtain ⟨trace, run⟩ := ih
        exact ⟨_, run.step taken⟩

theorem runsOff_of_ends {body : Code} (ends : body.ends .falls = true) : RunsOff body := by
  have takes : Cont.stop.Takes body (.start body) .falls :=
    Code.takes body .falls body .stop ends
  obtain ⟨lead, leads⟩ := takes
  exact exists_executes_iff.mpr (leads.tail .fallOff)

/-- No goto of the code finds its label inside. -/
theorem resolve_unlabelled {body : Code} (unlabelled : ∀ statement ∈ body.nodes, statement.nodeKind ≠ .labelStmt)
    (name : String) : body.resolve name = none := by
  have none_ : labelled (body.positions body .stop) = [] := by
    refine List.filterMap_eq_nil_iff.mpr fun entry inside => ?_
    have listed : entry.1 ∈ body.nodes := by
      rw [← body.positions_nodes body .stop]
      exact List.mem_map_of_mem inside
    rw [if_neg (unlabelled entry.1 listed)]
  rw [Code.resolve, none_]
  rfl

/-- Without labels the code tells whether control can run off its end. -/
theorem runsOff_iff {body : Code} (unlabelled : ∀ statement ∈ body.nodes, statement.nodeKind ≠ .labelStmt) :
    RunsOff body ↔ body.ends .falls = true := by
  refine ⟨fun runs => ?_, runsOff_of_ends⟩
  have back : ∀ state, LeadsTo body state (.left .fellOff) → state.Falls := by
    intro state leads
    induction leads using Relation.ReflTransGen.head_induction_on with
    | refl => rfl
    | head taken _ ih => exact taken.falls (resolve_unlabelled unlabelled) ih
  obtain ⟨ending, ends, rfl⟩ := back _ (exists_executes_iff.mp runs)
  exact ends

/-! ### The clauses of a switch -/

/-- One of the statements of the list is a jump. -/
def Code.jumps : Code → Bool
  | .nil => false
  | .simple statement rest => statement.nodeKind.isJump || rest.jumps
  | .compound _ _ rest | .ifStmt _ _ _ rest | .loop _ _ rest | .switch _ _ rest | .bareSwitch _ rest => rest.jumps

/-- Control passes a list if it has no jump and control passes every nested statement. -/
theorem Code.ends_falls_iff : ∀ code : Code,
    code.ends .falls = true ↔ code.jumps = false ∧ ∀ statement ∈ code.nested, statement.ends .falls = true
  | .nil => by simp [Code.ends, Code.jumps, Code.nested]
  | .simple statement rest => by
      have later := rest.ends_falls_iff
      by_cases jump : statement.nodeKind.isJump = true
      · simp [Code.ends, Code.jumps, Ending.behind, Ending.madeBy, jump]
      · simp [Code.ends, Code.jumps, Code.nested, Ending.behind, jump, later]
  | .compound statement body rest => by
      have later := rest.ends_falls_iff
      simp [Code.ends, Code.jumps, Code.nested, later, and_left_comm]
  | .ifStmt statement thenBranch elseBranch rest => by
      have later := rest.ends_falls_iff
      simp [Code.ends, Code.jumps, Code.nested, later, and_left_comm]
  | .loop statement body rest => by
      have later := rest.ends_falls_iff
      simp [Code.ends, Code.jumps, Code.nested, later, and_left_comm]
  | .switch statement groups rest => by
      have later := rest.ends_falls_iff
      simp [Code.ends, Code.jumps, Code.nested, later, and_left_comm]
  | .bareSwitch statement rest => by
      have later := rest.ends_falls_iff
      simp [Code.ends, Code.jumps, Code.nested, later]

theorem isTerminator_iff (statement : AstNode) : isTerminator statement = statement.nodeKind.isJump := by
  cases kind : statement.nodeKind <;> simp [isTerminator, UNCONDITIONAL_TERMINATORS, NodeKind.isJump, kind]

/-- The scan sees the jumps of a clause that stand in its list. -/
theorem Code.reads_jumps {graph : AstGraph} : ∀ (code : Code) (nodes : List AstNode), code.Reads graph nodes →
    nodes.any isTerminator = code.jumps
  | .nil, _, rfl => rfl
  | .simple statement rest, _, ⟨tail, rfl, _, reads⟩ => by
      rw [List.any_cons, isTerminator_iff, rest.reads_jumps tail reads, Code.jumps]
  | .compound statement body rest, _, ⟨tail, rfl, kind, _, reads⟩ => by
      rw [List.any_cons, isTerminator_iff, kind, rest.reads_jumps tail reads, Code.jumps]
      rfl
  | .ifStmt statement thenBranch elseBranch rest, _, ⟨tail, _, _, _, rfl, kind, _, _, _, reads⟩ => by
      rw [List.any_cons, isTerminator_iff, kind, rest.reads_jumps tail reads, Code.jumps]
      rfl
  | .loop statement body rest, _, ⟨tail, _, _, rfl, kind, _, _, reads⟩ => by
      have straight : statement.nodeKind.isJump = false := by
        cases same : statement.nodeKind <;> simp [NodeKind.isLoop, NodeKind.isJump, same] at kind ⊢
      rw [List.any_cons, isTerminator_iff, straight, rest.reads_jumps tail reads, Code.jumps]
      rfl
  | .switch statement groups rest, _, ⟨tail, _, _, rfl, kind, _, _, _, _, reads⟩ => by
      rw [List.any_cons, isTerminator_iff, kind, rest.reads_jumps tail reads, Code.jumps]
      rfl

/-- These are the labels whose clauses have no jump in their lists. -/
def Groups.open : Groups → List AstNode
  | .nil => []
  | .cons label body more => (if body.jumps then [] else [label]) ++ more.open

theorem scanClauses_plain {pendingCase : Option AstNode} {saw : Bool} {inner outer : List AstNode}
    (plain : ∀ node ∈ inner, isCaseLabel node = false) :
    scanClauses pendingCase saw (inner ++ outer) = scanClauses pendingCase (saw || inner.any isTerminator) outer := by
  induction inner generalizing saw with
  | nil => simp
  | cons node inner ih =>
      have here := plain node List.mem_cons_self
      rw [List.cons_append, scanClauses, if_neg (by simp [here]),
        ih fun other inside => plain other (List.mem_cons_of_mem node inside), List.any_cons, Bool.or_assoc]

theorem scanClauses_reads {graph : AstGraph} : ∀ (groups : Groups) (nodes : List AstNode)
    (pendingCase : Option AstNode) (saw : Bool), groups.Reads graph nodes →
    scanClauses pendingCase saw nodes = (if saw then [] else pendingCase.toList) ++ groups.open
  | .nil, _, pendingCase, saw, rfl => by simp [scanClauses, Groups.open]
  | .cons label body more, _, pendingCase, saw, ⟨inner, outer, rfl, kind, plain, reads, later⟩ => by
      rw [List.cons_append, scanClauses, if_pos kind, scanClauses_plain plain,
        scanClauses_reads more outer _ _ later, body.reads_jumps inner reads, Groups.open, Bool.false_or]
      rfl

theorem Groups.IsTail.label {graph : AstGraph} {label : AstNode} {body : Code} {more groups : Groups}
    (inside : Groups.IsTail (.cons label body more) groups) {nodes : List AstNode}
    (reads : groups.Reads graph nodes) : label ∈ nodes ∧ isCaseLabel label = true := by
  induction inside generalizing nodes with
  | here =>
      obtain ⟨inner, outer, rfl, kind, _⟩ := reads
      exact ⟨List.mem_cons_self, kind⟩
  | later other code _ ih =>
      obtain ⟨inner, outer, rfl, _, _, _, reads⟩ := reads
      obtain ⟨listed, kind⟩ := ih reads
      exact ⟨List.mem_append_right _ listed, kind⟩

theorem Groups.IsTail.nodes {tail groups : Groups} (inside : tail.IsTail groups) : tail.nodes ⊆ groups.nodes := by
  induction inside with
  | here => exact List.Subset.refl _
  | later label body _ ih =>
      intro node listed
      rw [Groups.nodes]
      exact List.mem_append_right _ (ih listed)

theorem Groups.mem_open {label : AstNode} : ∀ {groups : Groups}, label ∈ groups.open →
    ∃ body more, Groups.IsTail (.cons label body more) groups
  | .cons other body more, inside => by
      rcases List.mem_append.mp inside with here | later
      · split at here
        · cases here
        · obtain rfl := List.mem_singleton.mp here
          exact ⟨body, more, .here _⟩
      · obtain ⟨inner, rest, below⟩ := Groups.mem_open later
        exact ⟨inner, rest, .later other body below⟩

/-- A label is open if its own list has no jump. -/
theorem Groups.IsTail.mem_open_iff {graph : AstGraph} {label : AstNode} {body : Code} {more groups : Groups}
    (inside : Groups.IsTail (.cons label body more) groups) {nodes : List AstNode} (reads : groups.Reads graph nodes)
    (distinct : nodes.Nodup) : label ∈ groups.open ↔ body.jumps = false := by
  induction inside generalizing nodes with
  | here =>
      obtain ⟨inner, outer, rfl, _, _, _, reads⟩ := reads
      rw [List.cons_append, List.nodup_cons] at distinct
      have fresh : label ∉ more.open := by
        intro listed
        obtain ⟨other, rest, below⟩ := Groups.mem_open listed
        exact distinct.1 (List.mem_append_right _ (below.label reads).1)
      rw [Groups.open, List.mem_append, or_iff_left fresh]
      cases body.jumps <;> simp
  | @later rest other code below ih =>
      obtain ⟨inner, outer, rfl, _, _, _, reads⟩ := reads
      rw [List.cons_append, List.nodup_cons] at distinct
      have listed := (below.label reads).1
      have different : label ≠ other := by
        rintro rfl
        exact distinct.1 (List.mem_append_right _ listed)
      have apart : label ∉ (if code.jumps then [] else [other]) := by
        cases code.jumps <;> simp [different]
      rw [Groups.open, List.mem_append, or_iff_right apart]
      exact ih reads distinct.2.of_append_right

theorem Code.nested_nodes {statement : Code} : ∀ {code : Code}, statement ∈ code.nested →
    statement.nodes ⊆ code.nodes
  | .simple node rest, inside => by
      have below : statement ∈ rest.nested := inside
      exact fun other listed => List.mem_cons_of_mem node (Code.nested_nodes below listed)
  | .compound node body rest, inside => by
      rcases List.mem_cons.mp inside with rfl | later
      · simp [Code.nodes]
      · exact fun other listed => List.mem_append_right _ (Code.nested_nodes later listed)
  | .ifStmt node thenBranch elseBranch rest, inside => by
      rcases List.mem_cons.mp inside with rfl | later
      · rw [Code.nodes, Code.nodes]
        exact List.append_subset.mpr ⟨List.subset_append_left _ _, List.nil_subset _⟩
      · exact fun other listed => List.mem_append_right _ (Code.nested_nodes later listed)
  | .loop node body rest, inside => by
      rcases List.mem_cons.mp inside with rfl | later
      · simp [Code.nodes]
      · exact fun other listed => List.mem_append_right _ (Code.nested_nodes later listed)
  | .switch node groups rest, inside => by
      rcases List.mem_cons.mp inside with rfl | later
      · simp [Code.nodes]
      · exact fun other listed => List.mem_append_right _ (Code.nested_nodes later listed)
  | .bareSwitch node rest, inside => by
      rcases List.mem_cons.mp inside with rfl | later
      · simp [Code.nodes]
      · exact fun other listed => List.mem_cons_of_mem _ (Code.nested_nodes later listed)

section Switches

variable {graph : AstGraph} (wellFormed : graph.WellFormed) {switchNode : AstNode} {groups : Groups}
  (flat : FlatSwitch graph switchNode groups)

include flat

theorem FlatSwitch.body : ∃ body : AstNode, groups.Reads graph (graph.children body.nodeId) ∧
    switchBlocksWithoutTerminator switchNode graph = groups.open := by
  obtain ⟨tail, header, body, same, _, children, plain, kind, reads, _⟩ := flat.reads
  have found : (graph.children switchNode.nodeId).find? (fun child => child.nodeKind = .compoundStmt) =
      some body := by
    rw [children, List.find?_append, List.find?_eq_none.mpr fun child inside => by simpa using plain child inside]
    simp [kind]
  refine ⟨body, reads, ?_⟩
  rw [switchBlocksWithoutTerminator, found]
  exact (scanClauses_reads groups _ none true reads).trans (List.nil_append _)

include wellFormed

/-- The query returns a label unless a jump stands in the list of its clause itself. -/
theorem clauses_reported : ClausesReported graph switchNode groups := by
  obtain ⟨bodyNode, reads, returned⟩ := flat.body
  refine ⟨fun label inside => Groups.mem_open (returned ▸ inside), fun label body more inside => ?_⟩
  have clause : ∀ statement ∈ (Code.simple label body).nodes, statement.nodeKind ≠ .labelStmt := by
    intro statement listed
    refine flat.unlabelled statement (inside.nodes ?_)
    exact List.mem_append_left more.nodes listed
  have nested : ∀ statement ∈ body.nested, (RunsOff statement ↔ statement.ends .falls = true) := by
    intro statement listed
    exact runsOff_iff fun node below => clause node (List.mem_cons_of_mem label (Code.nested_nodes listed below))
  have straight : label.nodeKind.isJump = false := by
    have kind := (inside.label reads).2
    cases same : label.nodeKind <;> simp [isCaseLabel, NodeKind.isJump, same] at kind ⊢
  have ends : (Code.simple label body).ends .falls = body.ends .falls := by
    rw [Code.ends, Ending.behind, straight]
    rfl
  rw [runsOff_iff clause, ends, body.ends_falls_iff, returned,
    inside.mem_open_iff reads (wellFormed.children_nodup bodyNode.nodeId)]
  exact and_congr_right fun _ => forall₂_congr fun statement listed => (nested statement listed).symm

end Switches

/-! ### A switch with stacked labels -/

/-- These are the nodes of `switch (x) { case 1: case 2: { break; } default: y(); }`. -/
def stackedSwitch : AstNode := { nodeId := "s", nodeKind := .switchStmt, childrenIds := ["x", "b"] }

def stackedFirst : AstNode := { nodeId := "one", nodeKind := .caseStmt, parentId := "b" }

def stackedSecond : AstNode := { nodeId := "two", nodeKind := .caseStmt, parentId := "b" }

def stackedBlock : AstNode :=
  { nodeId := "k", nodeKind := .compoundStmt, parentId := "b", childrenIds := ["e"] }

def stackedBreak : AstNode := { nodeId := "e", nodeKind := .breakStmt, parentId := "k" }

def stackedDefault : AstNode := { nodeId := "d", nodeKind := .defaultStmt, parentId := "b" }

def stackedCall : AstNode := { nodeId := "y", nodeKind := .callExpr, parentId := "b" }

def stackedGraph : AstGraph where
  nodes :=
    [stackedSwitch, { nodeId := "x", nodeKind := .declRefExpr, parentId := "s" },
      { nodeId := "b", nodeKind := .compoundStmt, parentId := "s", childrenIds := ["one", "two", "k", "d", "y"] },
      stackedFirst, stackedSecond, stackedBlock, stackedBreak, stackedDefault, stackedCall]

def stackedLast : Groups := .cons stackedDefault (.simple stackedCall .nil) .nil

def stackedBody : Code := .compound stackedBlock (.simple stackedBreak .nil) .nil

def stackedGroups : Groups := .cons stackedFirst .nil (.cons stackedSecond stackedBody stackedLast)

theorem stackedGraph_wellFormed : stackedGraph.WellFormed := by
  apply AstGraph.WellFormed.of_order <;> decide

theorem stackedGraph_flat : FlatSwitch stackedGraph stackedSwitch stackedGroups where
  reads := by
    refine ⟨[], [stackedGraph.nodes[1]], stackedGraph.nodes[2], rfl, rfl, by decide, by decide, rfl, ?_, rfl⟩
    refine ⟨[], [stackedSecond, stackedBlock, stackedDefault, stackedCall], by decide, rfl, by simp, rfl, ?_⟩
    refine ⟨[stackedBlock], [stackedDefault, stackedCall], rfl, rfl, by decide, ?_, ?_⟩
    · exact ⟨[], rfl, rfl, ⟨[], by decide, rfl, rfl⟩, rfl⟩
    · exact ⟨[stackedCall], [], rfl, rfl, by decide, ⟨[], rfl, rfl, rfl⟩, rfl⟩
  unlabelled := by decide

theorem clauses_reported_stacked : ClausesReported stackedGraph stackedSwitch stackedGroups :=
  clauses_reported stackedGraph_wellFormed stackedGraph_flat

/-- The empty clause is returned, and so is the one whose `break` stands in a block. -/
theorem stacked_inexact : FlatSwitch stackedGraph stackedSwitch stackedGroups ∧
    ¬ ClauseExact stackedGraph stackedSwitch stackedFirst .nil (.cons stackedSecond stackedBody stackedLast) ∧
    ¬ ClauseExact stackedGraph stackedSwitch stackedSecond stackedBody stackedLast := by
  refine ⟨stackedGraph_flat, fun same => ?_, fun same => ?_⟩
  · have filled := (same.mp (by decide)).1
    revert filled
    decide
  · have runs := (same.mp (by decide)).2
    have ends := (runsOff_iff (by decide)).mp runs
    revert ends
    decide

end MisraPlatform
