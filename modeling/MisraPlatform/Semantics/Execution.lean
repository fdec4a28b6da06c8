import MisraPlatform.Semantics.Statement

/-
This file is the structural semantics of a function body with free conditions, the class of structured
bodies, and the bodies with an edge into their end before the gotos are wired.
-/

namespace MisraPlatform
open CFGEngine

/-- The three switches tell the C reading of a body from the reading of the engine. -/
structure Reading where
  leavesBlock : Bool
  skipsDoBody : Bool
  continueStopsAtSwitch : Bool

/-- Control leaves a bare block at its brace, a `do` tests after its body, and a `continue`
passes through a switch. -/
def Reading.c : Reading := ⟨true, false, false⟩

/-- The engine loses the end of a bare block, lets a `do` be left before its body, and sends a
`continue` to the nearest loop or switch. -/
def Reading.engine : Reading := ⟨false, true, true⟩

/-- A continuation is the enclosing code that waits for a statement list to end. The `lead` of a
switch is the straight code that ends with the switch. -/
inductive Cont where
  | stop
  | seq (rest : Code) (next : Cont)
  | block (rest : Code) (next : Cont)
  | loop (statement : AstNode) (body : Branch) (rest : Code) (next : Cont)
  | switch (lead : Code) (more : Groups) (rest : Code) (next : Cont)
  deriving DecidableEq

/-- Control leaves a function in one of three ways. -/
inductive Departure where
  | returned (statement : AstNode)
  | jumped (statement : AstNode)
  | fellOff
  deriving DecidableEq

/-- Control stands before a statement list, at the header of a loop, or outside. The `lead` is
the straight code around the list, from the last point that control can jump to. -/
inductive State where
  | run (lead code : Code) (next : Cont)
  | head (statement : AstNode) (body : Branch) (rest : Code) (next : Cont) (fresh : Bool)
  | left (departure : Departure)
  deriving DecidableEq

namespace State

/-- A new stretch of straight code begins here. -/
def enter (code : Code) (next : Cont) : State := .run code code next

def start (body : Code) : State := .enter body .stop

/-- This is the statement that control has reached. A brace and a loop entry are no statements. -/
def current : State → Option AstNode
  | .run _ (.simple statement _) _ => some statement
  | .run _ (.ifStmt statement _ _ _) _ => some statement
  | .run _ (.switch statement _ _) _ => some statement
  | .run _ (.bareSwitch statement _) _ => some statement
  | .head statement _ _ _ _ => some statement
  | _ => none

def reached (state : State) : List AstNode := state.current.toList

end State

/-- A label begins a stretch of straight code. -/
def leadAt (lead : Code) (statement : AstNode) (rest : Code) : Code :=
  if statement.nodeKind = .labelStmt then .simple statement rest else lead

/-- A jump ends the stretch of straight code. -/
def leadAfter (lead : Code) (statement : AstNode) (rest : Code) : Code :=
  if statement.nodeKind.isJump then rest else leadAt lead statement rest

namespace Cont

/-- A `break` leaves the innermost loop or switch. -/
def breakTarget : Cont → Option State
  | .stop => none
  | .seq _ next | .block _ next => next.breakTarget
  | .loop _ _ rest next | .switch _ _ rest next => some (.enter rest next)

/-- A `continue` goes to the header of the innermost loop. -/
def continueTarget (reading : Reading) : Cont → Option State
  | .stop => none
  | .seq _ next | .block _ next => next.continueTarget reading
  | .loop statement body rest next => some (.head statement body rest next false)
  | .switch lead _ _ next =>
      if reading.continueStopsAtSwitch then some (.enter lead next)
      else next.continueTarget reading

/-- The innermost loop or switch around this point is a switch. -/
def underSwitch : Cont → Bool
  | .stop => false
  | .seq _ next | .block _ next => next.underSwitch
  | .loop _ _ _ _ => false
  | .switch _ _ _ _ => true

end Cont

/-! ### Positions -/

mutual

/-- Every statement stands with the state in which control is right before it. -/
def Code.positions : Code → Code → Cont → List (AstNode × State)
  | .nil, _, _ => []
  | .simple statement rest, lead, next =>
      (statement, .run (leadAt lead statement rest) (.simple statement rest) next) ::
        rest.positions (leadAfter lead statement rest) next
  | .compound _ body rest, _, next =>
      body.positions body (.block rest next) ++ rest.positions rest next
  | .ifStmt statement thenBranch elseBranch rest, lead, next =>
      (statement, .run lead (.ifStmt statement thenBranch elseBranch rest) next) ::
        thenBranch.positions (.seq rest next) ++ elseBranch.positions (.seq rest next) ++
        rest.positions rest next
  | .loop statement body rest, _, next =>
      (statement, .head statement body rest next (statement.nodeKind = .doStmt)) ::
        body.positions (.loop statement body rest next) ++ rest.positions rest next
  | .switch statement groups rest, lead, next =>
      (statement, .run lead (.switch statement groups rest) next) ::
        groups.positions lead rest next ++ rest.positions rest next
  | .bareSwitch statement rest, lead, next =>
      (statement, .run lead (.bareSwitch statement rest) next) :: rest.positions rest next

def Branch.positions : Branch → Cont → List (AstNode × State)
  | .absent, _ => []
  | .present body, next => body.positions body next

def Groups.positions : Groups → Code → Code → Cont → List (AstNode × State)
  | .nil, _, _, _ => []
  | .cons label body more, lead, rest, next =>
      (label, .run (.simple label body) (.simple label body) (.switch lead more rest next)) ::
        body.positions (leadAfter (.simple label body) label body) (.switch lead more rest next) ++
        more.positions lead rest next

end

/-- The labels stand with their names in the order of the source. -/
def labelled {α : Type} (entries : List (AstNode × α)) : List (String × α) :=
  entries.filterMap fun entry =>
    if entry.1.nodeKind = .labelStmt then some (labelName entry.1, entry.2) else none

@[simp] theorem labelled_nil {α : Type} : labelled ([] : List (AstNode × α)) = [] := rfl

@[simp] theorem labelled_append {α : Type} (first second : List (AstNode × α)) :
    labelled (first ++ second) = labelled first ++ labelled second := List.filterMap_append

theorem labelled_cons {α : Type} (entry : AstNode × α) (rest : List (AstNode × α)) :
    labelled (entry :: rest) =
      (if entry.1.nodeKind = .labelStmt then [(labelName entry.1, entry.2)] else []) ++
        labelled rest := by
  unfold labelled
  split <;> rename_i kind <;> simp [kind]

/-- A label has function scope. The last label of a repeated name is taken. -/
def Code.resolve (body : Code) (name : String) : Option State :=
  (labelled (body.positions body .stop)).reverse.lookup name

/-! ### Steps -/

/-- A switch can pick any of its groups. -/
inductive Groups.IsTail : Groups → Groups → Prop
  | here (groups : Groups) : groups.IsTail groups
  | later {tail more : Groups} (label : AstNode) (body : Code) (inside : tail.IsTail more) :
      tail.IsTail (.cons label body more)

/-- The branch is taken, and an absent one goes on with the rest. -/
def Branch.enter (branch : Branch) (rest : Code) (next : Cont) : State :=
  match branch with
  | .absent => .enter rest next
  | .present body => .enter body (.seq rest next)

/-- Every condition may go either way and every switch value may be the one. -/
inductive Step (reading : Reading) (body : Code) : State → State → Prop
  | simple {lead statement rest next} (straight : statement.nodeKind.isJump = false) :
      Step reading body (.run lead (.simple statement rest) next)
        (.run (leadAfter lead statement rest) rest next)
  | returnStmt {lead statement rest next} (kind : statement.nodeKind = .returnStmt) :
      Step reading body (.run lead (.simple statement rest) next) (.left (.returned statement))
  | breakStmt {lead statement rest next target} (kind : statement.nodeKind = .breakStmt)
      (enclosed : next.breakTarget = some target) :
      Step reading body (.run lead (.simple statement rest) next) target
  | continueStmt {lead statement rest next target} (kind : statement.nodeKind = .continueStmt)
      (enclosed : next.continueTarget reading = some target) :
      Step reading body (.run lead (.simple statement rest) next) target
  | gotoStmt {lead statement rest next target} (kind : statement.nodeKind = .gotoStmt)
      (found : body.resolve (targetLabel statement) = some target) :
      Step reading body (.run lead (.simple statement rest) next) target
  | gotoMissing {lead statement rest next} (kind : statement.nodeKind = .gotoStmt)
      (missing : body.resolve (targetLabel statement) = none) :
      Step reading body (.run lead (.simple statement rest) next) (.left (.jumped statement))
  | compound {lead statement inner rest next} :
      Step reading body (.run lead (.compound statement inner rest) next)
        (.enter inner (.block rest next))
  | thenBranch {lead statement thenBranch elseBranch rest next} :
      Step reading body (.run lead (.ifStmt statement thenBranch elseBranch rest) next)
        (thenBranch.enter rest next)
  | elseBranch {lead statement thenBranch elseBranch rest next} :
      Step reading body (.run lead (.ifStmt statement thenBranch elseBranch rest) next)
        (elseBranch.enter rest next)
  | loop {lead statement loopBody rest next} :
      Step reading body (.run lead (.loop statement loopBody rest) next)
        (.head statement loopBody rest next (statement.nodeKind = .doStmt))
  | iterate {statement inner rest next fresh} :
      Step reading body (.head statement (.present inner) rest next fresh)
        (.enter inner (.loop statement (.present inner) rest next))
  | leave {statement loopBody rest next fresh} (tested : fresh = false ∨ reading.skipsDoBody = true) :
      Step reading body (.head statement loopBody rest next fresh) (.enter rest next)
  | dispatch {lead statement groups rest next label inner more}
      (inside : Groups.IsTail (.cons label inner more) groups) :
      Step reading body (.run lead (.switch statement groups rest) next)
        (.enter (.simple label inner) (.switch lead more rest next))
  | noMatch {lead statement groups rest next} (open_ : groups.hasDefault = false) :
      Step reading body (.run lead (.switch statement groups rest) next) (.enter rest next)
  | bareSwitch {lead statement rest next} :
      Step reading body (.run lead (.bareSwitch statement rest) next) (.enter rest next)
  | endSeq {lead rest next} :
      Step reading body (.run lead .nil (.seq rest next)) (.enter rest next)
  | endBlock {lead rest next} (leaves : reading.leavesBlock = true) :
      Step reading body (.run lead .nil (.block rest next)) (.enter rest next)
  | endLoop {lead statement loopBody rest next} :
      Step reading body (.run lead .nil (.loop statement loopBody rest next))
        (.head statement loopBody rest next false)
  | endGroup {lead switchLead label inner more rest next} :
      Step reading body (.run lead .nil (.switch switchLead (.cons label inner more) rest next))
        (.enter (.simple label inner) (.switch switchLead more rest next))
  | endSwitch {lead switchLead rest next} :
      Step reading body (.run lead .nil (.switch switchLead .nil rest next)) (.enter rest next)
  | fallOff {lead} : Step reading body (.run lead .nil .stop) (.left .fellOff)

/-- A run collects the statements that control reaches, the last state included. -/
inductive Run (step : State → State → Prop) (start : State) : List AstNode → State → Prop
  | start : Run step start start.reached start
  | step {trace : List AstNode} {state target : State} (before : Run step start trace state)
      (taken : step state target) : Run step start (trace ++ target.reached) target

/-- A run of the C reading of a body. -/
def Executes (body : Code) : List AstNode → State → Prop := Run (Step .c body) (.start body)

/-- Some execution reaches the statement. -/
def Executable (body : Code) (statement : AstNode) : Prop :=
  ∃ trace state, Executes body trace state ∧ state.current = some statement

/-! ### Conditions on a state -/

/-- Control stands at the closing brace of a bare block. -/
def State.EndsBlock : State → Prop
  | .run _ .nil (.block _ _) => True
  | _ => False

/-- Control stands at a `continue` whose innermost loop or switch is a switch. -/
def State.ContinuesInSwitch : State → Prop
  | .run _ (.simple statement _) next => statement.nodeKind = .continueStmt ∧ next.underSwitch = true
  | _ => False

/-- Control stands at the header of a `do` whose body has not run. -/
def State.TestsFirst : State → Prop
  | .head _ _ _ _ fresh => fresh = true
  | _ => False

/-- Control stands at the closing brace of the function. -/
def State.EndsBody : State → Prop
  | .run _ .nil .stop => True
  | _ => False

end MisraPlatform

namespace MisraPlatform
open CFGEngine

mutual

/-- Braces stand only around the body of another statement, and control moves without labels. -/
def Code.Structured : Code → Prop
  | .nil => True
  | .simple statement rest => statement.nodeKind ≠ .labelStmt ∧ statement.nodeKind ≠ .gotoStmt ∧
      rest.Structured
  | .compound _ _ _ => False
  | .ifStmt _ thenBranch elseBranch rest => thenBranch.Structured ∧ elseBranch.Structured ∧
      rest.Structured
  | .loop _ body rest => body.Structured ∧ rest.Structured
  | .switch _ groups rest => groups.Structured ∧ rest.Structured
  | .bareSwitch _ _ => False

def Branch.Structured : Branch → Prop
  | .absent => True
  | .present body => body.Structured

def Groups.Structured : Groups → Prop
  | .nil => True
  | .cons label body more => label.nodeKind ≠ .labelStmt ∧ label.nodeKind ≠ .gotoStmt ∧
      body.Structured ∧ more.Structured

end

/-- Every loop tests its condition before its body. -/
def Code.TestsBefore (body : Code) : Prop := ∀ statement ∈ body.nodes, statement.nodeKind ≠ .doStmt

/-- The code around a place is structured. -/
def Cont.Structured : Cont → Prop
  | .stop => True
  | .seq rest next => rest.Structured ∧ next.Structured
  | .block _ _ => False
  | .loop _ body rest next => body.Structured ∧ rest.Structured ∧ next.Structured
  | .switch lead more rest next => lead.Structured ∧ more.Structured ∧ rest.Structured ∧ next.Structured

def State.Structured : State → Prop
  | .run lead code next => lead.Structured ∧ code.Structured ∧ next.Structured
  | .head _ body rest next _ => body.Structured ∧ rest.Structured ∧ next.Structured
  | .left _ => True

end MisraPlatform

namespace MisraPlatform
open CFGEngine

/-- A jump and a bare block leave an empty block behind that nothing leads to. It stays so until a
branching statement joins, or until a label that is not the first statement splits the block. The
flags tell whether an edge leads to the current block and whether the block holds a statement. -/
def Code.endFed : Code → Bool → Bool → Bool
  | .nil, fed, _ => fed
  | .simple statement rest, fed, started =>
      if statement.nodeKind = .labelStmt then rest.endFed (fed || started) true
      else if statement.nodeKind.isJump then rest.endFed false false
      else rest.endFed fed true
  | .compound _ _ rest, _, _ => rest.endFed false false
  | .ifStmt _ _ _ rest, _, _ => rest.endFed true false
  | .loop _ _ rest, _, _ => rest.endFed true false
  | .switch _ _ rest, _, _ => rest.endFed true false
  | .bareSwitch _ rest, _, _ => rest.endFed true false

/-- The end of the body is fed. -/
def Code.EndFed (body : Code) : Prop := body.endFed true false = true

instance (body : Code) : Decidable body.EndFed := inferInstanceAs (Decidable (_ = _))

end MisraPlatform
