import MisraPlatform.Proof.Layout
import MisraPlatform.Proof.Placement

/-
This file relates the states of the engine reading to the points of a graph that lays the body out.
-/

namespace MisraPlatform
open CFGEngine

/-! ### Sizes -/

mutual

/-- The size bounds the steps that control takes before it leaves the block. -/
def Code.size : Code → Nat
  | .nil => 0
  | .simple _ rest => rest.size + 1
  | .compound _ body rest => body.size + rest.size + 2
  | .ifStmt _ thenBranch elseBranch rest => thenBranch.size + elseBranch.size + rest.size + 1
  | .loop _ body rest => body.size + rest.size + 2
  | .switch _ groups rest => groups.size + rest.size + 1
  | .bareSwitch _ rest => rest.size + 1

def Branch.size : Branch → Nat
  | .absent => 0
  | .present body => body.size

def Groups.size : Groups → Nat
  | .nil => 0
  | .cons _ body more => body.size + more.size + 1

end

def Cont.size : Cont → Nat
  | .stop => 0
  | .seq rest next | .block rest next => rest.size + next.size + 1
  | .loop _ body rest next => body.size + rest.size + next.size + 1
  | .switch _ more rest next => more.size + rest.size + next.size + 1

def State.size : State → Nat
  | .run _ code next => code.size + next.size
  | .head _ body rest next _ => body.size + rest.size + next.size + 1
  | .left _ => 0

/-! ### States at points -/

/-- Only a statement that continues the straight code needs its beginning. -/
def Code.usesLead : Code → Bool
  | .simple statement _ => statement.nodeKind ≠ .labelStmt
  | .switch _ _ _ => true
  | _ => false

section Laid

variable (cfg : ControlFlowGraph) (resolve : String → BlockId) (fed : Bool)

/-- The header of a loop stands alone in its block. -/
def HeaderLaid (statement : AstNode) (body : Branch) (rest : Code) (header after : BlockId)
    (outer : LoopStack) (last : Point) : Prop :=
  ∃ edges inner spots,
    cfg.Closes (header, 0) statement (edges ++ [⟨header, after, .falseEdge, none⟩]) ∧
    body.Laid cfg resolve ((header, after) :: outer) header (loopEntryKind statement) .loopBack header
      [] edges inner ∧
    rest.Laid cfg resolve outer (after, 0) last spots

/-- The enclosing code goes on from the point where a statement list ends. -/
def Cont.Laid : Cont → LoopStack → Point → Prop
  | .stop, stack, point =>
      stack = [] ∧ cfg.Ends point ∧ cfg.successors point.1 = endEdges fed point.1
  | .seq rest next, stack, point => ∃ join last spots,
      cfg.Flows point .fallthrough join ∧ rest.Laid cfg resolve stack (join, 0) last spots ∧
      next.Laid stack last
  | .block rest next, stack, point => cfg.Dangles point ∧ ∃ first last spots,
      rest.Laid cfg resolve stack (first, 0) last spots ∧ next.Laid stack last
  | .loop statement body rest next, stack, point => ∃ header after outer last,
      stack = (header, after) :: outer ∧ cfg.Flows point .loopBack header ∧
      HeaderLaid cfg resolve statement body rest header after outer last ∧ next.Laid outer last
  | .switch lead more rest next, stack, point =>
      ∃ source after outer last edges inner spots front, stack = (source, after) :: outer ∧
      more.Laid cfg resolve stack source (some point) after edges inner ∧
      rest.Laid cfg resolve outer (after, 0) last spots ∧
      lead.Laid cfg resolve outer (source, 0) last front ∧ next.Laid outer last

/-- Control stands at the point where the graph lays out what comes next. -/
def State.Laid : State → Point → Prop
  | .run lead code next, point => ∃ stack last spots,
      (code.usesLead = true → ∃ front, lead.Laid cfg resolve stack (point.1, 0) last front) ∧
      code.Laid cfg resolve stack point last spots ∧ next.Laid cfg resolve fed stack last
  | .head statement body rest next _, point => ∃ after outer last, point.2 = 0 ∧
      HeaderLaid cfg resolve statement body rest point.1 after outer last ∧
      next.Laid cfg resolve fed outer last
  | .left _, point => point = (.exit, 0)

end Laid

variable {cfg : ControlFlowGraph} {resolve : String → BlockId} {fed : Bool}

/-- The start of a block needs no other beginning. -/
theorem State.enter_laid {code : Code} {next : Cont} {stack : LoopStack} {block : BlockId}
    {last : Point} {spots : List (AstNode × Point)}
    (laid : code.Laid cfg resolve stack (block, 0) last spots)
    (following : next.Laid cfg resolve fed stack last) :
    (State.enter code next).Laid cfg resolve fed (block, 0) :=
  ⟨stack, last, spots, fun _ => ⟨spots, laid⟩, laid, following⟩

/-- The innermost targets are those of the innermost loop or switch. -/
theorem Cont.breakTarget_laid {next : Cont} {stack : LoopStack} {point : Point}
    (laid : next.Laid cfg resolve fed stack point) :
    (stack = [] ∧ next.breakTarget = none) ∨
      ∃ again after outer target, stack = (again, after) :: outer ∧
        next.breakTarget = some target ∧ target.Laid cfg resolve fed (after, 0) := by
  induction next generalizing stack point with
  | stop => exact .inl ⟨laid.1, rfl⟩
  | seq rest next ih =>
      obtain ⟨_, last, _, _, _, following⟩ := laid
      exact ih following
  | block rest next ih =>
      obtain ⟨_, _, last, _, _, following⟩ := laid
      exact ih following
  | loop statement body rest next ih =>
      obtain ⟨header, after, outer, last, same, _, ⟨_, _, _, _, _, restLaid⟩, following⟩ := laid
      exact .inr ⟨header, after, outer, _, same, rfl, State.enter_laid restLaid following⟩
  | switch lead more rest next ih =>
      obtain ⟨source, after, outer, last, _, _, _, _, same, _, restLaid, _, following⟩ := laid
      exact .inr ⟨source, after, outer, _, same, rfl, State.enter_laid restLaid following⟩

theorem Cont.continueTarget_laid {next : Cont} {stack : LoopStack} {point : Point}
    (laid : next.Laid cfg resolve fed stack point) :
    (stack = [] ∧ next.continueTarget .engine = none) ∨
      ∃ again after outer target, stack = (again, after) :: outer ∧
        next.continueTarget .engine = some target ∧ target.Laid cfg resolve fed (again, 0) := by
  induction next generalizing stack point with
  | stop => exact .inl ⟨laid.1, rfl⟩
  | seq rest next ih =>
      obtain ⟨_, last, _, _, _, following⟩ := laid
      exact ih following
  | block rest next ih =>
      obtain ⟨_, _, last, _, _, following⟩ := laid
      exact ih following
  | loop statement body rest next ih =>
      obtain ⟨header, after, outer, last, same, _, headerLaid, following⟩ := laid
      exact .inr ⟨header, after, outer, _, same, rfl, after, outer, last, rfl, headerLaid, following⟩
  | switch lead more rest next ih =>
      obtain ⟨source, after, outer, last, _, _, _, front, same, _, _, leadLaid, following⟩ := laid
      exact .inr ⟨source, after, outer, _, same, rfl, State.enter_laid leadLaid following⟩

/-- A branch is entered by its edge. -/
theorem Branch.enter_laid {branch : Branch} {stack : LoopStack} {source join : BlockId}
    {entryKind : EdgeKind} {edges : List CFGEdge} {spots : List (AstNode × Point)}
    (laid : branch.Laid cfg resolve stack source entryKind .fallthrough join
      [⟨source, join, entryKind, none⟩] edges spots)
    {rest : Code} {next : Cont} {last : Point} {outer : List (AstNode × Point)}
    (restLaid : rest.Laid cfg resolve stack (join, 0) last outer)
    (following : next.Laid cfg resolve fed stack last) :
    ∃ target, edges = [⟨source, target, entryKind, none⟩] ∧
      (branch.enter rest next).Laid cfg resolve fed (target, 0) := by
  cases branch with
  | absent =>
      obtain ⟨rfl, _⟩ := laid
      exact ⟨join, rfl, State.enter_laid restLaid following⟩
  | present body =>
      obtain ⟨first, final, rfl, bodyLaid, flows⟩ := laid
      exact ⟨first, rfl, State.enter_laid bodyLaid ⟨join, last, outer, flows, restLaid, following⟩⟩

/-- Every group of a switch is entered by one of the edges of the switch. -/
theorem Groups.enter_laid {tail groups : Groups} (inside : tail.IsTail groups) {stack : LoopStack}
    {source after : BlockId} {previous : Option Point} {edges : List CFGEdge}
    {spots : List (AstNode × Point)}
    (laid : groups.Laid cfg resolve stack source previous after edges spots) :
    ∃ earlier others inner, tail.Laid cfg resolve stack source earlier after others inner ∧
      ∀ edge ∈ others, edge ∈ edges := by
  induction inside generalizing previous edges spots with
  | here => exact ⟨previous, edges, spots, laid, fun _ inside => inside⟩
  | later label body _ ih =>
      obtain ⟨first, spot, next, final, others, inner, outer, _, _, moreLaid, rfl, _, _⟩ := laid
      obtain ⟨earlier, fewer, deeper, tailLaid, kept⟩ := ih moreLaid
      exact ⟨earlier, fewer, deeper, tailLaid, fun edge inside =>
        List.mem_cons_of_mem _ (kept edge inside)⟩

/-- The first statement of a group stands at the target of the edge of the group. -/
theorem Groups.start_laid {label : AstNode} {body : Code} {more : Groups} {stack : LoopStack}
    {source after : BlockId} {previous : Option Point} {edges : List CFGEdge}
    {spots : List (AstNode × Point)}
    (laid : (Groups.cons label body more).Laid cfg resolve stack source previous after edges spots) :
    ∃ first others inner final deeper outer,
      edges = ⟨source, first, caseEdgeKind label, none⟩ :: others ∧
      (Code.simple label body).Laid cfg resolve stack (first, 0) final inner ∧
      more.Laid cfg resolve stack source (some final) after deeper outer ∧
      ∀ tail, previous = some tail → cfg.Flows tail .switchFallthrough first := by
  obtain ⟨first, spot, next, final, others, inner, outer, start, bodyLaid, moreLaid, rfl, _, flows⟩ :=
    laid
  exact ⟨first, others, _, final, others, outer, rfl, ⟨spot, next, inner, start, bodyLaid, rfl⟩,
    moreLaid, flows⟩

/-- Every edge of a switch enters one of its groups. -/
theorem Groups.edge_laid : ∀ {groups : Groups} {stack : LoopStack} {source after : BlockId}
    {previous : Option Point} {edges : List CFGEdge} {spots : List (AstNode × Point)},
    groups.Laid cfg resolve stack source previous after edges spots → ∀ edge ∈ edges,
    ∃ label body more final inner deeper outer, (Groups.cons label body more).IsTail groups ∧
      edge.kind = caseEdgeKind label ∧
      (Code.simple label body).Laid cfg resolve stack (edge.target, 0) final inner ∧
      more.Laid cfg resolve stack source (some final) after deeper outer
  | .nil, _, _, _, _, _, _, laid, edge, inside => by
      rw [laid.1] at inside
      exact absurd inside List.not_mem_nil
  | .cons label body more, _, _, _, _, _, _, laid, edge, inside => by
      obtain ⟨first, spot, next, final, others, inner, outer, start, bodyLaid, moreLaid, rfl, _, _⟩ :=
        laid
      rcases List.mem_cons.mp inside with rfl | later
      · exact ⟨label, body, more, final, _, others, outer, .here _, rfl,
          ⟨spot, next, inner, start, bodyLaid, rfl⟩, moreLaid⟩
      · obtain ⟨label', body', more', final', inner', deeper', outer', tail, rest⟩ :=
          Groups.edge_laid moreLaid edge later
        exact ⟨label', body', more', final', inner', deeper', outer', tail.later label body, rest⟩

/-! ### Simple statements -/

section Simple

variable {stack : LoopStack} {statement : AstNode} {point spot after : Point}

theorem SimpleLaid.label (kind : statement.nodeKind = .labelStmt)
    (laid : SimpleLaid cfg resolve stack statement point spot after) :
    cfg.Holds spot statement ∧ cfg.Flows point .fallthrough spot.1 ∧ spot = (spot.1, 0) ∧
      after = (spot.1, 1) := by
  obtain ⟨holds, placed⟩ := laid
  rw [if_pos kind] at placed
  exact ⟨holds, placed.1, by rw [← placed.2.1], placed.2.2⟩

/-- A label stands at the beginning of its own block. -/
theorem SimpleLaid.again (kind : statement.nodeKind = .labelStmt)
    (laid : SimpleLaid cfg resolve stack statement point spot after) :
    SimpleLaid cfg resolve stack statement (spot.1, 0) spot after := by
  obtain ⟨holds, placed⟩ := laid
  rw [if_pos kind] at placed
  refine ⟨holds, ?_⟩
  rw [if_pos kind]
  exact ⟨.inl ⟨rfl, rfl⟩, placed.2⟩

theorem SimpleLaid.jump (kind : statement.nodeKind ≠ .labelStmt)
    (jump : statement.nodeKind.isJump = true)
    (laid : SimpleLaid cfg resolve stack statement point spot after) :
    cfg.Closes point statement (jumpEdges resolve stack statement point.1) ∧ spot = point ∧
      after.2 = 0 := by
  obtain ⟨_, placed⟩ := laid
  rw [if_neg kind, if_pos jump] at placed
  exact ⟨placed.2.1, placed.1, placed.2.2⟩

theorem SimpleLaid.plain (kind : statement.nodeKind ≠ .labelStmt)
    (straight : statement.nodeKind.isJump = false)
    (laid : SimpleLaid cfg resolve stack statement point spot after) :
    cfg.Holds point statement ∧ spot = point ∧ after = (point.1, point.2 + 1) := by
  obtain ⟨holds, placed⟩ := laid
  rw [if_neg kind, if_neg (by simp [straight])] at placed
  obtain ⟨rfl, rfl⟩ := placed
  exact ⟨holds, rfl, rfl⟩

/-- The edges of a jump are those of its place in the loops and switches. -/
theorem State.jump_closes {lead rest : Code} {next : Cont} {statement : AstNode} {point : Point}
    (laid : (State.run lead (.simple statement rest) next).Laid cfg resolve fed point)
    (jump : statement.nodeKind.isJump = true) :
    ∃ stack last, cfg.Closes point statement (jumpEdges resolve stack statement point.1) ∧
      next.Laid cfg resolve fed stack last := by
  obtain ⟨stack, last, spots, _, ⟨spot, after, others, simpleLaid, _⟩, following⟩ := laid
  have kind : statement.nodeKind ≠ .labelStmt := by
    intro label
    simp [label, NodeKind.isJump] at jump
  exact ⟨stack, last, (SimpleLaid.jump kind jump simpleLaid).1, following⟩

end Simple

/-! ### Points of the body -/

/-- The gotos of a graph lead to the states that the names stand for. -/
def Resolves (cfg : ControlFlowGraph) (fed : Bool) (body : Code) (resolve : String → BlockId) : Prop :=
  ∀ name, (body.resolve name = none ∧ resolve name = .exit) ∨
    ∃ code next, body.resolve name = some (.enter code next) ∧
      (State.enter code next).Laid cfg resolve fed (resolve name, 0)

def State.IsHead : State → Prop
  | .head _ _ _ _ _ => True
  | _ => False

theorem Cont.breakTarget_enter {next : Cont} {target : State}
    (found : next.breakTarget = some target) : ¬ target.IsHead := by
  induction next with
  | stop => simp [Cont.breakTarget] at found
  | seq rest next ih => exact ih found
  | block rest next ih => exact ih found
  | loop | switch =>
      simp only [Cont.breakTarget, Option.some.injEq] at found
      subst found
      exact id

/-- These edges lead back to a header. -/
def CFGEdge.Returns (edge : CFGEdge) : Prop := edge.kind = .loopBack ∨ edge.kind = .continueEdge

/-- Control stands before a loop. -/
def State.EntersLoop : State → Prop
  | .run _ (.loop _ _ _) _ => True
  | _ => False

/-- A state stands behind an edge, and it stands at a header only behind an edge that goes back. -/
def Behind (cfg : ControlFlowGraph) (resolve : String → BlockId) (fed : Bool) (edge : CFGEdge)
    (state : State) : Prop :=
  state.Laid cfg resolve fed (edge.target, 0) ∧ (state.IsHead → edge.Returns)

/-- A laid state goes on in one of five ways. It stays at its point, it reads one statement, its
statement ends the block, the block has ended, or the state stands behind the next edge as well. -/
inductive Advance (cfg : ControlFlowGraph) (resolve : String → BlockId) (fed : Bool) (body : Code)
    (state : State) (point : Point) : Prop
  | silent {next : State} (reached : state.reached = []) (taken : Step .engine body state next)
      (laid : next.Laid cfg resolve fed point) (smaller : next.size < state.size)
      (entered : next.IsHead → state.EntersLoop)
  | read {statement : AstNode} {next : State} (reached : state.reached = [statement])
      (holds : cfg.Holds point statement) (taken : Step .engine body state next)
      (laid : next.Laid cfg resolve fed (point.1, point.2 + 1)) (smaller : next.size < state.size)
  | close {statement : AstNode} {edges : List CFGEdge} (reached : state.reached = [statement])
      (closes : cfg.Closes point statement edges)
      (leaves : ∀ edge ∈ edges, ∃ next, Step .engine body state next ∧ Behind cfg resolve fed edge next)
  | leave (reached : state.reached = []) (ends : cfg.Ends point)
      (leaves : ∀ edge ∈ cfg.successors point.1, ∃ next, Step .engine body state next ∧
        Behind cfg resolve fed edge next)
  | stay (ends : cfg.Ends point) (leaves : ∀ edge ∈ cfg.successors point.1,
      Behind cfg resolve fed edge state)

section Advance

variable {body : Code} {state next : State} {point : Point}

theorem Behind.running {edge : CFGEdge} (laid : state.Laid cfg resolve fed (edge.target, 0))
    (running : ¬ state.IsHead) : Behind cfg resolve fed edge state :=
  ⟨laid, fun head => absurd head running⟩

/-- The one edge of a block is the one that its statement writes. -/
theorem only_leaves {edge : CFGEdge} {good : CFGEdge → Prop} (leads : good edge) :
    ∀ other ∈ [edge], good other := fun _ inside => List.mem_singleton.mp inside ▸ leads

/-- The end of a list flows into the code that goes on. -/
theorem Advance.flow {kind : EdgeKind} {code : Code} {following : Cont} {block : BlockId}
    {last : Point} {stack : LoopStack} {spots : List (AstNode × Point)} (reached : state.reached = [])
    (flows : cfg.Flows point kind block) (taken : Step .engine body state (.enter code following))
    (laid : code.Laid cfg resolve stack (block, 0) last spots)
    (followed : following.Laid cfg resolve fed stack last)
    (smaller : (State.enter code following).size < state.size) :
    Advance cfg resolve fed body state point := by
  have entered := State.enter_laid laid followed
  obtain ⟨_, rfl⟩ | ⟨ends, alone⟩ := flows
  · exact .silent reached taken entered smaller fun head => head.elim
  · apply Advance.leave reached ends
    rw [alone]
    exact only_leaves ⟨_, taken, Behind.running entered id⟩

/-- A jump leads to the one edge that leaves its block. -/
theorem jump_advances {statement : AstNode} {lead rest : Code} {following : Cont} {stack : LoopStack}
    {last : Point} (resolves : Resolves cfg fed body resolve)
    (followed : following.Laid cfg resolve fed stack last) (jump : statement.nodeKind.isJump = true)
    (closes : cfg.Closes point statement (jumpEdges resolve stack statement point.1)) :
    Advance cfg resolve fed body (.run lead (.simple statement rest) following) point := by
  apply Advance.close rfl closes
  cases kind : statement.nodeKind with
  | returnStmt =>
      simp only [jumpEdges, kind]
      exact only_leaves ⟨_, .returnStmt kind, Behind.running rfl id⟩
  | breakStmt =>
      simp only [jumpEdges, kind]
      obtain ⟨rfl, _⟩ | ⟨again, after, outer, target, rfl, found, laid⟩ := Cont.breakTarget_laid followed
      · exact fun _ inside => absurd inside List.not_mem_nil
      · exact only_leaves ⟨_, .breakStmt kind found, Behind.running laid (Cont.breakTarget_enter found)⟩
  | continueStmt =>
      simp only [jumpEdges, kind]
      obtain ⟨rfl, _⟩ | ⟨again, after, outer, target, rfl, found, laid⟩ :=
        Cont.continueTarget_laid followed
      · exact fun _ inside => absurd inside List.not_mem_nil
      · exact only_leaves ⟨_, .continueStmt kind found, laid, fun _ => .inr rfl⟩
  | gotoStmt =>
      simp only [jumpEdges, kind]
      obtain ⟨missing, away⟩ | ⟨code, next, found, laid⟩ := resolves (targetLabel statement)
      · refine only_leaves ⟨_, .gotoMissing kind missing, Behind.running ?_ id⟩
        rw [away]
        rfl
      · exact only_leaves ⟨_, .gotoStmt kind found, Behind.running laid id⟩
  | _ => simp [kind, NodeKind.isJump] at jump

/-- A straight statement is read, and a label may stand behind one more edge. -/
theorem simple_advances {statement : AstNode} {lead rest : Code} {following : Cont} {stack : LoopStack}
    {spot after last : Point} {others : List (AstNode × Point)}
    (straight : statement.nodeKind.isJump = false)
    (leadLaid : (Code.simple statement rest).usesLead = true →
      ∃ front, lead.Laid cfg resolve stack (point.1, 0) last front)
    (laid : SimpleLaid cfg resolve stack statement point spot after)
    (restLaid : rest.Laid cfg resolve stack after last others)
    (followed : following.Laid cfg resolve fed stack last) :
    Advance cfg resolve fed body (.run lead (.simple statement rest) following) point := by
  have smaller : ∀ lead', (State.run lead' rest following).size <
      (State.run lead (.simple statement rest) following).size := fun _ => by
    simp [State.size, Code.size]
  by_cases label : statement.nodeKind = .labelStmt
  · obtain ⟨holds, flows, start, behind⟩ := SimpleLaid.label label laid
    have again : (Code.simple statement rest).Laid cfg resolve stack (spot.1, 0) last _ :=
      ⟨spot, after, others, SimpleLaid.again label laid, restLaid, rfl⟩
    obtain ⟨_, rfl⟩ | ⟨ends, alone⟩ := flows
    · refine .read rfl (by rw [← start]; exact holds) (.simple straight)
        ⟨stack, last, others, fun _ => ?_, ?_, followed⟩ (smaller _)
      · rw [leadAfter, if_neg (by simp [straight]), leadAt, if_pos label]
        exact ⟨_, again⟩
      · rw [← behind]
        exact restLaid
    · apply Advance.stay ends
      rw [alone]
      exact only_leaves (Behind.running ⟨stack, last, _,
        fun uses => by simp [Code.usesLead, label] at uses, again, followed⟩ id)
  · obtain ⟨holds, _, behind⟩ := SimpleLaid.plain label straight laid
    refine .read rfl holds (.simple straight) ⟨stack, last, others, fun _ => ?_, ?_, followed⟩
      (smaller _)
    · rw [leadAfter, if_neg (by simp [straight]), leadAt, if_neg label]
      exact leadLaid (by simp [Code.usesLead, label])
    · rw [← behind]
      exact restLaid

/-- The end of a list goes on as its continuation says. -/
theorem end_advances {lead : Code} {following : Cont} {stack : LoopStack}
    (followed : following.Laid cfg resolve fed stack point) :
    Advance cfg resolve fed body (.run lead .nil following) point := by
  cases following with
  | stop =>
      obtain ⟨_, ends, only⟩ := followed
      apply Advance.leave rfl ends
      rw [only, endEdges]
      split
      · exact only_leaves ⟨_, .fallOff, Behind.running rfl id⟩
      · exact fun _ inside => absurd inside List.not_mem_nil
  | seq rest next =>
      obtain ⟨join, last, _, flows, restLaid, further⟩ := followed
      exact .flow rfl flows .endSeq restLaid further
        (by simp [State.size, State.enter, Code.size, Cont.size])
  | block rest next =>
      apply Advance.leave rfl followed.1.1
      rw [followed.1.2]
      exact fun _ inside => absurd inside List.not_mem_nil
  | loop statement loopBody rest next =>
      obtain ⟨header, after, outer, last, rfl, flows, headerLaid, further⟩ := followed
      obtain ⟨impossible, _⟩ | ⟨ends, alone⟩ := flows
      · exact absurd impossible (by simp)
      · apply Advance.leave rfl ends
        rw [alone]
        exact only_leaves ⟨_, .endLoop, ⟨after, outer, last, rfl, headerLaid, further⟩,
          fun _ => .inl rfl⟩
  | switch switchLead more rest next =>
      obtain ⟨source, after, outer, last, edges, inner, restSpots, front, rfl, moreLaid, restLaid,
        frontLaid, further⟩ := followed
      cases more with
      | nil =>
          exact .flow rfl (moreLaid.2.2 point rfl) .endSwitch restLaid further
            (by simp [State.size, State.enter, Code.size, Cont.size, Groups.size])
      | cons label body more =>
          obtain ⟨first, others, deeper, final, rests, outside, _, groupLaid, laterLaid, flows⟩ :=
            Groups.start_laid moreLaid
          obtain ⟨impossible, _⟩ | ⟨ends, alone⟩ := flows point rfl
          · exact absurd impossible (by simp)
          · apply Advance.leave rfl ends
            rw [alone]
            exact only_leaves ⟨_, .endGroup, Behind.running (State.enter_laid groupLaid
              ⟨source, after, outer, last, rests, outside, _, _, rfl, laterLaid, restLaid, frontLaid,
                further⟩) id⟩

/-- Every laid state goes on along the graph. -/
theorem State.advances (resolves : Resolves cfg fed body resolve) (exit : cfg.successors .exit = [])
    (empty : cfg.statementsOf .exit = []) (laid : state.Laid cfg resolve fed point) :
    Advance cfg resolve fed body state point := by
  cases state with
  | left departure =>
      obtain rfl := laid
      apply Advance.leave rfl (by rw [ControlFlowGraph.Ends, empty]; rfl)
      rw [exit]
      exact fun _ inside => absurd inside List.not_mem_nil
  | head statement loopBody rest next fresh =>
      obtain ⟨after, outer, last, start, headerLaid, following⟩ := laid
      obtain ⟨block, index⟩ := point
      simp only at start
      subst start
      obtain ⟨edges, inner, spots, closes, bodyLaid, restLaid⟩ := id headerLaid
      refine .close rfl closes fun edge leaves => ?_
      rcases List.mem_append.mp leaves with enters | tests
      · cases loopBody with
        | absent =>
            rw [bodyLaid.1] at enters
            exact absurd enters List.not_mem_nil
        | present body =>
            obtain ⟨first, final, rfl, nested, flows⟩ := bodyLaid
            rw [List.mem_singleton.mp enters]
            exact ⟨_, .iterate, Behind.running (State.enter_laid nested
              ⟨block, after, outer, last, rfl, flows, headerLaid, following⟩) id⟩
      · rw [List.mem_singleton.mp tests]
        exact ⟨_, .leave (.inr rfl), Behind.running (State.enter_laid restLaid following) id⟩
  | run lead code next =>
      obtain ⟨stack, last, spots, leadLaid, codeLaid, following⟩ := laid
      cases code with
      | nil =>
          obtain ⟨rfl, _, _, _⟩ := codeLaid
          exact end_advances following
      | simple statement rest =>
          obtain ⟨spot, after, others, simpleLaid, restLaid, _⟩ := codeLaid
          cases jump : statement.nodeKind.isJump with
          | true =>
              have kind : statement.nodeKind ≠ .labelStmt := by
                intro label
                simp [label, NodeKind.isJump] at jump
              exact jump_advances resolves following jump (SimpleLaid.jump kind jump simpleLaid).1
          | false => exact simple_advances jump leadLaid simpleLaid restLaid following
      | compound statement inner rest =>
          obtain ⟨first, final, after, innerSpots, outerSpots, flows, innerLaid, dangles, restLaid, _⟩ :=
            codeLaid
          exact .flow rfl flows .compound innerLaid ⟨dangles, after, last, outerSpots, restLaid, following⟩
            (by simp [State.size, State.enter, Code.size, Cont.size]; omega)
      | ifStmt statement thenBranch elseBranch rest =>
          obtain ⟨join, thenEdges, elseEdges, _, _, outer, closes, thenLaid, elseLaid, restLaid, _⟩ :=
            codeLaid
          obtain ⟨first, rfl, firstLaid⟩ := Branch.enter_laid thenLaid restLaid following
          obtain ⟨second, rfl, secondLaid⟩ := Branch.enter_laid elseLaid restLaid following
          have running : ∀ branch : Branch, ¬ (branch.enter rest next).IsHead := fun branch => by
            cases branch <;> exact id
          refine .close rfl closes fun edge leaves => ?_
          rcases List.mem_append.mp leaves with taken | taken
          · rw [List.mem_singleton.mp taken]
            exact ⟨_, .thenBranch, Behind.running firstLaid (running _)⟩
          · rw [List.mem_singleton.mp taken]
            exact ⟨_, .elseBranch, Behind.running secondLaid (running _)⟩
      | loop statement loopBody rest =>
          obtain ⟨header, after, edges, innerSpots, outerSpots, flows, closes, bodyLaid, restLaid, _⟩ :=
            codeLaid
          obtain ⟨_, rfl⟩ | ⟨ends, alone⟩ := flows
          · exact .silent rfl .loop ⟨after, stack, last, rfl,
              ⟨edges, innerSpots, outerSpots, closes, bodyLaid, restLaid⟩, following⟩
              (by simp [State.size, Code.size]; omega) fun _ => trivial
          · apply Advance.stay ends
            rw [alone]
            exact only_leaves (Behind.running ⟨stack, last, _,
              fun uses => by simp [Code.usesLead] at uses, ⟨header, after, edges, innerSpots, outerSpots,
                .inl ⟨rfl, rfl⟩, closes, bodyLaid, restLaid, rfl⟩, following⟩ id)
      | switch statement groups rest =>
          obtain ⟨front, frontLaid⟩ := leadLaid rfl
          obtain ⟨after, edges, inner, outer, closes, groupsLaid, restLaid, _⟩ := codeLaid
          refine .close rfl closes fun edge leaves => ?_
          rcases List.mem_append.mp leaves with enters | skips
          · obtain ⟨label, body, more, final, groupSpots, others, moreSpots, inside, kind, groupLaid,
              moreLaid⟩ := Groups.edge_laid groupsLaid edge enters
            exact ⟨_, .dispatch inside, Behind.running (State.enter_laid groupLaid
              ⟨point.1, after, stack, last, others, moreSpots, outer, front, rfl, moreLaid, restLaid,
                frontLaid, following⟩) id⟩
          · split at skips
            · exact absurd skips List.not_mem_nil
            · rename_i default_
              rw [List.mem_singleton.mp skips]
              exact ⟨_, .noMatch (by simpa using default_),
                Behind.running (State.enter_laid restLaid following) id⟩
      | bareSwitch statement rest =>
          obtain ⟨after, outer, closes, restLaid, _⟩ := codeLaid
          exact .close rfl closes (only_leaves ⟨_, .bareSwitch,
            Behind.running (State.enter_laid restLaid following) id⟩)

end Advance

/-! ### The rest of a block -/

section Block

variable {body : Code} {state : State} {point : Point}
  (resolves : Resolves cfg fed body resolve) (exit : cfg.successors .exit = [])
  (empty : cfg.statementsOf .exit = [])

theorem drop_of_holds {statement : AstNode} (holds : cfg.Holds point statement) :
    (cfg.statementsOf point.1).drop point.2 =
      statement :: (cfg.statementsOf point.1).drop (point.2 + 1) := by
  obtain ⟨small, same⟩ := List.getElem?_eq_some_iff.mp holds
  rw [List.drop_eq_getElem_cons small, same]

theorem drop_of_ends (ends : cfg.Ends point) : (cfg.statementsOf point.1).drop point.2 = [] := by
  rw [← ends, List.drop_length]

theorem drop_of_closes {statement : AstNode} {edges : List CFGEdge}
    (closes : cfg.Closes point statement edges) :
    (cfg.statementsOf point.1).drop point.2 = [statement] := by
  have last : (cfg.statementsOf point.1).drop (point.2 + 1) = [] := drop_of_ends closes.2.1
  rw [drop_of_holds closes.1, last]

include resolves exit empty

/-- Control reads the rest of its block and crosses any edge that leaves the block. -/
theorem State.crosses (laid : state.Laid cfg resolve fed point) (edge : CFGEdge)
    (leaves : edge ∈ cfg.successors point.1) : ∃ target,
      Walk (Step .engine body) state ((cfg.statementsOf point.1).drop point.2) target ∧
        Behind cfg resolve fed edge target := by
  generalize bound : state.size = size
  induction size using Nat.strongRecOn generalizing state point with
  | _ size ih =>
  subst bound
  cases State.advances resolves exit empty laid with
  | silent reached taken there smaller _ =>
      obtain ⟨target, walk, behind⟩ := ih _ smaller there leaves rfl
      have whole := Walk.cons taken walk
      rw [reached] at whole
      exact ⟨target, whole, behind⟩
  | read reached holds taken there smaller =>
      obtain ⟨target, walk, behind⟩ := ih _ smaller there leaves rfl
      have whole := Walk.cons taken walk
      rw [reached] at whole
      exact ⟨target, drop_of_holds holds ▸ whole, behind⟩
  | close reached closes leads =>
      obtain ⟨target, taken, behind⟩ := leads edge (closes.2.2 ▸ leaves)
      have whole := Walk.single taken
      rw [reached] at whole
      exact ⟨target, drop_of_closes closes ▸ whole, behind⟩
  | leave reached ends leads =>
      obtain ⟨target, taken, behind⟩ := leads edge leaves
      have whole := Walk.single taken
      rw [reached] at whole
      exact ⟨target, drop_of_ends ends ▸ whole, behind⟩
  | stay ends leads => exact ⟨state, drop_of_ends ends ▸ .start, leads edge leaves⟩

/-- Control reads its block up to the last statement. -/
theorem State.completes (laid : state.Laid cfg resolve fed point) :
    (cfg.statementsOf point.1).drop point.2 = [] ∨ ∃ trace last,
      Walk (Step .engine body) state trace last ∧
        (cfg.statementsOf point.1).drop point.2 = trace ++ last.reached := by
  generalize bound : state.size = size
  induction size using Nat.strongRecOn generalizing state point with
  | _ size ih =>
  subst bound
  cases State.advances resolves exit empty laid with
  | silent reached taken there smaller _ =>
      obtain nothing | ⟨trace, last, walk, same⟩ := ih _ smaller there rfl
      · exact .inl nothing
      · exact .inr ⟨_, last, Walk.cons taken walk, by rw [same, reached]; rfl⟩
  | read reached holds taken there smaller =>
      right
      rw [drop_of_holds holds]
      obtain nothing | ⟨trace, last, walk, same⟩ := ih _ smaller there rfl
      · exact ⟨[], state, .start, by rw [reached]; exact congrArg (List.cons _) nothing⟩
      · exact ⟨_, last, Walk.cons taken walk, by rw [reached]; exact congrArg (List.cons _) same⟩
  | close reached closes _ => exact .inr ⟨[], state, .start, by rw [drop_of_closes closes, reached]; rfl⟩
  | leave _ ends _ => exact .inl (drop_of_ends ends)
  | stay ends _ => exact .inl (drop_of_ends ends)

/-- A state whose block holds a loop next stands at the header or goes on to a point before a loop. -/
theorem State.before_loop (laid : state.Laid cfg resolve fed point) {statement : AstNode}
    (holds : cfg.Holds point statement) :
    state.reached = [statement] ∨ ∃ before target, Walk (Step .engine body) state [] before ∧
      Step .engine body before target ∧ before.reached = [] ∧ target.reached = [statement] ∧
      (target.IsHead → before.EntersLoop) := by
  generalize bound : state.size = size
  induction size using Nat.strongRecOn generalizing state point with
  | _ size ih =>
  subst bound
  cases State.advances resolves exit empty laid with
  | @silent next reached taken there smaller entered =>
      right
      obtain here | ⟨before, target, walk, step, rest⟩ := ih _ smaller there holds rfl
      · exact ⟨state, next, .start, taken, reached, here, entered⟩
      · have whole := Walk.cons taken walk
        rw [reached] at whole
        exact ⟨before, target, whole, step, rest⟩
  | read reached other _ _ _ => exact .inl (by rw [reached, Option.some.inj (other.symm.trans holds)])
  | close reached closes _ => exact .inl (by rw [reached, Option.some.inj (closes.1.symm.trans holds)])
  | leave _ ends _ => exact absurd (drop_of_holds holds) (by rw [drop_of_ends ends]; simp)
  | stay ends _ => exact absurd (drop_of_holds holds) (by rw [drop_of_ends ends]; simp)

end Block

end MisraPlatform
