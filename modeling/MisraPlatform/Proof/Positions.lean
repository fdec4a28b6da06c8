import MisraPlatform.Proof.Simulation
import Mathlib.Data.List.Forall2

/-
This file gives every statement of a body its point in a graph that lays the body out.
-/

namespace MisraPlatform
open CFGEngine

/-! ### Points -/

section Points

variable {cfg : ControlFlowGraph} {resolve : String → BlockId} {fed : Bool}

/-- The position of a statement is laid out at its spot, and a label begins its block. -/
structure Matches (cfg : ControlFlowGraph) (resolve : String → BlockId) (fed : Bool)
    (position : AstNode × State) (spot : AstNode × Point) : Prop where
  same : position.1 = spot.1
  laid : position.2.Laid cfg resolve fed spot.2
  begins : position.1.nodeKind = .labelStmt →
    spot.2.2 = 0 ∧ ∃ code next, position.2 = .enter code next

/-- A statement is laid out from its own spot as well. -/
theorem SimpleLaid.here {stack : LoopStack} {statement : AstNode} {point spot after : Point}
    (laid : SimpleLaid cfg resolve stack statement point spot after) :
    SimpleLaid cfg resolve stack statement spot spot after := by
  by_cases kind : statement.nodeKind = .labelStmt
  · have again := SimpleLaid.again kind laid
    obtain ⟨_, _, start, _⟩ := SimpleLaid.label kind laid
    rwa [← start] at again
  · have placed := laid.2
    rw [if_neg kind] at placed
    exact placed.1 ▸ laid

section Simple

variable {stack : LoopStack} {statement : AstNode} {point spot after last : Point} {lead rest : Code}
  {front others : List (AstNode × Point)}
  (laid : SimpleLaid cfg resolve stack statement point spot after)
  (leadLaid : lead.Laid cfg resolve stack (point.1, 0) last front)
  (restLaid : rest.Laid cfg resolve stack after last others)

include laid leadLaid restLaid

theorem leadAt_laid : ∃ front, (leadAt lead statement rest).Laid cfg resolve stack (spot.1, 0) last
    front := by
  unfold leadAt
  split
  · rename_i kind
    exact ⟨_, spot, after, others, SimpleLaid.again kind laid, restLaid, rfl⟩
  · rename_i kind
    have placed := laid.2
    rw [if_neg kind] at placed
    rw [placed.1]
    exact ⟨front, leadLaid⟩

theorem leadAfter_laid : ∃ front, (leadAfter lead statement rest).Laid cfg resolve stack (after.1, 0)
    last front := by
  unfold leadAfter
  by_cases kind : statement.nodeKind = .labelStmt
  · rw [if_neg (by rw [kind]; exact Bool.false_ne_true), (SimpleLaid.label kind laid).2.2.2]
    have entered := leadAt_laid laid leadLaid restLaid
    exact entered
  · split
    · rename_i jump
      have start := (SimpleLaid.jump kind jump laid).2.2
      exact ⟨others, by rw [← start]; exact restLaid⟩
    · rename_i straight
      obtain ⟨_, here, behind⟩ := SimpleLaid.plain kind (by simpa using straight) laid
      have entered := leadAt_laid laid leadLaid restLaid
      rw [here] at entered
      rw [behind]
      exact entered

end Simple

/-- This is the match of a statement that a list begins with. -/
theorem simple_matches {stack : LoopStack} {statement : AstNode} {point spot after last : Point}
    {lead rest : Code} {next : Cont} {front others : List (AstNode × Point)}
    (laid : SimpleLaid cfg resolve stack statement point spot after)
    (leadLaid : lead.Laid cfg resolve stack (point.1, 0) last front)
    (restLaid : rest.Laid cfg resolve stack after last others)
    (following : next.Laid cfg resolve fed stack last) :
    Matches cfg resolve fed
      (statement, .run (leadAt lead statement rest) (.simple statement rest) next) (statement, spot) := by
  refine ⟨rfl, ⟨stack, last, _, fun _ => leadAt_laid laid leadLaid restLaid,
    ⟨spot, after, others, SimpleLaid.here laid, restLaid, rfl⟩, following⟩, fun kind => ?_⟩
  refine ⟨congrArg Prod.snd (SimpleLaid.label kind laid).2.2.1, .simple statement rest, next, ?_⟩
  rw [leadAt, if_pos kind]
  rfl

/-- A match of a statement that is no label only has to be laid out. -/
theorem Matches.other {statement : AstNode} {state : State} {point : Point}
    (kind : statement.nodeKind ≠ .labelStmt) (laid : state.Laid cfg resolve fed point) :
    Matches cfg resolve fed (statement, state) (statement, point) :=
  ⟨rfl, laid, fun label => absurd label kind⟩

theorem label_of_isLoop {statement : AstNode} (kind : statement.nodeKind.isLoop = true) :
    statement.nodeKind ≠ .labelStmt := by
  intro label
  simp [label, NodeKind.isLoop] at kind

mutual

/-- The positions of a body match the spots of its layout. -/
theorem Code.positions_match : ∀ (code lead : Code) (next : Cont) (stack : LoopStack)
    (point last : Point) (spots front : List (AstNode × Point)), code.Kinded →
    code.Laid cfg resolve stack point last spots →
    lead.Laid cfg resolve stack (point.1, 0) last front → next.Laid cfg resolve fed stack last →
    List.Forall₂ (Matches cfg resolve fed) (code.positions lead next) spots
  | .nil, _, _, _, _, _, _, _, _, laid, _, _ => by
      obtain ⟨_, _, _, rfl⟩ := laid
      exact .nil
  | .simple statement rest, lead, next, stack, point, last, _, front, kinded, laid, leadLaid,
      following => by
      obtain ⟨spot, after, others, simpleLaid, restLaid, rfl⟩ := laid
      obtain ⟨_, leadRest⟩ := leadAfter_laid simpleLaid leadLaid restLaid
      exact .cons (simple_matches simpleLaid leadLaid restLaid following)
        (rest.positions_match _ next stack after last others _ kinded.2 restLaid leadRest following)
  | .compound statement body rest, _, next, stack, point, last, _, _, kinded, laid, _, following => by
      obtain ⟨first, final, after, inner, outer, _, bodyLaid, dangles, restLaid, rfl⟩ := laid
      exact List.rel_append
        (body.positions_match body (.block rest next) stack (first, 0) final inner inner kinded.2.1
          bodyLaid bodyLaid ⟨dangles, after, last, outer, restLaid, following⟩)
        (rest.positions_match rest next stack (after, 0) last outer outer kinded.2.2 restLaid restLaid
          following)
  | .ifStmt statement thenBranch elseBranch rest, lead, next, stack, point, last, _, front, kinded,
      laid, leadLaid, following => by
      have whole := laid
      obtain ⟨join, thenEdges, elseEdges, first, second, outer, _, thenLaid, elseLaid, restLaid, rfl⟩ :=
        laid
      have here : Matches cfg resolve fed
          (statement, .run lead (.ifStmt statement thenBranch elseBranch rest) next)
          (statement, point) :=
        Matches.other (by simp [kinded.1]) ⟨stack, last, _, fun _ => ⟨front, leadLaid⟩, whole, following⟩
      have branches := List.rel_append
        (thenBranch.positions_match (.seq rest next) stack point.1 .trueEdge .fallthrough join _ _ first
          kinded.2.1 thenLaid fun final flows => ⟨join, last, outer, flows, restLaid, following⟩)
        (elseBranch.positions_match (.seq rest next) stack point.1 .falseEdge .fallthrough join _ _
          second kinded.2.2.1 elseLaid fun final flows =>
            ⟨join, last, outer, flows, restLaid, following⟩)
      exact List.rel_append (.cons here branches)
        (rest.positions_match rest next stack (join, 0) last outer outer kinded.2.2.2 restLaid restLaid
          following)
  | .loop statement body rest, _, next, stack, point, last, _, _, kinded, laid, _, following => by
      obtain ⟨header, after, edges, inner, outer, _, closes, bodyLaid, restLaid, rfl⟩ := laid
      have headerLaid : HeaderLaid cfg resolve statement body rest header after stack last :=
        ⟨edges, inner, outer, closes, bodyLaid, restLaid⟩
      have here : Matches cfg resolve fed
          (statement, .head statement body rest next (statement.nodeKind = .doStmt))
          (statement, (header, 0)) :=
        Matches.other (label_of_isLoop kinded.1) ⟨after, stack, last, rfl, headerLaid, following⟩
      exact List.rel_append
        (.cons here (body.positions_match (.loop statement body rest next) _ header _ .loopBack header
          _ _ inner kinded.2.1 bodyLaid fun final flows =>
            ⟨header, after, stack, last, rfl, flows, headerLaid, following⟩))
        (rest.positions_match rest next stack (after, 0) last outer outer kinded.2.2 restLaid restLaid
          following)
  | .switch statement groups rest, lead, next, stack, point, last, _, front, kinded, laid, leadLaid,
      following => by
      have whole := laid
      obtain ⟨after, edges, inner, outer, _, groupsLaid, restLaid, rfl⟩ := laid
      have here : Matches cfg resolve fed (statement, .run lead (.switch statement groups rest) next)
          (statement, point) :=
        Matches.other (by simp [kinded.1]) ⟨stack, last, _, fun _ => ⟨front, leadLaid⟩, whole, following⟩
      exact List.rel_append
        (.cons here (groups.positions_match lead rest next stack point.1 none after last edges inner
          outer front kinded.2.1 groupsLaid restLaid leadLaid following))
        (rest.positions_match rest next stack (after, 0) last outer outer kinded.2.2 restLaid restLaid
          following)
  | .bareSwitch statement rest, lead, next, stack, point, last, _, front, kinded, laid, leadLaid,
      following => by
      have whole := laid
      obtain ⟨after, outer, _, restLaid, rfl⟩ := laid
      have here : Matches cfg resolve fed (statement, .run lead (.bareSwitch statement rest) next)
          (statement, point) :=
        Matches.other (by simp [kinded.1]) ⟨stack, last, _, fun _ => ⟨front, leadLaid⟩, whole, following⟩
      exact .cons here (rest.positions_match rest next stack (after, 0) last outer outer kinded.2
        restLaid restLaid following)

theorem Branch.positions_match : ∀ (branch : Branch) (next : Cont) (stack : LoopStack)
    (source : BlockId) (entryKind tailKind : EdgeKind) (target : BlockId) (missing edges : List CFGEdge)
    (spots : List (AstNode × Point)), branch.Kinded →
    branch.Laid cfg resolve stack source entryKind tailKind target missing edges spots →
    (∀ final, cfg.Flows final tailKind target → next.Laid cfg resolve fed stack final) →
    List.Forall₂ (Matches cfg resolve fed) (branch.positions next) spots
  | .absent, _, _, _, _, _, _, _, _, _, _, laid, _ => by
      obtain ⟨_, rfl⟩ := laid
      exact .nil
  | .present body, next, stack, _, _, _, _, _, _, spots, kinded, laid, following => by
      obtain ⟨first, final, _, bodyLaid, flows⟩ := laid
      exact body.positions_match body next stack (first, 0) final spots spots kinded bodyLaid bodyLaid
        (following final flows)

theorem Groups.positions_match : ∀ (groups : Groups) (lead rest : Code) (next : Cont)
    (outer : LoopStack) (source : BlockId) (previous : Option Point) (after : BlockId) (last : Point)
    (edges : List CFGEdge) (spots restSpots front : List (AstNode × Point)), groups.Kinded →
    groups.Laid cfg resolve ((source, after) :: outer) source previous after edges spots →
    rest.Laid cfg resolve outer (after, 0) last restSpots →
    lead.Laid cfg resolve outer (source, 0) last front → next.Laid cfg resolve fed outer last →
    List.Forall₂ (Matches cfg resolve fed) (groups.positions lead rest next) spots
  | .nil, _, _, _, _, _, _, _, _, _, _, _, _, _, laid, _, _, _ => by
      obtain ⟨_, rfl, _⟩ := laid
      exact .nil
  | .cons label body more, lead, rest, next, outer, source, previous, after, last, _, _, restSpots,
      front, kinded, laid, restLaid, leadLaid, following => by
      obtain ⟨first, spot, entered, final, others, inner, moreSpots, labelLaid, bodyLaid, moreLaid, rfl,
        rfl, _⟩ := laid
      have groupLaid : (Code.simple label body).Laid cfg resolve ((source, after) :: outer) (first, 0)
          final ((label, spot) :: inner) := ⟨spot, entered, inner, labelLaid, bodyLaid, rfl⟩
      have followed : (Cont.switch lead more rest next).Laid cfg resolve fed ((source, after) :: outer)
          final := ⟨source, after, outer, last, others, moreSpots, restSpots, front, rfl, moreLaid,
            restLaid, leadLaid, following⟩
      have here := simple_matches labelLaid groupLaid bodyLaid followed
      rw [leadAt_self] at here
      obtain ⟨_, inside⟩ := leadAfter_laid labelLaid groupLaid bodyLaid
      exact List.rel_append
        (.cons here (body.positions_match _ _ _ entered final inner _ kinded.2.1 bodyLaid inside
          followed))
        (more.positions_match lead rest next outer source (some final) after last others moreSpots
          restSpots front kinded.2.2 moreLaid restLaid leadLaid following)

end

theorem match_nodes {positions : List (AstNode × State)} {spots : List (AstNode × Point)}
    (matched : List.Forall₂ (Matches cfg resolve fed) positions spots) :
    spots.map Prod.fst = positions.map Prod.fst := by
  induction matched with
  | nil => rfl
  | cons head _ ih => simp [head.same, ih]

/-- Matching lists name their labels alike. -/
theorem labelled_match {positions : List (AstNode × State)} {spots : List (AstNode × Point)}
    (matched : List.Forall₂ (Matches cfg resolve fed) positions spots) :
    List.Forall₂ (fun (position : String × State) (spot : String × Point) => position.1 = spot.1 ∧
      position.2.Laid cfg resolve fed spot.2 ∧ spot.2.2 = 0 ∧ ∃ code next,
        position.2 = .enter code next) (labelled positions) (labelled spots) := by
  induction matched with
  | nil => exact .nil
  | cons head _ ih =>
      rw [labelled_cons, labelled_cons, ← head.same]
      refine List.rel_append ?_ ih
      split
      · rename_i kind
        exact .cons ⟨rfl, head.laid, head.begins kind⟩ .nil
      · exact .nil

theorem lookup_match {α β : Type} {related : String × α → String × β → Prop}
    (named : ∀ first second, related first second → first.1 = second.1) (name : String)
    {first : List (String × α)} {second : List (String × β)}
    (matched : List.Forall₂ related first second) :
    (first.lookup name = none ∧ second.lookup name = none) ∨ ∃ left right,
      first.lookup name = some left ∧ second.lookup name = some right ∧
        related (name, left) (name, right) := by
  induction matched with
  | nil => exact .inl ⟨rfl, rfl⟩
  | @cons head other _ _ pair _ ih =>
      have same := named head other pair
      obtain ⟨key, value⟩ := head
      obtain ⟨otherKey, otherValue⟩ := other
      simp only at same
      subst same
      rw [List.lookup_cons, List.lookup_cons]
      by_cases here : name = key
      · subst here
        exact .inr ⟨value, otherValue, by simp, by simp, pair⟩
      · have away : (name == key) = false := by simpa using here
        simp only [away]
        exact ih

end Points

/-! ### Whole bodies -/

namespace LaysOut

variable {cfg : ControlFlowGraph} {body : Code} {fed : Bool} {first : BlockId} {last : Point}
  {spots : List (AstNode × Point)}

theorem stop_laid (lays : LaysOut cfg body fed first last spots) :
    Cont.stop.Laid cfg (spotBlock spots) fed [] last := ⟨rfl, lays.ends, lays.leaves⟩

theorem start_laid (lays : LaysOut cfg body fed first last spots) :
    (State.start body).Laid cfg (spotBlock spots) fed (first, 0) :=
  State.enter_laid lays.laid lays.stop_laid

theorem matched (lays : LaysOut cfg body fed first last spots) (kinded : body.Kinded) :
    List.Forall₂ (Matches cfg (spotBlock spots) fed) (body.positions body .stop) spots :=
  body.positions_match body .stop [] (first, 0) last spots spots kinded lays.laid lays.laid
    lays.stop_laid

/-- The spots are those of the statements of the body. -/
theorem spots_nodes (lays : LaysOut cfg body fed first last spots) (kinded : body.Kinded) :
    spots.map Prod.fst = body.nodes := by
  rw [← body.positions_nodes body .stop]
  exact match_nodes (lays.matched kinded)

/-- The gotos of the graph lead where the gotos of the body lead. -/
theorem resolves (lays : LaysOut cfg body fed first last spots) (kinded : body.Kinded) :
    Resolves cfg fed body (spotBlock spots) := by
  intro name
  have labels := labelled_match (lays.matched kinded)
  have pairs := List.rel_reverse labels
  have found : spotBlock spots name =
      (((labelled spots).reverse.lookup name).map Prod.fst).getD .exit := by
    have mapped : ∀ entries : List (String × Point),
        (entries.map fun entry => (entry.1, entry.2.1)).lookup name =
          (entries.lookup name).map Prod.fst := by
      intro entries
      induction entries with
      | nil => rfl
      | cons entry rest ih =>
          rw [List.map_cons, List.lookup_cons, List.lookup_cons, ih]
          split <;> rfl
    rw [spotBlock, labelBlocks, ← List.map_reverse, mapped]
  obtain ⟨missing, away⟩ | ⟨state, spot, left, right, _, laid, start, code, next, same⟩ :=
    lookup_match (fun _ _ pair => pair.1) name pairs
  · exact .inl ⟨missing, by rw [found, away]; rfl⟩
  · refine .inr ⟨code, next, left.trans (congrArg some same), ?_⟩
    have here : (spotBlock spots name, 0) = spot := by
      rw [found, right, ← start]
      rfl
    rw [here, ← same]
    exact laid

end LaysOut

end MisraPlatform
