import MisraPlatform.Proof.BodyEnd
import MisraPlatform.Proof.RuleResults
import MisraPlatform.Proof.StructuredReachability

/-
This file says when Rule 17.4 is right about a structured body.
-/

namespace MisraPlatform
open CFGEngine

/-! ### Edges into the exit -/

/-- Every operation that leads out of its block for good comes with its statement. -/
structure Departs (ops : List Op) : Prop where
  returns : ∀ number kind, .edge number .exit kind ∈ ops →
    ∃ statement, .append number statement ∈ ops ∧ statement.nodeKind = .returnStmt
  gotos : ∀ number name, .goto number name ∈ ops →
    ∃ statement, .append number statement ∈ ops ∧ statement.nodeKind = .gotoStmt

theorem Departs.append {first second : List Op} (left : Departs first) (right : Departs second) :
    Departs (first ++ second) where
  returns number kind inside := by
    rcases List.mem_append.mp inside with early | later
    · obtain ⟨statement, here, same⟩ := left.returns number kind early
      exact ⟨statement, List.mem_append_left _ here, same⟩
    · obtain ⟨statement, here, same⟩ := right.returns number kind later
      exact ⟨statement, List.mem_append_right _ here, same⟩
  gotos number name inside := by
    rcases List.mem_append.mp inside with early | later
    · obtain ⟨statement, here, same⟩ := left.gotos number name early
      exact ⟨statement, List.mem_append_left _ here, same⟩
    · obtain ⟨statement, here, same⟩ := right.gotos number name later
      exact ⟨statement, List.mem_append_right _ here, same⟩

/-- The operations of the scaffolding stay inside. -/
theorem departs_stays {ops : List Op} (stays : ∀ op ∈ ops, ∀ number,
    (∀ kind, op ≠ .edge number .exit kind) ∧ ∀ name, op ≠ .goto number name) : Departs ops where
  returns number kind inside := absurd rfl ((stays _ inside number).1 kind)
  gotos number name inside := absurd rfl ((stays _ inside number).2 name)

/-- The targets of a stack are blocks of the body. -/
def StackInside (stack : LoopStack) : Prop := ∀ targets ∈ stack, targets.1 ≠ .exit ∧ targets.2 ≠ .exit

theorem StackInside.push {stack : LoopStack} (outer : StackInside stack) (again after : Nat) :
    StackInside ((.block again, .block after) :: stack) := by
  intro targets inside
  rcases List.mem_cons.mp inside with rfl | below
  · exact ⟨by simp, by simp⟩
  · exact outer targets below

theorem simpleOps_departs {stack : LoopStack} (outer : StackInside stack) (statement : AstNode)
    (cursor : Cursor) : Departs (simpleOps stack statement cursor) := by
  obtain ⟨_, _, ops, _⟩ | ⟨_, _, ops, _⟩ | ⟨jump, ops, _⟩ | ⟨_, _, ops, _⟩ :=
    simple_forms stack statement cursor
  · rw [ops]
    exact departs_stays (by simp)
  · rw [ops]
    exact departs_stays (by simp)
  · rw [ops]
    unfold jumpOps
    split
    · rename_i kind
      exact ⟨by simp [kind], by simp⟩
    · refine departs_stays ?_
      cases stack with
      | nil => simp
      | cons targets rest => simp [outer targets]
    · refine departs_stays ?_
      cases stack with
      | nil => simp
      | cons targets rest => simp [outer targets]
    · rename_i kind
      exact ⟨by simp, by simp [kind]⟩
    · exact departs_stays (by simp)
  · rw [ops]
    exact departs_stays (by simp)

mutual

theorem Code.emit_departs : ∀ (code : Code) (stack : LoopStack) (cursor : Cursor), StackInside stack →
    Departs (code.emit stack cursor)
  | .nil, _, _, _ => departs_stays (by simp [Code.emit])
  | .simple statement rest, stack, cursor, outer =>
      (simpleOps_departs outer statement cursor).append (rest.emit_departs stack _ outer)
  | .compound _ body rest, stack, cursor, outer => by
      have first : Departs [.newBlock] := departs_stays (by simp)
      have middle : Departs [.edge cursor.block (.block (Cursor.fresh cursor.next).block) .fallthrough,
          .newBlock] := departs_stays (by simp)
      have whole := ((first.append (body.emit_departs stack (.fresh cursor.next) outer)).append
        middle).append (rest.emit_departs stack (.fresh (body.last (.fresh cursor.next)).next) outer)
      exact whole
  | .ifStmt statement thenBranch elseBranch rest, stack, cursor, outer => by
      have front : Departs [.append cursor.block statement, .newBlock] := departs_stays (by simp)
      exact ((front.append (thenBranch.emit_departs _ _ _ _ _ _ _ outer (departs_stays (by simp)))).append
        (elseBranch.emit_departs _ _ _ _ _ _ _ outer (departs_stays (by simp)))).append
        (rest.emit_departs stack _ outer)
  | .loop statement body rest, stack, cursor, outer => by
      have front : Departs [.newBlock, .append (cursor.next + 1) statement, .newBlock,
          .edge cursor.block (.block (cursor.next + 1)) .fallthrough] := departs_stays (by simp)
      have exit : Departs [.edge (cursor.next + 1) (.block (cursor.next + 2)) .falseEdge] :=
        departs_stays (by simp)
      exact ((front.append (body.emit_departs _ _ _ _ _ _ _ (outer.push _ _)
        (departs_stays (by simp)))).append exit).append (rest.emit_departs stack _ outer)
  | .switch statement groups rest, stack, cursor, outer => by
      have front : Departs [.append cursor.block statement, .newBlock] := departs_stays (by simp)
      have skip : Departs (if groups.hasDefault then [] else
          [.edge cursor.block (.block (cursor.next + 1)) .noMatch]) := by
        split <;> exact departs_stays (by simp)
      exact ((front.append (groups.emit_departs _ _ _ _ _ (outer.push _ _))).append skip).append
        (rest.emit_departs stack _ outer)
  | .bareSwitch statement rest, stack, cursor, outer => by
      have front : Departs [.append cursor.block statement, .newBlock,
          .edge cursor.block (.block (cursor.next + 1)) .fallthrough] := departs_stays (by simp)
      exact front.append (rest.emit_departs stack _ outer)

theorem Branch.emit_departs : ∀ (branch : Branch) (stack : LoopStack) (source : Nat)
    (entryKind tailKind : EdgeKind) (target : Nat) (missing : List Op) (next : Nat), StackInside stack →
    Departs missing → Departs (branch.emit stack source entryKind tailKind target missing next)
  | .absent, _, _, _, _, _, _, _, _, missing => missing
  | .present body, stack, source, entryKind, tailKind, target, _, next, outer, _ => by
      have first : Departs [.newBlock] := departs_stays (by simp)
      have last : Departs [.edge source (.block (Cursor.fresh next).block) entryKind,
          .edge (body.last (.fresh next)).block (.block target) tailKind] := departs_stays (by simp)
      have whole := (first.append (body.emit_departs stack (.fresh next) outer)).append last
      exact whole

theorem Groups.emit_departs : ∀ (groups : Groups) (stack : LoopStack) (switchBlock : Nat)
    (previous : Option Nat) (afterSwitch next : Nat), StackInside stack →
    Departs (groups.emit stack switchBlock previous afterSwitch next)
  | .nil, _, _, previous, _, _, _ => by
      cases previous <;> exact departs_stays (by simp [Groups.emit])
  | .cons label body more, stack, switchBlock, previous, afterSwitch, next, outer => by
      have first : Departs [.newBlock] := departs_stays (by simp)
      have enter : Departs [.edge switchBlock (.block (Cursor.fresh next).block) (caseEdgeKind label)] :=
        departs_stays (by simp)
      have link : Departs (previous.toList.map fun tail =>
          .edge tail (.block (Cursor.fresh next).block) .switchFallthrough) := by
        cases previous <;> exact departs_stays (by simp)
      have whole := ((((first.append (simpleOps_departs outer label (.fresh next))).append
        (body.emit_departs stack ((Cursor.fresh next).after label) outer)).append enter).append
        link).append (more.emit_departs stack switchBlock
          (some (body.last ((Cursor.fresh next).after label)).block) afterSwitch
          (body.last ((Cursor.fresh next).after label)).next outer)
      exact whole

end

/-- An edge into the exit leaves the block of a return, the block of a goto or the end of the body. -/
def ExitsFrom (body : Code) (cfg : ControlFlowGraph) : Prop :=
  ∀ edge ∈ cfg.edges, edge.target = .exit →
    (edge.kind = .returnEdge ∧ ∃ statement ∈ cfg.statementsOf edge.source,
      statement.nodeKind = .returnStmt) ∨
    (∃ statement ∈ cfg.statementsOf edge.source, statement.nodeKind = .gotoStmt) ∨
    body.fed = true

theorem Written.exitsFrom {body : Code} {cfg : ControlFlowGraph} (written : Written body cfg) :
    ExitsFrom body cfg := by
  have departs := body.emit_departs [] (.fresh 0) fun _ inside => absurd inside List.not_mem_nil
  have held : ∀ number statement, .append number statement ∈ body.emit [] (.fresh 0) →
      statement ∈ cfg.statementsOf (.block number) := by
    intro number statement inside
    rw [written.statements, mem_puts]
    exact List.mem_filterMap.mpr ⟨_, List.mem_cons_of_mem _ inside, rfl⟩
  intro edge present leaves
  rw [written.edges] at present
  simp only [List.mem_append, List.mem_cons, List.mem_map] at present
  rcases present with (direct | rfl | final) | ⟨pending, waiting, rfl⟩
  · obtain ⟨op, inside, wrote⟩ := List.mem_filterMap.mp direct
    cases op with
    | edge number target kind =>
        simp only [Op.toEdge, Option.some.injEq] at wrote
        subst wrote
        obtain rfl : target = .exit := leaves
        have later : Op.edge number .exit kind ∈ body.emit [] (.fresh 0) := by
          simpa [Code.operations] using inside
        obtain ⟨statement, here, same⟩ := departs.returns number kind later
        rcases operations_aimed body _ inside _ rfl with ⟨_, returns⟩ | ⟨_, named, _⟩
        · exact .inl ⟨returns, statement, held number statement here, same⟩
        · exact BlockId.noConfusion named
    | newBlock | append | label | goto => simp [Op.toEdge] at wrote
  · exact BlockId.noConfusion leaves
  · unfold endEdges at final
    split at final
    · rename_i fed
      exact .inr (.inr fed)
    · exact absurd final List.not_mem_nil
  · obtain ⟨op, inside, wrote⟩ := List.mem_filterMap.mp waiting
    cases op with
    | goto number name =>
        simp only [Op.toGoto, Option.some.injEq] at wrote
        subst wrote
        have later : Op.goto number name ∈ body.emit [] (.fresh 0) := by
          simpa [Code.operations] using inside
        obtain ⟨statement, here, same⟩ := departs.gotos number name later
        exact .inr (.inl ⟨statement, held number statement here, same⟩)
    | newBlock | append | label | edge => simp [Op.toGoto] at wrote

/-- A collapse keeps the edges into the exit. -/
theorem exitsFrom_collapse (body : Code) (cfg : ControlFlowGraph) (blockId target : BlockId)
    (exits : ExitsFrom body cfg) (falls : FallsInside cfg) (collapsible : Collapsible cfg blockId target) :
    ExitsFrom body (collapse cfg blockId target) := by
  intro edge present leaves
  obtain ⟨old, before, away, rfl⟩ := (mem_collapse_edges _ _ _ _).mp present
  have inside := collapsible.target_inside falls
  have direct : old.target = .exit := by
    rw [redirect_target, renameBlock] at leaves
    split at leaves
    · exact absurd leaves inside.2
    · exact leaves
  rw [redirect_source, redirect_kind, collapse_statements cfg blockId target _ away]
  exact exits old before direct

/-- Pruning keeps the edges into the exit. -/
theorem build_exitsFrom {functionNode : AstNode} {graph : AstGraph} {body : Code}
    (nonempty : bodyStatements functionNode graph ≠ [])
    (reads : readCode graph (graph.nodes.length + 1) (bodyStatements functionNode graph) = some body)
    {cfg : ControlFlowGraph} (built : build functionNode graph = some cfg) : ExitsFrom body cfg := by
  obtain ⟨before, unpruned, written⟩ := buildUnpruned_written functionNode graph body nonempty reads
  obtain ⟨pruned, result, steps⟩ := prune_collapses before
  simp only [build, unpruned, Option.bind_eq_bind, Option.bind_some, if_neg nonempty, result,
    Option.some.injEq] at built
  subst built
  have kept := steps.keeps (fun cfg => ExitsFrom body cfg ∧ FallsInside cfg)
    (fun cfg blockId target good collapsible =>
      ⟨exitsFrom_collapse body cfg blockId target good.1 good.2 collapsible,
        fallsInside_collapse cfg blockId target good.2 collapsible⟩)
    ⟨written.exitsFrom, written.anchored.falls⟩
  exact kept.1

/-! ### What the rule reports -/

section Offending

variable {graph : AstGraph} {functionNode : AstNode} {cfg : ControlFlowGraph} {body : Code}

theorem last_statement (cfg : ControlFlowGraph) (blockId : BlockId) :
    ((cfg.blocks.get? blockId).bind fun block => block.statements.getLast?) =
      (cfg.statementsOf blockId).getLast? := by
  unfold ControlFlowGraph.statementsOf
  cases cfg.blocks.get? blockId <;> rfl

/-- An edge offends unless it returns a value. -/
theorem offendingEdge_iff (edge : CFGEdge) :
    Rule17_4.offendingEdge graph functionNode cfg edge ≠ none ↔ edge.kind ≠ .returnEdge ∨
      ∀ statement, (cfg.statementsOf edge.source).getLast? = some statement →
        graph.children statement.nodeId = [] := by
  unfold Rule17_4.offendingEdge
  rw [last_statement]
  by_cases kind : edge.kind = .returnEdge
  · cases last : (cfg.statementsOf edge.source).getLast? with
    | none => simp [kind]
    | some statement => by_cases empty : graph.children statement.nodeId = [] <;> simp [kind, empty]
  · simp [kind]

theorem offending_iff : Rule17_4.offending graph functionNode cfg ≠ none ↔
    ∃ edge ∈ cfg.edges, edge.target = .exit ∧
      Rule17_4.offendingEdge graph functionNode cfg edge ≠ none := by
  simp only [Rule17_4.offending, ControlFlowGraph.exitEdges, ControlFlowGraph.predecessors, ne_eq,
    List.findSome?_eq_none_iff, List.mem_filter, decide_eq_true_eq, not_forall, exists_prop, and_assoc]

/-- Some return of the body has no expression. -/
def ReturnsBare (graph : AstGraph) (body : Code) : Prop :=
  ∃ statement ∈ body.nodes, statement.nodeKind = .returnStmt ∧ graph.children statement.nodeId = []

end Offending

mutual

/-- No goto stands in a structured body. -/
theorem Code.structured_nodes : ∀ (code : Code), code.Structured → code.Kinded →
    ∀ node ∈ code.nodes, node.nodeKind ≠ .gotoStmt
  | .nil, _, _, _, inside => absurd inside List.not_mem_nil
  | .simple statement rest, structured, kinded, node, inside => by
      rcases List.mem_cons.mp inside with rfl | later
      · exact structured.2.1
      · exact rest.structured_nodes structured.2.2 kinded.2 node later
  | .compound _ _ _, structured, _, _, _ => structured.elim
  | .ifStmt statement thenBranch elseBranch rest, structured, kinded, node, inside => by
      simp only [Code.nodes, List.cons_append, List.mem_cons, List.mem_append] at inside
      rcases inside with rfl | (first | second) | later
      · simp [kinded.1]
      · exact thenBranch.structured_nodes structured.1 kinded.2.1 node first
      · exact elseBranch.structured_nodes structured.2.1 kinded.2.2.1 node second
      · exact rest.structured_nodes structured.2.2 kinded.2.2.2 node later
  | .loop statement body rest, structured, kinded, node, inside => by
      simp only [Code.nodes, List.cons_append, List.mem_cons, List.mem_append] at inside
      rcases inside with rfl | first | later
      · intro goto
        have loops := kinded.1
        simp [goto, NodeKind.isLoop] at loops
      · exact body.structured_nodes structured.1 kinded.2.1 node first
      · exact rest.structured_nodes structured.2 kinded.2.2 node later
  | .switch statement groups rest, structured, kinded, node, inside => by
      simp only [Code.nodes, List.cons_append, List.mem_cons, List.mem_append] at inside
      rcases inside with rfl | first | later
      · simp [kinded.1]
      · exact groups.structured_nodes structured.1 kinded.2.1 node first
      · exact rest.structured_nodes structured.2 kinded.2.2 node later
  | .bareSwitch _ _, structured, _, _, _ => structured.elim

theorem Branch.structured_nodes : ∀ (branch : Branch), branch.Structured → branch.Kinded →
    ∀ node ∈ branch.nodes, node.nodeKind ≠ .gotoStmt
  | .absent, _, _, _, inside => absurd inside List.not_mem_nil
  | .present body, structured, kinded, node, inside => body.structured_nodes structured kinded node inside

theorem Groups.structured_nodes : ∀ (groups : Groups), groups.Structured → groups.Kinded →
    ∀ node ∈ groups.nodes, node.nodeKind ≠ .gotoStmt
  | .nil, _, _, _, inside => absurd inside List.not_mem_nil
  | .cons label body more, structured, kinded, node, inside => by
      simp only [Groups.nodes, List.cons_append, List.mem_cons, List.mem_append] at inside
      rcases inside with rfl | first | later
      · exact structured.2.1
      · exact body.structured_nodes structured.2.2.1 kinded.2.1 node first
      · exact more.structured_nodes structured.2.2.2 kinded.2.2 node later

end

/-- The rule reports a structured body exactly when its end is fed or a return of it is bare. -/
theorem Represents.offending_iff {graph : AstGraph} {functionNode : AstNode} {cfg : ControlFlowGraph}
    {body : Code} (represents : Represents cfg body) (exits : ExitsFrom body cfg)
    (structured : body.Structured) :
    Rule17_4.offending graph functionNode cfg ≠ none ↔ body.EndFed ∨ ReturnsBare graph body := by
  obtain ⟨first, last, spots, lays⟩ := represents.lays
  rw [MisraPlatform.offending_iff, ← body.fed_iff]
  constructor
  · rintro ⟨edge, present, leaves, offends⟩
    rcases exits edge present leaves with ⟨kind, statement, held, returns⟩ | ⟨statement, held, goto⟩ | fed
    · right
      have empty := ((offendingEdge_iff edge).mp offends).resolve_left (not_not.mpr kind)
      obtain ⟨index, found⟩ := List.mem_iff_getElem?.mp held
      have ends := (represents.seated (edge.source, index) found).last (by rw [returns]; rfl)
      have final : (cfg.statementsOf edge.source).getLast? = some statement := by
        rw [List.getLast?_eq_getElem?, show (cfg.statementsOf edge.source).length = index + 1 from ends]
        exact found
      exact ⟨statement, represents.places.inside _ _ held, returns, empty statement final⟩
    · exact absurd goto (body.structured_nodes structured represents.kinded statement
        (represents.places.inside _ _ held))
    · exact .inl fed
  · rintro (fed | ⟨statement, inside, returns, empty⟩)
    · have leaves := lays.leaves
      rw [endEdges, if_pos fed] at leaves
      have listed : (⟨last.1, .exit, .implicitReturn, none⟩ : CFGEdge) ∈ cfg.successors last.1 := by
        rw [leaves]
        exact List.mem_singleton.mpr rfl
      exact ⟨_, (ControlFlowGraph.mem_successors.mp listed).1, rfl,
        (offendingEdge_iff _).mpr (.inl (by simp))⟩
    · obtain ⟨state, position⟩ := node_position inside
      obtain ⟨point, seated, _⟩ := lays.spot represents.kinded position
      have only := seated.returns returns
      have listed : (⟨point.1, .exit, .returnEdge, none⟩ : CFGEdge) ∈ cfg.successors point.1 := by
        rw [only]
        exact List.mem_singleton.mpr rfl
      refine ⟨_, (ControlFlowGraph.mem_successors.mp listed).1, rfl,
        (offendingEdge_iff _).mpr (.inr fun other final => ?_)⟩
      have ends := seated.last (by rw [returns]; rfl)
      have holds : (cfg.statementsOf point.1)[point.2]? = some statement := seated.holds
      rw [List.getLast?_eq_getElem?, show (cfg.statementsOf point.1).length = point.2 + 1 from ends,
        Nat.add_sub_cancel, holds] at final
      rw [← Option.some.inj final]
      exact empty

/-! ### What a run does -/

/-- Without labels it does not matter whether the current block holds a statement. -/
theorem Code.endFed_started : ∀ {code : Code}, code.Structured → ∀ (fed started begun : Bool),
    code.endFed fed started = code.endFed fed begun
  | .nil, _, _, _, _ => rfl
  | .simple statement rest, structured, fed, started, begun => by
      simp only [Code.endFed, if_neg structured.1]
  | .compound _ _ _, structured, _, _, _ => structured.elim
  | .ifStmt _ _ _ _, _, _, _, _ => rfl
  | .loop _ _ _, _, _, _, _ => rfl
  | .switch _ _ _, _, _, _, _ => rfl
  | .bareSwitch _ _, structured, _, _, _ => structured.elim

/-- This is the part of the body that waits at its outermost level. -/
def Cont.outermost : Cont → Code → Code
  | .stop, code => code
  | .seq rest next, _ | .block rest next, _ | .loop _ _ rest next, _ | .switch _ _ rest next, _ =>
      next.outermost rest

/-- The end of the body is not fed by what is left at the outermost level. -/
def State.Starved : State → Prop
  | .run _ code next => (next.outermost code).endFed true false = false
  | .head _ _ rest next _ => (next.outermost rest).endFed true false = false
  | .left _ => True

/-- A branching statement feeds what stands behind it. -/
theorem Cont.outermost_tail {next : Cont} {code rest : Code}
    (same : code.endFed true false = rest.endFed true false) :
    (next.outermost code).endFed true false = (next.outermost rest).endFed true false := by
  cases next <;> first | exact same | rfl

theorem Cont.breakTarget_starved {next : Cont} {code : Code} {target : State}
    (starved : (next.outermost code).endFed true false = false)
    (found : next.breakTarget = some target) : target.Starved := by
  induction next generalizing code with
  | stop => simp [Cont.breakTarget] at found
  | seq rest next ih => exact ih starved found
  | block rest next ih => exact ih starved found
  | loop statement body rest next =>
      obtain rfl := Option.some.inj found
      exact starved
  | switch lead more rest next =>
      obtain rfl := Option.some.inj found
      exact starved

theorem Cont.continueTarget_starved {next : Cont} {code : Code} {target : State}
    (starved : (next.outermost code).endFed true false = false)
    (found : next.continueTarget .c = some target) : target.Starved := by
  induction next generalizing code with
  | stop => simp [Cont.continueTarget] at found
  | seq rest next ih => exact ih starved found
  | block rest next ih => exact ih starved found
  | loop statement body rest next =>
      obtain rfl := Option.some.inj found
      exact starved
  | switch lead more rest next ih => exact ih starved found

theorem Branch.enter_starved {branch : Branch} {rest : Code} {next : Cont}
    (starved : (next.outermost rest).endFed true false = false) : (branch.enter rest next).Starved := by
  cases branch <;> exact starved

/-- A structured run never gets to an end that is not fed. -/
theorem Step.starved {body : Code} {state target : State} (structured : state.Structured)
    (starved : state.Starved) (taken : Step .c body state target) : target.Starved := by
  cases taken with
  | @simple lead statement rest next straight =>
      have label := structured.2.1.1
      have begun : (Code.simple statement rest).endFed true false = rest.endFed true false := by
        rw [Code.endFed, if_neg label, if_neg (by simp [straight])]
        exact Code.endFed_started structured.2.1.2.2 _ _ _
      exact (Cont.outermost_tail begun).symm.trans starved
  | returnStmt | gotoMissing | fallOff => trivial
  | breakStmt _ enclosed => exact Cont.breakTarget_starved starved enclosed
  | continueStmt _ enclosed => exact Cont.continueTarget_starved starved enclosed
  | gotoStmt kind _ => exact absurd kind structured.2.1.2.1
  | compound => exact structured.2.1.elim
  | @thenBranch lead statement thenBranch elseBranch rest next =>
      have same : (next.outermost (.ifStmt statement thenBranch elseBranch rest)).endFed true false =
        (next.outermost rest).endFed true false := Cont.outermost_tail rfl
      exact Branch.enter_starved (same.symm.trans starved)
  | @elseBranch lead statement thenBranch elseBranch rest next =>
      have same : (next.outermost (.ifStmt statement thenBranch elseBranch rest)).endFed true false =
        (next.outermost rest).endFed true false := Cont.outermost_tail rfl
      exact Branch.enter_starved (same.symm.trans starved)
  | @loop lead statement inner rest next =>
      have same : (next.outermost (.loop statement inner rest)).endFed true false =
        (next.outermost rest).endFed true false := Cont.outermost_tail rfl
      exact same.symm.trans starved
  | iterate => exact starved
  | leave => exact starved
  | @dispatch lead statement groups rest next label inner more inside =>
      have same : (next.outermost (.switch statement groups rest)).endFed true false =
        (next.outermost rest).endFed true false := Cont.outermost_tail rfl
      exact same.symm.trans starved
  | @noMatch lead statement groups rest next open_ =>
      have same : (next.outermost (.switch statement groups rest)).endFed true false =
        (next.outermost rest).endFed true false := Cont.outermost_tail rfl
      exact same.symm.trans starved
  | bareSwitch => exact structured.2.1.elim
  | endSeq => exact starved
  | endBlock => exact structured.2.2.elim
  | endLoop => exact starved
  | endGroup => exact starved
  | endSwitch => exact starved

/-- Some run leaves the function without a value. -/
def LeavesWithoutValue (graph : AstGraph) (body : Code) : Prop :=
  ∃ trace departure, Executes body trace (.left departure) ∧
    (departure = .fellOff ∨ ∃ statement, departure = .returned statement ∧
      graph.children statement.nodeId = [])

/-- What a run does without a value can be read off the text. -/
theorem LeavesWithoutValue.cause {graph : AstGraph} {body : Code} (kinded : body.Kinded)
    (structured : body.Structured) (leaves : LeavesWithoutValue graph body) :
    body.EndFed ∨ ReturnsBare graph body := by
  obtain ⟨trace, departure, run, cause⟩ := leaves
  obtain ⟨left, walk, _⟩ := run_iff_walk.mp run
  obtain ⟨before, state, walked, _, at_, _⟩ := walk.leaves kinded fun _ _ taken => taken
  have placed := walk_placed (fun _ _ taken => taken) walked
  rcases cause with rfl | ⟨statement, rfl, empty⟩
  · left
    by_contra unfed
    have kept : ∀ {trace : List AstNode} {state : State},
        Walk (Step .c body) (.start body) trace state → state.Structured ∧ state.Starved := by
      intro trace state walk
      induction walk with
      | start =>
          refine ⟨State.enter_structured structured trivial, ?_⟩
          change body.endFed true false = false
          simpa [Code.EndFed] using unfed
      | step _ taken ih => exact ⟨Step.structured ih.1 taken, Step.starved ih.1 ih.2 taken⟩
    have starved := (kept walked).2
    cases at_ with
    | fellOff => exact Bool.noConfusion (starved : (Code.nil.endFed true false) = false)
  · right
    cases at_ with
    | @returned lead _ rest next kind =>
        exact ⟨statement, current_mem_nodes placed rfl, kind, empty⟩

/-! ### The rule -/

section Rule

open BaseRulePlugin

/-- The graph of a structured body offends exactly for a cause in the text. -/
theorem build_offending_iff {graph : AstGraph} (wellFormed : graph.WellFormed) {functionNode : AstNode}
    {body : Code} (layout : FunctionBody graph functionNode body) (structured : body.Structured)
    {cfg : ControlFlowGraph} (built : build functionNode graph = some cfg) :
    Rule17_4.offending graph functionNode cfg ≠ none ↔ body.EndFed ∨ ReturnsBare graph body := by
  obtain ⟨reads, kinded, nodup⟩ := layout.reading wellFormed
  by_cases empty : bodyStatements functionNode graph = []
  · obtain ⟨other, same, trivial⟩ := build_trivial functionNode graph empty
    cases built.symm.trans same
    rw [empty] at reads
    cases reads
    refine iff_of_true (offending_iff.mpr ⟨⟨.entry, .exit, .fallthrough, none⟩, ?_, rfl, ?_⟩) (.inl rfl)
    · rw [trivial.edges]
      exact List.mem_singleton.mpr rfl
    · exact (offendingEdge_iff _).mpr (.inl (by simp))
  · obtain ⟨other, same, represents⟩ := build_represents functionNode graph body empty reads kinded nodup
    cases built.symm.trans same
    exact represents.offending_iff (build_exitsFrom empty reads built) structured

/-- The rule answers for every function. -/
theorem Rule17_4.detect_answers {context : RuleContext} (wellFormed : (graph context).WellFormed) :
    ∃ results, Rule17_4.detect context = some results ∧
      ∀ functionNode ∈ (graph context).nodes, functionNode.nodeKind = .functionDecl →
        ∃ found, Rule17_4.detectFunction context functionNode = some found ∧
          ∀ result ∈ found, result ∈ results := by
  have answers : ∀ functionNode, ∃ found, Rule17_4.detectFunction context functionNode = some found := by
    intro functionNode
    obtain ⟨cfg, built⟩ := build_answers wellFormed functionNode
    unfold Rule17_4.detectFunction
    rw [built]
    split
    · exact ⟨_, rfl⟩
    · split
      · exact ⟨_, rfl⟩
      · simp only [Option.bind_eq_bind, Option.bind_some]
        split <;> exact ⟨_, rfl⟩
  obtain ⟨results, found, related⟩ := mapM_answers (f := Rule17_4.detectFunction context)
    ((graph context).nodesByKind .functionDecl) fun functionNode _ => answers functionNode
  refine ⟨results.flatten, by rw [Rule17_4.detect, found]; rfl, fun functionNode present kind => ?_⟩
  obtain ⟨answer, detected⟩ := answers functionNode
  refine ⟨answer, detected, fun result inside => (mem_of_answers related result).mpr ?_⟩
  exact ⟨functionNode, List.mem_filter.mpr ⟨present, decide_eq_true kind⟩, answer, detected, inside⟩

/-- A checked function is reported exactly when its graph offends. -/
theorem Rule17_4.detectFunction_iff {context : RuleContext} {functionNode : AstNode}
    (defined : Rule17_4.hasBody (graph context) functionNode = true)
    (typed : Rule17_4.returnType functionNode ∉ ["unknown", "void"]) {cfg : ControlFlowGraph}
    (built : build functionNode (graph context) = some cfg) {found : List RuleResult}
    (detected : Rule17_4.detectFunction context functionNode = some found) :
    found ≠ [] ↔ Rule17_4.offending (graph context) functionNode cfg ≠ none := by
  unfold Rule17_4.detectFunction at detected
  rw [if_neg (by simp [defined]), if_neg typed, built] at detected
  simp only [Option.bind_eq_bind, Option.bind_some] at detected
  split at detected
  · rename_i nothing
    cases detected
    simp [nothing]
  · rename_i node offends
    cases detected
    simp [offends]

/-- The rule is right about a structured body exactly when a cause in the text comes with a run. -/
theorem returnValues_iff (context : RuleContext) (wellFormed : (graph context).WellFormed)
    (functionNode : AstNode) (present : functionNode ∈ (graph context).nodes)
    (declares : functionNode.nodeKind = .functionDecl)
    (defined : Rule17_4.hasBody (graph context) functionNode = true)
    (typed : Rule17_4.returnType functionNode ∉ ["unknown", "void"]) (body : Code)
    (layout : FunctionBody (graph context) functionNode body) (structured : body.Structured) :
    ∃ results found, Rule17_4.detect context = some results ∧
      Rule17_4.detectFunction context functionNode = some found ∧ (∀ result ∈ found, result ∈ results) ∧
      ((found ≠ [] ↔ LeavesWithoutValue (graph context) body) ↔
        (body.EndFed ∨ ReturnsBare (graph context) body → LeavesWithoutValue (graph context) body)) := by
  obtain ⟨results, detected, answers⟩ := Rule17_4.detect_answers wellFormed
  obtain ⟨found, function, inside⟩ := answers functionNode present declares
  obtain ⟨cfg, built⟩ := build_answers wellFormed functionNode
  refine ⟨results, found, detected, function, inside, ?_⟩
  have reported := (Rule17_4.detectFunction_iff defined typed built function).trans
    (build_offending_iff wellFormed layout structured built)
  rw [reported]
  exact ⟨Iff.mp, fun comes => ⟨comes, fun leaves => leaves.cause (layout.reading wellFormed).2.1
    structured⟩⟩

end Rule

/-! ### Both branches return -/

/-- These are the nodes of `int f() { if (c) return 1; else return 2; }`. -/
def decidedFunction : AstNode :=
  { nodeId := "f", nodeKind := .functionDecl, childrenIds := ["b"], essentialType := some "signed" }

def decidedIf : AstNode :=
  { nodeId := "i", nodeKind := .ifStmt, parentId := "b", childrenIds := ["c", "r", "s"] }

def decidedFirst : AstNode :=
  { nodeId := "r", nodeKind := .returnStmt, parentId := "i", childrenIds := ["v"] }

def decidedSecond : AstNode :=
  { nodeId := "s", nodeKind := .returnStmt, parentId := "i", childrenIds := ["w"] }

def decidedContext : RuleContext where
  filePath := "f.c"
  astNodes :=
    [decidedFunction, { nodeId := "b", nodeKind := .compoundStmt, parentId := "f", childrenIds := ["i"] },
      decidedIf, { nodeId := "c", nodeKind := .declRefExpr, parentId := "i" }, decidedFirst,
      { nodeId := "v", nodeKind := .other "IntegerLiteral", parentId := "r" }, decidedSecond,
      { nodeId := "w", nodeKind := .other "IntegerLiteral", parentId := "s" }]

def decidedBody : Code :=
  .ifStmt decidedIf (.present (.simple decidedFirst .nil)) (.present (.simple decidedSecond .nil)) .nil

theorem decided_wellFormed : (BaseRulePlugin.graph decidedContext).WellFormed := by
  apply AstGraph.WellFormed.of_order <;> decide

theorem decided_layout :
    FunctionBody (BaseRulePlugin.graph decidedContext) decidedFunction decidedBody := by
  have statements : bodyStatements decidedFunction (BaseRulePlugin.graph decidedContext) =
      [decidedIf] := by decide
  refine ⟨[], { nodeId := "c", nodeKind := .declRefExpr, parentId := "i" }, decidedFirst,
    some decidedSecond, statements, rfl, by decide, ?_, ?_, rfl⟩
  · exact ⟨_, rfl, [], rfl, rfl, rfl⟩
  · exact ⟨_, rfl, [], rfl, rfl, rfl⟩

theorem decided_structured : decidedBody.Structured :=
  ⟨⟨by decide, by decide, trivial⟩, ⟨by decide, by decide, trivial⟩, trivial⟩

/-- Every run returns the value of one of the branches. -/
theorem decided_runs {trace : List AstNode} {state : State}
    (walk : Walk (Step .c decidedBody) (.start decidedBody) trace state) :
    state = .start decidedBody ∨ state = .enter (.simple decidedFirst .nil) (.seq .nil .stop) ∨
      state = .enter (.simple decidedSecond .nil) (.seq .nil .stop) ∨
      state = .left (.returned decidedFirst) ∨ state = .left (.returned decidedSecond) := by
  induction walk with
  | start => exact .inl rfl
  | @step trace state target _ taken ih =>
      rcases ih with rfl | rfl | rfl | rfl | rfl
      · cases taken with
        | thenBranch => exact .inr (.inl rfl)
        | elseBranch => exact .inr (.inr (.inl rfl))
      · cases taken with
        | returnStmt => exact .inr (.inr (.inr (.inl rfl)))
        | simple straight => exact absurd straight (by decide)
        | breakStmt kind | continueStmt kind | gotoStmt kind | gotoMissing kind =>
            exact absurd kind (by decide)
      · cases taken with
        | returnStmt => exact .inr (.inr (.inr (.inr rfl)))
        | simple straight => exact absurd straight (by decide)
        | breakStmt kind | continueStmt kind | gotoStmt kind | gotoMissing kind =>
            exact absurd kind (by decide)
      · cases taken
      · cases taken

/-- The rule reports the function although every run of it returns a value. -/
theorem decided_reported :
    ¬ LeavesWithoutValue (BaseRulePlugin.graph decidedContext) decidedBody ∧
      ∃ found, Rule17_4.detectFunction decidedContext decidedFunction = some found ∧ found ≠ [] ∧
        Rule17_4.detect decidedContext = some found := by
  have valued : (BaseRulePlugin.graph decidedContext).children decidedFirst.nodeId ≠ [] ∧
      (BaseRulePlugin.graph decidedContext).children decidedSecond.nodeId ≠ [] := by decide
  constructor
  · rintro ⟨trace, departure, run, cause⟩
    obtain ⟨left, walk, _⟩ := run_iff_walk.mp run
    rcases decided_runs walk with other | other | other | other | other
    · exact State.noConfusion other
    · exact State.noConfusion other
    · exact State.noConfusion other
    · obtain rfl := State.left.inj other
      rcases cause with fell | ⟨statement, same, bare⟩
      · exact Departure.noConfusion fell
      · obtain rfl := Departure.returned.inj same
        exact valued.1 bare
    · obtain rfl := State.left.inj other
      rcases cause with fell | ⟨statement, same, bare⟩
      · exact Departure.noConfusion fell
      · obtain rfl := Departure.returned.inj same
        exact valued.2 bare
  · have count : (Rule17_4.detectFunction decidedContext decidedFunction).map List.length = some 1 := by
      decide
    have only : (BaseRulePlugin.graph decidedContext).nodesByKind .functionDecl = [decidedFunction] := by
      decide
    obtain ⟨found, detected, long⟩ := Option.map_eq_some_iff.mp count
    refine ⟨found, detected, fun empty => ?_, ?_⟩
    · rw [empty] at long
      exact Nat.zero_ne_one long
    · rw [Rule17_4.detect, only]
      simp [detected]

/-- The equivalence holds of the two branches. -/
theorem returnValues_iff_decided :
    ∃ results found, Rule17_4.detect decidedContext = some results ∧
      Rule17_4.detectFunction decidedContext decidedFunction = some found ∧
      (∀ result ∈ found, result ∈ results) ∧
      ((found ≠ [] ↔ LeavesWithoutValue (BaseRulePlugin.graph decidedContext) decidedBody) ↔
        (decidedBody.EndFed ∨ ReturnsBare (BaseRulePlugin.graph decidedContext) decidedBody →
          LeavesWithoutValue (BaseRulePlugin.graph decidedContext) decidedBody)) :=
  returnValues_iff decidedContext decided_wellFormed decidedFunction (by decide) rfl (by decide)
    (by decide) decidedBody decided_layout decided_structured

end MisraPlatform
