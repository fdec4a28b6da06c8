import MisraPlatform.Proof.Descendants
import MisraPlatform.Semantics.Expressions

/-
This file proves when the controlling expressions are identified, when the other side effects of a full
expression are found, and when a widened composite expression is.
-/

namespace MisraPlatform
open ExpressionClassifier

variable {graph : AstGraph} {layouts : AstNode → ControlStatement}

section Layouts

/-- Only a `for` has another child where the condition is looked for. -/
theorem conditionOf_eq (laidOut : LaidOut graph layouts) {stmtNode : AstNode} (present : stmtNode ∈ graph.nodes)
    (kind : stmtNode.nodeKind ∈ CONDITION_PARENT_KINDS) :
    conditionOf stmtNode graph = match layouts stmtNode with
      | .forStmt init condition increment body => ((init.or condition).or increment).or (some body)
      | other => other.controllingExpression := by
  obtain ⟨same, children⟩ := laidOut stmtNode present kind
  rw [conditionOf, if_neg (not_not.mpr kind), same, children]
  cases layouts stmtNode with
  | ifStmt condition thenBranch elseBranch => rfl
  | whileStmt condition body => rfl
  | doStmt body condition => rfl
  | forStmt init condition increment body =>
      cases init <;> cases condition <;> cases increment <;> rfl

theorem conditionOf_of_first (laidOut : LaidOut graph layouts) {stmtNode : AstNode} (present : stmtNode ∈ graph.nodes)
    (kind : stmtNode.nodeKind ∈ CONDITION_PARENT_KINDS) (first : (layouts stmtNode).conditionFirst = true) :
    conditionOf stmtNode graph = (layouts stmtNode).controllingExpression := by
  rw [conditionOf_eq laidOut present kind]
  cases layout : layouts stmtNode with
  | ifStmt condition thenBranch elseBranch => rfl
  | whileStmt condition body => rfl
  | doStmt body condition => rfl
  | forStmt init condition increment body =>
      rw [layout] at first
      cases init with
      | some init => simp [ControlStatement.conditionFirst] at first
      | none =>
          cases condition with
          | none => simp [ControlStatement.conditionFirst] at first
          | some condition => rfl

/-- The child that is taken for the condition is another one. -/
theorem conditionOf_ne (wellFormed : graph.WellFormed) (laidOut : LaidOut graph layouts) {stmtNode : AstNode}
    (present : stmtNode ∈ graph.nodes) (kind : stmtNode.nodeKind ∈ CONDITION_PARENT_KINDS)
    (other : (layouts stmtNode).conditionFirst = false) :
    ∃ taken, conditionOf stmtNode graph = some taken ∧ (layouts stmtNode).controllingExpression ≠ some taken := by
  have distinct := wellFormed.children_nodup stmtNode.nodeId
  rw [(laidOut stmtNode present kind).2] at distinct
  rw [conditionOf_eq laidOut present kind]
  cases layout : layouts stmtNode with
  | ifStmt condition thenBranch elseBranch => simp [layout, ControlStatement.conditionFirst] at other
  | whileStmt condition body => simp [layout, ControlStatement.conditionFirst] at other
  | doStmt body condition => simp [layout, ControlStatement.conditionFirst] at other
  | forStmt init condition increment body =>
      rw [layout] at other distinct
      cases init with
      | some init =>
          refine ⟨init, by simp, ?_⟩
          intro same
          rw [ControlStatement.controllingExpression] at same
          subst same
          simp [ControlStatement.children] at distinct
      | none =>
          cases condition with
          | some condition => simp [ControlStatement.conditionFirst] at other
          | none =>
              cases increment with
              | some increment => exact ⟨increment, rfl, by simp [ControlStatement.controllingExpression]⟩
              | none => exact ⟨body, rfl, by simp [ControlStatement.controllingExpression]⟩

theorem mem_children_of_controlling {layout : ControlStatement} {node : AstNode}
    (controls : layout.controllingExpression = some node) : node ∈ layout.children := by
  cases layout with
  | ifStmt condition thenBranch elseBranch =>
      obtain rfl := Option.some.inj controls
      exact List.mem_cons_self
  | whileStmt condition body =>
      obtain rfl := Option.some.inj controls
      exact List.mem_cons_self
  | doStmt body condition =>
      obtain rfl := Option.some.inj controls
      exact List.mem_cons_of_mem _ List.mem_cons_self
  | forStmt init condition increment body =>
      rw [ControlStatement.controllingExpression] at controls
      subst controls
      simp [ControlStatement.children]

/-- The clauses are counted by the layout. -/
theorem rule14_2_offending_iff (laidOut : LaidOut graph layouts) {stmtNode : AstNode} (present : stmtNode ∈ graph.nodes)
    {init condition increment : Option AstNode} {body : AstNode} (kind : stmtNode.nodeKind = .forStmt)
    (layout : layouts stmtNode = .forStmt init condition increment body) :
    stmtNode ∈ Rule14_2.offending graph ↔ init = none ∨ condition = none ∨ increment = none := by
  have children := (laidOut stmtNode present (by rw [kind]; decide)).2
  rw [layout] at children
  simp only [Rule14_2.offending, AstGraph.nodesByKind, List.mem_filter, present, kind, decide_true, true_and,
    decide_eq_true_eq, children, ControlStatement.children, Rule14_2.EXPECTED_CLAUSES]
  cases init <;> cases condition <;> cases increment <;> simp

end Layouts

section Queries

variable (wellFormed : graph.WellFormed)

theorem mem_children_of_conditionOf {stmtNode node : AstNode} (taken : conditionOf stmtNode graph = some node) :
    stmtNode.nodeKind ∈ CONDITION_PARENT_KINDS ∧ node ∈ graph.children stmtNode.nodeId := by
  rw [conditionOf] at taken
  split at taken
  · cases taken
  · rename_i kind
    refine ⟨not_not.mp kind, ?_⟩
    split at taken
    · exact List.mem_of_getLast? taken
    · exact List.mem_of_head? taken

include wellFormed

theorem isCondition_iff {node : AstNode} (present : node ∈ graph.nodes) :
    isConditionOfControlStatement node graph = true ↔
      ∃ stmtNode ∈ graph.nodes, conditionOf stmtNode graph = some node := by
  rw [isConditionOfControlStatement]
  constructor
  · intro holds
    split at holds
    · cases holds
    · rename_i parent found
      cases taken : conditionOf parent graph with
      | none => simp [taken] at holds
      | some condition =>
          have named : condition.nodeId = node.nodeId := by simpa [taken] using holds
          have known := (AstGraph.mem_children (mem_children_of_conditionOf taken).2).1
          have same := wellFormed.unique known present named
          exact ⟨parent, (AstGraph.get_eq_some found).1, taken.trans (congrArg some same)⟩
  · rintro ⟨stmtNode, above, taken⟩
    have inside := (mem_children_of_conditionOf taken).2
    rw [wellFormed.parent inside, wellFormed.get above]
    simp [taken]

/-- A controlling expression belongs to one statement. -/
theorem controlling_unique (laidOut : LaidOut graph layouts) {stmtNode node : AstNode}
    (present : stmtNode ∈ graph.nodes) (inside : node ∈ graph.children stmtNode.nodeId)
    (controls : IsControlling graph layouts node) : (layouts stmtNode).controllingExpression = some node := by
  obtain ⟨other, above, kind, controls⟩ := controls
  have below := mem_children_of_controlling controls
  rw [← (laidOut other above kind).2] at below
  have same := wellFormed.unique above present ((wellFormed.parent below).symm.trans (wellFormed.parent inside))
  exact same ▸ controls

/-- The conditions are identified exactly if every `for` has a condition and no initialization. -/
theorem conditionsIdentified_iff (laidOut : LaidOut graph layouts) :
    ConditionsIdentified graph layouts ↔ ConditionsFirst graph layouts := by
  constructor
  · intro identified stmtNode present kind
    by_contra other
    obtain ⟨taken, looked, wrong⟩ :=
      conditionOf_ne wellFormed laidOut present kind (Bool.eq_false_iff.mpr other)
    have inside := (mem_children_of_conditionOf looked).2
    have known := (AstGraph.mem_children inside).1
    have controls := (identified.conditions taken known).mp
      ((isCondition_iff wellFormed known).mpr ⟨stmtNode, present, looked⟩)
    exact wrong (controlling_unique wellFormed laidOut present inside controls)
  · intro first
    have conditions : ∀ node ∈ graph.nodes,
        isConditionOfControlStatement node graph = true ↔ IsControlling graph layouts node := by
      intro node present
      rw [isCondition_iff wellFormed present]
      constructor
      · rintro ⟨stmtNode, above, looked⟩
        have kind := (mem_children_of_conditionOf looked).1
        rw [conditionOf_of_first laidOut above kind (first stmtNode above kind)] at looked
        exact ⟨stmtNode, above, kind, looked⟩
      · rintro ⟨stmtNode, above, kind, controls⟩
        refine ⟨stmtNode, above, ?_⟩
        rw [conditionOf_of_first laidOut above kind (first stmtNode above kind), controls]
    constructor
    · exact conditions
    · intro node
      rw [Rule14_4.offending, List.mem_filter]
      refine and_congr_right fun present => ?_
      rw [isEssentiallyBooleanContextMismatch, Bool.and_eq_true, conditions node present]
      simp
    · intro stmtNode present kind
      rw [controllingExpressionInvariant, conditionOf_of_first laidOut present kind (first stmtNode present kind)]

end Queries

section Examples

def whileLayout (stmtNode : AstNode) : ControlStatement :=
  .whileStmt { nodeId := stmtNode.nodeId ++ "c", nodeKind := .declRefExpr, parentId := stmtNode.nodeId }
    { nodeId := stmtNode.nodeId ++ "b", nodeKind := .compoundStmt, parentId := stmtNode.nodeId }

/-- This is `while (ready) { }`. -/
def whileUnit : AstGraph where
  nodes :=
    [{ nodeId := "w", nodeKind := .whileStmt, childrenIds := ["wc", "wb"] },
      { nodeId := "wc", nodeKind := .declRefExpr, parentId := "w" },
      { nodeId := "wb", nodeKind := .compoundStmt, parentId := "w" }]

theorem whileUnit_identified : ConditionsIdentified whileUnit whileLayout := by
  have wellFormed : whileUnit.WellFormed := by
    apply AstGraph.WellFormed.of_order <;> decide
  have laidOut : LaidOut whileUnit whileLayout := by
    intro stmtNode present kind
    have only : ∀ node ∈ whileUnit.nodes, node.nodeKind ∈ CONDITION_PARENT_KINDS →
        node.nodeKind = .whileStmt ∧ whileUnit.children node.nodeId = (whileLayout node).children := by decide
    exact only stmtNode present kind
  exact (conditionsIdentified_iff wellFormed laidOut).mpr fun _ _ _ => rfl

def initNode : AstNode := { nodeId := "fi", nodeKind := .varDecl, parentId := "f" }

def forLayout (_ : AstNode) : ControlStatement :=
  .forStmt (some initNode) (some { nodeId := "fc", nodeKind := .binaryOperator, parentId := "f" }) none
    { nodeId := "fb", nodeKind := .compoundStmt, parentId := "f" }

/-- This is `for (int index = 0; index < 3; ) { }`. -/
def forUnit : AstGraph where
  nodes :=
    [{ nodeId := "f", nodeKind := .forStmt, childrenIds := ["fi", "fc", "fb"] }, initNode,
      { nodeId := "fc", nodeKind := .binaryOperator, parentId := "f" },
      { nodeId := "fb", nodeKind := .compoundStmt, parentId := "f" }]

/-- The initialization is taken for the condition. -/
theorem initialization_misidentified :
    forUnit.WellFormed ∧ LaidOut forUnit forLayout ∧ ¬ ConditionsIdentified forUnit forLayout := by
  refine ⟨?_, ?_, ?_⟩
  · apply AstGraph.WellFormed.of_order <;> decide
  · unfold LaidOut
    decide
  · intro identified
    obtain ⟨_, _, _, controls⟩ := (identified.conditions initNode (by decide)).mp (by decide)
    have same : "fc" = "fi" := congrArg AstNode.nodeId (Option.some.inj controls)
    exact absurd same (by decide)

end Examples

end MisraPlatform

namespace MisraPlatform
open ExpressionClassifier

section Forests

variable {graph : AstGraph} (wellFormed : graph.WellFormed)

theorem under_of_climbs {node top : AstNode} (climbs : Climbs graph node top) : graph.Under top node := by
  induction climbs with
  | refl => exact .refl
  | tail _ step ih => exact .head step.1 ih

include wellFormed

/-- A climb that cannot go on has passed every other one. -/
theorem highest {node root top : AstNode} (climbs : Climbs graph node root)
    (topmost : ∀ parent, graph.Child parent root → parent.nodeKind ∉ EXPRESSION_PARENT_KINDS)
    (other : Climbs graph node top) : graph.Under root top := by
  have unique : Relator.RightUnique fun node parent =>
      graph.Child parent node ∧ parent.nodeKind ∈ EXPRESSION_PARENT_KINDS := by
    intro child first second left right
    exact wellFormed.unique left.1.1 right.1.1
      ((wellFormed.parent left.1.2).symm.trans (wellFormed.parent right.1.2))
  rcases Relation.ReflTransGen.total_of_right_unique unique climbs other with further | lower
  · rcases Relation.ReflTransGen.cases_head further with same | ⟨parent, step, _⟩
    · exact same ▸ .refl
    · exact absurd step.2 (topmost parent step.1)
  · exact under_of_climbs lower

section Climb

variable (linked : graph.Linked)

include linked

/-- The climb goes on as long as the parents have listed kinds. -/
theorem climbToRoot_spec {depth : String → Nat}
    (decreases : ∀ nodeId, ∀ child ∈ graph.children nodeId, depth child.nodeId < depth nodeId)
    (bounded : ∀ node ∈ graph.nodes, depth node.nodeId < graph.nodes.length) {fuel : Nat} {node : AstNode}
    (present : node ∈ graph.nodes) (enough : graph.nodes.length ≤ fuel + depth node.nodeId) :
    Climbs graph node (climbToRoot graph fuel node) ∧ ∀ parent, graph.Child parent (climbToRoot graph fuel node) →
      parent.nodeKind ∉ EXPRESSION_PARENT_KINDS := by
  induction fuel generalizing node with
  | zero =>
      have below := bounded node present
      omega
  | succ fuel ih =>
      rw [climbToRoot]
      cases found : graph.get node.parentId with
      | none =>
          refine ⟨.refl, fun parent step => ?_⟩
          have named := (wellFormed.get_parent linked present).mpr step
          exact absurd (found.symm.trans named) (by simp)
      | some parent =>
          have step := (wellFormed.get_parent linked present).mp found
          by_cases listed : parent.nodeKind ∈ EXPRESSION_PARENT_KINDS
          · have smaller := decreases parent.nodeId node step.2
            obtain ⟨climbs, topmost⟩ := ih step.1 (by omega)
            simp only [List.contains_iff_mem, listed, if_true]
            exact ⟨.head ⟨step, listed⟩ climbs, topmost⟩
          · simp only [List.contains_iff_mem, listed, if_false]
            refine ⟨.refl, fun other above => ?_⟩
            have same := (wellFormed.get_parent linked present).mpr above
            rw [found] at same
            exact Option.some.inj same ▸ listed

end Climb

/-- The walk leaves out exactly what stands under the increment or decrement. -/
theorem findsSideEffect_iff {depth : String → Nat}
    (decreases : ∀ nodeId, ∀ child ∈ graph.children nodeId, depth child.nodeId < depth nodeId)
    {fuel : Nat} {start node : AstNode} (present : start ∈ graph.nodes) (known : node ∈ graph.nodes)
    (outside : graph.Under node start → start = node) (enough : depth start.nodeId < fuel) :
    findsSideEffect graph node fuel start = true ↔
      ∃ other, graph.Under start other ∧ ¬ graph.Under node other ∧ isSideEffect other = true := by
  induction fuel generalizing start with
  | zero => omega
  | succ fuel ih =>
      rw [findsSideEffect]
      by_cases same : start.nodeId = node.nodeId
      · rw [if_pos same, wellFormed.unique present known same]
        simp only [Bool.false_eq_true, false_iff, not_exists, not_and]
        exact fun other under away => absurd under away
      · have apart : ¬ graph.Under node start := fun under => same (congrArg AstNode.nodeId (outside under))
        have below : ∀ child ∈ graph.children start.nodeId, findsSideEffect graph node fuel child = true ↔
            ∃ other, graph.Under child other ∧ ¬ graph.Under node other ∧ isSideEffect other = true := by
          intro child inside
          have smaller := decreases start.nodeId child inside
          refine ih (AstGraph.mem_children inside).1 (fun under => ?_) (by omega)
          rcases Relation.ReflTransGen.cases_tail under with equal | ⟨parent, further, step⟩
          · exact equal
          · have above := wellFormed.unique step.1 present
              ((wellFormed.parent step.2).symm.trans (wellFormed.parent inside))
            exact absurd (above ▸ further) apart
        rw [if_neg same, Bool.or_eq_true, List.any_eq_true]
        constructor
        · rintro (here | ⟨child, inside, found⟩)
          · exact ⟨start, .refl, apart, here⟩
          · obtain ⟨other, under, away, effect⟩ := (below child inside).mp found
            exact ⟨other, .head ⟨present, inside⟩ under, away, effect⟩
        · rintro ⟨other, under, away, effect⟩
          rcases Relation.ReflTransGen.cases_head under with rfl | ⟨child, step, further⟩
          · exact .inl effect
          · exact .inr ⟨child, step.2, (below child step.2).mpr ⟨other, further, away, effect⟩⟩

variable (linked : graph.Linked)

include linked

/-- A climb from inside a full expression stays inside. -/
theorem under_root {root node top : AstNode} (full : IsFullExpression graph root) (inside : graph.Under root node)
    (climbs : Climbs graph node top) : graph.Under root top := by
  induction climbs with
  | refl => exact inside
  | tail _ step ih =>
      rcases Relation.ReflTransGen.cases_tail ih with same | ⟨parent, further, above⟩
      · subst same
        have named := (wellFormed.get_parent linked full.present).mpr step.1
        exact absurd step.2 (full.outermost _ named)
      · have equal := wellFormed.unique above.1 step.1.1
          ((wellFormed.parent above.2).symm.trans (wellFormed.parent step.1.2))
        exact equal ▸ further

/-- The query sees the side effects that are connected to the node. -/
theorem hasOtherSideEffects_iff {node : AstNode} (present : node ∈ graph.nodes) :
    hasOtherSideEffectsInFullExpression node graph = true ↔ HasConnectedSideEffect graph node := by
  obtain ⟨depth, decreases, bounded⟩ := wellFormed.depth
  obtain ⟨climbs, topmost⟩ : Climbs graph node (fullExpressionRoot node graph) ∧ ∀ parent,
      graph.Child parent (fullExpressionRoot node graph) → parent.nodeKind ∉ EXPRESSION_PARENT_KINDS :=
    climbToRoot_spec wellFormed linked decreases bounded present (by omega)
  have above := under_of_climbs climbs
  have known : fullExpressionRoot node graph ∈ graph.nodes := by
    rcases Relation.ReflTransGen.cases_head above with same | ⟨_, step, _⟩
    · rw [same]
      exact present
    · exact step.1
  rw [hasOtherSideEffectsInFullExpression]
  by_cases same : (fullExpressionRoot node graph).nodeId = node.nodeId
  · have equal := wellFormed.unique known present same
    simp only [same, if_true, Bool.false_eq_true, false_iff]
    rintro ⟨top, other, climbs', under, away, _⟩
    exact away ((equal ▸ highest wellFormed climbs topmost climbs').trans under)
  · have outside : graph.Under node (fullExpressionRoot node graph) → fullExpressionRoot node graph = node :=
      fun under => wellFormed.antisymm above under
    simp only [same, if_false]
    rw [findsSideEffect_iff wellFormed decreases known present outside (bounded _ known)]
    constructor
    · rintro ⟨other, under, away, effect⟩
      exact ⟨_, other, climbs, under, away, effect⟩
    · rintro ⟨top, other, climbs', under, away, effect⟩
      exact ⟨other, (highest wellFormed climbs topmost climbs').trans under, away, effect⟩

/-- All other side effects are seen exactly if one of them, where there are any, is connected to the node. -/
theorem seesOtherSideEffects_iff {root node : AstNode} (full : IsFullExpression graph root)
    (inside : graph.Under root node) :
    SeesOtherSideEffects graph root node ↔
      (HasOtherSideEffect graph root node → HasConnectedSideEffect graph node) := by
  have connected : HasConnectedSideEffect graph node → HasOtherSideEffect graph root node := by
    rintro ⟨top, other, climbs, under, away, effect⟩
    refine ⟨other, (under_root wellFormed linked full inside climbs).trans under, ?_, effect⟩
    intro same
    exact away (same ▸ .refl)
  rw [SeesOtherSideEffects, hasOtherSideEffects_iff wellFormed linked (AstGraph.Under.present inside full.present)]
  exact ⟨Iff.mpr, fun known => ⟨connected, known⟩⟩

end Forests

section Examples

def incrementNode : AstNode :=
  { nodeId := "increment", nodeKind := .unaryOperator, parentId := "sum", childrenIds := ["count"],
    semanticProperties := [("opcode", "++")] }

def sumNode : AstNode :=
  { nodeId := "sum", nodeKind := .binaryOperator, childrenIds := ["increment", "call"],
    semanticProperties := [("opcode", "+")] }

def readCall : AstNode := { nodeId := "call", nodeKind := .callExpr, parentId := "sum" }

/-- This is `count++ + read()`. -/
def incrementSum : AstGraph where
  nodes :=
    [sumNode, incrementNode, { nodeId := "count", nodeKind := .declRefExpr, parentId := "increment" }, readCall]

theorem incrementSum_wellFormed : incrementSum.WellFormed := by
  apply AstGraph.WellFormed.of_order <;> decide

theorem incrementSum_sees : SeesOtherSideEffects incrementSum sumNode incrementNode := by
  have step : incrementSum.Child sumNode incrementNode := ⟨by decide, by decide⟩
  have call : incrementSum.Child sumNode readCall := ⟨by decide, by decide⟩
  have full : IsFullExpression incrementSum sumNode := ⟨by decide, fun parent found => nomatch found⟩
  refine (seesOtherSideEffects_iff incrementSum_wellFormed (.of_named (by decide)) full (.single step)).mpr ?_
  intro _
  refine ⟨sumNode, readCall, .single ⟨step, by decide⟩, .single call, ?_, by decide⟩
  intro under
  rcases Relation.ReflTransGen.cases_tail under with same | ⟨parent, further, above⟩
  · exact absurd same (by decide)
  · have equal : parent = sumNode := incrementSum_wellFormed.unique above.1 (by decide)
      (incrementSum_wellFormed.parent above.2).symm
    exact incrementSum_wellFormed.not_under_self step.2 rfl (equal ▸ further)

def elementIncrement : AstNode :=
  { nodeId := "increment", nodeKind := .unaryOperator, childrenIds := ["element"],
    semanticProperties := [("opcode", "++")] }

def elementNode : AstNode :=
  { nodeId := "element", nodeKind := .other "ArraySubscriptExpr", parentId := "increment",
    childrenIds := ["counts", "call"] }

def indexCall : AstNode := { nodeId := "call", nodeKind := .callExpr, parentId := "element" }

/-- This is `counts[read()]++`. -/
def incrementElement : AstGraph where
  nodes := [elementIncrement, elementNode, { nodeId := "counts", nodeKind := .declRefExpr, parentId := "element" }, indexCall]

theorem incrementElement_wellFormed : incrementElement.WellFormed := by
  apply AstGraph.WellFormed.of_order <;> decide

/-- The call in the operand is not seen. -/
theorem operand_unseen :
    incrementElement.WellFormed ∧ incrementElement.Linked ∧ IsFullExpression incrementElement elementIncrement ∧
      isIncrementOrDecrement elementIncrement = true ∧
      ¬ SeesOtherSideEffects incrementElement elementIncrement elementIncrement := by
  have inner : incrementElement.Child elementIncrement elementNode := ⟨by decide, by decide⟩
  have call : incrementElement.Child elementNode indexCall := ⟨by decide, by decide⟩
  refine ⟨incrementElement_wellFormed, .of_named (by decide), ⟨by decide, fun parent found => nomatch found⟩,
    by decide, ?_⟩
  intro sees
  have unseen : hasOtherSideEffectsInFullExpression elementIncrement incrementElement = false := by decide
  have found := sees.mpr ⟨indexCall, .head inner (.single call), by decide, by decide⟩
  exact absurd (unseen.symm.trans found) (by decide)

end Examples

end MisraPlatform

namespace MisraPlatform.Rule10_6
open BaseRulePlugin EssentialTypeAnalyzer

variable {graph : AstGraph} {assigned other : Assignment}

theorem assignment_spec {node : AstNode} (found : assignment graph node = some assigned) : assigned.node = node := by
  unfold assignment at found
  split at found
  · split at found
    · exact (congrArg Assignment.node (Option.some.inj found)).symm
    · cases found
  · cases found

theorem mem_checked : assigned ∈ checked graph ↔ assigned.node ∈ graph.nodes ∧
    assigned.node.nodeKind = .binaryOperator ∧ assignment graph assigned.node = some assigned ∧
    isChecked assigned = true := by
  rw [checked, List.mem_filter, List.mem_filterMap]
  constructor
  · rintro ⟨⟨node, listed, found⟩, known⟩
    obtain ⟨present, kind⟩ := List.mem_filter.mp listed
    obtain rfl := assignment_spec found
    exact ⟨present, of_decide_eq_true kind, found, known⟩
  · rintro ⟨present, kind, found, known⟩
    exact ⟨⟨assigned.node, List.mem_filter.mpr ⟨present, decide_eq_true kind⟩, found⟩, known⟩

/-- The rule asks whether the value is wider than the object. -/
theorem offends_iff (known : isChecked assigned = true) : offends assigned = true ↔
    rank assigned.lhsType < rank assigned.rhsType ∧ assigned.lhsType ≠ .complex ∧ assigned.rhsType ≠ .complex := by
  simp only [isChecked, Bool.and_eq_true, decide_eq_true_eq] at known
  obtain ⟨⟨_, left⟩, right⟩ := known
  simp only [offends, isWider, List.contains_eq_mem, List.mem_cons, List.not_mem_nil, or_false, Bool.or_eq_true,
    decide_eq_true_eq, left, right, false_or]
  by_cases complex : assigned.lhsType = .complex ∨ assigned.rhsType = .complex
  · rw [if_pos complex]
    constructor
    · intro absurd
      cases absurd
    · rintro ⟨_, first, second⟩
      exact absurd complex (not_or.mpr ⟨first, second⟩)
  · rw [if_neg complex, decide_eq_true_eq]
    exact (and_iff_left (not_or.mp complex)).symm

theorem offends_eq_widens_iff (known : isChecked assigned = true) :
    (offends assigned = true ↔ widens assigned = true) ↔ Unaffected assigned := by
  rw [offends_iff known, widens, decide_eq_true_eq, Unaffected]
  by_cases complex : assigned.lhsType = .complex ∨ assigned.rhsType = .complex
  · have neither : ¬ (assigned.lhsType ≠ .complex ∧ assigned.rhsType ≠ .complex) := by tauto
    simp only [neither, and_false, complex, and_true, false_iff]
    omega
  · obtain ⟨left, right⟩ := not_or.mp complex
    simp only [left, right, ne_eq, not_false_eq_true, and_true, or_false, and_false]
    omega

/-- Two checked assignments with the same report are the same. -/
theorem report_injective {context : RuleContext} (distinct : (context.astNodes.map AstNode.nodeId).Nodup)
    (left : assigned ∈ checked (BaseRulePlugin.graph context)) (right : other ∈ checked (BaseRulePlugin.graph context))
    (same : report context assigned = report context other) : assigned = other := by
  obtain ⟨present, _, found, _⟩ := mem_checked.mp left
  obtain ⟨otherPresent, _, otherFound, _⟩ := mem_checked.mp right
  have ids : assigned.node.nodeId = other.node.nodeId := congrArg RuleResult.astNodeId same
  rw [List.inj_on_of_nodup_map distinct present otherPresent ids] at found
  exact Option.some.inj (found.symm.trans otherFound)

theorem mem_reports {context : RuleContext} (distinct : (context.astNodes.map AstNode.nodeId).Nodup)
    (inside : assigned ∈ checked (BaseRulePlugin.graph context)) (keep : Assignment → Bool) :
    report context assigned ∈ ((checked (BaseRulePlugin.graph context)).filter keep).map (report context) ↔
      keep assigned = true := by
  constructor
  · intro reported
    obtain ⟨other, kept, same⟩ := List.mem_map.mp reported
    obtain ⟨listed, keeps⟩ := List.mem_filter.mp kept
    exact report_injective distinct listed inside same ▸ keeps
  · intro keeps
    exact List.mem_map_of_mem (List.mem_filter.mpr ⟨inside, keeps⟩)

/-- The widening assignments are reported as long as no rank differs but for a complex value. -/
theorem wideningReported_iff (context : RuleContext) (distinct : (context.astNodes.map AstNode.nodeId).Nodup) :
    WideningReported context ↔ ∀ assigned ∈ checked (BaseRulePlugin.graph context), Unaffected assigned := by
  constructor
  · intro reported assigned inside
    rw [← offends_eq_widens_iff (mem_checked.mp inside).2.2.2, ← mem_reports distinct inside offends,
      ← mem_reports distinct inside widens]
    exact iff_of_eq (congrArg _ reported)
  · intro unaffected
    have same : ∀ assigned ∈ checked (BaseRulePlugin.graph context), offends assigned = widens assigned := by
      intro assigned inside
      exact Bool.eq_iff_iff.mpr ((offends_eq_widens_iff (mem_checked.mp inside).2.2.2).mpr (unaffected assigned inside))
    rw [WideningReported, detect, List.filter_congr same]

/-- A sum of short operands is assigned to an int object. -/
def widenedSum : RuleContext where
  filePath := "a.c"
  astNodes :=
    [{ nodeId := "a", nodeKind := .binaryOperator, childrenIds := ["w", "s"],
       semanticProperties := [("opcode", "=")] },
      { nodeId := "w", nodeKind := .declRefExpr, parentId := "a", essentialType := some "unsigned_int" },
      { nodeId := "s", nodeKind := .binaryOperator, parentId := "a", semanticProperties := [("opcode", "+")],
        essentialType := some "unsigned_short", flags := [("is_composite_expression", true)] }]

theorem wideningReported_iff_sum : WideningReported widenedSum ↔
    ∀ assigned ∈ checked (BaseRulePlugin.graph widenedSum), Unaffected assigned :=
  wideningReported_iff widenedSum (by decide)

/-- The assignment to the wider object is not reported. -/
theorem widened_missed : detect widenedSum = [] ∧ ¬ WideningReported widenedSum := by
  have none : (checked (BaseRulePlugin.graph widenedSum)).filter offends = [] := by
    rw [List.filter_eq_nil_iff]
    decide
  constructor
  · rw [detect, none, List.map_nil]
  · intro reported
    have counts := congrArg List.length reported
    rw [detect, none, List.map_nil, List.length_nil, List.length_map] at counts
    exact absurd counts (by decide)

end MisraPlatform.Rule10_6
