import MisraPlatform.Semantics.FlowFacts
import MisraPlatform.Proof.BlockShape
import MisraPlatform.Proof.Evaluation

/-
This file compares the null-check facts with what the paths of a graph have tested.
-/

namespace MisraPlatform
open CFGEngine DataFlowEngineV2

/-! ### Conditions -/

theorem pointersEqual_eq (states : NullStates) (lhs rhs : AstNode) :
    pointersEqual states lhs rhs =
      if isDeclRef (if isDeclRef lhs then lhs else rhs) ∧ isNullLiteral (if isDeclRef lhs then rhs else lhs)
        then some (decide (states (declRefName (if isDeclRef lhs then lhs else rhs)) = .null)) else none := by
  unfold pointersEqual
  by_cases left : isDeclRef lhs = true
  · have other : isNullLiteral lhs = false := by
      have kind : lhs.nodeKind = .declRefExpr := by simpa [isDeclRef] using left
      simp [isNullLiteral, kind]
    by_cases literal : isNullLiteral rhs = true <;> simp [left, literal, other]
  · by_cases right : isDeclRef rhs = true <;> by_cases literal : isNullLiteral lhs = true <;>
      simp [left, right, literal]

/-- A null check is true when its variable has the state that the parser names. -/
theorem conditionValue_eq (graph : AstGraph) (states : NullStates) (condition : AstNode) :
    conditionValue graph states condition = (parseNullCheck condition graph).map fun test =>
      decide (states test.1 = .null) == test.2 := by
  unfold conditionValue parseNullCheck
  dsimp only
  by_cases negation : condition.nodeKind = .unaryOperator ∧ opcode condition = "!"
  · rw [if_pos negation, if_pos negation]
    cases graph.children condition.nodeId with
    | nil => rfl
    | cons operand rest => by_cases ref : isDeclRef operand = true <;> simp [ref]
  · rw [if_neg negation, if_neg negation]
    by_cases ref : isDeclRef condition = true
    · rw [if_pos ref, if_pos ref, Option.map_some]
      cases states (declRefName condition) <;> rfl
    · rw [if_neg ref, if_neg ref]
      by_cases comparison : condition.nodeKind = .binaryOperator ∧ opcode condition ∈ ["==", "!="]
      · rw [if_pos comparison, if_pos comparison]
        match graph.children condition.nodeId with
        | [] => rfl
        | [_] => rfl
        | lhs :: rhs :: _ =>
            dsimp only
            rw [pointersEqual_eq]
            generalize (if isDeclRef lhs then lhs else rhs) = varSide
            generalize (if isDeclRef lhs then rhs else lhs) = otherSide
            by_cases known : isDeclRef varSide ∧ isNullLiteral otherSide
            · rw [if_pos known, if_pos known]
              by_cases equal : opcode condition = "==" <;> simp [equal]
            · rw [if_neg known, if_neg known]
              rfl
      · rw [if_neg comparison, if_neg comparison]
        rfl

theorem nullState_iff (states : NullStates) (name : String) (nullWhenTrue taken : Bool) :
    (decide (states name = .null) == nullWhenTrue) = taken ↔ states name = nullState nullWhenTrue taken := by
  cases states name <;> cases nullWhenTrue <;> cases taken <;> decide

namespace ControlFlowGraph

variable {cfg : ControlFlowGraph} {graph : AstGraph} {header : ForHeader graph}

theorem edgeTest_eq_some (again : Bool) (edge : CFGEdge) (name : String) (state : NullState) :
    cfg.edgeTest header again edge = some (name, state) ↔ ∃ condition test taken,
      cfg.testedCondition header again edge.source = some condition ∧
        parseNullCheck condition graph = some test ∧ edge.kind.value = some taken ∧
        test.1 = name ∧ nullState test.2 taken = state := by
  simp [edgeTest, Option.bind_eq_some_iff]

/-- The states allow an edge when they pass its test. -/
theorem allows_iff (again : Bool) (states : NullStates) (edge : CFGEdge) :
    cfg.Allows header again states edge ↔
    ∀ name state, cfg.edgeTest header again edge = some (name, state) → states name = state := by
  simp only [edgeTest_eq_some, Allows, conditionValue_eq, Option.map_eq_some_iff]
  constructor
  · rintro allowed name state ⟨condition, test, taken, tested, parsed, kind, rfl, rfl⟩
    exact (nullState_iff states test.1 test.2 taken).mp
      (allowed condition tested _ ⟨test, parsed, rfl⟩ taken kind)
  · rintro passes condition tested value ⟨test, parsed, rfl⟩ taken kind
    exact (nullState_iff states test.1 test.2 taken).mpr
      (passes test.1 _ ⟨condition, test, taken, tested, parsed, kind, rfl, rfl⟩)

/-! ### Paths -/

/-- The states agree with what the path has tested. -/
def Agrees (known : String → Option NullState) (states : NullStates) : Prop :=
  ∀ name state, known name = some state → states name = state

theorem learned_eq_some {test : Option (String × NullState)} {order : List Action}
    {known : String → Option NullState} {name : String} {state : NullState}
    (found : learned test order known name = some state) :
    test = some (name, state) ∨ (Kept order name ∧ known name = some state) := by
  unfold learned at found
  split at found
  · split at found
    · rename_i same
      cases found
      exact .inl (same ▸ rfl)
    · split at found
      · exact .inr ⟨by assumption, found⟩
      · exact absurd found (by simp)
  · split at found
    · exact .inr ⟨by assumption, found⟩
    · exact absurd found (by simp)

theorem learned_test (order : List Action) (known : String → Option NullState) (name : String)
    (state : NullState) : learned (some (name, state)) order known name = some state :=
  if_pos rfl

/-- A state that no test contradicts stays known. -/
theorem learned_kept {test : Option (String × NullState)} {order : List Action}
    {known : String → Option NullState} {name : String} {state : NullState} (kept : Kept order name)
    (found : known name = some state) (agrees : ∀ outcome, test = some (name, outcome) → state = outcome) :
    learned test order known name = some state := by
  unfold learned
  split
  · rename_i tested outcome
    split
    · rename_i same
      rw [agrees outcome (same ▸ rfl)]
    · exact found
  · rw [if_pos kept, found]

/-- Every arrival has passed the tests of its path. -/
theorem Enters.tested {blockId : BlockId} {again : Bool} {states : NullStates}
    (arrives : cfg.Enters header blockId again states) :
    ∃ known, cfg.Tested header blockId again known ∧ Agrees known states := by
  induction arrives with
  | start states => exact ⟨_, .start, fun _ _ none => absurd none (by simp)⟩
  | @next edge again order before after _ visit inside same allowed ih =>
      obtain ⟨known, tested, agrees⟩ := ih
      have passes := (allows_iff again after edge).mp allowed
      refine ⟨_, .next tested visit inside ?_, fun name state found => ?_⟩
      · intro name state test kept old found
        rw [← agrees name old found, ← same name kept]
        exact passes name state test
      · obtain test | ⟨kept, old⟩ := learned_eq_some found
        · exact passes name state test
        · rw [same name kept]
          exact agrees name state old

/-- States that pass the tests of a path arrive on it. -/
theorem Tested.arrives {blockId : BlockId} {again : Bool} {known : String → Option NullState}
    (tested : cfg.Tested header blockId again known) (states : NullStates) (agrees : Agrees known states) :
    cfg.Enters header blockId again states := by
  induction tested generalizing states with
  | start => exact .start states
  | @next edge again order before _ visit inside compatible ih =>
      have earlier : Agrees before fun name =>
          if Kept order name then states name else (before name).getD .null := by
        intro name state found
        dsimp only
        by_cases kept : Kept order name
        · rw [if_pos kept]
          apply agrees name state
          apply learned_kept kept found
          exact fun outcome test => compatible name outcome test kept state found
        · rw [if_neg kept, found]
          rfl
      refine .next (ih _ earlier) visit inside (fun name kept => (if_pos kept).symm) ?_
      refine (allows_iff again states edge).mpr fun name state test => agrees name state ?_
      rw [test]
      exact learned_test order before name state

/-- A variable has one state in all arrivals exactly when every path has tested it for that state. -/
theorem enters_iff_tested (blockId : BlockId) (name : String) (state : NullState) :
    (∀ again states, cfg.Enters header blockId again states → states name = state) ↔
      ∀ again known, cfg.Tested header blockId again known → known name = some state := by
  constructor
  · intro holds again known tested
    by_contra untested
    obtain ⟨wrong, differs, fits⟩ : ∃ wrong, wrong ≠ state ∧ ∀ found, known name = some found →
        wrong = found := by
      cases found : known name with
      | none => cases state with
          | null => exact ⟨.nonNull, by decide, by simp⟩
          | nonNull => exact ⟨.null, by decide, by simp⟩
      | some old => exact ⟨old, fun same => untested (same ▸ found), fun _ same => Option.some.inj same⟩
    let states : NullStates := Function.update (fun other => (known other).getD .null) name wrong
    have agrees : Agrees known states := by
      intro other found same
      by_cases here : other = name
      · subst here
        rw [← fits found same]
        simp only [states, Function.update_self]
      · simp only [states, Function.update_of_ne here, same, Option.getD_some]
    have stated := holds again states (tested.arrives states agrees)
    simp only [states, Function.update_self] at stated
    exact differs stated
  · intro holds again states arrives
    obtain ⟨known, tested, agrees⟩ := arrives.tested
    exact agrees name state (holds again known tested)

/-! ### Facts -/

theorem edgeFact_eq_some (name : String) (nullWhenTrue : Bool) (edge : CFGEdge) (fact : NullCheckFact) :
    edgeFact name nullWhenTrue edge = some fact ↔ ∃ taken, edge.kind.value = some taken ∧
      fact = ⟨edge.target, name, nullState nullWhenTrue taken⟩ := by
  unfold edgeFact EdgeKind.value
  cases edge.kind <;> simp [eq_comm]

/-- A fact is the test of an edge that leaves an `if` for its block. -/
theorem mem_nullCheckFacts (shape : BlockShape cfg) (fact : NullCheckFact) :
    fact ∈ nullCheckFacts cfg graph ↔ ∃ edge ∈ cfg.edges,
      cfg.ifTest header edge = some (fact.variableName, fact.state) ∧ edge.target = fact.blockId := by
  simp only [nullCheckFacts, List.mem_flatMap, statementFacts]
  constructor
  · rintro ⟨⟨blockId, block⟩, inside, statement, listed, found⟩
    split at found
    · exact absurd found List.not_mem_nil
    · rename_i kind
      rw [not_not] at kind
      split at found
      · exact absurd found List.not_mem_nil
      · rename_i name nullWhenTrue parsed
        obtain ⟨edge, leaves, stated⟩ := List.mem_filterMap.mp found
        obtain ⟨known, leaving⟩ := List.mem_filter.mp leaves
        have source : edge.source = blockId := of_decide_eq_true leaving
        obtain ⟨taken, value, rfl⟩ := (edgeFact_eq_some name nullWhenTrue edge fact).mp stated
        obtain ⟨condition, first, test⟩ := Option.bind_eq_some_iff.mp parsed
        have holds := statementsOf_of_mem inside
        have last : (cfg.statementsOf blockId).getLast? = some statement := by
          rw [← holds] at listed
          obtain ⟨index, bound, same⟩ := List.mem_iff_getElem.mp listed
          have here : (cfg.statementsOf blockId)[index]? = some statement := by
            rw [List.getElem?_eq_getElem bound, same]
          have ends := shape.last blockId statement index here (by rw [kind]; rfl)
          rw [List.getLast?_eq_getElem?, ← ends]
          exact here
        refine ⟨edge, known, ?_, rfl⟩
        rw [← source] at last
        simp only [ifTest, last, kind, if_true, edgeTest_eq_some, testedCondition, Option.bind_some,
          branchCondition]
        exact ⟨condition, _, taken, first, test, value, rfl, rfl⟩
  · rintro ⟨edge, known, tested, target⟩
    unfold ifTest at tested
    split at tested
    · rename_i statement last
      split at tested
      · rename_i kind
        obtain ⟨condition, test, taken, first, parsed, value, named, state⟩ :=
          (edgeTest_eq_some false edge _ _).mp tested
        simp only [testedCondition, last, Option.bind_some, branchCondition, kind] at first
        obtain ⟨block, inside, listed⟩ := entry_of_statement (List.mem_of_getLast? last)
        refine ⟨_, inside, statement, listed, ?_⟩
        rw [if_neg (not_not.mpr kind), first, Option.bind_some, parsed]
        refine List.mem_filterMap.mpr ⟨edge, List.mem_filter.mpr ⟨known, decide_eq_true rfl⟩, ?_⟩
        refine (edgeFact_eq_some test.1 test.2 edge fact).mpr ⟨taken, value, ?_⟩
        rw [target, named, state]
      · exact absurd tested (by simp)
    · exact absurd tested (by simp)

/-- The facts hold on every arrival and no block has both for one variable. -/
structure FactsSound (cfg : ControlFlowGraph) (header : ForHeader graph) (facts : List NullCheckFact) :
    Prop where
  holds : ∀ fact ∈ facts, ∀ again states, cfg.Enters header fact.blockId again states →
    states fact.variableName = fact.state
  consistent : ∀ first ∈ facts, ∀ second ∈ facts, first.blockId = second.blockId →
    first.variableName = second.variableName → first.state = second.state

/-- The null-check facts of a function are sound exactly when every path to the target of a tested edge has
last tested the variable for the same state, and no other tested edge into it says otherwise. -/
theorem nullCheckFacts_sound_iff (wellFormed : graph.WellFormed) {functionNode : AstNode}
    (built : build functionNode graph = some cfg) :
    FactsSound cfg header (nullCheckFacts cfg graph) ↔
      (∀ edge ∈ cfg.edges, ∀ name state, cfg.ifTest header edge = some (name, state) →
        ∀ again known, cfg.Tested header edge.target again known → known name = some state) ∧
      (∀ first ∈ cfg.edges, ∀ second ∈ cfg.edges, first.target = second.target →
        ∀ name left right, cfg.ifTest header first = some (name, left) →
          cfg.ifTest header second = some (name, right) → left = right) := by
  obtain ⟨other, same, shape⟩ := build_shape wellFormed functionNode
  obtain rfl := Option.some.inj (built.symm.trans same)
  constructor
  · rintro ⟨holds, consistent⟩
    constructor
    · intro edge inside name state test
      apply (enters_iff_tested edge.target name state).mp
      exact holds ⟨edge.target, name, state⟩ ((mem_nullCheckFacts shape _).mpr ⟨edge, inside, test, rfl⟩)
    · intro first firstInside second secondInside target name left right leftTest rightTest
      exact consistent ⟨first.target, name, left⟩
        ((mem_nullCheckFacts shape _).mpr ⟨first, firstInside, leftTest, rfl⟩) ⟨second.target, name, right⟩
        ((mem_nullCheckFacts shape _).mpr ⟨second, secondInside, rightTest, rfl⟩) target rfl
  · rintro ⟨tested, agree⟩
    constructor
    · intro fact listed
      obtain ⟨edge, inside, test, target⟩ := (mem_nullCheckFacts shape fact).mp listed
      rw [← target]
      exact (enters_iff_tested edge.target _ _).mpr (tested edge inside _ _ test)
    · intro first firstListed second secondListed target named
      obtain ⟨left, leftInside, leftTest, leftTarget⟩ := (mem_nullCheckFacts shape first).mp firstListed
      obtain ⟨right, rightInside, rightTest, rightTarget⟩ := (mem_nullCheckFacts shape second).mp secondListed
      rw [← named] at rightTest
      exact agree left leftInside right rightInside (leftTarget.trans (target.trans rightTarget.symm)) _ _ _
        leftTest rightTest

/-! ### A check without an `else` -/

/-- This is the AST of `f() { if (p) { use(p); } return; }`. -/
def checkAst : AstGraph where
  nodes :=
    [{ nodeId := "f", nodeKind := .functionDecl, childrenIds := ["b"] },
      { nodeId := "b", nodeKind := .compoundStmt, parentId := "f", childrenIds := ["i", "r"] },
      { nodeId := "i", nodeKind := .ifStmt, parentId := "b", childrenIds := ["c", "t"] },
      { nodeId := "c", nodeKind := .declRefExpr, parentId := "i", semanticProperties := [("name", "p")] },
      { nodeId := "t", nodeKind := .compoundStmt, parentId := "i", childrenIds := ["u"] },
      { nodeId := "u", nodeKind := .callExpr, parentId := "t", childrenIds := ["a"] },
      { nodeId := "a", nodeKind := .declRefExpr, parentId := "u", semanticProperties := [("name", "p")] },
      { nodeId := "r", nodeKind := .returnStmt, parentId := "b" }]

def checkFunction : AstNode := { nodeId := "f", nodeKind := .functionDecl, childrenIds := ["b"] }

/-- The block after the branch is the target of the false edge. -/
def checkFlow : ControlFlowGraph where
  functionNodeId := "f"
  blocks :=
    { entries :=
        [(.entry, { blockId := .entry, kind := .entry }), (.exit, { blockId := .exit, kind := .exit }),
          (.block 1, { blockId := .block 1, statements := ["i"].filterMap checkAst.get }),
          (.block 2, { blockId := .block 2, statements := ["r"].filterMap checkAst.get }),
          (.block 3, { blockId := .block 3, statements := ["u"].filterMap checkAst.get }),
          (.block 4, { blockId := .block 4 })]
      distinct := by decide }
  edges :=
    [{ source := .block 1, target := .block 3, kind := .trueEdge },
      { source := .block 3, target := .block 2 },
      { source := .block 1, target := .block 2, kind := .falseEdge },
      { source := .block 2, target := .exit, kind := .returnEdge },
      { source := .entry, target := .block 1 }]

theorem checkAst_wellFormed : checkAst.WellFormed := by
  apply AstGraph.WellFormed.of_order <;> decide

theorem build_check : build checkFunction checkAst = some checkFlow := by rfl

/-- An edge may be taken without a change of the states. -/
theorem Enters.along (edge : CFGEdge) {again : Bool} {order : List Action} {states : NullStates}
    (arrives : cfg.Enters header edge.source again states)
    (visit : cfg.Visit header again edge.source order) (inside : edge ∈ cfg.edges)
    (passes : ∀ test ∈ cfg.edgeTest header again edge, states test.1 = test.2) :
    cfg.Enters header edge.target (comesBack edge) states :=
  .next arrives visit inside (fun _ _ => rfl)
    ((allows_iff again states edge).mpr fun name state test => passes (name, state) test)

/-- This is the order of functions without `for` headers. -/
abbrev checkHeader : ForHeader checkAst := .complete checkAst

def checkNode (nodeId : String) : AstNode := (checkAst.get nodeId).getD checkFunction

/-- A block with one expression does its actions. -/
theorem check_visit (blockId : BlockId) (root : AstNode) (action : Action)
    (same : (checkFlow.statementsOf blockId).flatMap (evaluatedRoots checkHeader false) = [root])
    (actions : [action].Perm (performedActions checkAst [] root)) :
    checkFlow.Visit checkHeader false blockId [action] :=
  .of same (.last (by decide) actions (List.pairwise_singleton _ _))

/-- The branch that has seen `p` not null goes on to the block that is said to see it null. -/
theorem check_arrives : checkFlow.Enters checkHeader (.block 2) false fun _ => .nonNull := by
  have tests := check_visit (.block 1) (checkNode "c") ⟨checkNode "c", .reads⟩ (by decide) (by decide)
  have uses := check_visit (.block 3) (checkNode "u") ⟨checkNode "a", .reads⟩ (by decide) (by decide)
  have first := (Enters.start fun _ => .nonNull : checkFlow.Enters checkHeader .entry false _).along
    { source := .entry, target := .block 1 } .nil (by decide) (by decide)
  have second := first.along { source := .block 1, target := .block 3, kind := .trueEdge } tests (by decide)
    (by decide)
  exact second.along { source := .block 3, target := .block 2 } uses (by decide) (by decide)

/-- The facts of a branch without an `else` are false after the branch. -/
theorem check_unsound : build checkFunction checkAst = some checkFlow ∧
    ¬ FactsSound checkFlow checkHeader (nullCheckFacts checkFlow checkAst) := by
  refine ⟨build_check, fun sound => ?_⟩
  have stated : (⟨.block 2, "p", .null⟩ : NullCheckFact) ∈ nullCheckFacts checkFlow checkAst := by decide
  exact absurd (sound.holds _ stated _ _ check_arrives) (by decide)

theorem nullCheckFacts_sound_check :
    FactsSound checkFlow checkHeader (nullCheckFacts checkFlow checkAst) ↔
      (∀ edge ∈ checkFlow.edges, ∀ name state, checkFlow.ifTest checkHeader edge = some (name, state) →
        ∀ again known, checkFlow.Tested checkHeader edge.target again known → known name = some state) ∧
      (∀ first ∈ checkFlow.edges, ∀ second ∈ checkFlow.edges, first.target = second.target →
        ∀ name left right, checkFlow.ifTest checkHeader first = some (name, left) →
          checkFlow.ifTest checkHeader second = some (name, right) → left = right) :=
  nullCheckFacts_sound_iff checkAst_wellFormed build_check

end ControlFlowGraph
end MisraPlatform
