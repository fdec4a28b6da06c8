import MisraPlatform.Proof.Evaluation
import MisraPlatform.Proof.StoreEvents

/-
This file compares the dead stores with the evaluation order of C.
-/

namespace MisraPlatform
open CFGEngine DataFlowEngineV2

namespace ControlFlowGraph

variable {cfg : ControlFlowGraph} {graph : AstGraph} {header : ForHeader graph}

/-- The value of the store is read in the order of the text. -/
def ReadInText (cfg : ControlFlowGraph) (graph : AstGraph) (store : AstNode) : Prop :=
  ∃ blockId before event after, cfg.events graph blockId = before ++ event :: after ∧
    event.ref = store ∧ cfg.ReadLater graph blockId event after

/-- The analysis reports the plain stores whose value is not read in the order of the text. -/
theorem mem_deadStores (closed : cfg.Closed) :
    ∃ stores, deadStores cfg graph = some stores ∧ ∀ ref, ref ∈ stores ↔
      ∃ blockId before event after, cfg.events graph blockId = before ++ event :: after ∧
        event.ref = ref ∧ event.isWrite = true ∧ event.isReadToo = false ∧
          ¬ cfg.ReadLater graph blockId event after := by
  refine ⟨_, (deadStores_exact cfg graph closed).1, fun ref => ?_⟩
  classical
  simp only [List.mem_flatMap, List.mem_map, List.mem_reverse, List.mem_filter, decide_eq_true_eq]
  constructor
  · rintro ⟨blockId, _, ⟨before, event⟩, ⟨inside, writes, only, dead⟩, rfl⟩
    obtain ⟨after, split⟩ := (mem_occurrences _ _ _).mp inside
    rw [split, behind_split] at dead
    exact ⟨blockId, before, event, after, split, rfl, writes, only,
      fun later => dead ((readLater_iff blockId event after).mp later)⟩
  · rintro ⟨blockId, before, event, after, split, rfl, writes, only, dead⟩
    have listed : event ∈ cfg.events graph blockId := by
      rw [split]
      exact List.mem_append_right _ List.mem_cons_self
    obtain ⟨_, ⟨statement, here, _⟩, _⟩ := (mem_events cfg graph blockId event).mp listed
    refine ⟨blockId, block_of_statement here, (before, event),
      ⟨(mem_occurrences _ _ _).mpr ⟨after, split⟩, writes, only, ?_⟩, rfl⟩
    rw [split, behind_split]
    exact fun later => dead ((readLater_iff blockId event after).mpr later)

/-! ### True reports -/

/-- The reference is the target of a plain assignment. -/
def IsPlainStore (graph : AstGraph) (store : AstNode) : Prop :=
  store.nodeKind = .declRefExpr ∧ referenceEffects graph store = [.writes]

theorem eventOf_plain (graph : AstGraph) (ref : AstNode) :
    (eventOf graph ref).isWrite = true ∧ (eventOf graph ref).isReadToo = false ↔
      referenceEffects graph ref = [.writes] := by
  cases found : graph.get ref.parentId with
  | none => simp [eventOf, isWriteTarget, referenceEffects, found]
  | some parent =>
      rw [referenceEffects_of_parent found]
      simp only [eventOf, isWriteTarget, found]
      constructor
      · rintro ⟨writes, only⟩
        split at only
        · rename_i plain
          have assigns : isAssignment parent = true := by simp [isAssignment, plain.1, plain.2.1]
          rw [if_pos ⟨assigns, plain.2.2⟩, if_pos plain.2.1]
        · split at only
          · exact absurd only (by decide)
          · split at only
            · exact absurd only (by decide)
            · rename_i plain compound step
              rw [if_neg plain, if_neg compound, if_neg step] at writes
              exact absurd writes (by decide)
      · intro effects
        split at effects
        · rename_i target
          split at effects
          · rename_i plain
            have kind : parent.nodeKind = .binaryOperator := by
              have assigns := target.1
              simp only [isAssignment, plain, Bool.or_eq_true, Bool.and_eq_true, decide_eq_true_eq] at assigns
              obtain ⟨kind, _⟩ | ⟨_, compound⟩ := assigns
              · exact kind
              · exact absurd compound (by decide)
            rw [if_pos ⟨kind, plain, target.2⟩]
            exact ⟨rfl, rfl⟩
          · exact absurd effects (by decide)
        · split at effects <;> exact absurd effects (by decide)

/-- The actions of a reference belong to its own node. -/
theorem mem_nodeActions {node ref : AstNode} {effect : Effect} (kind : ref.nodeKind = .declRefExpr)
    (inside : ⟨ref, effect⟩ ∈ nodeActions graph node) : ref = node ∧ declRefName ref ≠ "" := by
  unfold nodeActions at inside
  split at inside
  · split at inside
    · exact absurd inside List.not_mem_nil
    · rename_i named
      obtain ⟨_, _, same⟩ := List.mem_map.mp inside
      cases same
      exact ⟨rfl, named⟩
  · split at inside
    · rename_i declares
      have same := congrArg Action.node (List.mem_singleton.mp inside)
      simp only at same
      rw [← same, kind] at declares
      exact absurd declares (by decide)
    · exact absurd inside List.not_mem_nil

/-- A plain store that is evaluated is an event of its block. -/
theorem StoreRead.event {store ref : AstNode} {blockId : BlockId}
    (read : cfg.StoreRead header store blockId ref) (kind : store.nodeKind = .declRefExpr) :
    ∃ source, eventOf graph store ∈ cfg.events graph source := by
  obtain ⟨_, _, _, _, after, _⟩ := read
  obtain ⟨source, again, order, visit, inside⟩ := after.visits
  obtain ⟨node, scanned, does⟩ := scanned_of_visit visit inside
  obtain ⟨rfl, named⟩ := mem_nodeActions kind does
  obtain ⟨statement, mine, own⟩ := (mem_scannedNodes source store).mp scanned
  exact ⟨source, (mem_events cfg graph source _).mpr ⟨store, ⟨statement, mine, own⟩, kind, named, rfl⟩⟩

/-- The reports of dead stores are true exactly when every plain store whose value is read in the
evaluation order of C is read in the order of the text. -/
theorem deadStores_true_iff (closed : cfg.Closed) (once : cfg.ScansOnce graph) :
    (∃ stores, deadStores cfg graph = some stores ∧
      ∀ store ∈ stores, ∀ blockId ref, ¬ cfg.StoreRead header store blockId ref) ↔
    ∀ store blockId ref, IsPlainStore graph store → cfg.StoreRead header store blockId ref →
      cfg.ReadInText graph store := by
  obtain ⟨stores, found, members⟩ := @mem_deadStores _ graph closed
  constructor
  · rintro ⟨_, same, true⟩ store blockId ref plain read
    obtain rfl := Option.some.inj (found.symm.trans same)
    by_contra hidden
    obtain ⟨source, event⟩ := read.event plain.1
    obtain ⟨before, after, split⟩ := List.append_of_mem event
    obtain ⟨writes, only⟩ := (eventOf_plain graph store).mpr plain.2
    apply true store ((members store).mpr ⟨source, before, _, after, split, rfl, writes, only, ?_⟩)
      blockId ref read
    exact fun later => hidden ⟨source, before, _, after, split, rfl, later⟩
  · intro condition
    refine ⟨stores, found, fun store reported blockId ref read => ?_⟩
    obtain ⟨source, before, event, after, split, rfl, writes, only, dead⟩ := (members store).mp reported
    have listed : event ∈ cfg.events graph source := by
      rw [split]
      exact List.mem_append_right _ List.mem_cons_self
    obtain ⟨ref', _, kind, _, same⟩ := (mem_events cfg graph source event).mp listed
    subst same
    have plain := (eventOf_plain graph ref').mp ⟨writes, only⟩
    obtain ⟨other, front, twin, back, again, same, later⟩ := condition _ blockId ref ⟨kind, plain⟩ read
    have twinListed : twin ∈ cfg.events graph other := by
      rw [again]
      exact List.mem_append_right _ List.mem_cons_self
    obtain ⟨rfl, _⟩ := once.same (scanned_of_event listed) (scanned_of_event twinListed)
      (congrArg AstNode.nodeId same.symm)
    obtain ⟨rfl, rfl, rfl⟩ := split_unique (split ▸ once.events_nodup source) (split.symm.trans again)
      (congrArg AstNode.nodeId same.symm)
    exact dead later

/-! ### A store that its successor reads -/

/-- This is the AST of `f() { int x; x = 5; x = x + 1; return x; }`. -/
def storeAst : AstGraph where
  nodes :=
    [{ nodeId := "f", nodeKind := .functionDecl, childrenIds := ["b"] },
      { nodeId := "b", nodeKind := .compoundStmt, parentId := "f", childrenIds := ["d", "s", "a", "e"] },
      { nodeId := "d", nodeKind := .varDecl, parentId := "b", semanticProperties := [("name", "x")] },
      { nodeId := "s", nodeKind := .binaryOperator, parentId := "b", childrenIds := ["k", "c"],
        semanticProperties := [("opcode", "=")] },
      { nodeId := "k", nodeKind := .declRefExpr, parentId := "s", semanticProperties := [("name", "x")],
        sourceRange := { lineStart := 2, columnStart := 3 } },
      { nodeId := "c", nodeKind := .other "IntegerLiteral", parentId := "s" },
      { nodeId := "a", nodeKind := .binaryOperator, parentId := "b", childrenIds := ["l", "p"],
        semanticProperties := [("opcode", "=")] },
      { nodeId := "l", nodeKind := .declRefExpr, parentId := "a", semanticProperties := [("name", "x")],
        sourceRange := { lineStart := 3, columnStart := 3 } },
      { nodeId := "p", nodeKind := .binaryOperator, parentId := "a", childrenIds := ["r", "o"],
        semanticProperties := [("opcode", "+")] },
      { nodeId := "r", nodeKind := .declRefExpr, parentId := "p", semanticProperties := [("name", "x")],
        sourceRange := { lineStart := 3, columnStart := 7 } },
      { nodeId := "o", nodeKind := .other "IntegerLiteral", parentId := "p" },
      { nodeId := "e", nodeKind := .returnStmt, parentId := "b", childrenIds := ["u"] },
      { nodeId := "u", nodeKind := .declRefExpr, parentId := "e", semanticProperties := [("name", "x")],
        sourceRange := { lineStart := 4, columnStart := 10 } }]

def storeFunction : AstNode := { nodeId := "f", nodeKind := .functionDecl, childrenIds := ["b"] }

def storeNode (nodeId : String) : AstNode := (storeAst.get nodeId).getD storeFunction

def storeFlow : ControlFlowGraph where
  functionNodeId := "f"
  blocks :=
    { entries :=
        [(.entry, { blockId := .entry, kind := .entry }), (.exit, { blockId := .exit, kind := .exit }),
          (.block 1, { blockId := .block 1, statements := ["d", "s", "a", "e"].filterMap storeAst.get }),
          (.block 2, { blockId := .block 2 })]
      distinct := by decide }
  edges :=
    [{ source := .block 1, target := .exit, kind := .returnEdge }, { source := .entry, target := .block 1 }]

theorem storeFlow_closed : storeFlow.Closed := by
  unfold Closed
  decide

theorem storeFlow_scansOnce : storeFlow.ScansOnce storeAst := by
  unfold ScansOnce
  decide

/-- The right operand of the second assignment is evaluated before its store. -/
theorem store_visit : storeFlow.Visit (ForHeader.complete storeAst) false (.block 1)
    ([⟨storeNode "d", .declares⟩] ++ ([⟨storeNode "k", .writes⟩] ++
      ([⟨storeNode "r", .reads⟩, ⟨storeNode "l", .writes⟩] ++ [⟨storeNode "u", .reads⟩]))) := by
  have single : ∀ action : Action, Allowed storeAst [action] := List.pairwise_singleton _
  have plain : storeAst.Unconditional := by decide
  have returns : Evaluates storeAst [storeNode "e"] [⟨storeNode "u", .reads⟩] :=
    .last plain (by decide) (single _)
  have adds : Evaluates storeAst [storeNode "a", storeNode "e"]
      ([⟨storeNode "r", .reads⟩, ⟨storeNode "l", .writes⟩] ++ [⟨storeNode "u", .reads⟩]) :=
    .full plain (by decide) (by unfold Allowed; decide) returns
  have stores : Evaluates storeAst [storeNode "s", storeNode "a", storeNode "e"] _ :=
    .full plain (by decide : List.Perm [⟨storeNode "k", .writes⟩] _) (single _) adds
  have declares : Evaluates storeAst [storeNode "d", storeNode "s", storeNode "a", storeNode "e"] _ :=
    .full plain (by decide : List.Perm [⟨storeNode "d", .declares⟩] _) (single _) stores
  exact .of (by decide) declares

/-- The second assignment reads what the first one has stored. -/
theorem store_storeRead :
    storeFlow.StoreRead (ForHeader.complete storeAst) (storeNode "k") (.block 1) (storeNode "r") :=
  ⟨rfl, .block 1, false, [], ⟨false, [], [⟨storeNode "d", .declares⟩, ⟨storeNode "k", .writes⟩],
    [⟨storeNode "d", .declares⟩], [⟨storeNode "l", .writes⟩, ⟨storeNode "u", .reads⟩], .start, store_visit,
    rfl⟩, by decide⟩

/-- The analysis reports the store `x = 5` although `x = x + 1` reads it. -/
theorem store_falselyDead :
    build storeFunction storeAst = some storeFlow ∧ DistinctLocals storeFunction storeAst ∧
      ¬ ∃ stores, deadStores storeFlow storeAst = some stores ∧
        ∀ store ∈ stores, ∀ blockId ref, ¬ storeFlow.StoreRead (ForHeader.complete storeAst) store blockId ref := by
  refine ⟨by rfl, by unfold DistinctLocals; decide, ?_⟩
  rintro ⟨stores, found, true⟩
  have reported : deadStores storeFlow storeAst = some [storeNode "k"] := by decide
  cases reported.symm.trans found
  exact true _ (List.mem_singleton_self _) _ _ store_storeRead

theorem deadStores_true_store :
    (∃ stores, deadStores storeFlow storeAst = some stores ∧
      ∀ store ∈ stores, ∀ blockId ref, ¬ storeFlow.StoreRead (ForHeader.complete storeAst) store blockId ref) ↔
    ∀ store blockId ref, IsPlainStore storeAst store → storeFlow.StoreRead (ForHeader.complete storeAst) store blockId ref →
      storeFlow.ReadInText storeAst store :=
  deadStores_true_iff storeFlow_closed storeFlow_scansOnce

end ControlFlowGraph
end MisraPlatform
