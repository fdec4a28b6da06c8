import MisraPlatform.Proof.BlockShape
import MisraPlatform.Proof.Descendants
import MisraPlatform.Proof.Standing
import MisraPlatform.Proof.Taint

/-
This file gives the data flow analyses what they assume of a graph that the engine returns.
-/

namespace MisraPlatform
open CFGEngine DataFlowEngineV2

/-! ### The graph -/

theorem BlockShape.wellFormed {cfg : ControlFlowGraph} (shape : BlockShape cfg) (keyed : cfg.Keyed) :
    cfg.WellFormed where
  keyed := keyed
  closed := shape.endpoints
  placed first firstInside second secondInside left leftInside right rightInside same := by
    have ids : first.1 = second.1 := by
      apply shape.once first.1 second.1 left _ right _ same
      · rwa [ControlFlowGraph.statementsOf_of_mem firstInside]
      · rwa [ControlFlowGraph.statementsOf_of_mem secondInside]
    exact List.inj_on_of_nodup_map cfg.blocks.distinct firstInside secondInside ids

/-- The engine returns a graph that the analyses accept. -/
theorem build_flow {graph : AstGraph} (wellFormed : graph.WellFormed) (functionNode : AstNode) :
    ∃ cfg, build functionNode graph = some cfg ∧ cfg.WellFormed := by
  by_cases empty : bodyStatements functionNode graph = []
  · obtain ⟨cfg, built, trivial⟩ := build_trivial functionNode graph empty
    exact ⟨cfg, built, trivial.shape.wellFormed trivial.keyed⟩
  · obtain ⟨body, reads, kinded, nodup⟩ := body_reading wellFormed functionNode
    obtain ⟨cfg, built, represents⟩ := build_represents functionNode graph body empty reads kinded nodup
    have present := reading_present wellFormed reads
    refine ⟨cfg, built, (represents.shape fun left leftInside right rightInside => ?_).wellFormed
      represents.keyed⟩
    exact wellFormed.unique (present left leftInside) (present right rightInside)

/-! ### Own nodes -/

section Own

variable {graph : AstGraph} (wellFormed : graph.WellFormed)

theorem ownChildren_sublist (statement : AstNode) (children : List AstNode) :
    (ownChildren statement children).Sublist children := by
  unfold ownChildren
  split
  · exact List.take_sublist 1 children
  · exact List.dropLast_sublist children
  · exact List.dropLast_sublist children
  · exact List.dropLast_sublist children
  · exact List.drop_sublist 1 children
  · exact .refl _

include wellFormed

/-- The own nodes of a statement are the statement and what stands under its own children. -/
theorem mem_statementOwnDescendants {statement node : AstNode} :
    node ∈ statementOwnDescendants statement graph ↔ node = statement ∨
      ∃ child ∈ ownChildren statement (graph.children statement.nodeId), graph.Under child node := by
  have branch : node ∈ statement :: (ownChildren statement (graph.children statement.nodeId)).flatMap
      (fun child => child :: graph.descendants child.nodeId) ↔ node = statement ∨
      ∃ child ∈ ownChildren statement (graph.children statement.nodeId), graph.Under child node := by
    rw [List.mem_cons, List.mem_flatMap]
    apply or_congr Iff.rfl
    apply exists_congr
    intro child
    apply and_congr_right
    intro inside
    have listed := (ownChildren_sublist statement _).subset inside
    exact wellFormed.mem_subtree (AstGraph.mem_children listed).1
  unfold statementOwnDescendants
  split
  · exact branch
  · exact branch
  · exact branch
  · exact branch
  · exact branch
  · rename_i plain
    have whole : ownChildren statement (graph.children statement.nodeId) =
        graph.children statement.nodeId := by
      unfold ownChildren
      split <;> simp_all
    rw [whole, List.mem_cons, wellFormed.mem_descendants]

theorem statementOwnDescendants_nodup (statement : AstNode) :
    (statementOwnDescendants statement graph).Nodup := by
  have branch : (statement :: (ownChildren statement (graph.children statement.nodeId)).flatMap
      (fun child => child :: graph.descendants child.nodeId)).Nodup := by
    have sublist := ownChildren_sublist statement (graph.children statement.nodeId)
    have below : ∀ child ∈ ownChildren statement (graph.children statement.nodeId), ∀ node,
        node ∈ child :: graph.descendants child.nodeId → graph.Under child node := fun child inside node =>
      (wellFormed.mem_subtree (AstGraph.mem_children (sublist.subset inside)).1).mp
    refine List.nodup_cons.mpr ⟨fun inside => ?_, List.nodup_flatMap.mpr ⟨?_, ?_⟩⟩
    · obtain ⟨child, listed, under⟩ := List.mem_flatMap.mp inside
      exact wellFormed.not_under_self (sublist.subset listed) rfl (below child listed statement under)
    · exact fun child _ => wellFormed.subtree_nodup child
    · have apart := Apart.sublist (wellFormed.children_apart statement.nodeId) sublist
      refine apart.imp_of_mem fun {first second} firstInside secondInside separate => ?_
      intro node left right
      rcases wellFormed.under_line (below first firstInside node left)
        (below second secondInside node right) with down | up
      · exact separate.1 down
      · exact separate.2 up
  unfold statementOwnDescendants
  split
  · exact branch
  · exact branch
  · exact branch
  · exact branch
  · exact branch
  · exact wellFormed.subtree_nodup statement

theorem under_own {statement node : AstNode} (present : statement ∈ graph.nodes)
    (own : node ∈ statementOwnDescendants statement graph) : graph.Under statement node := by
  rcases (mem_statementOwnDescendants wellFormed).mp own with rfl | ⟨child, inside, under⟩
  · exact .refl
  · exact under.head ⟨present, (ownChildren_sublist statement _).subset inside⟩

/-- A statement that the builder goes on to is no own child. -/
theorem Passes.foreign {parent child : AstNode} (kind : parent.nodeKind ≠ .compoundStmt)
    {keeps : Bool} (passes : Passes graph parent child keeps) (kept : keeps = true) :
    child ∉ ownChildren parent (graph.children parent.nodeId) := by
  have nodup := wellFormed.children_nodup parent.nodeId
  have last : ∀ {children : List AstNode}, children.Nodup → children.getLast? = some child →
      child ∉ children.dropLast := by
    intro children distinct ends inside
    obtain ⟨front, rfl⟩ := List.getLast?_eq_some_iff.mp ends
    rw [List.dropLast_concat] at inside
    exact (List.nodup_append.mp distinct).2.2 child inside child (by simp) rfl
  cases passes with
  | compound same => exact absurd same kind
  | group same => exact absurd same kind
  | early same => exact absurd same kind
  | @branch index same either inside =>
      rw [ownChildren, same]
      intro listed
      obtain ⟨bound, found⟩ := List.getElem?_eq_some_iff.mp inside
      cases children : graph.children parent.nodeId with
      | nil => simp [children] at listed
      | cons first rest =>
          simp only [children, List.take_succ_cons, List.take_zero, List.mem_singleton] at listed
          have start : (graph.children parent.nodeId)[0]? = some child := by simp [children, listed]
          obtain ⟨limit, head⟩ := List.getElem?_eq_some_iff.mp start
          have equal := (List.Nodup.getElem_inj_iff nodup).mp (found.trans head.symm)
          omega
  | loop same inside =>
      rcases (isLoop_iff _).mp same with one | one | one
      · rw [ownChildren, one]
        rw [loopBody, if_neg (by simp [one])] at inside
        exact last nodup inside
      · rw [ownChildren, one]
        rw [loopBody, if_neg (by simp [one])] at inside
        exact last nodup inside
      · rw [ownChildren, one]
        rw [loopBody, if_pos one] at inside
        cases children : graph.children parent.nodeId with
        | nil => simp
        | cons first rest =>
            rw [children] at inside nodup
            cases inside
            exact (List.nodup_cons.mp nodup).1
  | switch same inside =>
      rw [ownChildren, same]
      exact last nodup inside
  | labelled => exact absurd kept Bool.false_ne_true

variable {functionNode : AstNode} (present : functionNode ∈ graph.nodes)
  (declares : functionNode.nodeKind = .functionDecl)

omit wellFormed in
theorem Stands.inside {kept : Bool} {statement : AstNode}
    (stands : Stands graph functionNode kept statement) :
    ∃ child ∈ graph.children functionNode.nodeId, graph.Under child statement := by
  induction stands with
  | top inside =>
      unfold bodyStatements at inside
      simp only at inside
      split at inside
      · rename_i body found
        have listed := List.mem_of_find?_eq_some found
        exact ⟨body, listed, .single ⟨(AstGraph.mem_children listed).1, inside⟩⟩
      · exact ⟨_, List.mem_of_mem_filter inside, .refl⟩
  | nested above passes ih =>
      obtain ⟨child, listed, under⟩ := ih
      exact ⟨child, listed, under.tail ⟨above.present, passes.child⟩⟩

include present declares

/-- The way to a statement leads through every statement above it. -/
theorem Stands.through {kept still : Bool} {statement above : AstNode}
    (stands : Stands graph functionNode kept statement) (higher : Stands graph functionNode still above)
    (under : graph.Under above statement) : above = statement ∨ ∃ child keeps,
      Passes graph above child keeps ∧ graph.Under child statement ∧ (kept = true → keeps = true) := by
  have not_higher : ∀ node, node.nodeId = functionNode.nodeId → ¬ graph.Under above node := by
    intro node named down
    obtain ⟨child, listed, up⟩ := higher.inside
    exact wellFormed.not_under_self listed named (up.trans down)
  induction stands with
  | @top statement inside =>
      rcases Relation.ReflTransGen.cases_tail under with same | ⟨parent, further, step⟩
      · exact .inl same.symm
      · have named := wellFormed.parent step.2
        rcases bodyStatements_parent wellFormed inside with ⟨same, _⟩ | ⟨body, listed, compound, same⟩
        · exact absurd further (not_higher parent (named.symm.trans same))
        · have equal := wellFormed.unique step.1 (AstGraph.mem_children listed).1 (named.symm.trans same)
          subst equal
          rcases Relation.ReflTransGen.cases_tail further with here | ⟨outer, upward, last⟩
          · subst here
            exact absurd higher
              (body_not_stands wellFormed present declares present listed compound)
          · exact absurd upward (not_higher outer
              ((wellFormed.parent last.2).symm.trans (wellFormed.parent listed)))
  | @nested kept keeps parent child outer passes ih =>
      rcases Relation.ReflTransGen.cases_tail under with same | ⟨middle, further, step⟩
      · exact .inl same.symm
      · have equal : middle = parent := wellFormed.unique step.1 outer.present
          ((wellFormed.parent step.2).symm.trans (wellFormed.parent passes.child))
        subst equal
        rcases ih further with rfl | ⟨first, flag, onward, beneath, keepsFlag⟩
        · exact .inr ⟨child, keeps, passes, .refl, fun both => ((Bool.and_eq_true _ _).mp both).2⟩
        · exact .inr ⟨first, flag, onward, beneath.tail step,
            fun both => keepsFlag ((Bool.and_eq_true _ _).mp both).1⟩

/-- Two statements of a body share no own node. -/
theorem Stands.own_unique {first second node : AstNode}
    (left : Stands graph functionNode true first) (right : Stands graph functionNode true second)
    (leftKind : first.nodeKind ≠ .compoundStmt) (rightKind : second.nodeKind ≠ .compoundStmt)
    (inFirst : node ∈ statementOwnDescendants first graph)
    (inSecond : node ∈ statementOwnDescendants second graph) : first = second := by
  have ordered : ∀ {above lower : AstNode}, Stands graph functionNode true above →
      Stands graph functionNode true lower → above.nodeKind ≠ .compoundStmt →
      node ∈ statementOwnDescendants above graph → graph.Under lower node →
      graph.Under above lower → above = lower := by
    intro above lower higher stands kind own under down
    rcases stands.through wellFormed present declares higher down with same | ⟨child, keeps, passes,
      further, kept⟩
    · exact same
    · exfalso
      have foreign := passes.foreign wellFormed kind (kept rfl)
      rcases (mem_statementOwnDescendants wellFormed).mp own with rfl | ⟨other, inside, beneath⟩
      · exact wellFormed.not_under_self passes.child rfl (further.trans under)
      · have distinct : other ≠ child := fun same => foreign (same ▸ inside)
        have listed := (ownChildren_sublist above _).subset inside
        rcases wellFormed.under_line beneath (further.trans under) with one | one
        · exact wellFormed.children_separate listed passes.child distinct one
        · exact wellFormed.children_separate passes.child listed distinct.symm one
  have upFirst := under_own wellFormed left.present inFirst
  have upSecond := under_own wellFormed right.present inSecond
  rcases wellFormed.under_line upFirst upSecond with down | down
  · exact ordered left right leftKind inFirst upSecond down
  · exact (ordered right left rightKind inSecond upFirst down).symm

end Own

/-! ### The scan -/

theorem PlacesOnce.flatten_nodup {cfg : ControlFlowGraph} {body : Code} (places : PlacesOnce cfg body) :
    (cfg.blocks.keys.flatMap cfg.statementsOf).Nodup := by
  refine List.nodup_flatMap.mpr ⟨fun block _ => places.nodup block, ?_⟩
  refine cfg.blocks.keys_nodup.imp fun {first second} distinct statement left right => ?_
  exact distinct (places.once first second statement left right)

theorem statements_blockAt (cfg : ControlFlowGraph) (blockId : BlockId) :
    (cfg.blockAt blockId).statements = cfg.statementsOf blockId := by
  unfold ControlFlowGraph.blockAt ControlFlowGraph.statementsOf
  cases cfg.blocks.get? blockId <;> rfl

theorem scanned_eq (cfg : ControlFlowGraph) (graph : AstGraph) (blockId : BlockId) :
    scannedNodes (cfg.blockAt blockId) graph =
      (cfg.statementsOf blockId).flatMap fun statement => statementOwnDescendants statement graph := by
  rw [scannedNodes, statements_blockAt]

/-- The graph of a function is scanned without meeting a node twice. -/
theorem build_scansOnce {graph : AstGraph} (wellFormed : graph.WellFormed) (shaped : SwitchesShaped graph)
    {functionNode : AstNode} (present : functionNode ∈ graph.nodes)
    (declares : functionNode.nodeKind = .functionDecl) {cfg : ControlFlowGraph}
    (built : build functionNode graph = some cfg) : cfg.ScansOnce graph := by
  unfold ControlFlowGraph.ScansOnce
  simp only [scanned_eq]
  rw [← List.map_flatMap, ← List.flatMap_assoc]
  by_cases empty : bodyStatements functionNode graph = []
  · obtain ⟨other, same, trivial⟩ := build_trivial functionNode graph empty
    cases built.symm.trans same
    rw [List.flatMap_eq_nil_iff.mpr fun block _ => trivial.empty block]
    exact List.nodup_nil
  · obtain ⟨body, reads, kinded, nodup⟩ := body_reading wellFormed functionNode
    obtain ⟨other, same, represents⟩ := build_represents functionNode graph body empty reads kinded nodup
    cases built.symm.trans same
    have stands : ∀ statement ∈ cfg.blocks.keys.flatMap cfg.statementsOf,
        Stands graph functionNode true statement ∧ statement.nodeKind ≠ .compoundStmt := by
      intro statement inside
      obtain ⟨block, _, here⟩ := List.mem_flatMap.mp inside
      exact (mem_nodes_iff wellFormed shaped present declares reads statement).mp
        (represents.places.inside block statement here)
    refine List.Nodup.map_on ?_ (List.nodup_flatMap.mpr ⟨?_, ?_⟩)
    · intro left leftInside right rightInside same
      obtain ⟨above, listed, own⟩ := List.mem_flatMap.mp leftInside
      obtain ⟨other, known, mine⟩ := List.mem_flatMap.mp rightInside
      exact wellFormed.unique
        ((under_own wellFormed (stands above listed).1.present own).present
          (stands above listed).1.present)
        ((under_own wellFormed (stands other known).1.present mine).present (stands other known).1.present)
        same
    · exact fun statement _ => statementOwnDescendants_nodup wellFormed statement
    · refine represents.places.flatten_nodup.imp_of_mem fun {first second} left right distinct node inFirst
        inSecond => ?_
      exact distinct (Stands.own_unique wellFormed present declares (stands first left).1
        (stands second right).1 (stands first left).2 (stands second right).2 inFirst inSecond)

/-! ### The references of a body -/

/-- One of the statements has the node as its own. -/
def Owned (graph : AstGraph) (statements : List AstNode) (node : AstNode) : Prop :=
  ∃ statement ∈ statements, node ∈ statementOwnDescendants statement graph

theorem Owned.widen {graph : AstGraph} {statements more : List AstNode} {node : AstNode}
    (owned : Owned graph statements node) (wider : statements ⊆ more) : Owned graph more node := by
  obtain ⟨statement, inside, own⟩ := owned
  exact ⟨statement, wider inside, own⟩

section References

variable {graph : AstGraph} (wellFormed : graph.WellFormed)

include wellFormed

/-- What stands under a statement is its own or stands under a child that is not its own. -/
theorem own_or_foreign {statement node : AstNode} (under : graph.Under statement node) :
    node ∈ statementOwnDescendants statement graph ∨
      ∃ child ∈ graph.children statement.nodeId,
        child ∉ ownChildren statement (graph.children statement.nodeId) ∧ graph.Under child node := by
  rw [mem_statementOwnDescendants wellFormed]
  rcases Relation.ReflTransGen.cases_head under with same | ⟨child, step, further⟩
  · exact .inl (.inl same.symm)
  · by_cases own : child ∈ ownChildren statement (graph.children statement.nodeId)
    · exact .inl (.inr ⟨child, own, further⟩)
    · exact .inr ⟨child, step.2, own, further⟩

/-- A statement without statements below it owns everything under it. -/
theorem own_of_simple {statement node : AstNode} (simple : statement.nodeKind.isSimple = true)
    (under : graph.Under statement node) : node ∈ statementOwnDescendants statement graph := by
  refine (own_or_foreign wellFormed under).resolve_right ?_
  rintro ⟨child, inside, foreign, _⟩
  apply foreign
  unfold ownChildren
  split <;> simp_all [NodeKind.isSimple]

mutual

/-- Every reference under a body that Clang lays out belongs to a statement that the builder visits. -/
theorem Code.reads_owned : ∀ (body : Code) (nodes : List AstNode), body.Reads graph nodes →
    ∀ ref : AstNode, ref.nodeKind = .declRefExpr → (∃ top ∈ nodes, graph.Under top ref) →
      Owned graph body.nodes ref
  | .nil, nodes, reads, ref, _, under => by
      obtain ⟨top, inside, _⟩ := under
      rw [Code.Reads] at reads
      rw [reads] at inside
      exact absurd inside List.not_mem_nil
  | .simple statement rest, nodes, reads, ref, kind, under => by
      obtain ⟨tail, rfl, simple, restReads⟩ := reads
      obtain ⟨top, inside, lower⟩ := under
      cases List.mem_cons.mp inside with
      | inl here => exact ⟨statement, List.mem_cons_self, own_of_simple wellFormed simple (here ▸ lower)⟩
      | inr there =>
          exact (rest.reads_owned tail restReads ref kind ⟨top, there, lower⟩).widen (List.subset_cons_self _ _)
  | .compound statement body rest, nodes, reads, ref, kind, under => by
      obtain ⟨tail, rfl, compound, bodyReads, restReads⟩ := reads
      obtain ⟨top, inside, lower⟩ := under
      cases List.mem_cons.mp inside with
      | inr there =>
          exact (rest.reads_owned tail restReads ref kind ⟨top, there, lower⟩).widen (List.subset_append_right _ _)
      | inl here =>
          rcases Relation.ReflTransGen.cases_head (here ▸ lower) with same | ⟨child, step, further⟩
          · rw [same, kind] at compound
            cases compound
          · exact (body.reads_owned _ bodyReads ref kind ⟨child, step.2, further⟩).widen (List.subset_append_left _ _)
  | .ifStmt statement thenBranch elseBranch rest, nodes, reads, ref, kind, under => by
      obtain ⟨tail, condition, thenNode, elseNode, rfl, branch, children, thenReads, elseReads, restReads⟩ := reads
      obtain ⟨top, inside, lower⟩ := under
      cases List.mem_cons.mp inside with
      | inr there =>
          exact (rest.reads_owned tail restReads ref kind ⟨top, there, lower⟩).widen
            fun _ visited => by simp [Code.nodes, visited]
      | inl here =>
          rcases own_or_foreign wellFormed (here ▸ lower) with own | ⟨child, listed, foreign, further⟩
          · exact ⟨statement, List.mem_cons_self, own⟩
          · rw [children] at listed foreign
            simp only [ownChildren, branch, List.take_succ_cons, List.take_zero, List.mem_singleton] at foreign
            cases List.mem_cons.mp ((List.mem_cons.mp listed).resolve_left foreign) with
            | inl chosen =>
                exact (thenBranch.reads_owned _ thenReads ref kind ⟨thenNode, rfl, chosen ▸ further⟩).widen
                  (by simp [Code.nodes])
            | inr other =>
                exact (elseBranch.reads_owned _ elseReads ref kind ⟨child, Option.mem_toList.mp other, further⟩).widen
                  fun _ visited => by simp [Code.nodes, visited]
  | .loop statement body rest, nodes, reads, ref, kind, under => by
      obtain ⟨tail, bodyNode, clauses, rfl, loops, children, bodyReads, restReads⟩ := reads
      obtain ⟨top, inside, lower⟩ := under
      cases List.mem_cons.mp inside with
      | inr there =>
          exact (rest.reads_owned tail restReads ref kind ⟨top, there, lower⟩).widen (by simp [Code.nodes])
      | inl here =>
          rcases own_or_foreign wellFormed (here ▸ lower) with own | ⟨child, listed, foreign, further⟩
          · exact ⟨statement, List.mem_cons_self, own⟩
          · have chosen : child = bodyNode := by
              rw [children] at listed foreign
              rcases (isLoop_iff _).mp loops with one | one | one <;>
                simp [ownChildren, one] at listed foreign <;> tauto
            exact (body.reads_owned _ bodyReads ref kind ⟨bodyNode, rfl, chosen ▸ further⟩).widen
              (by simp [Code.nodes])
  | .switch statement groups rest, nodes, reads, ref, kind, under => by
      obtain ⟨tail, header, bodyNode, rfl, switches, children, _, compound, groupsReads, restReads⟩ := reads
      obtain ⟨top, inside, lower⟩ := under
      cases List.mem_cons.mp inside with
      | inr there =>
          exact (rest.reads_owned tail restReads ref kind ⟨top, there, lower⟩).widen (by simp [Code.nodes])
      | inl here =>
          rcases own_or_foreign wellFormed (here ▸ lower) with own | ⟨child, listed, foreign, further⟩
          · exact ⟨statement, List.mem_cons_self, own⟩
          · have chosen : child = bodyNode := by
              rw [children] at listed foreign
              simp only [ownChildren, switches, List.dropLast_concat] at foreign
              exact List.mem_singleton.mp ((List.mem_append.mp listed).resolve_left foreign)
            rcases Relation.ReflTransGen.cases_head (chosen ▸ further) with same | ⟨first, step, deeper⟩
            · rw [same, kind] at compound
              cases compound
            · exact (groups.reads_owned _ groupsReads ref kind ⟨first, step.2, deeper⟩).widen (by simp [Code.nodes])
  | .bareSwitch _ _, _, reads, _, _, _ => absurd reads id

theorem Branch.reads_owned : ∀ (branch : Branch) (node : Option AstNode), branch.Reads graph node →
    ∀ ref : AstNode, ref.nodeKind = .declRefExpr → (∃ top ∈ node, graph.Under top ref) →
      Owned graph branch.nodes ref
  | .absent, node, reads, ref, _, under => by
      obtain ⟨top, inside, _⟩ := under
      rw [Branch.Reads] at reads
      rw [reads] at inside
      cases inside
  | .present body, node, reads, ref, kind, under => by
      obtain ⟨found, rfl, inside⟩ := reads
      obtain ⟨top, here, lower⟩ := under
      obtain rfl := Option.some.inj here
      split at inside
      · rename_i compound
        rcases Relation.ReflTransGen.cases_head lower with same | ⟨child, step, further⟩
        · rw [same, kind] at compound
          cases compound
        · exact body.reads_owned _ inside ref kind ⟨child, step.2, further⟩
      · exact body.reads_owned _ inside ref kind ⟨found, List.mem_singleton_self _, lower⟩

theorem Groups.reads_owned : ∀ (groups : Groups) (nodes : List AstNode), groups.Reads graph nodes →
    ∀ ref : AstNode, ref.nodeKind = .declRefExpr → (∃ top ∈ nodes, graph.Under top ref) →
      Owned graph groups.nodes ref
  | .nil, nodes, reads, ref, _, under => by
      obtain ⟨top, inside, _⟩ := under
      rw [Groups.Reads] at reads
      rw [reads] at inside
      exact absurd inside List.not_mem_nil
  | .cons label body more, nodes, reads, ref, kind, under => by
      obtain ⟨inner, outer, rfl, labels, _, bodyReads, moreReads⟩ := reads
      obtain ⟨top, inside, lower⟩ := under
      rw [List.cons_append] at inside
      cases List.mem_cons.mp inside with
      | inl here =>
          have simple : label.nodeKind.isSimple = true := by
            rw [isCaseLabel] at labels
            cases labelKind : label.nodeKind <;> simp_all [NodeKind.isSimple]
          exact ⟨label, List.mem_cons_self, own_of_simple wellFormed simple (here ▸ lower)⟩
      | inr there =>
          cases List.mem_append.mp there with
          | inl first => exact (body.reads_owned _ bodyReads ref kind ⟨top, first, lower⟩).widen (by simp [Groups.nodes])
          | inr second => exact (more.reads_owned _ moreReads ref kind ⟨top, second, lower⟩).widen (by simp [Groups.nodes])

end

end References

end MisraPlatform
