import MisraPlatform.Proof.DecodedAst
import MisraPlatform.Proof.GotoTargets
import MisraPlatform.Proof.RuleResults

/-
This file shows which labels the rules on switches take for those of a switch.
-/

namespace MisraPlatform
open CFGEngine CFGBuilder BaseRulePlugin

section Labels

variable {graph : AstGraph}

theorem Buried.of_found {clauses : List AstNode} {position : ℕ} {clause : AstNode}
    (found : Rule16_5.buried clauses = some (position, clause)) : Buried clauses position clause := by
  obtain ⟨index, located, chosen⟩ := Option.bind_eq_some_iff.mp found
  split at chosen
  · cases chosen
  · rename_i inner
    obtain ⟨other, here, same⟩ := Option.map_eq_some_iff.mp chosen
    cases same
    obtain ⟨bound, default, earliest⟩ := List.findIdx?_eq_some_iff_getElem.mp located
    have position_eq := (List.getElem?_eq_some_iff.mp here).2
    simp only [Bool.or_eq_true, decide_eq_true_eq, not_or] at inner
    exact {
      here := here
      default := position_eq ▸ of_decide_eq_true default
      first := by
        intro earlier less other listed kind
        obtain ⟨within, named⟩ := List.getElem?_eq_some_iff.mp listed
        exact earliest earlier less (decide_eq_true (named ▸ kind))
      after := Nat.pos_of_ne_zero inner.1
      before := by omega }

theorem Buried.found {clauses : List AstNode} {position : ℕ} {clause : AstNode}
    (lies : Buried clauses position clause) : Rule16_5.buried clauses = some (position, clause) := by
  obtain ⟨bound, named⟩ := List.getElem?_eq_some_iff.mp lies.here
  have located : (clauses.findIdx? fun clause => clause.nodeKind = .defaultStmt) = some position := by
    rw [List.findIdx?_eq_some_iff_getElem]
    refine ⟨bound, decide_eq_true (named ▸ lies.default), fun earlier less default => ?_⟩
    exact lies.first earlier less _ (List.getElem?_eq_getElem _) (of_decide_eq_true default)
  have after := lies.after
  have before := lies.before
  rw [Rule16_5.buried, located, Option.bind_some, if_neg, lies.here]
  · rfl
  · simp only [Bool.or_eq_true, decide_eq_true_eq, not_or]
    omega

variable (forest : graph.Forest)

include forest

theorem child_of_parent {parent child : AstNode} (step : graph.ParentOf parent child) : graph.Below parent child :=
  .single (forest.child_iff.mpr step)

theorem depth_of_below {depth : String → ℕ}
    (decreases : ∀ parent child, graph.ParentOf parent child → depth child.nodeId < depth parent.nodeId)
    {top node : AstNode} (below : graph.Below top node) : depth node.nodeId < depth top.nodeId := by
  induction below with
  | single step => exact decreases _ _ (forest.child_iff.mp step)
  | tail _ step ih => exact (decreases _ _ (forest.child_iff.mp step)).trans ih

/-- A switch around a label has the label, or one of the switches inside it has. -/
theorem labelWithin_iff {switchNode label : AstNode} (switch : switchNode.nodeKind = .switchStmt) :
    LabelWithin graph switchNode label ↔ isCaseLabel label = true ∧ graph.Below switchNode label := by
  constructor
  · rintro ⟨inner, under, owns⟩
    exact ⟨owns.marks, Relation.TransGen.trans_right under owns.below⟩
  · rintro ⟨marks, below⟩
    obtain ⟨depth, decreases, _⟩ := forest.depth
    induction size : depth switchNode.nodeId using Nat.strong_induction_on generalizing switchNode with
    | _ level ih =>
        by_cases nested : ∃ inner, inner.nodeKind = .switchStmt ∧ graph.Below switchNode inner ∧
            graph.Below inner label
        · obtain ⟨inner, kind, inside, around⟩ := nested
          have smaller : depth inner.nodeId < level := by
            rw [← size]
            exact depth_of_below forest decreases inside
          obtain ⟨owner, under, owns⟩ := ih _ smaller kind around rfl
          exact ⟨owner, inside.to_reflTransGen.trans under, owns⟩
        · exact ⟨switchNode, .refl, switch, marks, below,
            fun inner kind inside around => nested ⟨inner, kind, inside, around⟩⟩

/-- No two switches have one label. -/
theorem LabelOf.unique {first second label : AstNode} (one : LabelOf graph first label)
    (other : LabelOf graph second label) : first = second := by
  rcases above_total forest one.below other.below with same | down | up
  · exact same
  · exact absurd other.below (one.innermost second other.switch down)
  · exact absurd one.below (other.innermost first one.switch up)

theorem parent_unique {first second child : AstNode} (one : graph.ParentOf first child)
    (other : graph.ParentOf second child) : first = second :=
  forest.wellFormed.unique one.1 other.1 (one.2.2.symm.trans other.2.2)

theorem below_parent {top parent child : AstNode} (step : graph.ParentOf parent child)
    (below : graph.Below top child) : graph.Under top parent := by
  obtain ⟨above, under, last⟩ := Relation.TransGen.tail'_iff.mp below
  rwa [parent_unique forest step (forest.child_iff.mp last)]

theorem below_irrefl (node : AstNode) : ¬ graph.Below node node := by
  intro cycle
  exact forest.acyclic node (forest.below_iff.mp cycle)

/-- A clause of a switch is a label of it. -/
theorem DirectClause.labelOf {switchNode label : AstNode} (clause : DirectClause graph switchNode label) :
    LabelOf graph switchNode label := by
  obtain ⟨body, block, above, around⟩ := clause.direct
  refine ⟨clause.switch, clause.marks, (child_of_parent forest above).trans (child_of_parent forest around), ?_⟩
  intro inner kind inside encloses
  rcases Relation.reflTransGen_iff_eq_or_transGen.mp (below_parent forest around encloses) with same | under
  · rw [same, kind] at block
    cases block
  · exact below_irrefl forest switchNode (inside.trans_left (below_parent forest above under))

theorem get_parent {child parent : AstNode} (present : child ∈ graph.nodes) :
    graph.get child.parentId = some parent ↔ graph.ParentOf parent child := by
  constructor
  · intro found
    obtain ⟨listed, named⟩ := AstGraph.get_eq_some found
    exact ⟨listed, present, named.symm⟩
  · intro step
    rw [step.2.2]
    exact forest.wellFormed.get step.1

theorem isDirectClause_iff {label : AstNode} (present : label ∈ graph.nodes) (marks : isCaseLabel label = true) :
    Rule16_2.isDirectClause label graph = true ↔ ∃ switchNode, DirectClause graph switchNode label := by
  rw [Rule16_2.isDirectClause, Option.any_eq_true]
  constructor
  · rintro ⟨body, found, placed⟩
    obtain ⟨block, placed⟩ := Bool.and_eq_true_iff.mp placed
    obtain ⟨switchNode, above, switch⟩ := (Option.any_eq_true ..).mp placed
    have around := (get_parent forest present).mp found
    exact ⟨switchNode, of_decide_eq_true switch, marks, body, of_decide_eq_true block,
      (get_parent forest around.1).mp above, around⟩
  · rintro ⟨switchNode, clause⟩
    obtain ⟨body, block, above, around⟩ := clause.direct
    refine ⟨body, (get_parent forest present).mpr around, ?_⟩
    rw [decide_eq_true block, Bool.true_and, (get_parent forest around.1).mpr above]
    exact decide_eq_true clause.switch

theorem mem_misplaced {label : AstNode} : label ∈ Rule16_2.misplaced graph ↔ label ∈ graph.nodes ∧
    isCaseLabel label = true ∧ ∀ switchNode, ¬ DirectClause graph switchNode label := by
  rw [Rule16_2.misplaced, List.mem_filter, Bool.and_eq_true, Bool.not_eq_true']
  refine and_congr_right fun present => and_congr_right fun marks => ?_
  rw [← Bool.not_eq_true, isDirectClause_iff forest present marks, not_exists]

theorem mem_withoutDefault {switchNode : AstNode} : switchNode ∈ Rule16_4.withoutDefault graph ↔
    switchNode ∈ graph.nodesByKind .switchStmt ∧
      ∀ label, LabelWithin graph switchNode label → label.nodeKind ≠ .defaultStmt := by
  rw [Rule16_4.withoutDefault, List.mem_filter, Bool.not_eq_true', List.any_eq_false]
  refine and_congr_right fun listed => ?_
  obtain ⟨present, switch⟩ := AstGraph.mem_nodesByKind.mp listed
  constructor
  · intro free label within kind
    have below := ((labelWithin_iff forest switch).mp within).2
    exact free label ((mem_below forest present).mpr below) (decide_eq_true kind)
  · intro free label inside default
    have kind := of_decide_eq_true default
    have marks : isCaseLabel label = true := by simp [isCaseLabel, kind]
    exact free label ((labelWithin_iff forest switch).mpr ⟨marks, (mem_below forest present).mp inside⟩) kind

/-- The rule misses a switch when one inside it has a default clause. -/
theorem default_missed {switchNode : AstNode} (listed : switchNode ∈ graph.nodesByKind .switchStmt)
    (lacks : ∀ label, LabelOf graph switchNode label → label.nodeKind ≠ .defaultStmt) :
    switchNode ∉ Rule16_4.withoutDefault graph ↔ ∃ inner label, graph.Below switchNode inner ∧
      LabelOf graph inner label ∧ label.nodeKind = .defaultStmt := by
  rw [mem_withoutDefault forest, not_and]
  constructor
  · intro missed
    obtain ⟨label, within⟩ := not_forall.mp (missed listed)
    obtain ⟨⟨inner, under, owns⟩, default⟩ := Classical.not_imp.mp within
    rcases Relation.reflTransGen_iff_eq_or_transGen.mp under with same | below
    · rw [same] at owns
      exact absurd (lacks label owns) default
    · exact ⟨inner, label, below, owns, not_not.mp default⟩
  · rintro ⟨inner, label, below, owns, default⟩ _ free
    exact free label ⟨inner, below.to_reflTransGen, owns⟩ default

theorem mem_withFewClauses {switchNode : AstNode} : switchNode ∈ Rule16_6.withFewClauses graph ↔
    switchNode ∈ graph.nodesByKind .switchStmt ∧ ∀ first second, LabelWithin graph switchNode first →
      LabelWithin graph switchNode second → first = second := by
  rw [Rule16_6.withFewClauses, List.mem_filter, decide_eq_true_eq]
  refine and_congr_right fun listed => ?_
  obtain ⟨present, switch⟩ := AstGraph.mem_nodesByKind.mp listed
  have labels : ∀ label, label ∈ (graph.descendants switchNode.nodeId).filter isCaseLabel ↔
      LabelWithin graph switchNode label := by
    intro label
    rw [List.mem_filter, mem_below forest present, labelWithin_iff forest switch, and_comm]
  have once : ((graph.descendants switchNode.nodeId).filter isCaseLabel).Nodup :=
    (forest.descendsExactly present).nodup.filter _
  rw [Rule16_6.clauseCount, List.countP_eq_length_filter]
  simp only [← labels]
  generalize (graph.descendants switchNode.nodeId).filter isCaseLabel = found at once
  match found with
  | [] => simp
  | [only] => simp
  | one :: other :: rest =>
      have differ : one ≠ other := by
        intro same
        simp [same] at once
      constructor
      · intro few
        simp at few
      · intro same
        exact absurd (same one other (by simp) (by simp)) differ

theorem misplaced_nil : Rule16_2.misplaced graph = [] ↔ LabelsDirect graph := by
  rw [List.eq_nil_iff_forall_not_mem]
  refine forall_congr' fun label => ?_
  rw [mem_misplaced forest, not_and, not_and]
  simp only [not_forall, not_not]

/-- The label is a clause of some switch, and only of the innermost one around it. -/
theorem labelOf_iff (direct : LabelsDirect graph) {switchNode label : AstNode} :
    LabelOf graph switchNode label ↔ DirectClause graph switchNode label := by
  constructor
  · intro owns
    obtain ⟨parent, step⟩ := parent_of_below forest owns.below
    obtain ⟨other, clause⟩ := direct label step.2.1 owns.marks
    rwa [owns.unique forest (clause.labelOf forest)]
  · exact fun clause => clause.labelOf forest

theorem mem_bodyCandidates {switchNode body : AstNode} (present : switchNode ∈ graph.nodes) :
    body ∈ bodyCandidates switchNode graph ↔ body.nodeKind = .compoundStmt ∧ graph.ParentOf switchNode body := by
  rw [bodyCandidates, List.mem_filter, decide_eq_true_eq, and_comm, ← forest.child_iff]
  exact and_congr_right fun _ => ⟨fun listed => ⟨present, listed⟩, fun step => step.2⟩

theorem mem_bodyClauses {body label : AstNode} (present : body ∈ graph.nodes) :
    label ∈ bodyClauses body graph ↔ isCaseLabel label = true ∧ graph.ParentOf body label := by
  rw [bodyClauses, List.mem_filter, and_comm, ← forest.child_iff]
  exact and_congr_right fun _ => ⟨fun listed => ⟨present, listed⟩, fun step => step.2⟩

/-- A switch with one block has clauses exactly if there are direct ones. -/
theorem switchHasNoClauses_iff {switchNode : AstNode} (listed : switchNode ∈ graph.nodesByKind .switchStmt)
    (single : (bodyCandidates switchNode graph).length ≤ 1) :
    switchHasNoClauses switchNode graph = true ↔ ∀ label, ¬ DirectClause graph switchNode label := by
  obtain ⟨present, switch⟩ := AstGraph.mem_nodesByKind.mp listed
  cases candidates : bodyCandidates switchNode graph with
  | nil =>
      rw [switchHasNoClauses, candidates]
      refine iff_of_true rfl fun label clause => ?_
      obtain ⟨body, block, above, _⟩ := clause.direct
      have listed := (mem_bodyCandidates forest present).mpr ⟨block, above⟩
      rw [candidates] at listed
      cases listed
  | cons body rest =>
      obtain rfl : rest = [] := by
        rw [candidates] at single
        exact List.eq_nil_of_length_eq_zero (by simpa using single)
      have only : ∀ other, other ∈ bodyCandidates switchNode graph ↔ other = body := by simp [candidates]
      have above := (mem_bodyCandidates forest present).mp ((only body).mpr rfl)
      rw [switchHasNoClauses, candidates]
      simp only [List.isEmpty_iff, List.eq_nil_iff_forall_not_mem, mem_bodyClauses forest above.2.2.1]
      refine forall_congr' fun label => not_congr ⟨fun inside => ?_, fun clause => ?_⟩
      · exact ⟨switch, inside.1, body, above.1, above.2, inside.2⟩
      · obtain ⟨other, block, upper, around⟩ := clause.direct
        obtain rfl := (only other).mp ((mem_bodyCandidates forest present).mpr ⟨block, upper⟩)
        exact ⟨clause.marks, around⟩

theorem mem_malformed (direct : LabelsDirect graph) {switchNode : AstNode}
    (listed : switchNode ∈ graph.nodesByKind .switchStmt) (plain : switchNode.truthy "switch_malformed" = false)
    (single : (bodyCandidates switchNode graph).length ≤ 1) :
    switchNode ∈ Rule16_1.malformed graph ↔ ∀ label, ¬ LabelOf graph switchNode label := by
  have blockless : (bodyCandidates switchNode graph).isEmpty = true → switchHasNoClauses switchNode graph = true := by
    intro empty
    rw [switchHasNoClauses, List.isEmpty_iff.mp empty]
  simp only [labelOf_iff forest direct]
  rw [← switchHasNoClauses_iff forest listed single, Rule16_1.malformed, List.mem_filter, switchIsMalformed, plain,
    Bool.false_or, Bool.or_eq_true]
  exact ⟨fun found => found.2.elim blockless id, fun bare => ⟨listed, .inr bare⟩⟩

end Labels

theorem mem_buried {context : RuleContext} {result : RuleResult} : result ∈ Rule16_5.detect context ↔
    ∃ switchNode ∈ (graph context).nodesByKind .switchStmt, ∃ body position clause,
      (bodyCandidates switchNode (graph context)).head? = some body ∧
        Buried (bodyClauses body (graph context)) position clause ∧
          result = Rule16_5.report context (bodyClauses body (graph context)) position clause := by
  rw [Rule16_5.detect, List.mem_flatMap]
  refine exists_congr fun switchNode => and_congr_right fun _ => ?_
  cases candidates : bodyCandidates switchNode (graph context) with
  | nil => simp [Rule16_5.detectSwitch, candidates]
  | cons body rest =>
      have detected : Rule16_5.detectSwitch context switchNode =
          (Rule16_5.buried (bodyClauses body (graph context))).toList.map fun found =>
            Rule16_5.report context (bodyClauses body (graph context)) found.1 found.2 := by
        rw [Rule16_5.detectSwitch, candidates]
      rw [detected, List.mem_map]
      constructor
      · rintro ⟨⟨position, clause⟩, found, rfl⟩
        exact ⟨body, position, clause, rfl, Buried.of_found (Option.mem_toList.mp found), rfl⟩
      · rintro ⟨first, position, clause, head, lies, rfl⟩
        obtain rfl := Option.some.inj head
        exact ⟨(position, clause), Option.mem_toList.mpr lies.found, rfl⟩

theorem clausesJudged {context : RuleContext} (forest : (graph context).Forest) : ClausesJudged context where
  silent := by rw [Rule16_2.detect, List.map_eq_nil_iff, misplaced_nil forest]
  direct := fun direct _ _ => labelOf_iff forest direct
  malformed := fun direct _ listed plain single => mem_malformed forest direct listed plain single

/-- The five rules on switches, over every forest: what they report is told by the labels that a switch owns. -/
theorem switches_judged {context : RuleContext} (forest : (graph context).Forest) :
    LabelsJudged context ∧ ClausesJudged context :=
  ⟨{ misplaced := fun _ => mem_misplaced forest
     withoutDefault := fun _ => mem_withoutDefault forest
     missed := fun _ listed lacks => default_missed forest listed lacks
     fewClauses := fun _ => mem_withFewClauses forest
     buried := fun _ => mem_buried }, clausesJudged forest⟩

/-! ### A switch in a switch -/

open Clang in
/-- The unit is `void f(void) { switch (1) { case 1: switch (2) { default: ; } } }`. -/
def nestedUnit : TranslationUnit where
  decls := [.mk { address := 10, form := .function "f" 10 .scNone .externalLinkage (some
    (.mk { address := 1, form := .compoundStmt }
      [.mk { address := 2, form := .switchStmt }
        [.mk { address := 3, form := .integerLiteral "1" } [],
          .mk { address := 4, form := .compoundStmt }
            [.mk { address := 5, form := .caseStmt }
              [.mk { address := 6, form := .integerLiteral "1" } [],
                .mk { address := 7, form := .switchStmt }
                  [.mk { address := 8, form := .integerLiteral "2" } [],
                    .mk { address := 9, form := .compoundStmt }
                      [.mk { address := 11, form := .defaultStmt }
                        [.mk { address := 12, form := .other "NullStmt" } []]]]]]]])) } []]

def nestedContext : RuleContext :=
  ⟨"nested.c", (AstSerializer.decoded ruleEngineSpelling nestedUnit).nodes⟩

def nestedNode (count : ℕ) : AstNode :=
  ((graph nestedContext).get (AstSerializer.nodeId count)).getD { nodeId := "", nodeKind := .switchStmt }

theorem nestedForest : (graph nestedContext).Forest :=
  AstSerializer.decoded_forest ruleEngineSpelling nestedUnit

/-- The default clause below the outer switch stands below the inner one. -/
theorem nested_defaults : ∀ label ∈ (graph nestedContext).descendants (nestedNode 3).nodeId,
    label.nodeKind = .defaultStmt → label ∈ (graph nestedContext).descendants (nestedNode 8).nodeId := by
  decide

theorem nested_undefaulted {label : AstNode} (owns : LabelOf (graph nestedContext) (nestedNode 3) label) :
    label.nodeKind ≠ .defaultStmt := by
  intro default
  have outer : nestedNode 3 ∈ (graph nestedContext).nodes := by decide
  have inner : nestedNode 8 ∈ (graph nestedContext).nodes := by decide
  have inside : nestedNode 8 ∈ (graph nestedContext).descendants (nestedNode 3).nodeId := by decide
  have below := nested_defaults label ((mem_below nestedForest outer).mpr owns.below) default
  exact owns.innermost (nestedNode 8) (by decide) ((mem_below nestedForest outer).mp inside)
    ((mem_below nestedForest inner).mp below)

/-- The outer switch has no default clause, and the rule is silent. -/
theorem switches_judged_nested : (LabelsJudged nestedContext ∧ ClausesJudged nestedContext) ∧
    nestedNode 3 ∈ (graph nestedContext).nodesByKind .switchStmt ∧
      (∀ label, LabelOf (graph nestedContext) (nestedNode 3) label → label.nodeKind ≠ .defaultStmt) ∧
        Rule16_4.withoutDefault (graph nestedContext) = [] :=
  ⟨switches_judged nestedForest, by decide, fun _ => nested_undefaulted, by decide⟩

end MisraPlatform
