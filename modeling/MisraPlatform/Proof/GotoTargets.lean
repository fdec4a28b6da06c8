import MisraPlatform.Library.KeepFirst
import MisraPlatform.Proof.Coverage
import MisraPlatform.Proof.Traversals
import MisraPlatform.Semantics.ControlStatements
import MisraPlatform.Semantics.Path

/-
This file says which gotos of an AST lead to their labels in the graph, and which of them leave the scope of the label
for the rules.
-/

namespace MisraPlatform
open CFGEngine CFGBuilder

/-! ### Names -/

/-- A name with one block is looked up to that block. -/
theorem lookup_only {name : String} {block : BlockId} {entries : List (String × BlockId)}
    (inside : (name, block) ∈ entries) (only : ∀ other, (name, other) ∈ entries → other = block) :
    entries.lookup name = some block := by
  cases found : entries.lookup name with
  | none => simpa using List.lookup_eq_none_iff.mp found _ inside
  | some other =>
      obtain ⟨front, back, same, _⟩ := List.lookup_eq_some_iff.mp found
      rw [only other (by rw [same]; simp)]

theorem mem_labelBlocks {spots : List (AstNode × Point)} {name : String} {block : BlockId} :
    (name, block) ∈ labelBlocks spots ↔ ∃ entry ∈ spots, entry.1.nodeKind = .labelStmt ∧
      labelName entry.1 = name ∧ entry.2.1 = block := by
  induction spots with
  | nil => simp
  | cons entry rest ih =>
      obtain ⟨statement, spot⟩ := entry
      by_cases kind : statement.nodeKind = .labelStmt
      · rw [labelBlocks_label kind, List.mem_cons, ih]
        simp only [List.exists_mem_cons_iff, kind, true_and, Prod.mk.injEq]
        exact or_congr (and_congr eq_comm eq_comm) Iff.rfl
      · rw [labelBlocks_other kind, ih]
        simp only [List.exists_mem_cons_iff, kind, false_and, false_or]

/-- The name of a label leads to its block when no other label has the name. -/
theorem spotBlock_label {spots : List (AstNode × Point)} {label : AstNode} {point : Point}
    (inside : (label, point) ∈ spots) (kind : label.nodeKind = .labelStmt)
    (only : ∀ entry ∈ spots, entry.1.nodeKind = .labelStmt → labelName entry.1 = labelName label →
      entry.2.1 = point.1) : spotBlock spots (labelName label) = point.1 := by
  have listed : (labelName label, point.1) ∈ labelBlocks spots :=
    mem_labelBlocks.mpr ⟨(label, point), inside, kind, rfl, rfl⟩
  have found : (labelBlocks spots).reverse.lookup (labelName label) = some point.1 := by
    apply lookup_only (List.mem_reverse.mpr listed)
    intro other reversed
    obtain ⟨entry, known, labels, named, rfl⟩ := mem_labelBlocks.mp (List.mem_reverse.mp reversed)
    exact only entry known labels named
  rw [spotBlock, found]
  rfl

/-- A name that no label has leads to the exit. -/
theorem spotBlock_missing {spots : List (AstNode × Point)} {name : String}
    (missing : ∀ entry ∈ spots, entry.1.nodeKind = .labelStmt → labelName entry.1 ≠ name) :
    spotBlock spots name = .exit := by
  have nothing : (labelBlocks spots).reverse.lookup name = none := by
    rw [List.lookup_eq_none_iff]
    intro entry inside
    obtain ⟨key, block⟩ := entry
    obtain ⟨spot, listed, kind, named, _⟩ := mem_labelBlocks.mp (List.mem_reverse.mp inside)
    simpa [named] using (missing spot listed kind).symm
  rw [spotBlock, nothing]
  rfl

/-! ### Gotos and labels -/

/-- The goto names the label. -/
structure Names (goto label : AstNode) : Prop where
  jumps : goto.nodeKind = .gotoStmt
  marks : label.nodeKind = .labelStmt
  same : labelName label = targetLabel goto

/-- The block of the goto has an edge to the block that begins with the label. -/
def ControlFlowGraph.Jumps (cfg : ControlFlowGraph) (goto label : AstNode) : Prop :=
  ∃ source target, goto ∈ cfg.statementsOf source ∧ (cfg.statementsOf target).head? = some label ∧
    ⟨source, target, .gotoEdge, some (targetLabel goto)⟩ ∈ cfg.edges

/-- Two labels of a function differ in their names. -/
def LabelsDistinct (graph : AstGraph) (functionNode : AstNode) : Prop :=
  ∀ kept still first second, Stands graph functionNode kept first →
    Stands graph functionNode still second → first.nodeKind = .labelStmt →
    second.nodeKind = .labelStmt → labelName first = labelName second → first = second

/-- Every goto has its edge, the edge leads to the label if there is one, and only a goto without a
label leads to the exit. -/
structure GotosResolved (graph : AstGraph) (functionNode : AstNode) (cfg : ControlFlowGraph) : Prop where
  labels : ∀ kept still goto label, Stands graph functionNode kept goto →
    Stands graph functionNode still label → Names goto label → cfg.Jumps goto label
  wired : ∀ kept goto, Stands graph functionNode kept goto → goto.nodeKind = .gotoStmt →
    ∃ source, goto ∈ cfg.statementsOf source ∧ ∃ edge ∈ cfg.successors source, edge.kind = .gotoEdge
  exits : ∀ kept still goto label, Stands graph functionNode kept goto →
    Stands graph functionNode still label → Names goto label →
    ∀ source, goto ∈ cfg.statementsOf source → ∀ edge ∈ cfg.successors source, edge.target ≠ .exit

/-- The builder gets to every goto and to every label that a goto names. -/
structure GotosVisited (graph : AstGraph) (functionNode : AstNode) : Prop where
  gotos : ∀ kept goto, Stands graph functionNode kept goto → goto.nodeKind = .gotoStmt → kept = true
  labels : ∀ kept still goto label, Stands graph functionNode kept goto →
    Stands graph functionNode still label → Names goto label → still = true

section Resolved

variable {cfg : ControlFlowGraph} {body : Code}

/-- The one edge of a goto leads where its name leads. -/
theorem goto_closes {first : BlockId} {last : Point} {spots : List (AstNode × Point)}
    (lays : LaysOut cfg body body.fed first last spots) (kinded : body.Kinded) {goto : AstNode}
    (inside : goto ∈ body.nodes) (kind : goto.nodeKind = .gotoStmt) :
    ∃ point, cfg.Closes point goto
      [⟨point.1, spotBlock spots (targetLabel goto), .gotoEdge, some (targetLabel goto)⟩] := by
  obtain ⟨state, listed⟩ := node_position inside
  obtain ⟨lead, rest, next, rfl⟩ := simple_position kinded listed (by rw [kind]; rfl)
  obtain ⟨point, _, matched⟩ := lays.spot kinded listed
  obtain ⟨stack, final, closes, _⟩ := State.jump_closes matched.laid (by rw [kind]; rfl)
  refine ⟨point, ?_⟩
  simpa only [jumpEdges, kind] using closes

/-- A label that the builder visits begins the block of its name. -/
theorem label_begins (represents : Represents cfg body) {first : BlockId} {last : Point}
    {spots : List (AstNode × Point)} (lays : LaysOut cfg body body.fed first last spots)
    {label : AstNode} (inside : label ∈ body.nodes) (kind : label.nodeKind = .labelStmt)
    (only : ∀ other ∈ body.nodes, other.nodeKind = .labelStmt → labelName other = labelName label →
      other = label) :
    (cfg.statementsOf (spotBlock spots (labelName label))).head? = some label := by
  have nodes := lays.spots_nodes represents.kinded
  have distinct : (spots.map Prod.fst).Nodup := nodes ▸ represents.nodup
  rw [← nodes] at inside
  obtain ⟨⟨same, point⟩, listed, rfl⟩ := List.mem_map.mp inside
  have found := spotBlock_label listed kind fun entry known labels named => by
    have equal := only entry.1 (nodes ▸ List.mem_map_of_mem known) labels named
    exact congrArg (fun pair => pair.2.1) (List.inj_on_of_nodup_map distinct known listed equal)
  have seated := body.seated [] (first, 0) last spots represents.kinded lays.laid _ listed
  have holds : (cfg.statementsOf point.1)[point.2]? = some same := seated.holds
  rw [seated.first kind] at holds
  rw [found, List.head?_eq_getElem?]
  exact holds

end Resolved

/-- The gotos of a function are resolved exactly when the builder visits them and their labels. -/
theorem build_gotos_iff {graph : AstGraph} (wellFormed : graph.WellFormed) (shaped : SwitchesShaped graph)
    {functionNode : AstNode} (present : functionNode ∈ graph.nodes)
    (declares : functionNode.nodeKind = .functionDecl) (distinct : LabelsDistinct graph functionNode) :
    ∃ cfg, build functionNode graph = some cfg ∧
      (GotosResolved graph functionNode cfg ↔ GotosVisited graph functionNode) := by
  obtain ⟨cfg, body, reads⟩ := build_reads wellFormed functionNode
  have nodes := mem_nodes_iff wellFormed shaped present declares reads.read
  have visited : ∀ {kept : Bool} {statement : AstNode} {block : BlockId},
      Stands graph functionNode kept statement → statement ∈ cfg.statementsOf block → kept = true := by
    intro kept statement block stands held
    have listed := (nodes statement).mp (reads.inside block statement held)
    exact (stands.unique wellFormed present declares present declares listed.1).2
  refine ⟨cfg, reads.built, fun resolved => ⟨fun kept goto stands kind => ?_,
    fun kept still goto label stands labelled names => ?_⟩, fun visits => ?_⟩
  · obtain ⟨source, held, _⟩ := resolved.wired kept goto stands kind
    exact visited stands held
  · obtain ⟨_, target, _, head, _⟩ := resolved.labels kept still goto label stands labelled names
    exact visited labelled (List.mem_of_mem_head? head)
  · have inside : ∀ {goto : AstNode} {kept : Bool}, Stands graph functionNode kept goto →
        goto.nodeKind = .gotoStmt → goto ∈ body.nodes := by
      intro goto kept stands kind
      obtain rfl := visits.gotos kept goto stands kind
      exact (nodes goto).mpr ⟨stands, by simp [kind]⟩
    have wires : ∀ kept still goto label, Stands graph functionNode kept goto →
        Stands graph functionNode still label → Names goto label → ∃ source target,
          goto ∈ cfg.statementsOf source ∧ (cfg.statementsOf target).head? = some label ∧
          cfg.successors source = [⟨source, target, .gotoEdge, some (targetLabel goto)⟩] := by
      intro kept still goto label stands labelled names
      have listed := inside stands names.jumps
      have represents := reads.represents wellFormed listed
      obtain ⟨first, last, spots, lays⟩ := represents.lays
      obtain ⟨point, closes⟩ := goto_closes lays represents.kinded listed names.jumps
      obtain rfl := visits.labels kept still goto label stands labelled names
      have head := label_begins represents lays
        ((nodes label).mpr ⟨labelled, by simp [names.marks]⟩) names.marks fun other known kind same =>
          distinct true true other label ((nodes other).mp known).1 labelled kind names.marks same
      rw [names.same] at head
      exact ⟨point.1, _, List.mem_of_getElem? closes.1, head, closes.2.2⟩
    refine ⟨fun kept still goto label stands labelled names => ?_, fun kept goto stands kind => ?_,
      fun kept still goto label stands labelled names source held edge leaves => ?_⟩
    · obtain ⟨source, target, held, head, alone⟩ :=
        wires kept still goto label stands labelled names
      have leaves : (⟨source, target, .gotoEdge, some (targetLabel goto)⟩ : CFGEdge) ∈
          cfg.successors source := by
        rw [alone]
        exact List.mem_singleton.mpr rfl
      exact ⟨source, target, held, head, (ControlFlowGraph.mem_successors.mp leaves).1⟩
    · have listed := inside stands kind
      have represents := reads.represents wellFormed listed
      obtain ⟨first, last, spots, lays⟩ := represents.lays
      obtain ⟨point, closes⟩ := goto_closes lays represents.kinded listed kind
      refine ⟨point.1, List.mem_of_getElem? closes.1, ?_⟩
      rw [closes.2.2]
      exact ⟨_, List.mem_singleton.mpr rfl, rfl⟩
    · obtain ⟨other, target, here, head, alone⟩ :=
        wires kept still goto label stands labelled names
      have represents := reads.represents wellFormed (inside stands names.jumps)
      obtain rfl := represents.places.once source other goto held here
      rw [alone, List.mem_singleton] at leaves
      rw [leaves]
      rintro rfl
      obtain ⟨first, last, spots, lays⟩ := represents.lays
      rw [lays.bounds.2] at head
      exact absurd head (by simp)

/-! ### A label before the first case -/

/-- These are the nodes of `f() { switch (c) { again: case 1: } goto again; }`. -/
def earlyFunction : AstNode := { nodeId := "f", nodeKind := .functionDecl, childrenIds := ["b"] }

def earlySwitch : AstNode :=
  { nodeId := "s", nodeKind := .switchStmt, parentId := "b", childrenIds := ["c", "g"] }

def earlyGroup : AstNode :=
  { nodeId := "g", nodeKind := .compoundStmt, parentId := "s", childrenIds := ["l", "k"] }

def earlyLabel : AstNode :=
  { nodeId := "l", nodeKind := .labelStmt, parentId := "g", semanticProperties := [("name", "again")] }

def earlyGoto : AstNode :=
  { nodeId := "j", nodeKind := .gotoStmt, parentId := "b",
    semanticProperties := [("target_label", "again")] }

def earlyGraph : AstGraph where
  nodes :=
    [earlyFunction,
      { nodeId := "b", nodeKind := .compoundStmt, parentId := "f", childrenIds := ["s", "j"] },
      earlySwitch, { nodeId := "c", nodeKind := .declRefExpr, parentId := "s" }, earlyGroup, earlyLabel,
      { nodeId := "k", nodeKind := .caseStmt, parentId := "g" }, earlyGoto]

theorem earlyGraph_wellFormed : earlyGraph.WellFormed := by
  apply AstGraph.WellFormed.of_order <;> decide

theorem earlyGraph_shaped : SwitchesShaped earlyGraph := by
  unfold SwitchesShaped
  decide

theorem earlyGraph_distinct : LabelsDistinct earlyGraph earlyFunction := by
  have only : ∀ node ∈ earlyGraph.nodes, node.nodeKind = .labelStmt → node = earlyLabel := by decide
  intro kept still first second stands labelled kind marks _
  rw [only first stands.present kind, only second labelled.present marks]

theorem earlyLabel_stands : Stands earlyGraph earlyFunction false earlyLabel := by
  have outer : Stands earlyGraph earlyFunction true earlySwitch := .top (by decide)
  have group : Stands earlyGraph earlyFunction true earlyGroup :=
    outer.nested (Passes.switch rfl (by decide))
  exact group.nested (Passes.early rfl (by decide) (by decide))

/-- The goto leads to the exit, and its label stands in the same function. -/
theorem earlyLabel_missed :
    LabelsDistinct earlyGraph earlyFunction ∧ Stands earlyGraph earlyFunction true earlyGoto ∧
      Stands earlyGraph earlyFunction false earlyLabel ∧ Names earlyGoto earlyLabel ∧
      ∃ cfg, build earlyFunction earlyGraph = some cfg ∧ ¬ GotosResolved earlyGraph earlyFunction cfg ∧
        ∃ source, earlyGoto ∈ cfg.statementsOf source ∧
          ⟨source, .exit, .gotoEdge, some "again"⟩ ∈ cfg.edges := by
  have stands : Stands earlyGraph earlyFunction true earlyGoto := .top (by decide)
  have names : Names earlyGoto earlyLabel := ⟨rfl, rfl, by decide⟩
  have written : (build earlyFunction earlyGraph).map (fun cfg =>
      (cfg.statementsOf (.block 2), cfg.edges.contains ⟨.block 2, .exit, .gotoEdge, some "again"⟩)) =
      some ([earlyGoto], true) := by decide
  obtain ⟨cfg, built, same⟩ := Option.map_eq_some_iff.mp written
  obtain ⟨statements, leaves⟩ := Prod.mk.inj same
  have held : earlyGoto ∈ cfg.statementsOf (.block 2) := statements ▸ List.mem_singleton_self _
  have edge := List.contains_iff_mem.mp leaves
  refine ⟨earlyGraph_distinct, stands, earlyLabel_stands, names, cfg, built, fun resolved => ?_,
    .block 2, held, edge⟩
  exact resolved.exits true false _ _ stands earlyLabel_stands names _ held _
    (ControlFlowGraph.mem_successors.mpr ⟨edge, rfl⟩) rfl

/-- The equivalence holds of the early label. -/
theorem build_gotos_iff_early :
    ∃ cfg, build earlyFunction earlyGraph = some cfg ∧
      (GotosResolved earlyGraph earlyFunction cfg ↔ GotosVisited earlyGraph earlyFunction) :=
  build_gotos_iff earlyGraph_wellFormed earlyGraph_shaped (by decide) rfl earlyGraph_distinct

/-! ### Scopes -/

section Scopes

variable {graph : AstGraph}

/-- A name leads to a label of the function that has it, and to the only one if there is one. -/
theorem labelsByName_spec (functionNode : AstNode) {name : String} :
    (∀ label, (Rule15_2.labelsByName functionNode graph).get? name = some label →
      label ∈ labels functionNode graph ∧ label.property "name" "" = name) ∧
    ∀ label ∈ labels functionNode graph, label.property "name" "" = name →
      (∀ other ∈ labels functionNode graph, other.property "name" "" = name → other = label) →
      (Rule15_2.labelsByName functionNode graph).get? name = some label := by
  have folded := OrderedDict.get?_foldl_insert
    ((labels functionNode graph).map fun label => (label.property "name" "", label)) .empty name
  rw [List.foldl_map, OrderedDict.get?_empty, Option.or_none] at folded
  have listed : ∀ label, (name, label) ∈ ((labels functionNode graph).map fun label =>
      (label.property "name" "", label)).reverse ↔
        label ∈ labels functionNode graph ∧ label.property "name" "" = name := by
    intro label
    simp [and_comm]
  have sound : ∀ label, (Rule15_2.labelsByName functionNode graph).get? name = some label →
      label ∈ labels functionNode graph ∧ label.property "name" "" = name := by
    intro label found
    obtain ⟨front, back, same, _⟩ := List.lookup_eq_some_iff.mp (folded.symm.trans found)
    exact (listed label).mp (by rw [same]; simp)
  refine ⟨sound, fun label inside named only => ?_⟩
  cases found : (Rule15_2.labelsByName functionNode graph).get? name with
  | none =>
      have absent := List.lookup_eq_none_iff.mp (folded.symm.trans found) _ ((listed label).mpr ⟨inside, named⟩)
      simp at absent
  | some other => exact congrArg some (only other (sound other found).1 (sound other found).2)

variable (forest : graph.Forest)

include forest

/-- The chain of a node has the ids of the nodes above it. -/
theorem mem_enclosingScopeChain {node parent top : AstNode} (step : graph.ParentOf parent node)
    (present : top ∈ graph.nodes) :
    top.nodeId ∈ node.parentId :: Rule15_2.enclosingScopeChain node graph ↔ graph.Below top node := by
  obtain ⟨path, down⟩ := forest.exists_rootPath step.1
  have bound := down.length_le forest
  have chain : Rule15_2.enclosingScopeChain node graph = path.reverse := by
    rw [Rule15_2.enclosingScopeChain, step.2.2]
    exact down.climb forest (by omega)
  have itself : node.parentId ∈ path := by
    rw [step.2.2, down.mem_iff forest step.1]
    exact .inl rfl
  have inside : top.nodeId ∈ node.parentId :: path.reverse ↔ top.nodeId ∈ path := by
    rw [List.mem_cons, List.mem_reverse]
    exact ⟨fun either => either.elim (fun same => same ▸ itself) id, .inr⟩
  rw [chain, inside, down.mem_iff forest present, forest.below_iff]
  constructor
  · rintro (rfl | lower)
    · exact .single step
    · exact lower.tail step
  · intro lower
    obtain ⟨other, further, last⟩ := Relation.TransGen.tail'_iff.mp lower
    obtain rfl : other = parent := forest.wellFormed.unique last.1 step.1 (last.2.2.symm.trans step.2.2)
    exact (Relation.reflTransGen_iff_eq_or_transGen.mp further).imp_left Eq.symm

theorem crosses_iff {goto label inner outer : AstNode} (above : graph.ParentOf inner goto)
    (around : graph.ParentOf outer label) : Rule15_2.crosses graph goto label = true ↔ ¬ graph.Below outer goto := by
  rw [Rule15_2.crosses, decide_eq_true_eq, around.2.2, mem_enclosingScopeChain forest above around.1]

theorem mem_below {functionNode node : AstNode} (present : functionNode ∈ graph.nodes) :
    node ∈ graph.descendants functionNode.nodeId ↔ graph.Below functionNode node := by
  rw [(forest.descendsExactly present).members, forest.below_iff]

theorem parent_of_below {top node : AstNode} (lower : graph.Below top node) :
    ∃ parent, graph.ParentOf parent node := by
  obtain ⟨parent, _, step⟩ := Relation.TransGen.tail'_iff.mp lower
  exact ⟨parent, forest.child_iff.mp step⟩

variable {functionNode : AstNode} (present : functionNode ∈ graph.nodes)

include present

/-- The pairs are the gotos with a label that has another node above it than the goto. -/
theorem mem_crossing {goto label : AstNode} :
    (goto, label) ∈ Rule15_2.gotoLabelPairsCrossingScope functionNode graph ↔
      goto ∈ gotoTargets functionNode graph ∧
        (Rule15_2.labelsByName functionNode graph).get? (targetLabel goto) = some label ∧
          ∀ parent, graph.ParentOf parent label → ¬ graph.Below parent goto := by
  rw [Rule15_2.gotoLabelPairsCrossingScope, List.mem_filterMap]
  have decided : goto ∈ gotoTargets functionNode graph →
      (Rule15_2.labelsByName functionNode graph).get? (targetLabel goto) = some label →
        (Rule15_2.crosses graph goto label = true ↔
          ∀ parent, graph.ParentOf parent label → ¬ graph.Below parent goto) := by
    intro jump found
    have marked := ((labelsByName_spec functionNode).1 label found).1
    obtain ⟨inner, above⟩ := parent_of_below forest ((mem_below forest present).mp (List.mem_filter.mp jump).1)
    obtain ⟨outer, around⟩ := parent_of_below forest ((mem_below forest present).mp (List.mem_filter.mp marked).1)
    rw [crosses_iff forest above around]
    constructor
    · intro outside parent step
      rwa [forest.wellFormed.unique step.1 around.1 (step.2.2.symm.trans around.2.2)]
    · exact fun outside => outside outer around
  constructor
  · rintro ⟨jump, inside, paired⟩
    obtain ⟨other, found, paired⟩ := Option.bind_eq_some_iff.mp paired
    split at paired
    · rename_i crossing
      cases paired
      exact ⟨inside, found, (decided inside found).mp crossing⟩
    · cases paired
  · rintro ⟨inside, found, outside⟩
    refine ⟨goto, inside, ?_⟩
    rw [found, Option.bind_some, if_pos ((decided inside found).mpr outside)]

omit present in
/-- A goto below the parent of a label stands in all the blocks around the label. -/
theorem inScope_of_below {goto label parent : AstNode} (around : graph.ParentOf parent label)
    (lower : graph.Below parent goto) : InScope graph goto label := by
  intro other _ above
  obtain ⟨middle, further, step⟩ := Relation.TransGen.tail'_iff.mp above
  have last := forest.child_iff.mp step
  obtain rfl := forest.wellFormed.unique last.1 around.1 (last.2.2.symm.trans around.2.2)
  exact lower.trans_right further

omit present in
/-- Of the nodes around a label only its parent decides about its scope. -/
theorem inScope_iff {goto label parent : AstNode} (around : graph.ParentOf parent label)
    (block : parent.nodeKind = .compoundStmt) : InScope graph goto label ↔ graph.Below parent goto :=
  ⟨fun inScope => inScope parent block (.single (forest.child_iff.mpr around)),
    inScope_of_below forest around⟩

omit present in
/-- The parent of a label is above the goto unless a block of the label is not, or the parent is no block. -/
theorem above_iff {goto label parent : AstNode} (around : graph.ParentOf parent label) :
    ¬ graph.Below parent goto ↔
      ¬ InScope graph goto label ∨ parent.nodeKind ≠ .compoundStmt ∧ ¬ graph.Below parent goto := by
  constructor
  · intro outside
    by_cases block : parent.nodeKind = .compoundStmt
    · exact .inl (mt (inScope_iff forest around block).mp outside)
    · exact .inr ⟨block, outside⟩
  · rintro (hidden | ⟨_, outside⟩)
    · exact mt (inScope_of_below forest around) hidden
    · exact outside

omit present in
/-- Of two nodes above one node one is above the other. -/
theorem above_total {first second node : AstNode} (upper : graph.Below first node)
    (lower : graph.Below second node) : first = second ∨ graph.Below first second ∨ graph.Below second first := by
  have single : Relator.RightUnique (Function.swap graph.Child) := by
    intro child above around step other
    have one := forest.child_iff.mp step
    have another := forest.child_iff.mp other
    exact forest.wellFormed.unique one.1 another.1 (one.2.2.symm.trans another.2.2)
  have climbs : ∀ {top : AstNode}, graph.Below top node →
      Relation.ReflTransGen (Function.swap graph.Child) node top :=
    fun below => Relation.reflTransGen_swap.mpr below.to_reflTransGen
  rcases Relation.ReflTransGen.total_of_right_unique single (climbs upper) (climbs lower) with up | down
  · rcases Relation.reflTransGen_iff_eq_or_transGen.mp (Relation.reflTransGen_swap.mp up) with rfl | below
    · exact .inl rfl
    · exact .inr (.inr below)
  · rcases Relation.reflTransGen_iff_eq_or_transGen.mp (Relation.reflTransGen_swap.mp down) with rfl | below
    · exact .inl rfl
    · exact .inr (.inl below)

/-- A pair starts with a goto of the function, and a goto starts one pair at most. -/
theorem crossing_gotos : ((Rule15_2.gotoLabelPairsCrossingScope functionNode graph).map Prod.fst).Nodup := by
  refine (map_filterMap_sublist (fun goto pair paired => ?_) _).nodup
    ((forest.descendsExactly present).nodup.filter _)
  obtain ⟨label, _, crossing⟩ := Option.bind_eq_some_iff.mp paired
  split at crossing
  · cases crossing
    rfl
  · cases crossing

end Scopes

section Pairs
open BaseRulePlugin

/-- A goto of two functions is a goto of one of them inside the other. -/
theorem offending_gotos {graph : AstGraph} (forest : graph.Forest) (apart : FunctionsApart graph) :
    ((Rule15_2.offending graph).map Prod.fst).Nodup := by
  have functions : ∀ functionNode ∈ graph.nodesByKind .functionDecl, functionNode ∈ graph.nodes :=
    fun functionNode inside => (List.mem_filter.mp inside).1
  rw [Rule15_2.offending, List.map_flatMap]
  refine List.nodup_flatMap.mpr ⟨fun functionNode inside => crossing_gotos forest (functions _ inside), ?_⟩
  have distinct : (graph.nodesByKind .functionDecl).Nodup := (List.Nodup.of_map AstNode.nodeId forest.ids).filter _
  refine distinct.pairwise_of_forall_ne ?_
  intro first inside second among differ
  refine List.disjoint_left.mpr ?_
  intro goto one another
  have above : ∀ {functionNode : AstNode}, functionNode ∈ graph.nodesByKind .functionDecl →
      goto ∈ (Rule15_2.gotoLabelPairsCrossingScope functionNode graph).map Prod.fst →
        graph.Below functionNode goto := by
    intro functionNode known listed
    obtain ⟨pair, crossing, rfl⟩ := List.mem_map.mp listed
    have jump := ((mem_crossing forest (functions _ known)).mp crossing).1
    exact (mem_below forest (functions _ known)).mp (List.mem_filter.mp jump).1
  rcases above_total forest (above inside one) (above among another) with same | down | up
  · exact differ same
  · exact apart first inside second among down
  · exact apart second among first inside up

/-- The two rules on gotos and scopes report the gotos and the labels of the same pairs. -/
theorem gotos_crossing {context : RuleContext} (forest : (graph context).Forest) :
    ∃ pairs, Crossings (graph context) pairs ∧
      Rule15_2.detect context = pairs.map (fun pair => Rule15_2.report context pair.1) ∧
        Rule15_3.detect context = pairs.map (fun pair => Rule15_3.report context pair.2) := by
  have functions : ∀ functionNode ∈ (graph context).nodesByKind .functionDecl,
      functionNode ∈ (graph context).nodes := fun functionNode inside => (List.mem_filter.mp inside).1
  have listed : ∀ pair, pair ∈ Rule15_2.offending (graph context) ↔
      ∃ functionNode ∈ (graph context).nodesByKind .functionDecl,
        pair ∈ Rule15_2.gotoLabelPairsCrossingScope functionNode (graph context) :=
    fun pair => List.mem_flatMap
  refine ⟨Rule15_2.offending (graph context), ⟨?_, ?_, offending_gotos forest, ?_⟩, rfl, rfl⟩
  · intro pair inside
    obtain ⟨functionNode, known, crossing⟩ := (listed pair).mp inside
    obtain ⟨jump, found, _⟩ := (mem_crossing forest (functions _ known)).mp crossing
    obtain ⟨marked, named⟩ := (labelsByName_spec functionNode).1 _ found
    obtain ⟨lower, jumps⟩ := List.mem_filter.mp jump
    obtain ⟨under, marks⟩ := List.mem_filter.mp marked
    exact ⟨functionNode, known, of_decide_eq_true jumps, of_decide_eq_true marks,
      (mem_below forest (functions _ known)).mp lower, (mem_below forest (functions _ known)).mp under, named⟩
  · intro pair inside
    obtain ⟨functionNode, known, crossing⟩ := (listed pair).mp inside
    exact ((mem_crossing forest (functions _ known)).mp crossing).2.2
  · intro functionNode known goto label parent target around
    rw [← above_iff forest around]
    constructor
    · intro inside
      obtain ⟨other, among, crossing⟩ := (listed (goto, label)).mp inside
      exact ((mem_crossing forest (functions _ among)).mp crossing).2.2 parent around
    · intro outside
      have below : ∀ node, node ∈ (graph context).descendants functionNode.nodeId ↔
          (graph context).Below functionNode node := fun _ => mem_below forest (functions _ known)
      refine (listed _).mpr ⟨functionNode, known, (mem_crossing forest (functions _ known)).mpr ⟨?_, ?_, ?_⟩⟩
      · exact List.mem_filter.mpr ⟨(below _).mpr target.gotoBelow, by simp [target.jumps]⟩
      · apply (labelsByName_spec functionNode).2 label _ target.named
        · intro other marked same
          obtain ⟨lower, marks⟩ := List.mem_filter.mp marked
          exact target.only other (of_decide_eq_true marks) ((below _).mp lower) same
        · exact List.mem_filter.mpr ⟨(below _).mpr target.labelBelow, by simp [target.marks]⟩
      · intro above step
        rwa [forest.wellFormed.unique step.1 around.1 (step.2.2.symm.trans around.2.2)]

def scopedFunction : AstNode := { nodeId := "f", nodeKind := .functionDecl, childrenIds := ["b"] }

def inwardGoto : AstNode :=
  { nodeId := "in", nodeKind := .gotoStmt, parentId := "b", semanticProperties := [("target_label", "inner")] }

def innerBlock : AstNode :=
  { nodeId := "n", nodeKind := .compoundStmt, parentId := "b", childrenIds := ["inner"] }

def innerLabel : AstNode :=
  { nodeId := "inner", nodeKind := .labelStmt, parentId := "n", semanticProperties := [("name", "inner")] }

def outerLabel : AstNode :=
  { nodeId := "once", nodeKind := .labelStmt, parentId := "b", childrenIds := ["twice"]
    semanticProperties := [("name", "once")] }

def stackedLabel : AstNode :=
  { nodeId := "twice", nodeKind := .labelStmt, parentId := "once", semanticProperties := [("name", "twice")] }

def outwardGoto : AstNode :=
  { nodeId := "out", nodeKind := .gotoStmt, parentId := "b", semanticProperties := [("target_label", "twice")] }

/-- This is `void f(void) { goto inner; { inner: ; } once: twice: ; goto twice; }` without its empty statements. -/
def scopedContext : RuleContext where
  filePath := "scoped.c"
  astNodes :=
    [scopedFunction,
      { nodeId := "b", nodeKind := .compoundStmt, parentId := "f", childrenIds := ["in", "n", "once", "out"] },
      inwardGoto, innerBlock, innerLabel, outerLabel, stackedLabel, outwardGoto]

theorem scoped_forest : (graph scopedContext).Forest := by
  apply AstGraph.Forest.of_order <;> decide

/-- A goto into a block is reported, and so is the goto to a label that stands in its own block behind another. -/
theorem scopedGotos_crossing : ∃ pairs : List (AstNode × AstNode),
    Rule15_2.detect scopedContext = pairs.map (fun pair => Rule15_2.report scopedContext pair.1) ∧
      (inwardGoto, innerLabel) ∈ pairs ∧ (outwardGoto, stackedLabel) ∈ pairs ∧
        InScope (graph scopedContext) outwardGoto stackedLabel := by
  obtain ⟨pairs, crossings, gotos, _⟩ := gotos_crossing scoped_forest
  have below : ∀ {top node : AstNode}, top ∈ (graph scopedContext).nodes →
      (node ∈ (graph scopedContext).descendants top.nodeId ↔ (graph scopedContext).Below top node) :=
    fun present => mem_below scoped_forest present
  have presence : scopedFunction ∈ (graph scopedContext).nodes := by decide
  have reaches : ∀ goto label, goto.nodeKind = .gotoStmt → label.nodeKind = .labelStmt →
      goto ∈ (graph scopedContext).descendants scopedFunction.nodeId →
      label ∈ (graph scopedContext).descendants scopedFunction.nodeId →
      label.property "name" "" = targetLabel goto →
      (∀ other ∈ (graph scopedContext).descendants scopedFunction.nodeId, other.nodeKind = .labelStmt →
        other.property "name" "" = targetLabel goto → other = label) →
      JumpsTo (graph scopedContext) scopedFunction goto label := by
    intro goto label jumps marks lower under named only
    exact ⟨jumps, marks, (below presence).mp lower, (below presence).mp under, named,
      fun other kind lies same => only other ((below presence).mpr lies) kind same⟩
  have inScope : InScope (graph scopedContext) outwardGoto stackedLabel := by
    have every : ∀ block ∈ (graph scopedContext).nodes, block.nodeKind = .compoundStmt →
        stackedLabel ∈ (graph scopedContext).descendants block.nodeId →
        outwardGoto ∈ (graph scopedContext).descendants block.nodeId := by decide
    intro block kind above
    have present : block ∈ (graph scopedContext).nodes := by
      obtain ⟨_, step, _⟩ := Relation.TransGen.head'_iff.mp above
      exact step.1
    exact (below present).mp (every block present kind ((below present).mpr above))
  refine ⟨pairs, gotos, ?_, ?_, inScope⟩
  · apply (crossings.only scopedFunction (by decide) inwardGoto innerLabel innerBlock
      (reaches _ _ rfl rfl (by decide) (by decide) (by decide) (by decide)) ⟨by decide, by decide, rfl⟩).mpr
    refine .inl fun visible => ?_
    have around := visible innerBlock rfl ((below (by decide)).mp (by decide))
    exact absurd ((below (by decide)).mpr around) (by decide)
  · apply (crossings.only scopedFunction (by decide) outwardGoto stackedLabel outerLabel
      (reaches _ _ rfl rfl (by decide) (by decide) (by decide) (by decide)) ⟨by decide, by decide, rfl⟩).mpr
    exact .inr ⟨by decide, fun around => absurd ((below (by decide)).mpr around) (by decide)⟩

end Pairs

end MisraPlatform
