import MisraPlatform.Proof.DeadStores
import MisraPlatform.Proof.FlowGraph
import MisraPlatform.Proof.MissedReads
import MisraPlatform.Proof.MissedTaint
import MisraPlatform.Proof.RelabelingBuild

/-
This file compares the findings before and after the renaming of one variable.
-/

namespace MisraPlatform
open CFGEngine DataFlowEngineV2

/-! ### The renaming -/

theorem lookup_setName (properties : List (String × String)) (name key : String) :
    (properties.map fun entry => if entry.1 = "name" then (entry.1, name) else entry).lookup key =
      if key = "name" then (properties.lookup key).map fun _ => name else properties.lookup key := by
  induction properties with
  | nil => simp
  | cons entry rest ih =>
      rw [List.map_cons, OrderedDict.lookup_cons_if, OrderedDict.lookup_cons_if, ih]
      by_cases named : entry.1 = "name" <;> by_cases here : key = entry.1 <;> grind

theorem property_setName (node : AstNode) (name key default : String) (other : key ≠ "name") :
    (node.setName name).property key default = node.property key default := by
  simp only [AstNode.property, AstNode.setName, lookup_setName, if_neg other]

theorem declRefName_setName (node : AstNode) (name : String) (named : declRefName node ≠ "") :
    declRefName (node.setName name) = name := by
  unfold declRefName AstNode.property at named ⊢
  simp only [AstNode.setName, lookup_setName, if_true]
  cases found : node.semanticProperties.lookup "name" with
  | none => simp [found] at named
  | some old => rfl

section Renaming

variable {graph : AstGraph} {varDecl : AstNode} {fresh : String} (kind : varDecl.nodeKind = .varDecl)
  (named : declRefName varDecl ≠ "") (filled : fresh ≠ "")

include kind named filled

theorem renameVariable_relabels : Relabels (renameVariable graph varDecl fresh) := by
  have bound : ∀ node, node = varDecl ∨ BindsTo graph varDecl node →
      declRefName node ≠ "" ∧ node.nodeKind ∈ [NodeKind.varDecl, .declRefExpr] := by
    rintro node (rfl | binds)
    · exact ⟨named, by simp [kind]⟩
    · have isRef : node.nodeKind = .declRefExpr := by simpa [isDeclRef] using binds.1.1
      exact ⟨binds.1.2.1 ▸ named, by simp [isRef]⟩
  constructor
  · intro node
    unfold renameVariable
    split <;> rfl
  · intro node
    unfold renameVariable
    split <;> rfl
  · intro node
    unfold renameVariable
    split <;> rfl
  · intro node
    unfold renameVariable
    split <;> rfl
  · intro node
    unfold renameVariable
    split <;> rfl
  · intro node key default other
    unfold renameVariable
    split
    · exact property_setName node fresh key default other
    · rfl
  · intro node other
    exact if_neg fun changes => other (bound node changes).2
  · intro node
    unfold renameVariable
    split
    · rename_i changes
      rw [declRefName_setName node fresh (bound node changes).1]
      exact iff_of_false filled (bound node changes).1
    · rfl

end Renaming

section Relabelled

variable {relabel : AstNode → AstNode} (relabels : Relabels relabel) {graph : AstGraph}

include relabels

theorem Relabels.wellFormed (wellFormed : graph.WellFormed) : (graph.relabel relabel).WellFormed where
  ids := by
    simpa [AstGraph.relabel, Function.comp_def, relabels.nodeId] using wellFormed.ids
  childIds := by
    intro node inside
    obtain ⟨node, listed, rfl⟩ := List.mem_map.mp inside
    rw [relabels.childrenIds]
    exact wellFormed.childIds node listed
  parents := by
    intro node inside child childInside listed
    obtain ⟨node, known, rfl⟩ := List.mem_map.mp inside
    obtain ⟨child, childKnown, rfl⟩ := List.mem_map.mp childInside
    rw [relabels.nodeId, relabels.childrenIds] at listed
    rw [relabels.parentId, relabels.nodeId]
    exact wellFormed.parents node known child childKnown listed
  acyclic := by
    obtain ⟨rank, decreases⟩ := wellFormed.acyclic
    refine ⟨rank, fun node inside child childInside listed => ?_⟩
    obtain ⟨node, known, rfl⟩ := List.mem_map.mp inside
    obtain ⟨child, childKnown, rfl⟩ := List.mem_map.mp childInside
    rw [relabels.nodeId, relabels.childrenIds] at listed
    rw [relabels.nodeId, relabels.nodeId]
    exact decreases node known child childKnown listed

end Relabelled

/-! ### Places -/

/-- An event stands in its block between the others. -/
@[ext] structure Place (cfg : ControlFlowGraph) (graph : AstGraph) where
  blockId : BlockId
  before : List Event
  event : Event
  after : List Event
  split : cfg.events graph blockId = before ++ event :: after

namespace Place

variable {cfg : ControlFlowGraph} {graph : AstGraph}

/-- Some path leaves the name without a value where the event reads it. -/
def Uninitialized (functionNode : AstNode) (place : Place cfg graph) : Prop :=
  cfg.UninitRead functionNode graph (place.blockId, place.before, place.event)

/-- The event is a plain store and no path reads the name after it. -/
def Dead (place : Place cfg graph) : Prop :=
  place.event.isWrite = true ∧ place.event.isReadToo = false ∧
    ¬ cfg.ReadLater graph place.blockId place.event place.after

def nodeId (place : Place cfg graph) : String := place.event.ref.nodeId

theorem nodeId_injective (once : cfg.ScansOnce graph) :
    Function.Injective (nodeId : Place cfg graph → String) := by
  intro first second same
  have listed : ∀ place : Place cfg graph, place.event ∈ cfg.events graph place.blockId := by
    intro place
    rw [place.split]
    exact List.mem_append_right _ List.mem_cons_self
  obtain ⟨blocks, _⟩ := once.same (scanned_of_event (listed first)) (scanned_of_event (listed second)) same
  obtain ⟨before, event, after⟩ := split_unique (first.split ▸ once.events_nodup first.blockId)
    (first.split.symm.trans (blocks ▸ second.split)) same
  exact Place.ext blocks before event after

variable {relabel : AstNode → AstNode} (relabels : Relabels relabel)

def relabelled (place : Place cfg graph) : Place (cfg.relabel relabel) (graph.relabel relabel) where
  blockId := place.blockId
  before := place.before.map (Event.relabel relabel)
  event := place.event.relabel relabel
  after := place.after.map (Event.relabel relabel)
  split := by
    rw [cfg.relabel_events relabels, place.split, List.map_append, List.map_cons]

theorem relabelled_nodeId (place : Place cfg graph) : (place.relabelled relabels).nodeId = place.nodeId :=
  relabels.nodeId place.event.ref

theorem relabelled_surjective :
    Function.Surjective (relabelled relabels : Place cfg graph → Place (cfg.relabel relabel) _) := by
  rintro ⟨blockId, before, event, after, split⟩
  have mapped := (cfg.relabel_events relabels graph blockId).symm.trans split
  obtain ⟨front, back, found, rfl, rest⟩ := List.map_eq_append_iff.mp mapped
  obtain ⟨other, last, rfl, rfl, rfl⟩ := List.map_eq_cons_iff.mp rest
  exact ⟨⟨blockId, front, other, last, found⟩, rfl⟩

end Place

/-- Two runs report the same ids exactly when they agree about every item. -/
theorem same_keys_iff {ι κ : Type} {key : ι → κ} (injective : Function.Injective key)
    (first second : ι → Prop) :
    (∀ found, (∃ item, first item ∧ key item = found) ↔ ∃ item, second item ∧ key item = found) ↔
      ∀ item, first item ↔ second item := by
  constructor
  · intro same item
    have here : ∀ reported : ι → Prop, (∃ other, reported other ∧ key other = key item) ↔ reported item := by
      intro reported
      constructor
      · rintro ⟨other, holds, keys⟩
        exact injective keys ▸ holds
      · exact fun holds => ⟨item, holds, rfl⟩
    rw [← here first, ← here second]
    exact same (key item)
  · intro agree found
    simp only [agree]

namespace ControlFlowGraph

variable {cfg : ControlFlowGraph} {graph : AstGraph} {functionNode : AstNode} {sources sinks : Finset String}

theorem uninitializedReads_ids (wellFormed : cfg.WellFormed) (named : cfg.SitesNamed graph) :
    ∃ reads, uninitializedReads functionNode cfg graph = some reads ∧
      ∀ nodeId, nodeId ∈ reads.map AstNode.nodeId ↔
        ∃ place : Place cfg graph, place.Uninitialized functionNode ∧ place.nodeId = nodeId := by
  obtain ⟨reads, found, members⟩ := @mem_uninitializedReads functionNode _ _ wellFormed named
  refine ⟨reads, found, fun nodeId => ?_⟩
  simp only [List.mem_map, members]
  constructor
  · rintro ⟨_, ⟨blockId, before, event, after, split, rfl, uninit⟩, rfl⟩
    exact ⟨⟨blockId, before, event, after, split⟩, uninit, rfl⟩
  · rintro ⟨⟨blockId, before, event, after, split⟩, uninit, rfl⟩
    exact ⟨_, ⟨blockId, before, event, after, split, rfl, uninit⟩, rfl⟩

theorem deadStores_ids (closed : cfg.Closed) :
    ∃ stores, deadStores cfg graph = some stores ∧ ∀ nodeId, nodeId ∈ stores.map AstNode.nodeId ↔
      ∃ place : Place cfg graph, place.Dead ∧ place.nodeId = nodeId := by
  obtain ⟨stores, found, members⟩ := @mem_deadStores _ graph closed
  refine ⟨stores, found, fun nodeId => ?_⟩
  simp only [List.mem_map, members]
  constructor
  · rintro ⟨_, ⟨blockId, before, event, after, split, rfl, dead⟩, rfl⟩
    exact ⟨⟨blockId, before, event, after, split⟩, dead, rfl⟩
  · rintro ⟨⟨blockId, before, event, after, split⟩, dead, rfl⟩
    exact ⟨_, ⟨blockId, before, event, after, split, rfl, dead⟩, rfl⟩

/-! ### Arguments -/

theorem occurrencesFrom_relabel {α β : Type} (change : α → β) (before list : List α) :
    occurrencesFrom (before.map change) (list.map change) =
      (occurrencesFrom before list).map fun occurrence =>
        (occurrence.1.map change, change occurrence.2) := by
  induction list generalizing before with
  | nil => rfl
  | cons item rest ih =>
      rw [List.map_cons, occurrencesFrom, occurrencesFrom, List.map_cons, ← ih, List.map_append,
        List.map_singleton]

def SinkArgument.relabel (relabel : AstNode → AstNode) (argument : SinkArgument) : SinkArgument where
  blockId := argument.blockId
  scanned := argument.scanned.map relabel
  call := relabel argument.call
  position := argument.position
  argument := relabel argument.argument

theorem relabel_sinkArguments {relabel : AstNode → AstNode} (relabels : Relabels relabel) :
    (cfg.relabel relabel).sinkArguments (graph.relabel relabel) sinks =
      (cfg.sinkArguments graph sinks).map (SinkArgument.relabel relabel) := by
  simp only [sinkArguments_eq, relabel_keys, List.map_flatMap, cfg.relabel_scannedNodes relabels]
  apply List.flatMap_congr
  intro blockId _
  rw [occurrences, ← List.map_nil, occurrencesFrom_relabel, List.flatMap_map]
  apply List.flatMap_congr
  intro occurrence _
  simp only [callArguments, relabels.nodeKind, relabels.callee, relabels.nodeId, relabels.children]
  split
  · rw [List.zipIdx_map, List.map_map, List.map_map]
    rfl
  · rfl

def SinkArgument.key (argument : SinkArgument) : String × Nat := (argument.call.nodeId, argument.position)

/-- An argument is reported when it has the finding of a tainted one, which is then its own call. -/
theorem finding_reported (closed : cfg.Closed) (once : cfg.ScansOnce graph) {findings : List TaintFinding}
    (found : propagateTaint cfg graph sources sinks = some findings) {sink : SinkArgument}
    (inside : sink ∈ cfg.sinkArguments graph sinks) :
    sink.finding ∈ findings ↔ cfg.TaintedArgument graph sources sinks sink := by
  obtain ⟨others, same, members⟩ := @mem_propagateTaint _ graph sources sinks closed
  cases found.symm.trans same
  rw [members]
  constructor
  · rintro ⟨other, listed, tainted, finding⟩
    obtain ⟨known, occurs, _⟩ := mem_sinkArguments.mp inside
    obtain ⟨_, otherOccurs, _⟩ := mem_sinkArguments.mp listed
    obtain ⟨blocks, calls⟩ := once.same (scanned_of_occurrence otherOccurs) (scanned_of_occurrence occurs)
      (congrArg TaintFinding.sinkCallNodeId finding)
    have names : declRefName other.argument = declRefName sink.argument :=
      congrArg TaintFinding.taintedArgument finding
    rw [blocks] at otherOccurs
    obtain ⟨_, split⟩ := (mem_occurrences _ _ _).mp occurs
    obtain ⟨_, otherSplit⟩ := (mem_occurrences _ _ _).mp otherOccurs
    obtain ⟨scans, _⟩ := split_unique (otherSplit ▸ once.block known) (otherSplit.symm.trans split)
      (congrArg AstNode.nodeId calls)
    unfold TaintedArgument at tainted ⊢
    rwa [blocks, scans, names] at tainted
  · exact fun tainted => ⟨sink, inside, tainted, rfl⟩

theorem taint_keys (closed : cfg.Closed) (once : cfg.ScansOnce graph) :
    ∃ findings, propagateTaint cfg graph sources sinks = some findings ∧
      ∀ key, key ∈ ((cfg.sinkArguments graph sinks).filter fun sink => sink.finding ∈ findings).map
        (fun sink => (sink.call.nodeId, sink.position)) ↔
          ∃ sink : { sink // sink ∈ cfg.sinkArguments graph sinks },
            cfg.TaintedArgument graph sources sinks sink.1 ∧ sink.1.key = key := by
  obtain ⟨findings, found, _⟩ := @mem_propagateTaint _ graph sources sinks closed
  refine ⟨findings, found, fun key => ?_⟩
  simp only [List.mem_map, List.mem_filter, decide_eq_true_eq]
  constructor
  · rintro ⟨sink, ⟨inside, reported⟩, rfl⟩
    exact ⟨⟨sink, inside⟩, (finding_reported closed once found inside).mp reported, rfl⟩
  · rintro ⟨⟨sink, inside⟩, tainted, rfl⟩
    exact ⟨sink, ⟨inside, (finding_reported closed once found inside).mpr tainted⟩, rfl⟩

end ControlFlowGraph

/-! ### The two reports -/

/-- The facts about a name are the facts about its variable: the paths of the program say the same of each
read, store and argument as those of the program where the variable has a name of its own. -/
structure NamesAgree (functionNode : AstNode) (graph : AstGraph) (sources sinks : Finset String)
    {relabel : AstNode → AstNode} (relabels : Relabels relabel) (cfg : ControlFlowGraph) : Prop where
  reads : ∀ place : Place cfg graph, place.Uninitialized functionNode ↔
    (place.relabelled relabels).Uninitialized (relabel functionNode)
  stores : ∀ place : Place cfg graph, place.Dead ↔ (place.relabelled relabels).Dead
  arguments : ∀ sink ∈ cfg.sinkArguments graph sinks, cfg.TaintedArgument graph sources sinks sink ↔
    (cfg.relabel relabel).TaintedArgument (graph.relabel relabel) sources sinks (sink.relabel relabel)

/-- The renaming leaves the findings as they are. -/
def Invariant (functionNode : AstNode) (graph : AstGraph) (varDecl : AstNode) (fresh : String)
    (sources sinks : Finset String) : Prop :=
  ∃ first second, report functionNode graph sources sinks = some first ∧
    report (renameVariable graph varDecl fresh functionNode)
      (graph.relabel (renameVariable graph varDecl fresh)) sources sinks = some second ∧ first.Same second

/-- The report of a function is what its places and its arguments say. -/
theorem report_spec {functionNode : AstNode} {graph : AstGraph} {sources sinks : Finset String}
    {cfg : ControlFlowGraph} (built : build functionNode graph = some cfg) (wellFormed : cfg.WellFormed)
    (named : cfg.SitesNamed graph) (once : cfg.ScansOnce graph) :
    ∃ found, report functionNode graph sources sinks = some found ∧
      (∀ nodeId, nodeId ∈ found.reads ↔
        ∃ place : Place cfg graph, place.Uninitialized functionNode ∧ place.nodeId = nodeId) ∧
      (∀ nodeId, nodeId ∈ found.stores ↔
        ∃ place : Place cfg graph, place.Dead ∧ place.nodeId = nodeId) ∧
      ∀ key, key ∈ found.arguments ↔
        ∃ sink : { sink // sink ∈ cfg.sinkArguments graph sinks },
          cfg.TaintedArgument graph sources sinks sink.1 ∧ sink.1.key = key := by
  obtain ⟨reads, readsFound, readIds⟩ :=
    @ControlFlowGraph.uninitializedReads_ids _ _ functionNode wellFormed named
  obtain ⟨stores, storesFound, storeIds⟩ := @ControlFlowGraph.deadStores_ids _ graph wellFormed.closed
  obtain ⟨findings, taintFound, keys⟩ :=
    @ControlFlowGraph.taint_keys _ _ sources sinks wellFormed.closed once
  refine ⟨⟨reads.map AstNode.nodeId, stores.map AstNode.nodeId, _⟩, ?_, readIds, storeIds, keys⟩
  simp only [report, built, readsFound, storesFound, taintFound, Option.bind_eq_bind, Option.bind_some]

section Relabelled

variable {relabel : AstNode → AstNode} (relabels : Relabels relabel) {graph : AstGraph}
  {cfg : ControlFlowGraph}

include relabels

theorem Relabels.scansOnce (once : cfg.ScansOnce graph) :
    (cfg.relabel relabel).ScansOnce (graph.relabel relabel) := by
  unfold ControlFlowGraph.ScansOnce at once ⊢
  simpa only [ControlFlowGraph.relabel_keys, cfg.relabel_scannedNodes relabels, List.map_map,
    Function.comp_def, relabels.nodeId] using once

theorem Relabels.sitesNamed (named : cfg.SitesNamed graph) :
    (cfg.relabel relabel).SitesNamed (graph.relabel relabel) := by
  intro blockId inside event listed
  rw [ControlFlowGraph.relabel_keys] at inside
  rw [cfg.relabel_events relabels] at listed
  obtain ⟨event, known, rfl⟩ := List.mem_map.mp listed
  exact fun same => named blockId inside event known ((relabels.nodeId event.ref).symm.trans same)

/-- The two reports are the same exactly when the paths agree. -/
theorem Relabels.same_iff (wellFormed : graph.WellFormed) {functionNode : AstNode}
    (built : build functionNode graph = some cfg) (named : cfg.SitesNamed graph)
    (once : cfg.ScansOnce graph) (sources sinks : Finset String) :
    (∃ first second, report functionNode graph sources sinks = some first ∧
        report (relabel functionNode) (graph.relabel relabel) sources sinks = some second ∧
        first.Same second) ↔
      NamesAgree functionNode graph sources sinks relabels cfg := by
  obtain ⟨_, sameFlow, flow⟩ := build_flow wellFormed functionNode
  cases built.symm.trans sameFlow
  have rebuilt : build (relabel functionNode) (graph.relabel relabel) = some (cfg.relabel relabel) := by
    rw [relabel_build relabels, built, Option.map_some]
  obtain ⟨_, againFlow, reflow⟩ := build_flow (relabels.wellFormed wellFormed) (relabel functionNode)
  cases rebuilt.symm.trans againFlow
  obtain ⟨first, firstFound, firstReads, firstStores, firstArguments⟩ :=
    @report_spec _ _ sources sinks _ built flow named once
  obtain ⟨second, secondFound, secondReads, secondStores, secondArguments⟩ :=
    @report_spec _ _ sources sinks _ rebuilt reflow (relabels.sitesNamed named) (relabels.scansOnce once)
  have reads : (∀ nodeId, nodeId ∈ first.reads ↔ nodeId ∈ second.reads) ↔
      ∀ place : Place cfg graph, place.Uninitialized functionNode ↔
        (place.relabelled relabels).Uninitialized (relabel functionNode) := by
    rw [← same_keys_iff (Place.nodeId_injective once)]
    apply forall_congr'
    intro nodeId
    rw [firstReads, secondReads, (Place.relabelled_surjective relabels).exists]
    simp only [Place.relabelled_nodeId]
  have stores : (∀ nodeId, nodeId ∈ first.stores ↔ nodeId ∈ second.stores) ↔
      ∀ place : Place cfg graph, place.Dead ↔ (place.relabelled relabels).Dead := by
    rw [← same_keys_iff (Place.nodeId_injective once)]
    apply forall_congr'
    intro nodeId
    rw [firstStores, secondStores, (Place.relabelled_surjective relabels).exists]
    simp only [Place.relabelled_nodeId]
  have arguments : (∀ key, key ∈ first.arguments ↔ key ∈ second.arguments) ↔
      ∀ sink : { sink // sink ∈ cfg.sinkArguments graph sinks },
        cfg.TaintedArgument graph sources sinks sink.1 ↔
          (cfg.relabel relabel).TaintedArgument (graph.relabel relabel) sources sinks
            (sink.1.relabel relabel) := by
    have injective : Function.Injective
        fun sink : { sink // sink ∈ cfg.sinkArguments graph sinks } => sink.1.key := by
      intro left right same
      exact Subtype.ext (List.inj_on_of_nodup_map once.arguments left.2 right.2 same)
    rw [← same_keys_iff injective]
    apply forall_congr'
    intro key
    rw [firstArguments, secondArguments]
    apply iff_congr Iff.rfl
    constructor
    · rintro ⟨⟨sink, inside⟩, tainted, rfl⟩
      rw [ControlFlowGraph.relabel_sinkArguments relabels] at inside
      obtain ⟨sink, listed, rfl⟩ := List.mem_map.mp inside
      exact ⟨⟨sink, listed⟩, tainted, by simp [ControlFlowGraph.SinkArgument.key,
        ControlFlowGraph.SinkArgument.relabel, relabels.nodeId]⟩
    · rintro ⟨⟨sink, listed⟩, tainted, rfl⟩
      refine ⟨⟨sink.relabel relabel, ?_⟩, tainted, by simp [ControlFlowGraph.SinkArgument.key,
        ControlFlowGraph.SinkArgument.relabel, relabels.nodeId]⟩
      rw [ControlFlowGraph.relabel_sinkArguments relabels]
      exact List.mem_map_of_mem listed
  constructor
  · rintro ⟨_, _, firstSame, secondSame, sameReads, sameStores, sameArguments⟩
    cases firstFound.symm.trans firstSame
    cases secondFound.symm.trans secondSame
    exact ⟨reads.mp sameReads, stores.mp sameStores, fun sink inside =>
      arguments.mp sameArguments ⟨sink, inside⟩⟩
  · intro agree
    exact ⟨first, second, firstFound, secondFound, reads.mpr agree.reads, stores.mpr agree.stores,
      arguments.mpr fun sink => agree.arguments sink.1 sink.2⟩

end Relabelled

/-- This is the AST of `f() { int x = 0; if (c) { int x; } use(x); }`. -/
def hiddenAst : AstGraph where
  nodes :=
    [{ nodeId := "f", nodeKind := .functionDecl, childrenIds := ["b"] },
      { nodeId := "b", nodeKind := .compoundStmt, parentId := "f", childrenIds := ["d", "i", "u"] },
      { nodeId := "d", nodeKind := .varDecl, parentId := "b", childrenIds := ["z"],
        semanticProperties := [("name", "x")] },
      { nodeId := "z", nodeKind := .other "IntegerLiteral", parentId := "d" },
      { nodeId := "i", nodeKind := .ifStmt, parentId := "b", childrenIds := ["c", "t"] },
      { nodeId := "c", nodeKind := .declRefExpr, parentId := "i", semanticProperties := [("name", "c")] },
      { nodeId := "t", nodeKind := .compoundStmt, parentId := "i", childrenIds := ["e"] },
      { nodeId := "e", nodeKind := .varDecl, parentId := "t", semanticProperties := [("name", "x")] },
      { nodeId := "u", nodeKind := .callExpr, parentId := "b", childrenIds := ["a"] },
      { nodeId := "a", nodeKind := .declRefExpr, parentId := "u", semanticProperties := [("name", "x")] }]

def hiddenFunction : AstNode := { nodeId := "f", nodeKind := .functionDecl, childrenIds := ["b"] }

def hiddenNode (nodeId : String) : AstNode := (hiddenAst.get nodeId).getD hiddenFunction

def hiddenFlow : ControlFlowGraph where
  functionNodeId := "f"
  blocks :=
    { entries :=
        [(.entry, { blockId := .entry, kind := .entry }), (.exit, { blockId := .exit, kind := .exit }),
          (.block 1, { blockId := .block 1, statements := ["d", "i"].filterMap hiddenAst.get }),
          (.block 2, { blockId := .block 2, statements := ["u"].filterMap hiddenAst.get }),
          (.block 3, { blockId := .block 3, statements := ["e"].filterMap hiddenAst.get })]
      distinct := by decide }
  edges :=
    [{ source := .block 1, target := .block 3, kind := .trueEdge },
      { source := .block 3, target := .block 2 },
      { source := .block 1, target := .block 2, kind := .falseEdge },
      { source := .entry, target := .block 1 },
      { source := .block 2, target := .exit, kind := .implicitReturn }]

theorem hiddenAst_wellFormed : hiddenAst.WellFormed := by
  apply AstGraph.WellFormed.of_order <;> decide

theorem build_hidden : build hiddenFunction hiddenAst = some hiddenFlow := by rfl

theorem hiddenFlow_sitesNamed : hiddenFlow.SitesNamed hiddenAst := by
  unfold ControlFlowGraph.SitesNamed
  decide

theorem hiddenFlow_scansOnce : hiddenFlow.ScansOnce hiddenAst := by
  unfold ControlFlowGraph.ScansOnce
  decide

end MisraPlatform
