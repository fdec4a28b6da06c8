import MisraPlatform.Construction.AnalysisCache
import MisraPlatform.Proof.FlowGraph

/-
This file proves that the analysis cache answers as the analyzers do and counts its accesses.
-/

namespace MisraPlatform.AnalysisCache

/-- An access names an analyzer and the key that it is cached under. -/
inductive Access
  | cfg (nodeId : String)
  | aliases (nodeId : String)
  | dataflowEngine (nodeId : String)
  | dataflowResult (nodeId analysisName : String)
  | symbolIndex
  | linkageIndex
  | linkageAnalyzer
  deriving DecidableEq

def Access.analyzer : Access → String
  | .cfg _ => "cfg"
  | .aliases _ => "alias"
  | .dataflowEngine _ => "dataflow_engine"
  | .dataflowResult _ _ => "dataflow_result"
  | .symbolIndex => "symbol_index"
  | .linkageIndex => "linkage_index"
  | .linkageAnalyzer => "linkage_analyzer"

section Specification

variable {α : Type} (graph : AstGraph) (linkageData : LinkageIndex.Data)

/-- This is what the analyzer computes without a cache. -/
def fromScratch : Query α → Answer α
  | .cfg functionNode => .cfg (CFGEngine.build functionNode graph)
  | .aliases functionNode => .aliases (AliasAnalyzer.analyze functionNode graph)
  | .dataflowEngine functionNode => .dataflowEngine ⟨AliasAnalyzer.analyze functionNode graph⟩
  | .dataflowResult _ _ compute => .dataflowResult (compute ())
  | .symbols => .symbols (Symbols.ofGraph graph)
  | .linkageIndex => .linkageIndex linkageData
  | .linkageAnalyzer => .linkageAnalyzer ⟨linkageData⟩

/-- The query is about a node of the graph, and a computation depends on its name and its function only. -/
def Query.Regular (analysis : String → AstNode → α) : Query α → Prop
  | .cfg functionNode => functionNode ∈ graph.nodes
  | .aliases functionNode => functionNode ∈ graph.nodes
  | .dataflowEngine functionNode => functionNode ∈ graph.nodes
  | .dataflowResult functionNode analysisName compute =>
      functionNode ∈ graph.nodes ∧ compute () = analysis analysisName functionNode
  | .symbols => True
  | .linkageIndex => True
  | .linkageAnalyzer => True

/-- The first access of an engine is followed by one of the alias facts. -/
def Query.accesses (log : List Access) : Query α → List Access
  | .cfg functionNode => [.cfg functionNode.nodeId]
  | .aliases functionNode => [.aliases functionNode.nodeId]
  | .dataflowEngine functionNode =>
      if .dataflowEngine functionNode.nodeId ∈ log then [.dataflowEngine functionNode.nodeId]
      else [.dataflowEngine functionNode.nodeId, .aliases functionNode.nodeId]
  | .dataflowResult functionNode analysisName _ => [.dataflowResult functionNode.nodeId analysisName]
  | .symbols => [.symbolIndex]
  | .linkageIndex => [.linkageIndex]
  | .linkageAnalyzer => [.linkageAnalyzer]

/-- The log lists the accesses of the queries from the first one on. -/
def accessLog (log : List Access) : List (Query α) → List Access
  | [] => log
  | query :: rest => accessLog (log ++ query.accesses log) rest

/-- An access is a first one or repeats an earlier one. -/
def firstAccesses (log : List Access) : Nat := log.dedup.length

def repeatedAccesses (log : List Access) : Nat := log.length - log.dedup.length

def ofAnalyzer (log : List Access) (analyzer : String) : List Access :=
  log.filter fun access => access.analyzer = analyzer

/-- The counters tell the first and the repeated accesses, in total and of each analyzer. -/
structure Counted (log : List Access) (statistics : CacheStatistics) : Prop where
  misses : statistics.misses = firstAccesses log
  hits : statistics.hits = repeatedAccesses log
  missesByAnalyzer : ∀ analyzer,
    countOf statistics.missesByAnalyzer analyzer = firstAccesses (ofAnalyzer log analyzer)
  hitsByAnalyzer : ∀ analyzer,
    countOf statistics.hitsByAnalyzer analyzer = repeatedAccesses (ofAnalyzer log analyzer)

/-- No function has two builds of one analyzer, and no singleton is built twice. -/
structure BuiltOnce (cache : AnalysisCache α) : Prop where
  cfg : ∀ nodeId, countOf cache.cfgBuildsPerFunction nodeId ≤ 1
  aliases : ∀ nodeId, countOf cache.aliasBuildsPerFunction nodeId ≤ 1
  dataflowEngine : ∀ nodeId, countOf cache.dataflowBuildsPerFunction nodeId ≤ 1
  symbolIndex : cache.symbolIndexBuilds ≤ 1
  linkageIndex : cache.linkageIndexBuilds ≤ 1
  linkageAnalyzer : cache.linkageAnalyzerBuilds ≤ 1

end Specification

section Counters

variable {log : List Access} {statistics : CacheStatistics}

theorem countOf_bump (counts : OrderedDict String Nat) (key query : String) :
    countOf (bump counts key) query = if query = key then countOf counts key + 1 else countOf counts query := by
  rw [countOf, bump, OrderedDict.get?_insert]
  by_cases same : query = key <;> simp [same, countOf]

theorem dedup_append_length (log : List Access) (access : Access) :
    (log ++ [access]).dedup.length = log.dedup.length + if access ∈ log then 0 else 1 := by
  rw [← List.card_toFinset, ← List.card_toFinset, List.toFinset_append, Finset.union_comm]
  by_cases known : access ∈ log
  · rw [if_pos known]
    simp [known]
  · rw [if_neg known]
    simp [known]

theorem ofAnalyzer_append (log : List Access) (access : Access) (analyzer : String) :
    ofAnalyzer (log ++ [access]) analyzer =
      if access.analyzer = analyzer then ofAnalyzer log analyzer ++ [access] else ofAnalyzer log analyzer := by
  rw [ofAnalyzer, List.filter_append]
  by_cases same : access.analyzer = analyzer <;> simp [same, ofAnalyzer]

theorem mem_ofAnalyzer (log : List Access) (access : Access) :
    access ∈ ofAnalyzer log access.analyzer ↔ access ∈ log := by
  simp [ofAnalyzer]

theorem dedup_length_le (log : List Access) : log.dedup.length ≤ log.length :=
  (List.dedup_sublist log).length_le

/-- A hit counts one more repeated access. -/
theorem Counted.hit (counted : Counted log statistics) {access : Access} (known : access ∈ log) :
    Counted (log ++ [access]) (statistics.recordHit access.analyzer) where
  misses := by
    change statistics.misses = _
    rw [counted.misses, firstAccesses, firstAccesses, dedup_append_length, if_pos known, Nat.add_zero]
  hits := by
    change statistics.hits + 1 = _
    have bound := dedup_length_le log
    rw [counted.hits, repeatedAccesses, repeatedAccesses, dedup_append_length, if_pos known,
      List.length_append, List.length_singleton]
    omega
  missesByAnalyzer analyzer := by
    change countOf statistics.missesByAnalyzer analyzer = _
    rw [counted.missesByAnalyzer, ofAnalyzer_append]
    by_cases same : access.analyzer = analyzer
    · subst same
      rw [if_pos rfl, firstAccesses, firstAccesses, dedup_append_length,
        if_pos ((mem_ofAnalyzer log access).mpr known), Nat.add_zero]
    · rw [if_neg same]
  hitsByAnalyzer analyzer := by
    change countOf (bump statistics.hitsByAnalyzer access.analyzer) analyzer = _
    rw [countOf_bump, counted.hitsByAnalyzer, counted.hitsByAnalyzer, ofAnalyzer_append]
    by_cases same : access.analyzer = analyzer
    · subst same
      have bound := dedup_length_le (ofAnalyzer log access.analyzer)
      rw [if_pos rfl, if_pos rfl, repeatedAccesses, repeatedAccesses, dedup_append_length,
        if_pos ((mem_ofAnalyzer log access).mpr known), List.length_append, List.length_singleton]
      omega
    · rw [if_neg (Ne.symm same), if_neg same]

/-- A miss counts one more first access. -/
theorem Counted.miss (counted : Counted log statistics) {access : Access} (fresh : access ∉ log) :
    Counted (log ++ [access]) (statistics.recordMiss access.analyzer) where
  misses := by
    change statistics.misses + 1 = _
    rw [counted.misses, firstAccesses, firstAccesses, dedup_append_length, if_neg fresh]
  hits := by
    change statistics.hits = _
    rw [counted.hits, repeatedAccesses, repeatedAccesses, dedup_append_length, if_neg fresh,
      List.length_append, List.length_singleton]
    omega
  missesByAnalyzer analyzer := by
    change countOf (bump statistics.missesByAnalyzer access.analyzer) analyzer = _
    rw [countOf_bump, counted.missesByAnalyzer, counted.missesByAnalyzer, ofAnalyzer_append]
    by_cases same : access.analyzer = analyzer
    · subst same
      rw [if_pos rfl, if_pos rfl, firstAccesses, firstAccesses, dedup_append_length,
        if_neg ((mem_ofAnalyzer log access).not.mpr fresh)]
    · rw [if_neg (Ne.symm same), if_neg same]
  hitsByAnalyzer analyzer := by
    change countOf statistics.hitsByAnalyzer analyzer = _
    rw [counted.hitsByAnalyzer, ofAnalyzer_append]
    by_cases same : access.analyzer = analyzer
    · subst same
      rw [if_pos rfl, repeatedAccesses, repeatedAccesses, dedup_append_length,
        if_neg ((mem_ofAnalyzer log access).not.mpr fresh), List.length_append, List.length_singleton]
      omega
    · rw [if_neg same]

end Counters

section Steps

variable {α : Type} {graph : AstGraph} {linkageData : LinkageIndex.Data} {analysis : String → AstNode → α}
  {cache : AnalysisCache α} {log : List Access}

/-- A cached value stands under the id of a node and is that of the node. -/
def HoldsFor {ν : Type} (graph : AstGraph) (table : OrderedDict String ν) (correct : AstNode → ν → Prop) :
    Prop :=
  ∀ nodeId value, table.get? nodeId = some value →
    ∀ node ∈ graph.nodes, node.nodeId = nodeId → correct node value

/-- A function with a cached value has been built once, the others never. -/
def BuiltFor {ν : Type} (table : OrderedDict String ν) (builds : OrderedDict String Nat) : Prop :=
  ∀ nodeId, countOf builds nodeId = if nodeId ∈ table.keys then 1 else 0

def BuiltSingle {ν : Type} (stored : Option ν) (value : ν) (builds : Nat) : Prop :=
  (stored = none ∧ builds = 0) ∨ (stored = some value ∧ builds = 1)

/-- Everything in the cache is what the analyzers compute. -/
structure Sound (graph : AstGraph) (linkageData : LinkageIndex.Data) (analysis : String → AstNode → α)
    (cache : AnalysisCache α) : Prop where
  cfgs : HoldsFor graph cache.cfgs fun node value => CFGEngine.build node graph = some value
  aliases : HoldsFor graph cache.aliasAnalyzers fun node value => AliasAnalyzer.analyze node graph = value
  engines : HoldsFor graph cache.dataflowEngines fun node value => ⟨AliasAnalyzer.analyze node graph⟩ = value
  results : ∀ nodeId analysisName value, cache.dataflowResults.get? (nodeId, analysisName) = some value →
    ∀ node ∈ graph.nodes, node.nodeId = nodeId → analysis analysisName node = value
  cfgBuilds : BuiltFor cache.cfgs cache.cfgBuildsPerFunction
  aliasBuilds : BuiltFor cache.aliasAnalyzers cache.aliasBuildsPerFunction
  engineBuilds : BuiltFor cache.dataflowEngines cache.dataflowBuildsPerFunction
  symbolIndex : BuiltSingle cache.cachedSymbolIndex (Symbols.ofGraph graph) cache.symbolIndexBuilds
  linkageIndex : BuiltSingle cache.cachedLinkageIndex linkageData cache.linkageIndexBuilds
  linkageAnalyzer : BuiltSingle cache.cachedLinkageAnalyzer ⟨linkageData⟩ cache.linkageAnalyzerBuilds

/-- The cache has a value for the access. -/
def Holds (cache : AnalysisCache α) : Access → Prop
  | .cfg nodeId => nodeId ∈ cache.cfgs.keys
  | .aliases nodeId => nodeId ∈ cache.aliasAnalyzers.keys
  | .dataflowEngine nodeId => nodeId ∈ cache.dataflowEngines.keys
  | .dataflowResult nodeId analysisName => (nodeId, analysisName) ∈ cache.dataflowResults.keys
  | .symbolIndex => cache.cachedSymbolIndex.isSome
  | .linkageIndex => cache.cachedLinkageIndex.isSome
  | .linkageAnalyzer => cache.cachedLinkageAnalyzer.isSome

/-- The cache is sound, it holds what the log lists, and its counters count the log. -/
structure Reflects (graph : AstGraph) (linkageData : LinkageIndex.Data) (analysis : String → AstNode → α)
    (log : List Access) (cache : AnalysisCache α) : Prop where
  sound : Sound graph linkageData analysis cache
  holds : ∀ access, Holds cache access ↔ access ∈ log
  counted : Counted log cache.statistics

theorem BuiltFor.insert {ν : Type} {table : OrderedDict String ν} {builds : OrderedDict String Nat}
    (built : BuiltFor table builds) {nodeId : String} (fresh : nodeId ∉ table.keys) (value : ν) :
    BuiltFor (table.insert nodeId value) (bump builds nodeId) := by
  intro query
  rw [countOf_bump, built, built, if_neg fresh]
  by_cases same : query = nodeId
  · simp [same, OrderedDict.mem_keys_insert]
  · simp [same, OrderedDict.mem_keys_insert]

theorem HoldsFor.insert {ν : Type} {table : OrderedDict String ν} {correct : AstNode → ν → Prop}
    (wellFormed : graph.WellFormed) (holds : HoldsFor graph table correct) {node : AstNode}
    (known : node ∈ graph.nodes) {value : ν} (right : correct node value) :
    HoldsFor graph (table.insert node.nodeId value) correct := by
  intro nodeId stored found other otherKnown same
  rw [OrderedDict.get?_insert] at found
  by_cases here : nodeId = node.nodeId
  · rw [if_pos here, Option.some.injEq] at found
    rw [← found, wellFormed.unique otherKnown known (same.trans here)]
    exact right
  · rw [if_neg here] at found
    exact holds nodeId stored found other otherKnown same

/-- A repeated access changes the counters only. -/
theorem Reflects.hit (reflects : Reflects graph linkageData analysis log cache) {access : Access}
    (held : Holds cache access) :
    Reflects graph linkageData analysis (log ++ [access]) (cache.hit access.analyzer) where
  sound := { reflects.sound with }
  holds other := by
    have known := (reflects.holds access).mp held
    rw [List.mem_append, List.mem_singleton, ← reflects.holds other]
    change Holds cache other ↔ _
    constructor
    · exact .inl
    · intro either
      exact either.elim id fun same => same ▸ held
  counted := reflects.counted.hit ((reflects.holds access).mp held)

/-- A fresh key is in the cache only after its insertion. -/
theorem holds_append {later : AnalysisCache α} {access : Access}
    (reflects : Reflects graph linkageData analysis log cache)
    (added : ∀ other, Holds later other ↔ Holds cache other ∨ other = access) (other : Access) :
    Holds later other ↔ other ∈ log ++ [access] := by
  rw [added, reflects.holds, List.mem_append, List.mem_singleton]

theorem cfg_reflects (wellFormed : graph.WellFormed)
    (reflects : Reflects graph linkageData analysis log cache) {node : AstNode} (known : node ∈ graph.nodes) :
    (cache.cfg node graph).1 = CFGEngine.build node graph ∧
      Reflects graph linkageData analysis (log ++ [.cfg node.nodeId]) (cache.cfg node graph).2 := by
  cases found : cache.cfgs.get? node.nodeId with
  | some cached =>
      have held : Holds cache (.cfg node.nodeId) := (OrderedDict.mem_keys_iff _ _).mpr ⟨cached, found⟩
      have scratch := reflects.sound.cfgs _ _ found node known rfl
      simp only [cfg, found]
      exact ⟨scratch.symm, reflects.hit held⟩
  | none =>
      obtain ⟨result, built, _⟩ := build_flow wellFormed node
      have absent := (OrderedDict.get?_eq_none _ _).mp found
      have fresh : Access.cfg node.nodeId ∉ log := (reflects.holds _).not.mp absent
      simp only [cfg, found, built, true_and]
      constructor
      · exact { reflects.sound with
          cfgs := reflects.sound.cfgs.insert wellFormed known built
          cfgBuilds := reflects.sound.cfgBuilds.insert absent result }
      · apply holds_append reflects
        intro other
        cases other <;> simp [Holds, miss, OrderedDict.mem_keys_insert, or_comm]
      · exact reflects.counted.miss fresh

/-- The alias facts are the only access that another query makes on its way. -/
theorem aliases_step (wellFormed : graph.WellFormed) (sound : Sound graph linkageData analysis cache)
    {node : AstNode} (known : node ∈ graph.nodes) (counted : Counted log cache.statistics)
    (listed : Holds cache (.aliases node.nodeId) ↔ .aliases node.nodeId ∈ log) :
    (cache.aliases node graph).1 = AliasAnalyzer.analyze node graph ∧
      Sound graph linkageData analysis (cache.aliases node graph).2 ∧
      (∀ other, Holds (cache.aliases node graph).2 other ↔
        Holds cache other ∨ other = .aliases node.nodeId) ∧
      Counted (log ++ [.aliases node.nodeId]) (cache.aliases node graph).2.statistics := by
  cases found : cache.aliasAnalyzers.get? node.nodeId with
  | some cached =>
      have held : Holds cache (.aliases node.nodeId) := (OrderedDict.mem_keys_iff _ _).mpr ⟨cached, found⟩
      have scratch := sound.aliases _ _ found node known rfl
      simp only [aliases, found]
      refine ⟨scratch.symm, { sound with }, ?_, counted.hit (listed.mp held)⟩
      intro other
      change Holds cache other ↔ _
      constructor
      · exact .inl
      · intro either
        exact either.elim id fun same => same ▸ held
  | none =>
      have absent := (OrderedDict.get?_eq_none _ _).mp found
      simp only [aliases, found, true_and]
      refine ⟨{ sound with
        aliases := sound.aliases.insert wellFormed known rfl
        aliasBuilds := sound.aliasBuilds.insert absent _ }, ?_, counted.miss (listed.not.mp absent)⟩
      intro other
      cases other <;> simp [Holds, miss, OrderedDict.mem_keys_insert, or_comm]

theorem aliases_reflects (wellFormed : graph.WellFormed)
    (reflects : Reflects graph linkageData analysis log cache) {node : AstNode} (known : node ∈ graph.nodes) :
    (cache.aliases node graph).1 = AliasAnalyzer.analyze node graph ∧
      Reflects graph linkageData analysis (log ++ [.aliases node.nodeId]) (cache.aliases node graph).2 := by
  obtain ⟨right, sound, added, counted⟩ :=
    aliases_step wellFormed reflects.sound known reflects.counted (reflects.holds _)
  exact ⟨right, sound, holds_append reflects added, counted⟩

/-- A missing engine is made from the alias facts, which are accessed after it. -/
theorem dataflowEngine_reflects (wellFormed : graph.WellFormed)
    (reflects : Reflects graph linkageData analysis log cache) {node : AstNode} (known : node ∈ graph.nodes) :
    (cache.dataflowEngine node graph).1 = ⟨AliasAnalyzer.analyze node graph⟩ ∧
      Reflects graph linkageData analysis
        (log ++ (Query.dataflowEngine node : Query α).accesses log) (cache.dataflowEngine node graph).2 := by
  cases found : cache.dataflowEngines.get? node.nodeId with
  | some cached =>
      have held : Holds cache (.dataflowEngine node.nodeId) :=
        (OrderedDict.mem_keys_iff _ _).mpr ⟨cached, found⟩
      have scratch := reflects.sound.engines _ _ found node known rfl
      rw [Query.accesses, if_pos ((reflects.holds _).mp held)]
      simp only [dataflowEngine, found]
      exact ⟨scratch.symm, reflects.hit held⟩
  | none =>
      have absent := (OrderedDict.get?_eq_none _ _).mp found
      have fresh : Access.dataflowEngine node.nodeId ∉ log := (reflects.holds _).not.mp absent
      have counted := reflects.counted.miss fresh
      have listed : Holds cache (.aliases node.nodeId) ↔
          .aliases node.nodeId ∈ log ++ [.dataflowEngine node.nodeId] := by
        rw [reflects.holds]
        simp
      have missed : Sound graph linkageData analysis (cache.miss "dataflow_engine") := { reflects.sound with }
      obtain ⟨right, sound, added, counted⟩ := aliases_step wellFormed missed known counted listed
      rw [Query.accesses, if_neg fresh]
      simp only [dataflowEngine, found]
      generalize (cache.miss "dataflow_engine").aliases node graph = asked at right sound added counted ⊢
      have stillAbsent : node.nodeId ∉ asked.2.dataflowEngines.keys := by
        have same := added (.dataflowEngine node.nodeId)
        simp only [Holds, reduceCtorEq, or_false] at same
        exact same.not.mpr absent
      refine ⟨by rw [right], { sound with
        engines := sound.engines.insert wellFormed known (by rw [right])
        engineBuilds := sound.engineBuilds.insert stillAbsent _ }, ?_, ?_⟩
      · intro other
        have step := added other
        rw [List.mem_append, List.mem_cons, List.mem_singleton]
        have before : Holds (cache.miss "dataflow_engine") other ↔ other ∈ log := reflects.holds other
        rw [before] at step
        have split : Holds { asked.2 with
            dataflowEngines := asked.2.dataflowEngines.insert node.nodeId ⟨asked.1⟩
            dataflowBuildsPerFunction := bump asked.2.dataflowBuildsPerFunction node.nodeId } other ↔
            Holds asked.2 other ∨ other = .dataflowEngine node.nodeId := by
          cases other <;> simp [Holds, OrderedDict.mem_keys_insert, or_comm]
        rw [split, step]
        tauto
      · rwa [List.append_assoc] at counted

/-- A computation under the name of the query stands for every later one of the name. -/
theorem dataflowResult_reflects (wellFormed : graph.WellFormed)
    (reflects : Reflects graph linkageData analysis log cache) {node : AstNode} (known : node ∈ graph.nodes)
    {analysisName : String} {compute : Unit → α} (same : compute () = analysis analysisName node) :
    (cache.dataflowResult node analysisName compute).1 = compute () ∧
      Reflects graph linkageData analysis (log ++ [.dataflowResult node.nodeId analysisName])
        (cache.dataflowResult node analysisName compute).2 := by
  cases found : cache.dataflowResults.get? (node.nodeId, analysisName) with
  | some cached =>
      have held : Holds cache (.dataflowResult node.nodeId analysisName) :=
        (OrderedDict.mem_keys_iff _ _).mpr ⟨cached, found⟩
      have scratch := reflects.sound.results _ _ _ found node known rfl
      simp only [dataflowResult, found]
      exact ⟨scratch.symm.trans same.symm, reflects.hit held⟩
  | none =>
      have absent := (OrderedDict.get?_eq_none _ _).mp found
      have fresh : Access.dataflowResult node.nodeId analysisName ∉ log := (reflects.holds _).not.mp absent
      simp only [dataflowResult, found, true_and]
      constructor
      · refine { reflects.sound with results := ?_ }
        intro nodeId name value stored other otherKnown sameId
        rw [OrderedDict.get?_insert] at stored
        by_cases here : (nodeId, name) = (node.nodeId, analysisName)
        · rw [if_pos here, Option.some.injEq] at stored
          rw [Prod.mk.injEq] at here
          rw [← stored, same, wellFormed.unique otherKnown known (sameId.trans here.1), here.2]
        · rw [if_neg here] at stored
          exact reflects.sound.results nodeId name value stored other otherKnown sameId
      · apply holds_append reflects
        intro other
        cases other <;> simp [Holds, miss, OrderedDict.mem_keys_insert, or_comm]
      · exact reflects.counted.miss fresh

theorem symbols_reflects (reflects : Reflects graph linkageData analysis log cache) :
    (cache.symbols graph).1 = Symbols.ofGraph graph ∧
      Reflects graph linkageData analysis (log ++ [.symbolIndex]) (cache.symbols graph).2 := by
  cases reflects.sound.symbolIndex with
  | inl absent =>
      have fresh : Access.symbolIndex ∉ log := by
        rw [← reflects.holds]
        simp [Holds, absent.1]
      simp only [symbols, absent.1, true_and]
      constructor
      · exact { reflects.sound with symbolIndex := .inr ⟨rfl, by rw [absent.2]⟩ }
      · apply holds_append reflects
        intro other
        cases other <;> simp [Holds, miss]
      · exact reflects.counted.miss fresh
  | inr stored =>
      have held : Holds cache .symbolIndex := by simp [Holds, stored.1]
      simp only [symbols, stored.1, true_and]
      exact reflects.hit held

theorem linkageIndex_reflects (reflects : Reflects graph linkageData analysis log cache) :
    (cache.linkageIndex linkageData).1 = linkageData ∧
      Reflects graph linkageData analysis (log ++ [.linkageIndex]) (cache.linkageIndex linkageData).2 := by
  cases reflects.sound.linkageIndex with
  | inl absent =>
      have fresh : Access.linkageIndex ∉ log := by
        rw [← reflects.holds]
        simp [Holds, absent.1]
      simp only [linkageIndex, absent.1, true_and]
      constructor
      · exact { reflects.sound with linkageIndex := .inr ⟨rfl, by rw [absent.2]⟩ }
      · apply holds_append reflects
        intro other
        cases other <;> simp [Holds, miss]
      · exact reflects.counted.miss fresh
  | inr stored =>
      have held : Holds cache .linkageIndex := by simp [Holds, stored.1]
      simp only [linkageIndex, stored.1, true_and]
      exact reflects.hit held

theorem linkageAnalyzer_reflects (reflects : Reflects graph linkageData analysis log cache) :
    (cache.linkageAnalyzer linkageData).1 = ⟨linkageData⟩ ∧
      Reflects graph linkageData analysis (log ++ [.linkageAnalyzer])
        (cache.linkageAnalyzer linkageData).2 := by
  cases reflects.sound.linkageAnalyzer with
  | inl absent =>
      have fresh : Access.linkageAnalyzer ∉ log := by
        rw [← reflects.holds]
        simp [Holds, absent.1]
      simp only [linkageAnalyzer, absent.1, true_and]
      constructor
      · exact { reflects.sound with linkageAnalyzer := .inr ⟨rfl, by rw [absent.2]⟩ }
      · apply holds_append reflects
        intro other
        cases other <;> simp [Holds, miss]
      · exact reflects.counted.miss fresh
  | inr stored =>
      have held : Holds cache .linkageAnalyzer := by simp [Holds, stored.1]
      simp only [linkageAnalyzer, stored.1, true_and]
      exact reflects.hit held

/-- Every query answers as the analyzer does and appends its accesses to the log. -/
theorem ask_reflects (wellFormed : graph.WellFormed)
    (reflects : Reflects graph linkageData analysis log cache) {query : Query α}
    (regular : query.Regular graph analysis) :
    (ask graph linkageData query cache).1 = fromScratch graph linkageData query ∧
      Reflects graph linkageData analysis (log ++ query.accesses log) (ask graph linkageData query cache).2 := by
  cases query with
  | cfg node =>
      obtain ⟨right, next⟩ := cfg_reflects wellFormed reflects regular
      exact ⟨congrArg _ right, next⟩
  | aliases node =>
      obtain ⟨right, next⟩ := aliases_reflects wellFormed reflects regular
      exact ⟨congrArg _ right, next⟩
  | dataflowEngine node =>
      obtain ⟨right, next⟩ := dataflowEngine_reflects wellFormed reflects regular
      exact ⟨congrArg _ right, next⟩
  | dataflowResult node analysisName compute =>
      obtain ⟨right, next⟩ := dataflowResult_reflects wellFormed reflects regular.1 regular.2
      exact ⟨congrArg _ right, next⟩
  | symbols =>
      obtain ⟨right, next⟩ := symbols_reflects reflects
      exact ⟨congrArg _ right, next⟩
  | linkageIndex =>
      obtain ⟨right, next⟩ := linkageIndex_reflects reflects
      exact ⟨congrArg _ right, next⟩
  | linkageAnalyzer =>
      obtain ⟨right, next⟩ := linkageAnalyzer_reflects reflects
      exact ⟨congrArg _ right, next⟩

/-- The induction is on the queries, the log carries the accesses so far. -/
theorem askAll_reflects (wellFormed : graph.WellFormed) (queries : List (Query α))
    (regular : ∀ query ∈ queries, query.Regular graph analysis)
    (reflects : Reflects graph linkageData analysis log cache) :
    (askAll graph linkageData queries cache).1 = queries.map (fromScratch graph linkageData) ∧
      Reflects graph linkageData analysis (accessLog log queries) (askAll graph linkageData queries cache).2 := by
  induction queries generalizing log cache with
  | nil => exact ⟨rfl, reflects⟩
  | cons query rest ih =>
      obtain ⟨right, next⟩ := ask_reflects wellFormed reflects (regular query (by simp))
      obtain ⟨others, last⟩ := ih (fun other inside => regular other (List.mem_cons_of_mem _ inside)) next
      constructor
      · rw [askAll, List.map_cons, right, others]
      · exact last

theorem empty_reflects (analysis : String → AstNode → α) :
    Reflects graph linkageData analysis [] ({} : AnalysisCache α) where
  sound := by
    constructor
    all_goals simp [HoldsFor, BuiltFor, BuiltSingle, countOf, OrderedDict.keys, OrderedDict.empty,
      OrderedDict.get?]
  holds access := by
    cases access <;> simp [Holds, OrderedDict.keys, OrderedDict.empty]
  counted := by
    constructor
    all_goals simp [firstAccesses, repeatedAccesses, ofAnalyzer, countOf]

/-- Soundness bounds the builds. -/
theorem Sound.builtOnce (sound : Sound graph linkageData analysis cache) : BuiltOnce cache := by
  have perFunction : ∀ {ν : Type} {table : OrderedDict String ν} {builds : OrderedDict String Nat},
      BuiltFor table builds → ∀ nodeId, countOf builds nodeId ≤ 1 := by
    intro ν table builds built nodeId
    rw [built]
    split <;> omega
  have single : ∀ {ν : Type} {stored : Option ν} {value : ν} {builds : Nat},
      BuiltSingle stored value builds → builds ≤ 1 := by
    intro ν stored value builds built
    cases built with
    | inl absent => omega
    | inr present => omega
  exact ⟨perFunction sound.cfgBuilds, perFunction sound.aliasBuilds, perFunction sound.engineBuilds,
    single sound.symbolIndex, single sound.linkageIndex, single sound.linkageAnalyzer⟩

/-- A cache that starts empty answers as the analyzers do, builds nothing twice and counts every access. -/
theorem askAll_transparent (wellFormed : graph.WellFormed) (queries : List (Query α))
    (regular : ∀ query ∈ queries, query.Regular graph analysis) :
    (askAll graph linkageData queries {}).1 = queries.map (fromScratch graph linkageData) ∧
      BuiltOnce (askAll graph linkageData queries {}).2 ∧
      Counted (accessLog [] queries) (askAll graph linkageData queries {}).2.statistics := by
  have start : Reflects graph linkageData analysis [] ({} : AnalysisCache α) := empty_reflects analysis
  obtain ⟨right, reflects⟩ := askAll_reflects wellFormed queries regular start
  exact ⟨right, reflects.sound.builtOnce, reflects.counted⟩

end Steps

/-- The engine is asked twice, and its first access asks for the alias facts. -/
def sampleQueries (functionNode : AstNode) : List (Query Nat) :=
  [.dataflowEngine functionNode, .cfg functionNode, .aliases functionNode, .dataflowEngine functionNode,
    .dataflowResult functionNode "liveness" fun _ => functionNode.nodeId.length, .symbols, .linkageIndex,
    .linkageAnalyzer, .symbols]

def returningFunction : AstNode where
  nodeId := "f"
  nodeKind := .functionDecl
  childrenIds := ["b"]

theorem sampleQueries_regular : ∀ query ∈ sampleQueries returningFunction,
    query.Regular returningGraph fun _ node => node.nodeId.length := by
  simp [sampleQueries, Query.Regular, returningGraph, returningFunction]

theorem askAll_transparent_returning :
    returningGraph.WellFormed ∧
    (askAll returningGraph (LinkageIndex.build []) (sampleQueries returningFunction) {}).1 =
      (sampleQueries returningFunction).map (fromScratch returningGraph (LinkageIndex.build [])) ∧
    BuiltOnce (askAll returningGraph (LinkageIndex.build []) (sampleQueries returningFunction) {}).2 ∧
    Counted (accessLog [] (sampleQueries returningFunction))
      (askAll returningGraph (LinkageIndex.build []) (sampleQueries returningFunction) {}).2.statistics :=
  ⟨returningGraph_wellFormed,
    askAll_transparent returningGraph_wellFormed (sampleQueries returningFunction) sampleQueries_regular⟩

end MisraPlatform.AnalysisCache
