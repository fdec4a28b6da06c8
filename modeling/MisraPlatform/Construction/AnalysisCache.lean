import MisraPlatform.Construction.AliasAnalyzer
import MisraPlatform.Construction.CfgEngine
import MisraPlatform.Construction.SymbolIndex

/-
This file is the cache that the rules of one translation unit share.
-/

namespace MisraPlatform

/-- The engine keeps the alias facts that it was made with. -/
structure DataFlowEngineV2 where
  aliasAnalyzer : AliasAnalyzer.PointsTo

/-- The symbols keep their graph and the named declarations of it. -/
structure Symbols where
  graph : AstGraph
  byName : OrderedDict String (List AstNode)

def Symbols.ofGraph (graph : AstGraph) : Symbols := ⟨graph, SymbolIndex.byName graph⟩

structure LinkageAnalyzer where
  linkageIndex : LinkageIndex.Data

/-- A count that is not there is 0. -/
def countOf {κ : Type} [DecidableEq κ] (counts : OrderedDict κ Nat) (key : κ) : Nat :=
  (counts.get? key).getD 0

/-- This is `counts[key] += 1` of a `defaultdict(int)`. -/
def bump {κ : Type} [DecidableEq κ] (counts : OrderedDict κ Nat) (key : κ) : OrderedDict κ Nat :=
  counts.insert key (countOf counts key + 1)

structure CacheStatistics where
  hits : Nat := 0
  misses : Nat := 0
  hitsByAnalyzer : OrderedDict String Nat := .empty
  missesByAnalyzer : OrderedDict String Nat := .empty
  missReasons : OrderedDict String Nat := .empty

namespace CacheStatistics

def MISS_REASON_FIRST_ACCESS : String := "first_access_for_semantic_unit"

def recordHit (statistics : CacheStatistics) (analyzer : String) : CacheStatistics :=
  { statistics with
    hits := statistics.hits + 1
    hitsByAnalyzer := bump statistics.hitsByAnalyzer analyzer }

/-- Every miss has the reason of a first access. -/
def recordMiss (statistics : CacheStatistics) (analyzer : String) : CacheStatistics :=
  { statistics with
    misses := statistics.misses + 1
    missesByAnalyzer := bump statistics.missesByAnalyzer analyzer
    missReasons := bump statistics.missReasons (analyzer ++ ":" ++ MISS_REASON_FIRST_ACCESS) }

end CacheStatistics

/-- The type parameter is that of the dataflow results. -/
structure AnalysisCache (α : Type) where
  cfgs : OrderedDict String ControlFlowGraph := .empty
  aliasAnalyzers : OrderedDict String AliasAnalyzer.PointsTo := .empty
  dataflowEngines : OrderedDict String DataFlowEngineV2 := .empty
  dataflowResults : OrderedDict (String × String) α := .empty
  cachedSymbolIndex : Option Symbols := none
  cachedLinkageIndex : Option LinkageIndex.Data := none
  cachedLinkageAnalyzer : Option LinkageAnalyzer := none
  statistics : CacheStatistics := {}
  cfgBuildsPerFunction : OrderedDict String Nat := .empty
  aliasBuildsPerFunction : OrderedDict String Nat := .empty
  dataflowBuildsPerFunction : OrderedDict String Nat := .empty
  symbolIndexBuilds : Nat := 0
  linkageIndexBuilds : Nat := 0
  linkageAnalyzerBuilds : Nat := 0

namespace AnalysisCache

variable {α : Type} (cache : AnalysisCache α)

def hit (analyzer : String) : AnalysisCache α :=
  { cache with statistics := cache.statistics.recordHit analyzer }

def miss (analyzer : String) : AnalysisCache α :=
  { cache with statistics := cache.statistics.recordMiss analyzer }

/-- The query fails when the engine fails on the function, after the miss has been recorded. -/
def cfg (functionNode : AstNode) (graph : AstGraph) : Option ControlFlowGraph × AnalysisCache α :=
  let key := functionNode.nodeId
  match cache.cfgs.get? key with
  | some cached => (some cached, cache.hit "cfg")
  | none =>
      match CFGEngine.build functionNode graph with
      | none => (none, cache.miss "cfg")
      | some result => (some result, { cache.miss "cfg" with
          cfgs := cache.cfgs.insert key result
          cfgBuildsPerFunction := bump cache.cfgBuildsPerFunction key })

def aliases (functionNode : AstNode) (graph : AstGraph) : AliasAnalyzer.PointsTo × AnalysisCache α :=
  let key := functionNode.nodeId
  match cache.aliasAnalyzers.get? key with
  | some cached => (cached, cache.hit "alias")
  | none =>
      let result := AliasAnalyzer.analyze functionNode graph
      (result, { cache.miss "alias" with
        aliasAnalyzers := cache.aliasAnalyzers.insert key result
        aliasBuildsPerFunction := bump cache.aliasBuildsPerFunction key })

/-- A missing engine asks the cache for the alias facts first. -/
def dataflowEngine (functionNode : AstNode) (graph : AstGraph) : DataFlowEngineV2 × AnalysisCache α :=
  let key := functionNode.nodeId
  match cache.dataflowEngines.get? key with
  | some cached => (cached, cache.hit "dataflow_engine")
  | none =>
      let asked := (cache.miss "dataflow_engine").aliases functionNode graph
      let result : DataFlowEngineV2 := ⟨asked.1⟩
      (result, { asked.2 with
        dataflowEngines := asked.2.dataflowEngines.insert key result
        dataflowBuildsPerFunction := bump asked.2.dataflowBuildsPerFunction key })

/-- The computation is called on a miss only. -/
def dataflowResult (functionNode : AstNode) (analysisName : String) (compute : Unit → α) :
    α × AnalysisCache α :=
  let key := (functionNode.nodeId, analysisName)
  match cache.dataflowResults.get? key with
  | some cached => (cached, cache.hit "dataflow_result")
  | none =>
      let result := compute ()
      (result, { cache.miss "dataflow_result" with
        dataflowResults := cache.dataflowResults.insert key result })

def symbols (graph : AstGraph) : Symbols × AnalysisCache α :=
  match cache.cachedSymbolIndex with
  | some cached => (cached, cache.hit "symbol_index")
  | none =>
      let result := Symbols.ofGraph graph
      (result, { cache.miss "symbol_index" with
        cachedSymbolIndex := some result
        symbolIndexBuilds := cache.symbolIndexBuilds + 1 })

/-- The argument is the linkage data of the context. -/
def linkageIndex (crossTuLinkage : LinkageIndex.Data) : LinkageIndex.Data × AnalysisCache α :=
  match cache.cachedLinkageIndex with
  | some cached => (cached, cache.hit "linkage_index")
  | none =>
      (crossTuLinkage, { cache.miss "linkage_index" with
        cachedLinkageIndex := some crossTuLinkage
        linkageIndexBuilds := cache.linkageIndexBuilds + 1 })

def linkageAnalyzer (linkageIndex : LinkageIndex.Data) : LinkageAnalyzer × AnalysisCache α :=
  match cache.cachedLinkageAnalyzer with
  | some cached => (cached, cache.hit "linkage_analyzer")
  | none =>
      let result : LinkageAnalyzer := ⟨linkageIndex⟩
      (result, { cache.miss "linkage_analyzer" with
        cachedLinkageAnalyzer := some result
        linkageAnalyzerBuilds := cache.linkageAnalyzerBuilds + 1 })

/-! ### Sequences of queries -/

/-- A computation is what the caller passes along. -/
inductive Query (α : Type) where
  | cfg (functionNode : AstNode)
  | aliases (functionNode : AstNode)
  | dataflowEngine (functionNode : AstNode)
  | dataflowResult (functionNode : AstNode) (analysisName : String) (compute : Unit → α)
  | symbols
  | linkageIndex
  | linkageAnalyzer

inductive Answer (α : Type) where
  | cfg (result : Option ControlFlowGraph)
  | aliases (result : AliasAnalyzer.PointsTo)
  | dataflowEngine (result : DataFlowEngineV2)
  | dataflowResult (result : α)
  | symbols (result : Symbols)
  | linkageIndex (result : LinkageIndex.Data)
  | linkageAnalyzer (result : LinkageAnalyzer)

def ask (graph : AstGraph) (linkageData : LinkageIndex.Data) :
    Query α → AnalysisCache α → Answer α × AnalysisCache α
  | .cfg functionNode, cache =>
      let asked := cache.cfg functionNode graph
      (.cfg asked.1, asked.2)
  | .aliases functionNode, cache =>
      let asked := cache.aliases functionNode graph
      (.aliases asked.1, asked.2)
  | .dataflowEngine functionNode, cache =>
      let asked := cache.dataflowEngine functionNode graph
      (.dataflowEngine asked.1, asked.2)
  | .dataflowResult functionNode analysisName compute, cache =>
      let asked := cache.dataflowResult functionNode analysisName compute
      (.dataflowResult asked.1, asked.2)
  | .symbols, cache =>
      let asked := cache.symbols graph
      (.symbols asked.1, asked.2)
  | .linkageIndex, cache =>
      let asked := cache.linkageIndex linkageData
      (.linkageIndex asked.1, asked.2)
  | .linkageAnalyzer, cache =>
      let asked := cache.linkageAnalyzer linkageData
      (.linkageAnalyzer asked.1, asked.2)

def askAll (graph : AstGraph) (linkageData : LinkageIndex.Data) :
    List (Query α) → AnalysisCache α → List (Answer α) × AnalysisCache α
  | [], cache => ([], cache)
  | query :: rest, cache =>
      let asked := ask graph linkageData query cache
      let others := askAll graph linkageData rest asked.2
      (asked.1 :: others.1, others.2)

end AnalysisCache
end MisraPlatform
