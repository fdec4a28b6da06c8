import Mathlib.Data.List.Sort
import Mathlib.Data.String.Basic
import MisraPlatform.Construction.ControlFlowRules
import MisraPlatform.Construction.LinkageIndex

/-
This file is the search for recursion cycles in the calls of a project, and its rule.
-/

namespace MisraPlatform.LinkageIndex

/-- The graph may name a callee that has no entry of its own. -/
abbrev CallGraph : Type := OrderedDict String (List String)

namespace CallGraph

def callees (graph : CallGraph) (name : String) : List String := (graph.get? name).getD []

/-- The names of the graph are its keys and all callees. -/
def names (graph : CallGraph) : List String := (graph.keys ++ graph.values.flatten).dedup

end CallGraph

/-- These variables are shared by all calls of the closure, and a set is a list without repetition. -/
structure ComponentSearch where
  index : Nat
  indices : OrderedDict String Nat
  lowlink : OrderedDict String Nat
  onStack : List String
  /-- The top of the stack stands first. -/
  stack : List String
  cycles : List (List String)

namespace ComponentSearch

def initial : ComponentSearch where
  index := 0
  indices := .empty
  lowlink := .empty
  onStack := []
  stack := []
  cycles := []

def enter (node : String) (search : ComponentSearch) : ComponentSearch where
  index := search.index + 1
  indices := search.indices.insert node search.index
  lowlink := search.lowlink.insert node search.index
  onStack := search.onStack.insert node
  stack := node :: search.stack
  cycles := search.cycles

/-- This is `lowlink[node] = min(lowlink[node], candidate)`. -/
def lower (node : String) (candidate : Nat) (search : ComponentSearch) : Option ComponentSearch :=
  (search.lowlink.get? node).map fun low =>
    { search with lowlink := search.lowlink.insert node (min low candidate) }

def visitCallee (strongconnect : String → ComponentSearch → Option ComponentSearch) (node : String)
    (search : ComponentSearch) (callee : String) : Option ComponentSearch :=
  if callee ∉ search.indices.keys then do
    let returned ← strongconnect callee search
    let low ← returned.lowlink.get? callee
    returned.lower node low
  else if callee ∈ search.onStack then do
    let index ← search.indices.get? callee
    search.lower node index
  else some search

/-- The names are popped up to the root, which is popped last. -/
def popComponent (root : String) :
    List String → List String → List String → Option (List String × List String × List String)
  | [], _, _ => none
  | name :: stack, onStack, component =>
      if name = root then some (stack, onStack.filter (· ≠ name), component.insert name)
      else popComponent root stack (onStack.filter (· ≠ name)) (component.insert name)

/-- A single name is a cycle when it calls itself. -/
def isCycle (graph : CallGraph) (node : String) (component : List String) : Bool :=
  1 < component.length || (component.length = 1 && node ∈ graph.callees node)

def closeComponent (graph : CallGraph) (node : String) (search : ComponentSearch) :
    Option ComponentSearch := do
  let low ← search.lowlink.get? node
  let index ← search.indices.get? node
  if low = index then
    let popped ← popComponent node search.stack search.onStack []
    pure { search with
      stack := popped.1
      onStack := popped.2.1
      cycles := if isCycle graph node popped.2.2 then search.cycles ++ [popped.2.2] else search.cycles }
  else pure search

/-- The first number bounds the depth of the call stack. -/
def strongconnect (graph : CallGraph) : Nat → String → ComponentSearch → Option ComponentSearch
  | 0, _, _ => none
  | depth + 1, node, search => do
      let left ← (graph.callees node).foldlM (visitCallee (strongconnect graph depth) node)
        (search.enter node)
      closeComponent graph node left

def visitName (graph : CallGraph) (depth : Nat) (search : ComponentSearch) (name : String) :
    Option ComponentSearch :=
  if name ∉ search.indices.keys then strongconnect graph depth name search else some search

end ComponentSearch

/-- The call fails when the call stack is not deep enough. -/
def recursionCyclesWithin (depth : Nat) (graph : CallGraph) : Option (List String) :=
  if graph.keys = [] then some []
  else do
    let search ← graph.keys.foldlM (ComponentSearch.visitName graph depth) .initial
    pure ((search.cycles.foldl (fun inCycle cycle => cycle ∪ inCycle) []).insertionSort (· ≤ ·))

/-- The depth is the number of names in the graph, one call can be open for each. -/
def functionsInRecursionCycles (graph : CallGraph) : List String :=
  (recursionCyclesWithin (graph.names.length + 1) graph).getD []

example : functionsInRecursionCycles
    ⟨[("a", ["b", "x"]), ("b", ["c"]), ("c", ["b", "a"]), ("d", ["d", "a"]), ("e", ["d"])], by decide⟩ =
      ["a", "b", "c", "d"] := by decide

end MisraPlatform.LinkageIndex

namespace MisraPlatform.Rule17_2
open BaseRulePlugin

def ruleId : String := "misra-c2012-rule-17-2"

def explanation (name : String) : String :=
  "Function '" ++ name ++ "' participates in a recursion cycle."

def riskDescription : String := "Recursion makes stack-depth and timing analysis unpredictable."

def confidenceFactors : List (String × Rat) :=
  [("ast_match_specificity", 85 / 100), ("type_information_complete", 75 / 100), ("macro_clarity", 85 / 100),
    ("historical_false_positive_rate", 1 / 10), ("fix_generator_certainty", 25 / 100)]

def suggestedFix (name : String) : SuggestedFix where
  originalCode := name
  suggestedCode := "replace recursive '" ++ name ++ "' with an iterative implementation"
  rationale := "Eliminate direct and indirect recursion."
  confidenceScore := 25 / 100

def report (context : RuleContext) (node : AstNode) : RuleResult :=
  let name := node.property "name" ""
  makeResult ruleId context (graph context) node (explanation name) riskDescription confidenceFactors
    (8 / 10) (some (suggestedFix name))

/-- The first argument is the linkage index of the project. -/
def detect (linkage : LinkageIndex.Data) (context : RuleContext) : List RuleResult :=
  let inCycles := LinkageIndex.functionsInRecursionCycles linkage.callGraph
  if inCycles = [] then []
  else (((graph context).nodesByKind .functionDecl).filter fun node =>
    node.property "name" "" ≠ "" ∧ node.property "name" "" ∈ inCycles).map (report context)

end MisraPlatform.Rule17_2
