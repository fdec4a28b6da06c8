import MisraPlatform.Proof.RecursionCycles
import MisraPlatform.Semantics.LinkedProject

/-
This file compares the reported recursion with the calls that linkage resolves.
-/

namespace MisraPlatform.LinkageIndex

open Relation

section CallGraph

theorem mem_addCallee (callees : List String) (added callee : String) :
    callee ∈ addCallee callees added ↔ callee ∈ callees ∨ (callee ≠ "" ∧ added = callee) := by
  rw [addCallee]
  by_cases skipped : added = "" ∨ added ∈ callees
  · rw [if_pos skipped]
    constructor
    · exact .inl
    · intro found
      cases found with
      | inl inside => exact inside
      | inr named =>
          obtain ⟨nonempty, rfl⟩ := named
          exact skipped.resolve_left nonempty
  · rw [if_neg skipped, List.mem_append, List.mem_singleton]
    constructor
    · intro found
      cases found with
      | inl inside => exact .inl inside
      | inr same => exact .inr ⟨fun empty => skipped (.inl (same ▸ empty)), same.symm⟩
    · intro found
      exact found.imp_right fun named => named.2.symm

/-- A fold adds the names that are not empty. -/
theorem mem_foldl_addCallee {ι : Type} (name : ι → String) (items : List ι) (start : List String)
    (callee : String) :
    callee ∈ items.foldl (fun callees item => addCallee callees (name item)) start ↔
      callee ∈ start ∨ (callee ≠ "" ∧ ∃ item ∈ items, name item = callee) := by
  induction items generalizing start with
  | nil => simp
  | cons item rest ih =>
      rw [List.foldl_cons, ih, mem_addCallee]
      simp only [List.mem_cons, exists_eq_or_imp]
      tauto

theorem mem_calleesOf (unit : Unit) (definition : AstNode) (callee : String) :
    callee ∈ calleesOf unit.graph definition ↔ NamesCallee unit definition callee := by
  rw [calleesOf, mem_foldl_addCallee]
  simp [NamesCallee, and_assoc]

theorem callees_addCallees (callGraph : CallGraph) (name : String) (callees : List String)
    (caller callee : String) :
    Calls (addCallees callGraph name callees) caller callee ↔
      Calls callGraph caller callee ∨ (caller = name ∧ callee ≠ "" ∧ callee ∈ callees) := by
  rw [addCallees]
  by_cases empty : callees = []
  · simp [empty]
  · rw [if_neg empty, Calls, CallGraph.callees, OrderedDict.get?_insert]
    by_cases same : caller = name
    · have folded := mem_foldl_addCallee (fun item : String => item) callees
        ((callGraph.get? name).getD []) callee
      rw [if_pos same, Option.getD_some, folded]
      simp [same, Calls, CallGraph.callees]
    · rw [if_neg same]
      simp [same, Calls, CallGraph.callees]

/-- The definitions of one unit add their callees under their names. -/
theorem calls_foldl_definitions (unit : Unit) (definitions : List AstNode) (callGraph : CallGraph)
    (caller callee : String) :
    Calls (definitions.foldl (fun callGraph func =>
        addCallees callGraph (func.property "name" "") (calleesOf unit.graph func)) callGraph) caller callee ↔
      Calls callGraph caller callee ∨ ∃ definition ∈ definitions,
        definition.property "name" "" = caller ∧ NamesCallee unit definition callee := by
  induction definitions generalizing callGraph with
  | nil => simp
  | cons definition rest ih =>
      rw [List.foldl_cons, ih, callees_addCallees, mem_calleesOf]
      have nonempty : NamesCallee unit definition callee → callee ≠ "" := And.left
      simp only [List.mem_cons, exists_eq_or_imp, eq_comm (a := caller)]
      tauto

theorem calls_foldl_units (units : List Unit) (callGraph : CallGraph) (caller callee : String) :
    Calls (units.foldl (fun callGraph unit => (definedFunctions unit.graph).foldl (fun callGraph func =>
        addCallees callGraph (func.property "name" "") (calleesOf unit.graph func)) callGraph) callGraph)
        caller callee ↔
      Calls callGraph caller callee ∨ ∃ unit ∈ units, ∃ definition ∈ definedFunctions unit.graph,
        definition.property "name" "" = caller ∧ NamesCallee unit definition callee := by
  induction units generalizing callGraph with
  | nil => simp
  | cons unit rest ih =>
      rw [List.foldl_cons, ih, calls_foldl_definitions, or_assoc]
      simp

/-- The call graph has the calls by name. -/
theorem calls_build (units : List Unit) (caller callee : String) :
    Calls (build units).callGraph caller callee ↔ NamedCall units caller callee := by
  have nothing : ¬ Calls (OrderedDict.empty : CallGraph) caller callee := by
    simp [Calls, CallGraph.callees]
  change Calls (units.foldl _ _) caller callee ↔ _
  rw [calls_foldl_units, or_iff_right nothing]
  constructor
  · intro found
    obtain ⟨unit, member, definition, defined, named, calls⟩ := found
    obtain ⟨unitIndex, here⟩ := List.getElem?_of_mem member
    simp only [definedFunctions, AstGraph.nodesByKind, List.mem_filter, Bool.and_eq_true,
      decide_eq_true_eq] at defined
    exact ⟨unitIndex, unit, definition, ⟨here, defined.1.1, defined.1.2, defined.2.1, defined.2.2⟩, calls,
      named⟩
  · intro call
    obtain ⟨unitIndex, unit, definition, defines, calls, named⟩ := call
    obtain ⟨here, member, kind, nonempty, body⟩ := defines
    refine ⟨unit, List.mem_of_getElem? here, definition, ?_, named, calls⟩
    simp [definedFunctions, AstGraph.nodesByKind, member, kind, nonempty, body]

end CallGraph

section Reports

variable {units : List Unit}

/-- A report keeps the name, so equal reports are about one name. -/
theorem report_name {context : RuleContext} {first second : AstNode}
    (same : Rule17_2.report context first = Rule17_2.report context second) :
    first.property "name" "" = second.property "name" "" := by
  have fixes := congrArg (fun result => result.suggestedFix.map SuggestedFix.originalCode) same
  exact Option.some.inj fixes

/-- A definition is reported when a chain of names returns to its name. -/
theorem recursionReported_iff {unitIndex : Nat} {unit : Unit} {definition : AstNode}
    (defines : Defines units unitIndex unit definition) :
    RecursionReported units unit definition ↔
      TransGen (NamedCall units) (definition.property "name" "") (definition.property "name" "") := by
  have cycles := (functionsInRecursionCycles_exact (build units).callGraph).2.2
  have calls : Calls (build units).callGraph = NamedCall units := by
    funext caller callee
    exact propext (calls_build units caller callee)
  rw [calls] at cycles
  rw [← cycles, RecursionReported, Rule17_2.detect]
  constructor
  · intro reported
    by_cases empty : functionsInRecursionCycles (build units).callGraph = []
    · rw [if_pos empty] at reported
      cases reported
    · rw [if_neg empty] at reported
      obtain ⟨node, inside, same⟩ := List.mem_map.mp reported
      have named := (List.mem_filter.mp inside).2
      rw [decide_eq_true_eq] at named
      exact report_name same ▸ named.2
  · intro cycle
    have nonempty : functionsInRecursionCycles (build units).callGraph ≠ [] := List.ne_nil_of_mem cycle
    rw [if_neg nonempty]
    apply List.mem_map_of_mem
    rw [List.mem_filter, decide_eq_true_eq]
    refine ⟨?_, defines.2.2.2.1, cycle⟩
    simp [AstGraph.nodesByKind, BaseRulePlugin.graph, Unit.context, defines.2.1, defines.2.2.1]

theorem resolve_name (unit : Unit) (unitIndex : Nat) (name : String) :
    (unit.resolve unitIndex name).name = name := by
  rw [Unit.resolve]
  split <;> rfl

/-- A call between functions is a call between their names. -/
theorem namedCall_of_linkedCall {caller callee : LinkedFunction} (call : LinkedCall units caller callee) :
    NamedCall units caller.name callee.name := by
  obtain ⟨unitIndex, unit, definition, calleeName, defines, names, rfl, rfl⟩ := call
  rw [resolve_name, resolve_name]
  exact ⟨unitIndex, unit, definition, defines, names, rfl⟩

/-- No recursion is missed, a chain of functions is a chain of names. -/
theorem named_of_recursive {unitIndex : Nat} {unit : Unit} {definition : AstNode}
    (recursive : Recursive units unitIndex unit definition) :
    TransGen (NamedCall units) (definition.property "name" "") (definition.property "name" "") := by
  have lifted : TransGen (NamedCall units) (unit.resolve unitIndex (definition.property "name" "")).name
      (unit.resolve unitIndex (definition.property "name" "")).name :=
    recursive.lift LinkedFunction.name fun _ _ call => namedCall_of_linkedCall call
  rwa [resolve_name] at lifted

/-- The reports are exact when every chain of names that returns to a definition is one of functions. -/
theorem recursionExact_iff (units : List Unit) : RecursionExact units ↔ NamedCyclesLinked units := by
  constructor
  · intro exact unitIndex unit definition defines chain
    exact (exact unitIndex unit definition defines).mp ((recursionReported_iff defines).mpr chain)
  · intro linked unitIndex unit definition defines
    rw [recursionReported_iff defines]
    exact ⟨linked unitIndex unit definition defines, named_of_recursive⟩

/-- The unit defines or calls a function under the name. -/
def Mentions (units : List Unit) (unitIndex : Nat) (unit : Unit) (name : String) : Prop :=
  ∃ definition, Defines units unitIndex unit definition ∧
    (definition.property "name" "" = name ∨ NamesCallee unit definition name)

/-- A name that two units mention stands for one function. -/
def NamesUnambiguous (units : List Unit) : Prop :=
  ∀ unitIndex unit otherIndex other name, Mentions units unitIndex unit name →
    Mentions units otherIndex other name → unit.resolve unitIndex name = other.resolve otherIndex name

/-- A chain of unambiguous names is a chain of functions. -/
theorem linked_of_named (unambiguous : NamesUnambiguous units) {caller callee : String}
    (chain : TransGen (NamedCall units) caller callee) :
    ∃ unitIndex unit otherIndex other, Mentions units unitIndex unit caller ∧
      Mentions units otherIndex other callee ∧
      TransGen (LinkedCall units) (unit.resolve unitIndex caller) (other.resolve otherIndex callee) := by
  have step : ∀ {caller callee : String}, NamedCall units caller callee → ∃ unitIndex unit,
      Mentions units unitIndex unit caller ∧ Mentions units unitIndex unit callee ∧
      LinkedCall units (unit.resolve unitIndex caller) (unit.resolve unitIndex callee) := by
    intro caller callee call
    obtain ⟨unitIndex, unit, definition, defines, names, rfl⟩ := call
    exact ⟨unitIndex, unit, ⟨definition, defines, .inl rfl⟩, ⟨definition, defines, .inr names⟩,
      unitIndex, unit, definition, callee, defines, names, rfl, rfl⟩
  induction chain with
  | single call =>
      obtain ⟨unitIndex, unit, mentionsCaller, mentionsCallee, linked⟩ := step call
      exact ⟨unitIndex, unit, unitIndex, unit, mentionsCaller, mentionsCallee, .single linked⟩
  | tail _ call ih =>
      obtain ⟨unitIndex, unit, otherIndex, other, mentionsCaller, mentionsMiddle, path⟩ := ih
      obtain ⟨lastIndex, last, lastMiddle, mentionsCallee, linked⟩ := step call
      have joined := unambiguous _ _ _ _ _ lastMiddle mentionsMiddle
      rw [joined] at linked
      exact ⟨unitIndex, unit, lastIndex, last, mentionsCaller, mentionsCallee, path.tail linked⟩

/-- The reports are exact in a project whose units agree on every name. -/
theorem recursionExact_of_unambiguous (unambiguous : NamesUnambiguous units) : RecursionExact units := by
  have linked : NamedCyclesLinked units := by
    intro unitIndex unit definition defines chain
    obtain ⟨firstIndex, first, lastIndex, last, mentionsFirst, mentionsLast, path⟩ :=
      linked_of_named unambiguous chain
    have here : Mentions units unitIndex unit (definition.property "name" "") :=
      ⟨definition, defines, .inl rfl⟩
    rw [unambiguous _ _ _ _ _ mentionsFirst here, unambiguous _ _ _ _ _ mentionsLast here] at path
    exact path
  intro unitIndex unit definition defines
  rw [recursionReported_iff defines]
  exact ⟨linked unitIndex unit definition defines, named_of_recursive⟩

end Reports

section SharedName

def staticHelper : AstNode where
  nodeId := "node-0"
  nodeKind := .functionDecl
  childrenIds := ["node-1"]
  semanticProperties := [("name", "helper"), ("storage_class", "static")]

/-- This is `static void helper(void) { run(); }`. -/
def callerUnit : Unit where
  translationUnitId := "tu-1"
  filePath := "first.c"
  graph := ⟨[staticHelper,
    { nodeId := "node-1", nodeKind := .compoundStmt, parentId := "node-0", childrenIds := ["node-2"] },
    { nodeId := "node-2", nodeKind := .callExpr, parentId := "node-1", childrenIds := ["node-3"],
      semanticProperties := [("callee", "run")] },
    { nodeId := "node-3", nodeKind := .declRefExpr, parentId := "node-2",
      semanticProperties := [("name", "run")] }]⟩

/-- This is `static void helper(void) {} void run(void) { helper(); }`. -/
def calleeUnit : Unit where
  translationUnitId := "tu-2"
  filePath := "second.c"
  graph := ⟨[staticHelper,
    { nodeId := "node-1", nodeKind := .compoundStmt, parentId := "node-0" },
    { nodeId := "node-2", nodeKind := .functionDecl, childrenIds := ["node-3"],
      semanticProperties := [("name", "run"), ("storage_class", "none")] },
    { nodeId := "node-3", nodeKind := .compoundStmt, parentId := "node-2", childrenIds := ["node-4"] },
    { nodeId := "node-4", nodeKind := .callExpr, parentId := "node-3", childrenIds := ["node-5"],
      semanticProperties := [("callee", "helper")] },
    { nodeId := "node-5", nodeKind := .declRefExpr, parentId := "node-4",
      semanticProperties := [("name", "helper")] }]⟩

/-- Every call of the two units leads to a function of lower rank. -/
def sharedRank : LinkedFunction → Nat
  | .internal 0 _ => 2
  | .external _ => 1
  | .internal _ _ => 0

theorem sharedRank_lt {caller callee : LinkedFunction}
    (call : LinkedCall [callerUnit, calleeUnit] caller callee) : sharedRank callee < sharedRank caller := by
  obtain ⟨unitIndex, unit, definition, calleeName, defines, names, rfl, rfl⟩ := call
  obtain ⟨here, member, kind, _, _⟩ := defines
  obtain ⟨_, node, inside, isCall, rfl⟩ := names
  have ranked : ∀ entry ∈ [(0, callerUnit), (1, calleeUnit)], ∀ definition ∈ entry.2.graph.nodes,
      definition.nodeKind = .functionDecl → ∀ node ∈ entry.2.graph.descendants definition.nodeId,
      node.nodeKind = .callExpr →
      sharedRank (entry.2.resolve entry.1 (node.property "callee" "")) <
        sharedRank (entry.2.resolve entry.1 (definition.property "name" "")) := by
    decide
  have listed : (unitIndex, unit) ∈ [(0, callerUnit), (1, calleeUnit)] := by
    match unitIndex, here with
    | 0, here => simp at here; simp [here]
    | 1, here => simp at here; simp [here]
  exact ranked (unitIndex, unit) listed definition member kind node inside isCall

/-- The static functions share their name, and the one that recurses in the index does not in the program. -/
theorem sharedName_reported : ¬ RecursionExact [callerUnit, calleeUnit] := by
  intro exact
  have defines : Defines [callerUnit, calleeUnit] 0 callerUnit staticHelper := by
    refine ⟨rfl, ?_, ?_, ?_, ?_⟩ <;> decide
  have reported : RecursionReported [callerUnit, calleeUnit] callerUnit staticHelper := by
    have there : NamedCall [callerUnit, calleeUnit] "helper" "run" := by
      rw [← calls_build, Calls]
      decide
    have back : NamedCall [callerUnit, calleeUnit] "run" "helper" := by
      rw [← calls_build, Calls]
      decide
    exact (recursionReported_iff defines).mpr (.tail (.single there) back)
  have recursive := (exact _ _ _ defines).mp reported
  have falls : ∀ {caller callee : LinkedFunction},
      TransGen (LinkedCall [callerUnit, calleeUnit]) caller callee → sharedRank callee < sharedRank caller := by
    intro caller callee path
    induction path with
    | single call => exact sharedRank_lt call
    | tail _ call ih => exact (sharedRank_lt call).trans ih
  exact (falls recursive).false

end SharedName

end MisraPlatform.LinkageIndex
