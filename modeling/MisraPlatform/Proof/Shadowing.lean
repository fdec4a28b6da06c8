import MisraPlatform.Proof.Descendants
import MisraPlatform.Proof.BooleanProperties
import MisraPlatform.Semantics.Declarations

/-
This file proves which pairs of declarations the index finds and which of them the rules on scopes and name spaces
report.
-/

namespace MisraPlatform
open SymbolIndex

section Climb

variable {graph : AstGraph}

theorem climb_succ (fuel : Nat) (nodeId : String) : graph.climb (fuel + 1) nodeId =
    if nodeId = "" then [] else nodeId :: graph.climb fuel (((graph.get nodeId).map AstNode.parentId).getD "") :=
  rfl

theorem eq_of_mem_climb_unknown {fuel : Nat} {nodeId other : String} (unknown : graph.get nodeId = none)
    (inside : other ∈ graph.climb fuel nodeId) : other = nodeId := by
  cases fuel with
  | zero => exact absurd inside List.not_mem_nil
  | succ fuel =>
      rw [AstGraph.climb, unknown] at inside
      split at inside
      · exact absurd inside List.not_mem_nil
      · rcases List.mem_cons.mp inside with same | higher
        · exact same
        · cases fuel <;> simp [AstGraph.climb] at higher

variable (wellFormed : graph.WellFormed) (linked : graph.Linked) {depth : String → Nat}
  (decreases : ∀ nodeId, ∀ child ∈ graph.children nodeId, depth child.nodeId < depth nodeId)

include wellFormed linked decreases

theorem depth_parent {node parent : AstNode} (present : node ∈ graph.nodes)
    (named : graph.get node.parentId = some parent) : depth node.nodeId < depth node.parentId := by
  have step := (wellFormed.get_parent linked present).mp named
  rw [← (AstGraph.get_eq_some named).2]
  exact decreases parent.nodeId node step.2

/-- The depth grows on the way up. -/
theorem depth_of_mem_climb {fuel : Nat} {nodeId other : String} (inside : other ∈ graph.climb fuel nodeId)
    (known : (graph.get other).isSome = true) : other = nodeId ∨ depth nodeId < depth other := by
  induction fuel generalizing nodeId with
  | zero => exact absurd inside List.not_mem_nil
  | succ fuel ih =>
      cases found : graph.get nodeId with
      | none => exact .inl (eq_of_mem_climb_unknown found inside)
      | some node =>
          obtain ⟨present, rfl⟩ := AstGraph.get_eq_some found
          rw [AstGraph.climb, found] at inside
          split at inside
          · exact absurd inside List.not_mem_nil
          · rcases List.mem_cons.mp inside with same | higher
            · exact .inl same
            · cases named : graph.get node.parentId with
              | none =>
                  rw [eq_of_mem_climb_unknown named higher, named] at known
                  cases known
              | some parent =>
                  have larger := depth_parent wellFormed linked decreases present named
                  rcases ih higher with same | further
                  · exact .inr (same ▸ larger)
                  · exact .inr (Nat.lt_trans larger further)

/-- More fuel does not lengthen the climb. -/
theorem climb_stable (bounded : ∀ node ∈ graph.nodes, depth node.nodeId < graph.nodes.length) {fuel : Nat}
    {nodeId : String} (positive : 0 < fuel)
    (enough : ∀ node, graph.get nodeId = some node → graph.nodes.length < fuel + depth nodeId) :
    graph.climb (fuel + 1) nodeId = graph.climb fuel nodeId := by
  induction fuel generalizing nodeId with
  | zero => omega
  | succ fuel ih =>
      rw [climb_succ (fuel + 1) nodeId, climb_succ fuel nodeId]
      by_cases fileLevel : nodeId = ""
      · rw [if_pos fileLevel, if_pos fileLevel]
      · rw [if_neg fileLevel, if_neg fileLevel]
        cases found : graph.get nodeId with
        | none => cases fuel <;> simp [AstGraph.climb]
        | some node =>
            obtain ⟨present, named⟩ := AstGraph.get_eq_some found
            have below := bounded node present
            have room := enough node found
            rw [← named] at room
            congr 1
            refine ih (by omega) fun parent above => ?_
            have larger := depth_parent wellFormed linked decreases present above
            simp only [Option.map_some, Option.getD_some]
            omega

omit decreases in
/-- The path of a declaration is its id and the path of its parent. -/
theorem mem_nodePath {node : AstNode} (present : node ∈ graph.nodes) (named : node.nodeId ≠ "") {other : String} :
    other ∈ graph.nodePath node.nodeId ↔ other = node.nodeId ∨ other ∈ graph.nodePath node.parentId := by
  obtain ⟨depth, decreases, bounded⟩ := wellFormed.depth
  have below := bounded node present
  have stable : graph.climb (graph.nodes.length + 1) node.parentId =
      graph.climb graph.nodes.length node.parentId := by
    refine climb_stable wellFormed linked decreases bounded (by omega) fun parent above => ?_
    have larger := depth_parent wellFormed linked decreases present above
    omega
  rw [AstGraph.nodePath, AstGraph.nodePath, List.mem_reverse, List.mem_reverse, stable, AstGraph.climb, if_neg named,
    wellFormed.get present, List.mem_cons]
  rfl

omit decreases in
/-- Two scopes do not enclose each other. -/
theorem ScopeEncloses.asymm {outer inner : AstNode} (encloses : ScopeEncloses graph outer inner) :
    ¬ ScopeEncloses graph inner outer := by
  obtain ⟨depth, decreases, _⟩ := wellFormed.depth
  have known : ∀ {first second : String}, first ≠ second → first ∈ graph.nodePath second →
      (graph.get second).isSome = true := by
    intro first second different inside
    cases found : graph.get second with
    | none => exact absurd (eq_of_mem_climb_unknown found (List.mem_reverse.mp inside)) different
    | some node => rfl
  have fileLevel : ∀ nodeId : String, nodeId ∉ graph.nodePath "" := by
    intro nodeId
    simp [AstGraph.nodePath, AstGraph.climb]
  obtain ⟨different, upper⟩ := encloses
  rintro ⟨_, lower⟩
  rcases upper with top | upper
  · rcases lower with other | lower
    · exact different (top.trans other.symm)
    · rw [top] at lower
      exact fileLevel _ lower
  · rcases lower with other | lower
    · rw [other] at upper
      exact fileLevel _ upper
    · rcases depth_of_mem_climb wellFormed linked decreases (List.mem_reverse.mp upper)
        (known different.symm lower) with same | larger
      · exact different same
      · rcases depth_of_mem_climb wellFormed linked decreases (List.mem_reverse.mp lower)
          (known different upper) with same | smaller
        · exact different same.symm
        · exact Nat.lt_asymm larger smaller

end Climb

section Pairs

variable {graph : AstGraph} (wellFormed : graph.WellFormed) (linked : graph.Linked) (serialized : Serialized graph)

include wellFormed linked serialized

/-- The parent of a declaration stands on the path of its children. -/
theorem parentId_mem_nodePath {first second : AstNode} (present : first ∈ graph.nodes)
    (child : second ∈ graph.nodes) (below : second.parentId = first.nodeId) (inside : first.parentId ≠ "") :
    first.parentId ∈ graph.nodePath second.nodeId := by
  rw [mem_nodePath wellFormed linked child (serialized.named second child), below,
    mem_nodePath wellFormed linked present (serialized.named first present)]
  right
  right
  rw [AstGraph.nodePath, List.mem_reverse, AstGraph.climb, if_neg inside]
  exact List.mem_cons_self

/-- The order of two declarations is that of their scopes. -/
theorem orderByEnclosingScope_eq_some {first second : AstNode} (listed : [first, second].Sublist graph.nodes)
    (pair : AstNode × AstNode) : orderByEnclosingScope graph first second = some pair ↔
      (pair = (first, second) ∨ pair = (second, first)) ∧ ScopeEncloses graph pair.1 pair.2 := by
  have here : first ∈ graph.nodes := listed.subset (by simp)
  have there : second ∈ graph.nodes := listed.subset (by simp)
  have forward : ScopeEncloses graph first second →
      (some (first, second) = some pair ↔
        (pair = (first, second) ∨ pair = (second, first)) ∧ ScopeEncloses graph pair.1 pair.2) := by
    intro encloses
    constructor
    · rintro ⟨⟩
      exact ⟨.inl rfl, encloses⟩
    · rintro ⟨rfl | rfl, other⟩
      · rfl
      · exact absurd other (encloses.asymm wellFormed linked)
  have backward : ScopeEncloses graph second first →
      (some (second, first) = some pair ↔
        (pair = (first, second) ∨ pair = (second, first)) ∧ ScopeEncloses graph pair.1 pair.2) := by
    intro encloses
    constructor
    · rintro ⟨⟩
      exact ⟨.inr rfl, encloses⟩
    · rintro ⟨rfl | rfl, other⟩
      · exact absurd other (encloses.asymm wellFormed linked)
      · rfl
  have unrelated : ¬ ScopeEncloses graph first second → ¬ ScopeEncloses graph second first →
      (none = some pair ↔
        (pair = (first, second) ∨ pair = (second, first)) ∧ ScopeEncloses graph pair.1 pair.2) := by
    intro outside inside
    constructor
    · rintro ⟨⟩
    · rintro ⟨rfl | rfl, encloses⟩
      · exact absurd encloses outside
      · exact absurd encloses inside
  have firstPath : second.parentId ∈ graph.nodePath first.nodeId ↔ _ :=
    mem_nodePath wellFormed linked here (serialized.named first here)
  have secondPath : first.parentId ∈ graph.nodePath second.nodeId ↔ _ :=
    mem_nodePath wellFormed linked there (serialized.named second there)
  rw [orderByEnclosingScope]
  split
  · rename_i same
    exact unrelated (fun encloses => encloses.1 same) fun encloses => encloses.1 same.symm
  · rename_i different
    split
    · rename_i top
      exact forward ⟨different, .inl top⟩
    · rename_i firstInside
      split
      · rename_i top
        exact backward ⟨Ne.symm different, .inl top⟩
      · rename_i secondInside
        split
        · rename_i above
          rw [List.contains_iff_mem, secondPath] at above
          rcases above with self | above
          · exact absurd self (serialized.ordered first second listed)
          · exact forward ⟨different, .inr above⟩
        · rename_i apart
          rw [List.contains_iff_mem] at apart
          split
          · rename_i above
            rw [List.contains_iff_mem, firstPath] at above
            rcases above with self | above
            · exact absurd (parentId_mem_nodePath wellFormed linked serialized here there self firstInside) apart
            · exact backward ⟨Ne.symm different, .inr above⟩
          · rename_i foreign
            rw [List.contains_iff_mem, firstPath] at foreign
            refine unrelated (fun encloses => ?_) fun encloses => ?_
            · exact apart (secondPath.mpr (.inr (encloses.2.resolve_left firstInside)))
            · exact foreign (.inr (encloses.2.resolve_left secondInside))

omit linked serialized in
theorem nodes_nodup : graph.nodes.Nodup := List.Nodup.of_map AstNode.nodeId wellFormed.ids

omit wellFormed linked serialized in
theorem byName_entry {name : String} {decls : List AstNode} (inside : (name, decls) ∈ (byName graph).entries) :
    decls = namesakes graph name := by
  have found := (OrderedDict.mem_entries_iff _ _ _).mp inside
  rw [← byName_namesakes, found]
  rfl

omit wellFormed linked serialized in
theorem namesakes_sublist (name : String) : (namesakes graph name).Sublist graph.nodes := List.filter_sublist

/-- The pairs of one name are found among its declarations. -/
theorem mem_shadowingPairs {outer inner : AstNode} :
    (outer, inner) ∈ shadowingPairs graph ↔ SharesName graph outer inner := by
  rw [shadowingPairs, List.mem_flatMap]
  constructor
  · rintro ⟨decls, listed, found⟩
    obtain ⟨⟨name, group⟩, inside, rfl⟩ := List.mem_map.mp listed
    obtain ⟨⟨first, second⟩, paired, ordered⟩ := List.mem_filterMap.mp found
    have group : group = namesakes graph name := byName_entry inside
    subst group
    have both := mem_orderedPairs.mp paired
    have encloses := (orderByEnclosingScope_eq_some wellFormed linked serialized
      (both.trans (namesakes_sublist name)) _).mp ordered
    have declared : ∀ decl ∈ [first, second],
        (decl ∈ graph.nodes ∧ isNamedDecl decl = true) ∧ decl.property "name" "" = name := by
      intro decl either
      have member := List.mem_filter.mp (both.subset either)
      simp only [Bool.and_eq_true, decide_eq_true_eq] at member
      exact ⟨⟨member.1, member.2.1⟩, member.2.2⟩
    have one := declared first (by simp)
    have other := declared second (by simp)
    rcases encloses.1 with same | same
    · obtain ⟨rfl, rfl⟩ := Prod.mk.inj same
      exact ⟨one.1, other.1, one.2.trans other.2.symm, encloses.2⟩
    · obtain ⟨rfl, rfl⟩ := Prod.mk.inj same
      exact ⟨other.1, one.1, other.2.trans one.2.symm, encloses.2⟩
  · intro shares
    have member : ∀ decl ∈ graph.nodes, isNamedDecl decl = true →
        decl.property "name" "" = inner.property "name" "" →
        decl ∈ namesakes graph (inner.property "name" "") := by
      intro decl present declared same
      exact List.mem_filter.mpr ⟨present, by simp [declared, same]⟩
    have outside := member outer shares.outerDeclared.1 shares.outerDeclared.2 shares.named
    have inside := member inner shares.innerDeclared.1 shares.innerDeclared.2 rfl
    have different : outer ≠ inner := fun same => shares.encloses.1 (same ▸ rfl)
    obtain ⟨first, second, either, both⟩ : ∃ first second,
        ((outer, inner) = (first, second) ∨ (outer, inner) = (second, first)) ∧
          [first, second].Sublist (namesakes graph (inner.property "name" "")) := by
      rcases sublist_or_swap outside inside different with forward | backward
      · exact ⟨outer, inner, .inl rfl, forward⟩
      · exact ⟨inner, outer, .inr rfl, backward⟩
    refine ⟨namesakes graph (inner.property "name" ""), ?_, ?_⟩
    · exact List.mem_map.mpr ⟨(inner.property "name" "", _),
        (mem_byName_iff graph both.length_le).mpr rfl, rfl⟩
    · refine List.mem_filterMap.mpr ⟨(first, second), mem_orderedPairs.mpr both, ?_⟩
      exact (orderByEnclosingScope_eq_some wellFormed linked serialized
        (both.trans (namesakes_sublist _)) _).mpr ⟨either, shares.encloses⟩

/-- Two pairs of declarations give different results. -/
theorem pairsOf_nodup {decls : List AstNode} (among : decls.Sublist graph.nodes) :
    ((orderedPairs decls).filterMap fun pair => orderByEnclosingScope graph pair.1 pair.2).Nodup := by
  have distinct := among.nodup (nodes_nodup wellFormed)
  refine List.pairwise_filterMap.mpr ((orderedPairs_nodup distinct).imp_of_mem ?_)
  rintro ⟨first, second⟩ ⟨third, fourth⟩ here there different result found other same rfl
  have order : ∀ {left right : AstNode}, (left, right) ∈ orderedPairs decls →
      orderByEnclosingScope graph left right = some result →
        result = (left, right) ∨ result = (right, left) := by
    intro left right paired ordered
    exact ((orderByEnclosingScope_eq_some wellFormed linked serialized
      ((mem_orderedPairs.mp paired).trans among) _).mp ordered).1
  rcases order here found with rfl | rfl
  · rcases order there same with again | again
    · exact different again
    · obtain ⟨rfl, rfl⟩ := Prod.mk.inj again
      exact swap_not_mem_orderedPairs distinct here there
  · rcases order there same with again | again
    · obtain ⟨rfl, rfl⟩ := Prod.mk.inj again
      exact swap_not_mem_orderedPairs distinct here there
    · obtain ⟨rfl, rfl⟩ := Prod.mk.inj again
      exact different rfl

/-- The groups of two names have no pair in common. -/
theorem shadowingPairs_nodup : (shadowingPairs graph).Nodup := by
  rw [shadowingPairs, List.nodup_flatMap]
  constructor
  · intro decls listed
    obtain ⟨⟨name, group⟩, inside, rfl⟩ := List.mem_map.mp listed
    refine pairsOf_nodup wellFormed linked serialized ?_
    rw [byName_entry inside]
    exact namesakes_sublist name
  · have named : ∀ {name : String} {group : List AstNode} {pair : AstNode × AstNode},
        (name, group) ∈ (byName graph).entries →
        pair ∈ (orderedPairs group).filterMap (fun pair => orderByEnclosingScope graph pair.1 pair.2) →
          pair.1.property "name" "" = name := by
      intro name group pair inside found
      obtain ⟨⟨first, second⟩, paired, ordered⟩ := List.mem_filterMap.mp found
      rw [byName_entry inside] at paired
      have both := mem_orderedPairs.mp paired
      have either := ((orderByEnclosingScope_eq_some wellFormed linked serialized
        (both.trans (namesakes_sublist name)) _).mp ordered).1
      have spelled : ∀ decl ∈ [first, second], decl.property "name" "" = name := by
        intro decl one
        have member := (List.mem_filter.mp (both.subset one)).2
        simp only [Bool.and_eq_true, decide_eq_true_eq] at member
        exact member.2
      rcases either with rfl | rfl
      · exact spelled first (by simp)
      · exact spelled second (by simp)
    refine List.pairwise_map.mpr ((List.pairwise_map.mp (byName graph).distinct).imp_of_mem ?_)
    rintro ⟨name, group⟩ ⟨other, others⟩ here there different pair found again
    exact different ((named here found).symm.trans (named there again))

end Pairs

theorem mem_offending {graph : AstGraph} {outer inner : AstNode} : (outer, inner) ∈ Rule5_3.offending graph ↔
    (outer, inner) ∈ shadowingPairs graph ∧ outer.nodeKind ∈ [NodeKind.varDecl, .parmVarDecl, .functionDecl] ∧
      inner.nodeKind ∈ [NodeKind.varDecl, .parmVarDecl] := by
  rw [Rule5_3.offending, List.mem_filter, Rule5_3.offends, Bool.and_eq_true, List.contains_iff_mem,
    List.contains_iff_mem]

/-- Objects, parameters and functions are ordinary identifiers. -/
theorem namespaceOf_ordinary {node : AstNode}
    (kind : node.nodeKind ∈ [NodeKind.varDecl, .parmVarDecl, .functionDecl]) : namespaceOf node = .ordinary := by
  have either : node.nodeKind = .varDecl ∨ node.nodeKind = .parmVarDecl ∨ node.nodeKind = .functionDecl := by
    simpa using kind
  rw [namespaceOf]
  rcases either with same | same | same <;> rw [same] <;> decide

/-- The pairs are those of one name in nested scopes, and the rule reports those of two ordinary identifiers. -/
theorem shadowing_named {graph : AstGraph} (wellFormed : graph.WellFormed) (linked : graph.Linked)
    (serialized : Serialized graph) : NamesPaired graph where
  once := shadowingPairs_nodup wellFormed linked serialized
  shared outer inner := mem_shadowingPairs wellFormed linked serialized
  reported outer inner := by rw [mem_offending, mem_shadowingPairs wellFormed linked serialized]
  ordinary outer inner listed := by
    obtain ⟨_, outside, inside⟩ := mem_offending.mp listed
    have wider : inner.nodeKind ∈ [NodeKind.varDecl, .parmVarDecl] ++ [.functionDecl] :=
      List.mem_append_left _ inside
    exact ⟨namespaceOf_ordinary outside, namespaceOf_ordinary wider⟩

theorem Serialized.of_pairs {graph : AstGraph} (named : ∀ node ∈ graph.nodes, node.nodeId ≠ "")
    (ordered : ∀ pair ∈ orderedPairs graph.nodes, pair.1.parentId ≠ pair.2.nodeId) : Serialized graph :=
  ⟨named, fun node parent listed => ordered (node, parent) (mem_orderedPairs.mpr listed)⟩

/-- This is `int count; void f(void) { int count; }`. -/
def hidingGraph : AstGraph where
  nodes :=
    [{ nodeId := "object", nodeKind := .varDecl, semanticProperties := [("name", "count")] },
      { nodeId := "f", nodeKind := .functionDecl, childrenIds := ["body"], semanticProperties := [("name", "f")] },
      { nodeId := "body", nodeKind := .compoundStmt, parentId := "f", childrenIds := ["local"] },
      { nodeId := "local", nodeKind := .varDecl, parentId := "body", semanticProperties := [("name", "count")] }]

theorem hidingGraph_named : NamesPaired hidingGraph :=
  shadowing_named
    (AstGraph.WellFormed.of_order _ (by decide) (by decide) (by decide))
    (AstGraph.Linked.of_named (by decide))
    (.of_pairs (by decide) (by decide))

/-- This is `int x; struct S { int x; };`. -/
def memberGraph : AstGraph where
  nodes :=
    [{ nodeId := "object", nodeKind := .varDecl, semanticProperties := [("name", "x")] },
      { nodeId := "aggregate", nodeKind := .other "RecordDecl", childrenIds := ["member"],
        semanticProperties := [("name", "S")] },
      { nodeId := "member", nodeKind := .other "FieldDecl", parentId := "aggregate",
        semanticProperties := [("name", "x")] }]

/-- An object and a member of its name are a pair, and the rule leaves it out by its kinds. -/
theorem memberGraph_paired : ¬ ShadowingExact memberGraph ∧ Rule5_3.offending memberGraph = [] := by
  constructor
  · rintro ⟨_, alike⟩
    have pair : (memberGraph.nodes[0], memberGraph.nodes[2]) ∈ shadowingPairs memberGraph := by decide
    have spaces := ((alike _ _).mp pair).2.1
    revert spaces
    decide
  · decide

/-! ### Name spaces -/

section NameSpaces
open BaseRulePlugin

variable {graph : AstGraph}

theorem mem_crossNamespaceCollisions {first second : AstNode} :
    (first, second) ∈ crossNamespaceCollisions graph ↔ [first, second].Sublist graph.nodes ∧
      isNamedDecl first = true ∧ isNamedDecl second = true ∧
        first.property "name" "" = second.property "name" "" ∧ namespaceOf first ≠ namespaceOf second := by
  rw [crossNamespaceCollisions, List.mem_flatMap]
  constructor
  · rintro ⟨decls, listed, found⟩
    obtain ⟨⟨name, group⟩, inside, rfl⟩ := List.mem_map.mp listed
    obtain ⟨paired, differ⟩ := List.mem_filter.mp found
    have group : group = namesakes graph name := byName_entry inside
    subst group
    have both := mem_orderedPairs.mp paired
    have declared : ∀ decl ∈ [first, second], isNamedDecl decl = true ∧ decl.property "name" "" = name := by
      intro decl either
      have member := (List.mem_filter.mp (both.subset either)).2
      simpa using member
    have one := declared first (by simp)
    have other := declared second (by simp)
    exact ⟨both.trans (namesakes_sublist name), one.1, other.1, one.2.trans other.2.symm, of_decide_eq_true differ⟩
  · rintro ⟨among, firstDeclared, secondDeclared, same, differ⟩
    have both : [first, second].Sublist (namesakes graph (second.property "name" "")) := by
      have kept := among.filter fun node => isNamedDecl node && node.property "name" "" = second.property "name" ""
      rwa [List.filter_cons_of_pos (by simp [firstDeclared, same]),
        List.filter_cons_of_pos (by simp [secondDeclared]), List.filter_nil] at kept
    refine ⟨namesakes graph (second.property "name" ""), ?_, ?_⟩
    · exact List.mem_map.mpr ⟨(_, _), (mem_byName_iff graph both.length_le).mpr rfl, rfl⟩
    · exact List.mem_filter.mpr ⟨mem_orderedPairs.mpr both, decide_eq_true differ⟩

variable (ids : (graph.nodes.map AstNode.nodeId).Nodup)

include ids

/-- The ids of two nodes tell a pair apart whose nodes stand in their order. -/
theorem pair_of_ids {first second third fourth : AstNode} (here : [first, second].Sublist graph.nodes)
    (there : [third, fourth].Sublist graph.nodes)
    (same : ({first.nodeId, second.nodeId} : Finset String) = {third.nodeId, fourth.nodeId}) :
    (first, second) = (third, fourth) := by
  have unique : ∀ {one other : AstNode}, one ∈ graph.nodes → other ∈ graph.nodes → one.nodeId = other.nodeId →
      one = other := fun present known equal => List.inj_on_of_nodup_map ids present known equal
  have sets : ({first.nodeId, second.nodeId} : Set String) = {third.nodeId, fourth.nodeId} := by
    have coerced := congrArg (fun names : Finset String => (names : Set String)) same
    simpa using coerced
  rcases Set.pair_eq_pair_iff.mp sets with ⟨one, other⟩ | ⟨one, other⟩
  · rw [unique (here.subset (by simp)) (there.subset (by simp)) one,
      unique (here.subset (by simp)) (there.subset (by simp)) other]
  · obtain rfl := unique (here.subset (by simp)) (there.subset (by simp)) one
    obtain rfl := unique (here.subset (by simp)) (there.subset (by simp)) other
    have forward : (first, second) ∈ orderedPairs graph.nodes := mem_orderedPairs.mpr here
    have backward : (second, first) ∈ orderedPairs graph.nodes := mem_orderedPairs.mpr there
    exact absurd backward (swap_not_mem_orderedPairs ids.of_map forward)

theorem mem_offending_namespaces {first second : AstNode} : (first, second) ∈ Rule5_2.offending graph ↔
    (first, second) ∈ crossNamespaceCollisions graph := by
  constructor
  · exact fun inside => (keepFirst_sublist _ _).subset inside
  · intro inside
    obtain ⟨⟨third, fourth⟩, kept, same⟩ := @exists_keepFirst _ _ _
      (fun pair : AstNode × AstNode => ({pair.1.nodeId, pair.2.nodeId} : Finset String)) _ _ inside
    have again := (keepFirst_sublist _ _).subset kept
    have pair := pair_of_ids ids (mem_crossNamespaceCollisions.mp again).1 (mem_crossNamespaceCollisions.mp inside).1 same
    rwa [pair] at kept

end NameSpaces

/-- The rule on name spaces reports every pair of declarations of one name in two of them once, at the later one. The
members of all aggregates share one name space. -/
theorem nameSpaces_reported {context : RuleContext} (ids : (context.astNodes.map AstNode.nodeId).Nodup) :
    ∃ pairs : List (AstNode × AstNode),
      Rule5_2.detect context = pairs.map (fun pair => Rule5_2.report context pair.1 pair.2) ∧ pairs.Nodup ∧
        ∀ first second, (first, second) ∈ pairs ↔ [first, second].Sublist context.astNodes ∧
          isNamedDecl first = true ∧ isNamedDecl second = true ∧
            first.property "name" "" = second.property "name" "" ∧ namespaceOf first ≠ namespaceOf second := by
  refine ⟨Rule5_2.offending (BaseRulePlugin.graph context), rfl, ?_, fun first second => ?_⟩
  · exact (keepFirst_nodup _ _).of_map
  · rw [mem_offending_namespaces ids, mem_crossNamespaceCollisions]
    rfl

/-- An object is reported with a member of its name. -/
theorem memberGraph_reported : ∃ pairs : List (AstNode × AstNode),
    Rule5_2.detect ⟨"x.c", memberGraph.nodes⟩ = pairs.map
        (fun pair => Rule5_2.report ⟨"x.c", memberGraph.nodes⟩ pair.1 pair.2) ∧
      (memberGraph.nodes[0], memberGraph.nodes[2]) ∈ pairs := by
  obtain ⟨pairs, detected, _, spec⟩ := @nameSpaces_reported ⟨"x.c", memberGraph.nodes⟩ (by decide)
  exact ⟨pairs, detected, (spec _ _).mpr (by decide)⟩

end MisraPlatform
