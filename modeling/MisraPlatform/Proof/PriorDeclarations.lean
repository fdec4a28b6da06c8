import MisraPlatform.Proof.Definitions
import MisraPlatform.Semantics.Declarations

/-
This file shows which external definitions without a prior declaration are reported.
-/

namespace MisraPlatform
open LinkageIndex

namespace Rule8_4

variable {graph : AstGraph} {name : String} {node : AstNode} {nodes : List AstNode}

theorem mem_pool : node ∈ pool graph ↔ node ∈ graph.nodes ∧
    (node.nodeKind = .functionDecl ∨ node.nodeKind = .varDecl) ∧ node.property "name" "" ≠ "" := by
  simp only [pool, AstGraph.nodesByKind, List.mem_filter, List.mem_append, decide_eq_true_eq]
  tauto

theorem pool_nodup (distinct : graph.nodes.Nodup) : (pool graph).Nodup := by
  refine (List.Nodup.append (distinct.filter _) (distinct.filter _) ?_).filter _
  intro node left right
  have kind : node.nodeKind = .functionDecl := of_decide_eq_true (List.mem_filter.mp left).2
  have other : node.nodeKind = .varDecl := of_decide_eq_true (List.mem_filter.mp right).2
  rw [kind] at other
  cases other

/-- The table lists the declarations of each name. -/
theorem mem_declarations (listed : (name, nodes) ∈ (declarations graph).entries) :
    nodes = (pool graph).filter fun node => node.property "name" "" = name := by
  have found := (OrderedDict.mem_entries_iff _ name nodes).mp listed
  have folded := get?_foldl_appendTo ((pool graph).map fun node => (node.property "name" "", node)) .empty name
  rw [OrderedDict.get?_empty, Option.getD_none, List.nil_append, List.filter_map, List.map_map] at folded
  rw [declarations] at found
  rw [found, Option.getD_some] at folded
  rw [folded]
  exact List.map_id _

theorem exists_declarations (listed : node ∈ pool graph) :
    (node.property "name" "", (pool graph).filter fun other => other.property "name" "" = node.property "name" "") ∈
      (declarations graph).entries := by
  have key : node.property "name" "" ∈ (declarations graph).keys := by
    rw [declarations, mem_keys_foldl_appendTo]
    exact .inr ⟨_, List.mem_map_of_mem listed, rfl⟩
  obtain ⟨nodes, found⟩ := (OrderedDict.mem_keys_iff _ _).mp key
  have entry := (OrderedDict.mem_entries_iff _ _ nodes).mpr found
  exact mem_declarations entry ▸ entry

/-- A name counts if its only declaration is a definition with a body. -/
theorem undeclared_eq_some : undeclared graph nodes = some node ↔ nodes = [node] ∧
    graph.isFileScope node.nodeId = true ∧ ¬ isStatic node ∧ graph.hasCompoundChild node.nodeId = true := by
  unfold undeclared isStatic
  constructor
  · intro found
    obtain ⟨last, lastFound, rest⟩ := Option.bind_eq_some_iff.mp found
    split at rest
    · cases rest
    · rename_i scope
      split at rest
      · cases rest
      · rename_i storage
        dsimp only at rest
        split at rest
        · cases rest
        · split at rest
          · rename_i alone
            rw [Bool.and_eq_true, decide_eq_true_eq] at alone
            obtain ⟨only, rfl⟩ := List.length_eq_one_iff.mp alone.1
            obtain rfl : only = last := by simpa using lastFound
            obtain rfl : only = node := by simpa using rest
            exact ⟨rfl, by simpa using scope, storage, alone.2⟩
          · cases rest
  · rintro ⟨rfl, scope, storage, body⟩
    simp [scope, storage, body]

theorem mem_offending (distinct : graph.nodes.Nodup) : node ∈ offending graph ↔ node ∈ pool graph ∧
    (∀ other ∈ pool graph, other.property "name" "" = node.property "name" "" → other = node) ∧
    graph.isFileScope node.nodeId = true ∧ ¬ isStatic node ∧ graph.hasCompoundChild node.nodeId = true := by
  rw [offending, List.mem_filterMap]
  constructor
  · rintro ⟨⟨name, nodes⟩, listed, found⟩
    obtain ⟨rfl, rest⟩ := undeclared_eq_some.mp found
    have alone := mem_declarations listed
    have here : node ∈ (pool graph).filter fun other => other.property "name" "" = name :=
      alone ▸ List.mem_singleton_self node
    obtain ⟨inside, named⟩ := List.mem_filter.mp here
    refine ⟨inside, fun other otherInside same => ?_, rest⟩
    have there : other ∈ (pool graph).filter fun other => other.property "name" "" = name :=
      List.mem_filter.mpr ⟨otherInside, decide_eq_true (same.trans (of_decide_eq_true named))⟩
    rw [← alone] at there
    exact List.mem_singleton.mp there
  · rintro ⟨inside, alone, rest⟩
    refine ⟨_, exists_declarations inside, undeclared_eq_some.mpr ⟨?_, rest⟩⟩
    apply List.perm_singleton.mp
    refine (List.perm_ext_iff_of_nodup ((pool_nodup distinct).filter _) (List.nodup_singleton node)).mpr ?_
    intro other
    rw [List.mem_filter, decide_eq_true_eq, List.mem_singleton]
    constructor
    · exact fun both => alone other both.1 both.2
    · rintro rfl
      exact ⟨inside, rfl⟩

/-- The names of two entries are different, and so are their definitions. -/
theorem offending_nodup : (offending graph).Nodup := by
  have keys : (declarations graph).entries.Pairwise fun first second => first.1 ≠ second.1 :=
    List.pairwise_map.mp (declarations graph).keys_nodup
  refine List.pairwise_filterMap.mpr (keys.imp_of_mem ?_)
  intro first second left right different node found other foundOther same
  subst same
  have named (entry : String × List AstNode) (listed : entry ∈ (declarations graph).entries)
      (found : undeclared graph entry.2 = some node) : node.property "name" "" = entry.1 := by
    obtain ⟨alone, _⟩ := undeclared_eq_some.mp found
    have inside : node ∈ entry.2 := alone ▸ List.mem_singleton_self node
    have all : (entry.1, entry.2) ∈ (declarations graph).entries := listed
    rw [mem_declarations all] at inside
    exact of_decide_eq_true (List.mem_filter.mp inside).2
  exact different ((named first left found).symm.trans (named second right foundOther))

end Rule8_4

namespace LinkageIndex

variable {unit : Unit} {node : AstNode}

/-- The first definition of a name is reported if nothing else has the name. -/
theorem mem_offending_iff (distinct : unit.graph.nodes.Nodup) (bodiless : unit.ObjectsBodiless) :
    node ∈ Rule8_4.offending unit.graph ↔ unit.DefinesUndeclared node ∧ unit.AloneWithName node := by
  rw [Rule8_4.mem_offending distinct]
  constructor
  · rintro ⟨listed, alone, scope, storage, body⟩
    obtain ⟨present, kind, named⟩ := Rule8_4.mem_pool.mp listed
    have unique : ∀ other ∈ unit.graph.nodes, other.nodeKind = .functionDecl ∨ other.nodeKind = .varDecl →
        other.property "name" "" = node.property "name" "" → other = node := fun other inside decl same =>
      alone other (Rule8_4.mem_pool.mpr ⟨inside, decl, same ▸ named⟩) same
    have function : node.nodeKind = .functionDecl := by
      refine kind.resolve_right fun object => ?_
      rw [bodiless node present object] at body
      cases body
    refine ⟨⟨named, ⟨present, kind, rfl, scope⟩, ?_, .inl ⟨function, body⟩, ?_⟩, function, unique⟩
    · rintro ⟨other, declares, static⟩
      exact storage (unique other declares.1 declares.2.1 declares.2.2.1 ▸ static)
    · intro earlier declares order
      obtain rfl := unique earlier declares.1 declares.2.1 declares.2.2.1
      exact absurd (distinct.sublist order) (by simp)
  · rintro ⟨defines, function, unique⟩
    have listed := Rule8_4.mem_pool.mpr ⟨defines.declares.1, .inl function, defines.named⟩
    refine ⟨listed, ?_, defines.declares.2.2.2, ?_, ?_⟩
    · intro other listed same
      obtain ⟨present, kind, _⟩ := Rule8_4.mem_pool.mp listed
      exact unique other present kind same
    · exact fun static => defines.external ⟨node, defines.declares, static⟩
    · rcases defines.defines with body | object
      · exact body.2
      · rw [object.1] at function
        cases function

/-- Without an index of the project the reports are right as long as every definition without a prior declaration
is that of a function with a name of its own. -/
theorem definitionsReported_iff (unit : Unit) (distinct : unit.graph.nodes.Nodup) (bodiless : unit.ObjectsBodiless) :
    (∀ linkage : Data, linkage.symbols.entries.isEmpty = true → Rule8_4.detect linkage unit.context =
      (Rule8_4.offending unit.graph).map (Rule8_4.report unit.context)) ∧
    (DefinitionsReported unit ↔ ∀ node, unit.DefinesUndeclared node → unit.AloneWithName node) := by
  constructor
  · intro linkage empty
    exact if_pos empty
  · constructor
    · intro given node undeclared
      exact ((mem_offending_iff distinct bodiless).mp ((given.reported node).mpr undeclared)).2
    · intro alone
      refine ⟨Rule8_4.offending_nodup, fun node => (mem_offending_iff distinct bodiless).trans ?_⟩
      exact and_iff_left_of_imp (alone node)

theorem countUnit_bodiless (translationUnitId filePath : String) :
    (countUnit translationUnitId filePath).ObjectsBodiless := by
  intro node present _
  rw [countUnit, List.mem_singleton] at present
  rw [present]
  exact (by decide : (⟨[initializedCount]⟩ : AstGraph).hasCompoundChild "node-0" = false)

theorem definitionsReported_iff_count : DefinitionsReported (countUnit "tu-1" "first.c") ↔
    ∀ node, (countUnit "tu-1" "first.c").DefinesUndeclared node → (countUnit "tu-1" "first.c").AloneWithName node :=
  (definitionsReported_iff _ (by decide) (countUnit_bodiless _ _)).2

theorem countUnit_undeclared : (countUnit "tu-1" "first.c").DefinesUndeclared initializedCount where
  named := by decide
  declares := countUnit_declares _ _
  external := (countUnit_defines _ _).1
  defines := .inr ⟨rfl, by decide⟩
  first := by
    intro earlier _ before
    exact absurd before.length_le (show ¬ 2 ≤ 1 by decide)

/-- An initialised object without a declaration before it is not reported. -/
theorem initializedCount_unreported : Rule8_4.detect ⟨.empty, .empty⟩ (countUnit "tu-1" "first.c").context = [] ∧
    ¬ DefinitionsReported (countUnit "tu-1" "first.c") := by
  constructor
  · decide
  · intro given
    have reported := (given.reported initializedCount).mpr countUnit_undeclared
    exact absurd reported (by decide)

end LinkageIndex

end MisraPlatform
