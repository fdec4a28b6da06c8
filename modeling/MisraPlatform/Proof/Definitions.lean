import MisraPlatform.Semantics.LinkedProject

/-
This file shows that the index answers for the identifiers that function bodies decide.
-/

namespace MisraPlatform.LinkageIndex

section Index

/-- A fold of additions lists the values of a key behind those it had. -/
theorem get?_foldl_appendTo {ν : Type} (entries : List (String × ν)) (dict : OrderedDict String (List ν))
    (key : String) :
    ((entries.foldl (fun dict entry => appendTo dict entry.1 entry.2) dict).get? key).getD [] =
      (dict.get? key).getD [] ++ (entries.filter fun entry => entry.1 = key).map Prod.snd := by
  induction entries generalizing dict with
  | nil => simp
  | cons entry rest ih =>
      rw [List.foldl_cons, ih, appendTo, OrderedDict.get?_insert]
      by_cases same : key = entry.1
      · rw [if_pos same, Option.getD_some, List.filter_cons_of_pos (by simp [same]), List.map_cons, ← same,
          List.append_assoc, List.singleton_append]
      · rw [if_neg same, List.filter_cons_of_neg (by simpa [eq_comm] using same)]

theorem mem_keys_foldl_appendTo {ν : Type} (entries : List (String × ν)) (dict : OrderedDict String (List ν))
    (key : String) :
    key ∈ (entries.foldl (fun dict entry => appendTo dict entry.1 entry.2) dict).keys ↔
      key ∈ dict.keys ∨ ∃ entry ∈ entries, entry.1 = key := by
  induction entries generalizing dict with
  | nil => simp
  | cons entry rest ih =>
      rw [List.foldl_cons, ih, appendTo, OrderedDict.mem_keys_insert]
      simp only [List.mem_cons, exists_eq_or_imp, eq_comm (a := key)]
      tauto

theorem occurrences_build (units : List Unit) (name : String) :
    (build units).occurrences name = ((symbolEntries units).filter fun entry => entry.1 = name).map Prod.snd := by
  have folded := get?_foldl_appendTo (symbolEntries units) .empty name
  rw [OrderedDict.get?_empty, Option.getD_none, List.nil_append] at folded
  exact folded

theorem mem_allNames_build (units : List Unit) (name : String) :
    name ∈ (build units).allNames ↔ ∃ entry ∈ symbolEntries units, entry.1 = name := by
  have folded := mem_keys_foldl_appendTo (symbolEntries units) .empty name
  rw [or_iff_right (by simp [OrderedDict.keys, OrderedDict.empty])] at folded
  exact folded

theorem mem_symbolEntries (units : List Unit) (entry : String × Occurrence) :
    entry ∈ symbolEntries units ↔ entry.1 ≠ "" ∧ ∃ unit ∈ units, ∃ node, unit.Declares entry.1 node ∧
      entry.2 = occurrence unit node.nodeKind node := by
  obtain ⟨name, occurrenceFound⟩ := entry
  simp only [symbolEntries, List.mem_flatMap, List.mem_map, fileScopeNodes, AstGraph.nodesByKind, List.mem_filter,
    Bool.and_eq_true, decide_eq_true_eq, DEFINITION_KINDS, List.mem_cons, List.not_mem_nil, or_false,
    Prod.mk.injEq, Unit.Declares]
  constructor
  · rintro ⟨unit, member, kind, looked, node, ⟨⟨inside, rfl⟩, nonempty, fileScope⟩, rfl, rfl⟩
    exact ⟨nonempty, unit, member, node, ⟨inside, looked, rfl, fileScope⟩, rfl⟩
  · rintro ⟨nonempty, unit, member, node, ⟨inside, looked, named, fileScope⟩, rfl⟩
    exact ⟨unit, member, node.nodeKind, looked, node, ⟨⟨inside, rfl⟩, named ▸ nonempty, fileScope⟩, named, rfl⟩

variable {units : List Unit} {name : String} (nonempty : name ≠ "")

include nonempty

theorem mem_occurrences (occurrenceFound : Occurrence) :
    occurrenceFound ∈ (build units).occurrences name ↔ ∃ unit ∈ units, ∃ node, unit.Declares name node ∧
      occurrenceFound = occurrence unit node.nodeKind node := by
  rw [occurrences_build]
  simp only [List.mem_map, List.mem_filter, decide_eq_true_eq, mem_symbolEntries]
  constructor
  · rintro ⟨entry, ⟨⟨_, declared⟩, rfl⟩, rfl⟩
    exact declared
  · intro declared
    exact ⟨(name, occurrenceFound), ⟨⟨nonempty, declared⟩, rfl⟩, rfl⟩

theorem mem_externalOccurrences (occurrenceFound : Occurrence) :
    occurrenceFound ∈ (build units).externalOccurrences name ↔ ∃ unit ∈ units, ∃ node,
      unit.Declares name node ∧ ¬ isStatic node ∧ occurrenceFound = occurrence unit node.nodeKind node := by
  rw [Data.externalOccurrences, List.mem_filter, mem_occurrences nonempty, decide_eq_true_eq]
  constructor
  · rintro ⟨⟨unit, member, node, declared, rfl⟩, notStatic⟩
    exact ⟨unit, member, node, declared, notStatic, rfl⟩
  · rintro ⟨unit, member, node, declared, notStatic, rfl⟩
    exact ⟨⟨unit, member, node, declared, rfl⟩, notStatic⟩

/-- Only the bodies of functions are definitions of the index. -/
theorem mem_definitions (occurrenceFound : Occurrence) :
    occurrenceFound ∈ (build units).definitions name ↔ ∃ unit ∈ units, ∃ node, unit.Declares name node ∧
      ¬ isStatic node ∧ unit.HasBody node ∧ occurrenceFound = occurrence unit node.nodeKind node := by
  have body : ∀ (unit : Unit) (node : AstNode),
      (occurrence unit node.nodeKind node).hasBody = true ↔ unit.HasBody node := by
    intro unit node
    simp [occurrence, Unit.HasBody]
  rw [Data.definitions, List.mem_filter, mem_externalOccurrences nonempty]
  constructor
  · rintro ⟨⟨unit, member, node, declared, notStatic, rfl⟩, hasBody⟩
    exact ⟨unit, member, node, declared, notStatic, (body unit node).mp hasBody, rfl⟩
  · rintro ⟨unit, member, node, declared, notStatic, hasBody, rfl⟩
    exact ⟨⟨unit, member, node, declared, notStatic, rfl⟩, (body unit node).mpr hasBody⟩

theorem mem_definingUnits (translationUnitId : String) :
    translationUnitId ∈ ((build units).definitions name).map Occurrence.translationUnitId ↔
      ∃ unit ∈ units, unit.translationUnitId = translationUnitId ∧ unit.DefinesBody name := by
  simp only [List.mem_map, mem_definitions nonempty]
  constructor
  · rintro ⟨_, ⟨unit, member, node, declared, notStatic, hasBody, rfl⟩, same⟩
    exact ⟨unit, member, same, node, declared, notStatic, hasBody⟩
  · rintro ⟨unit, member, same, node, declared, notStatic, hasBody⟩
    exact ⟨_, ⟨unit, member, node, declared, notStatic, hasBody, rfl⟩, same⟩

theorem definitions_eq_nil :
    (build units).definitions name = [] ↔ ¬ SomeUnit units fun unit => unit.DefinesBody name := by
  rw [List.eq_nil_iff_forall_not_mem, SomeUnit, not_exists]
  constructor
  · rintro nothing unit ⟨member, defines⟩
    have listed := (mem_definingUnits nonempty unit.translationUnitId).mpr ⟨unit, member, rfl, defines⟩
    obtain ⟨found, inside, _⟩ := List.mem_map.mp listed
    exact nothing found inside
  · intro nothing found inside
    obtain ⟨unit, member, _, defines⟩ := (mem_definingUnits nonempty _).mp (List.mem_map_of_mem inside)
    exact nothing unit ⟨member, defines⟩

end Index

/-- A list has two different values exactly when it repeats itself down to more than one. -/
theorem one_lt_length_dedup {α : Type} [DecidableEq α] (values : List α) :
    1 < values.dedup.length ↔ ∃ first ∈ values, ∃ second ∈ values, first ≠ second := by
  constructor
  · intro several
    have here : values.dedup[0] ∈ values := List.mem_dedup.mp (List.getElem_mem _)
    have there : values.dedup[1] ∈ values := List.mem_dedup.mp (List.getElem_mem several)
    refine ⟨_, here, _, there, ?_⟩
    intro same
    have positions := (List.Nodup.getElem_inj_iff (List.nodup_dedup values)).mp same
    omega
  · rintro ⟨first, here, second, there, different⟩
    have both : [first, second].Subperm values.dedup := by
      apply List.subperm_of_subset (by simp [different])
      intro value inside
      rw [List.mem_dedup]
      simp only [List.mem_cons, List.not_mem_nil, or_false] at inside
      cases inside with
      | inl same => exact same ▸ here
      | inr same => exact same ▸ there
    exact both.length_le

section Queries

variable {units : List Unit} {name : String} (nonempty : name ≠ "")

include nonempty

theorem hasMultipleDefinitions_build :
    (build units).hasMultipleDefinitions name = true ↔ TwoUnits units fun unit => unit.DefinesBody name := by
  rw [Data.hasMultipleDefinitions, decide_eq_true_eq, one_lt_length_dedup]
  simp only [mem_definingUnits nonempty]
  constructor
  · rintro ⟨_, ⟨first, here, rfl, definesHere⟩, _, ⟨second, there, rfl, definesThere⟩, different⟩
    exact ⟨first, here, second, there, different, definesHere, definesThere⟩
  · rintro ⟨first, here, second, there, different, definesHere, definesThere⟩
    exact ⟨_, ⟨first, here, rfl, definesHere⟩, _, ⟨second, there, rfl, definesThere⟩, different⟩

theorem duplicateDefinitions_build :
    (LinkageAnalyzer.duplicateDefinitions (build units) name).isSome = true ↔
      TwoUnits units fun unit => unit.DefinesBody name := by
  rw [LinkageAnalyzer.duplicateDefinitions, ← hasMultipleDefinitions_build nonempty]
  by_cases several : (build units).hasMultipleDefinitions name = true <;> simp [several]

theorem mem_allNames (declared : SomeUnit units fun unit => ∃ node, unit.Declares name node) :
    name ∈ (build units).allNames := by
  obtain ⟨unit, member, node, declares⟩ := declared
  rw [mem_allNames_build]
  exact ⟨(name, occurrence unit node.nodeKind node),
    (mem_symbolEntries units _).mpr ⟨nonempty, unit, member, node, declares, rfl⟩, rfl⟩

theorem undefinedExternalReferences_build (external : SomeUnit units fun unit => unit.DeclaresExternal name) :
    name ∈ LinkageAnalyzer.undefinedExternalReferences (build units) ↔
      ¬ SomeUnit units fun unit => unit.DefinesBody name := by
  obtain ⟨unit, member, notInternal, node, declares⟩ := external
  have listed : name ∈ (build units).allNames := mem_allNames nonempty ⟨unit, member, node, declares⟩
  have notStatic : ¬ isStatic node := fun static => notInternal ⟨node, declares, static⟩
  have someExternal : (build units).externalOccurrences name ≠ [] :=
    List.ne_nil_of_mem ((mem_externalOccurrences nonempty _).mpr ⟨unit, member, node, declares, notStatic, rfl⟩)
  rw [LinkageAnalyzer.undefinedExternalReferences, List.mem_filter, ← definitions_eq_nil nonempty]
  simp [listed, someExternal]

/-- The index of a project that declares a name has symbols. -/
theorem symbols_ne_nil (declared : SomeUnit units fun unit => ∃ node, unit.Declares name node) :
    (build units).symbols.entries.isEmpty = false := by
  have listed := mem_allNames nonempty declared
  rw [Data.allNames, OrderedDict.keys] at listed
  rw [List.isEmpty_eq_false_iff]
  intro nothing
  rw [nothing] at listed
  cases listed

end Queries

section Rules

variable {units : List Unit} {name : String}

theorem Rule5_8_explanation_injective {first second : String}
    (same : Rule5_8.explanation first = Rule5_8.explanation second) : first = second :=
  (String.append_right_inj _).mp ((String.append_left_inj _).mp same)

theorem Rule8_6_explanation_injective {first second : String}
    (same : Rule8_6.explanation first = Rule8_6.explanation second) : first = second :=
  (String.append_right_inj _).mp ((String.append_left_inj _).mp same)

theorem declared_of_twoUnits (several : TwoUnits units fun unit => unit.DefinesBody name) :
    SomeUnit units fun unit => ∃ node, unit.Declares name node := by
  obtain ⟨first, here, _, _, _, ⟨node, declares, _⟩, _⟩ := several
  exact ⟨first, here, node, declares⟩

/-- Rule 5.8 reports the name where the unit has a declaration of it in any scope. -/
theorem reported_unique (nonempty : name ≠ "") (unit : Unit) :
    Reported (Rule5_8.detect (build units) unit.context) (Rule5_8.explanation name) ↔
      (TwoUnits units fun other => other.DefinesBody name) ∧
        (Rule5_8.localDecl unit.context name).isSome = true := by
  rw [Reported, Rule5_8.detect]
  constructor
  · intro reported
    by_cases empty : (build units).symbols.entries.isEmpty = true
    · rw [if_pos empty] at reported
      obtain ⟨_, inside, _⟩ := reported
      cases inside
    · rw [if_neg empty] at reported
      obtain ⟨result, inside, explains⟩ := reported
      obtain ⟨other, _, found⟩ := List.mem_filterMap.mp inside
      by_cases several : (build units).hasMultipleDefinitions other = true
      · rw [if_pos several, Option.map_eq_some_iff] at found
        obtain ⟨node, declared, rfl⟩ := found
        have same : other = name := Rule5_8_explanation_injective explains
        rw [← hasMultipleDefinitions_build nonempty, ← same, declared]
        exact ⟨several, rfl⟩
      · rw [if_neg several] at found
        cases found
  · rintro ⟨several, declared⟩
    have known := declared_of_twoUnits several
    obtain ⟨node, found⟩ := Option.isSome_iff_exists.mp declared
    rw [if_neg (by simp [symbols_ne_nil nonempty known])]
    refine ⟨Rule5_8.report unit.context name node, ?_, rfl⟩
    rw [List.mem_filterMap]
    refine ⟨name, mem_allNames nonempty known, ?_⟩
    rw [if_pos ((hasMultipleDefinitions_build nonempty).mpr several), found]
    rfl

/-- Rule 8.6 reports the name where the unit declares it at file scope. -/
theorem reported_once (nonempty : name ≠ "") (unit : Unit) :
    Reported (Rule8_6.detect (build units) unit.context) (Rule8_6.explanation name) ↔
      (TwoUnits units fun other => other.DefinesBody name) ∧ ∃ node, unit.Declares name node := by
  have candidates : ∀ node, node ∈ [NodeKind.functionDecl, .varDecl].flatMap
      (BaseRulePlugin.graph unit.context).nodesByKind ↔
        node ∈ unit.graph.nodes ∧ (node.nodeKind = .functionDecl ∨ node.nodeKind = .varDecl) := by
    intro node
    simp only [List.mem_flatMap, List.mem_cons, List.not_mem_nil, or_false, AstGraph.nodesByKind, List.mem_filter,
      decide_eq_true_eq, exists_eq_or_imp, exists_eq_left, BaseRulePlugin.graph, Unit.context]
    tauto
  rw [Reported, Rule8_6.detect]
  constructor
  · rintro ⟨result, inside, explains⟩
    obtain ⟨node, kept, rfl⟩ := List.mem_map.mp inside
    obtain ⟨candidate, offends⟩ := List.mem_filter.mp ((keepFirst_sublist [] _).subset kept)
    have named : node.property "name" "" = name := Rule8_6_explanation_injective explains
    simp only [Rule8_6.offending, Bool.and_eq_true, decide_eq_true_eq] at offends
    obtain ⟨⟨⟨_, fileScope⟩, _⟩, several⟩ := offends
    obtain ⟨present, kind⟩ := (candidates node).mp candidate
    rw [named, hasMultipleDefinitions_build nonempty] at several
    exact ⟨several, node, present, kind, named, fileScope⟩
  · rintro ⟨several, node, present, kind, named, fileScope⟩
    have known := declared_of_twoUnits several
    have offends : Rule8_6.offending (build units) unit.context node = true := by
      simp only [Rule8_6.offending, Bool.and_eq_true, decide_eq_true_eq, named, symbols_ne_nil nonempty known,
        Bool.not_false, (hasMultipleDefinitions_build nonempty).mpr several, and_true]
      exact ⟨nonempty, fileScope⟩
    have candidate := List.mem_filter.mpr ⟨(candidates node).mpr ⟨present, kind⟩, offends⟩
    obtain ⟨kept, inside, same⟩ := @exists_keepFirst _ _ _ (fun node => node.property "name" "") _ _ candidate
    refine ⟨Rule8_6.report unit.context kept, List.mem_map_of_mem inside, ?_⟩
    change Rule8_6.explanation (kept.property "name" "") = Rule8_6.explanation name
    rw [same, named]

end Rules

/-- The queries and the rules are right about an identifier exactly when bodies decide its definitions. -/
theorem definitionsExact_iff (units : List Unit) (name : String) (external : ExternalIdentifier units name) :
    DefinitionsExact units name ↔ BodiesDecide units name := by
  obtain ⟨nonempty, declared⟩ := external
  constructor
  · intro exact
    constructor
    · rw [← not_iff_not, ← undefinedExternalReferences_build nonempty declared]
      exact exact.undefined
    · rw [← duplicateDefinitions_build nonempty]
      exact exact.duplicates
  · rintro ⟨oneUnit, twoUnits⟩
    constructor
    · rw [duplicateDefinitions_build nonempty, twoUnits]
    · rw [undefinedExternalReferences_build nonempty declared, oneUnit]
    · intro unit _
      rw [reported_unique nonempty, twoUnits]
    · intro unit _
      rw [reported_once nonempty, twoUnits]

/-- Bodies decide where the identifier is no initialised object and no static function of any unit. -/
theorem bodiesDecide_of_functions {units : List Unit} {name : String}
    (noInitializer : ∀ unit ∈ units, ∀ node, unit.Declares name node → ¬ HasInitializer node)
    (noStatic : ∀ unit ∈ units, unit.Internal name → ∀ node, unit.Declares name node → isStatic node) :
    BodiesDecide units name := by
  have agrees : ∀ unit ∈ units, unit.DefinesBody name ↔ unit.DefinesExternal name := by
    intro unit member
    constructor
    · rintro ⟨node, declares, notStatic, hasBody⟩
      have notInternal : ¬ unit.Internal name :=
        fun internal => notStatic (noStatic unit member internal node declares)
      exact ⟨notInternal, node, declares, .inl hasBody⟩
    · rintro ⟨notInternal, node, declares, defines⟩
      have hasBody := defines.resolve_right (noInitializer unit member node declares)
      exact ⟨node, declares, fun static => notInternal ⟨node, declares, static⟩, hasBody⟩
  constructor
  · exact exists_congr fun unit => and_congr_right (agrees unit)
  · refine exists_congr fun first => and_congr_right fun here => exists_congr fun second =>
      and_congr_right fun there => ?_
    exact and_congr_right fun _ => and_congr (agrees first here) (agrees second there)

section InitializedObject

/-- This is `int count = 1;` at file scope. -/
def initializedCount : AstNode where
  nodeId := "node-0"
  nodeKind := .varDecl
  semanticProperties := [("name", "count"), ("storage_class", "none")]
  flags := [("has_initializer", true)]

def countUnit (translationUnitId filePath : String) : Unit where
  translationUnitId := translationUnitId
  filePath := filePath
  graph := ⟨[initializedCount]⟩

def countUnits : List Unit := [countUnit "tu-1" "first.c", countUnit "tu-2" "second.c"]

theorem countUnit_declares (translationUnitId filePath : String) :
    (countUnit translationUnitId filePath).Declares "count" initializedCount :=
  ⟨List.mem_singleton_self _, .inr rfl, rfl, rfl⟩

theorem countUnit_defines (translationUnitId filePath : String) :
    (countUnit translationUnitId filePath).DefinesExternal "count" := by
  constructor
  · rintro ⟨node, ⟨present, _⟩, static⟩
    rw [countUnit, List.mem_singleton] at present
    rw [present] at static
    exact absurd static (by rw [isStatic]; decide)
  · exact ⟨initializedCount, countUnit_declares _ _, .inr ⟨rfl, by decide⟩⟩

theorem countUnits_external : ExternalIdentifier countUnits "count" :=
  ⟨by decide, countUnit "tu-1" "first.c", List.mem_cons_self, (countUnit_defines _ _).1, initializedCount,
    countUnit_declares _ _⟩

/-- Two units that initialise one object are not reported. -/
theorem initializedCount_missed : ¬ DefinitionsExact countUnits "count" := by
  intro exact
  have several : TwoUnits countUnits fun unit => unit.DefinesExternal "count" := by
    refine ⟨countUnit "tu-1" "first.c", List.mem_cons_self, countUnit "tu-2" "second.c", ?_, by decide,
      countUnit_defines _ _, countUnit_defines _ _⟩
    exact List.mem_cons_of_mem _ List.mem_cons_self
  have reported := exact.duplicates.mpr several
  exact absurd reported (by decide)

theorem definitionsExact_iff_count : DefinitionsExact countUnits "count" ↔ BodiesDecide countUnits "count" :=
  definitionsExact_iff countUnits "count" countUnits_external

end InitializedObject

end MisraPlatform.LinkageIndex
