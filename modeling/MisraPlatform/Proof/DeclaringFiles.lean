import MisraPlatform.Proof.Definitions
import MisraPlatform.Semantics.Declarations

/-
This file proves when the rule on repeated declarations counts files, and what the rules report of the names of several
units.
-/

namespace MisraPlatform.LinkageIndex
open BaseRulePlugin

variable {units : List Unit} {name : String}

theorem mem_nonDefining (nonempty : name ≠ "") (translationUnitId : String) :
    translationUnitId ∈ (build units).nonDefiningExternalTranslationUnits name ↔
      ∃ unit ∈ units, unit.translationUnitId = translationUnitId ∧ unit.LacksBody name := by
  rw [Data.nonDefiningExternalTranslationUnits, List.mem_dedup, List.mem_map]
  simp only [List.mem_filter, mem_externalOccurrences nonempty]
  constructor
  · rintro ⟨_, ⟨⟨unit, member, node, declared, notStatic, rfl⟩, bodiless⟩, same⟩
    exact ⟨unit, member, same, node, declared, notStatic, fun hasBody => by simp [occurrence, hasBody.1, hasBody.2] at bodiless⟩
  · rintro ⟨unit, member, same, node, declared, notStatic, bodiless⟩
    refine ⟨_, ⟨⟨unit, member, node, declared, notStatic, rfl⟩, ?_⟩, same⟩
    rw [Bool.not_eq_true', Bool.eq_false_iff]
    intro hasBody
    exact bodiless (by simpa [occurrence, Unit.HasBody] using hasBody)

theorem several_nonDefining (nonempty : name ≠ "") :
    1 < ((build units).nonDefiningExternalTranslationUnits name).length ↔
      TwoUnits units fun unit => unit.LacksBody name := by
  have once : ((build units).nonDefiningExternalTranslationUnits name).dedup =
      (build units).nonDefiningExternalTranslationUnits name := List.dedup_idem
  rw [← once, one_lt_length_dedup]
  simp only [mem_nonDefining nonempty]
  constructor
  · rintro ⟨_, ⟨first, here, rfl, lacksHere⟩, _, ⟨second, there, rfl, lacksThere⟩, different⟩
    exact ⟨first, here, second, there, different, lacksHere, lacksThere⟩
  · rintro ⟨first, here, second, there, different, lacksHere, lacksThere⟩
    exact ⟨_, ⟨first, here, rfl, lacksHere⟩, _, ⟨second, there, rfl, lacksThere⟩, different⟩

theorem localDecl_isSome (nonempty : name ≠ "") {unit : Unit} {node : AstNode} (declares : unit.Declares name node) :
    (Rule8_5.localDecl unit.context name).isSome = true := by
  obtain ⟨present, kind, named, _⟩ := declares
  have looked : node.semanticProperties.lookup "name" = some name := by
    cases found : node.semanticProperties.lookup "name" with
    | none => exact absurd (by rw [← named, AstNode.property, found]; rfl) nonempty
    | some value => rw [← named, AstNode.property, found]; rfl
  rw [Rule8_5.localDecl, Rule5_8.localDecl, List.find?_isSome]
  exact ⟨node, present, by simp [kind, looked]⟩

theorem Rule8_5_suggestedFix_injective {first second : String}
    (same : Rule8_5.suggestedFix first = Rule8_5.suggestedFix second) : first = second :=
  (String.append_right_inj _).mp (congrArg SuggestedFix.originalCode same)

theorem reportName_isSome (nonempty : name ≠ "") (ids : (units.map Unit.translationUnitId).Nodup) {unit : Unit}
    (member : unit ∈ units) :
    (Rule8_5.reportName (build units) unit.translationUnitId unit.context name).isSome = true ↔
      (TwoUnits units fun other => other.LacksBody name) ∧ unit.LacksBody name := by
  have own : unit.translationUnitId ∈ (build units).nonDefiningExternalTranslationUnits name ↔
      unit.LacksBody name := by
    rw [mem_nonDefining nonempty]
    constructor
    · rintro ⟨other, listed, same, lacks⟩
      exact List.inj_on_of_nodup_map ids listed member same ▸ lacks
    · intro lacks
      exact ⟨unit, member, rfl, lacks⟩
  rw [← several_nonDefining nonempty, ← own, Rule8_5.reportName]
  constructor
  · intro found
    split at found
    · cases found
    · rename_i several
      simpa using several
  · rintro ⟨several, inside⟩
    obtain ⟨node, declares, _⟩ := own.mp inside
    rw [if_neg (by simpa [inside] using several), Option.isSome_map]
    exact localDecl_isSome nonempty declares

/-- The rule counts the units with a declaration that has no body. -/
theorem retypingReported_iff (nonempty : name ≠ "") (ids : (units.map Unit.translationUnitId).Nodup) {unit : Unit}
    (member : unit ∈ units) : RetypingReported units unit name ↔
      (TwoUnits units fun other => other.LacksBody name) ∧ unit.LacksBody name := by
  rw [← reportName_isSome nonempty ids member, RetypingReported, Rule8_5.detect]
  constructor
  · rintro ⟨result, inside, fix⟩
    obtain ⟨other, listed, found⟩ := List.mem_filterMap.mp inside
    have explained := found
    rw [Rule8_5.reportName] at explained
    split at explained
    · cases explained
    · obtain ⟨node, _, rfl⟩ := Option.map_eq_some_iff.mp explained
      have same : other = name := Rule8_5_suggestedFix_injective (Option.some.inj fix)
      rw [← same, found]
      rfl
  · intro found
    obtain ⟨result, reports⟩ := Option.isSome_iff_exists.mp found
    have known : SomeUnit units fun other => ∃ node, other.Declares name node := by
      obtain ⟨_, node, declares, _⟩ := (reportName_isSome nonempty ids member).mp found
      exact ⟨unit, member, node, declares⟩
    refine ⟨result, List.mem_filterMap.mpr ⟨name, ?_, reports⟩, ?_⟩
    · rw [Rule8_5.offendingNames, if_neg (by simp [symbols_ne_nil nonempty known])]
      exact List.mem_filter.mpr ⟨mem_allNames nonempty known, found⟩
    · rw [Rule8_5.reportName] at reports
      split at reports
      · cases reports
      · obtain ⟨node, _, rfl⟩ := Option.map_eq_some_iff.mp reports
        rfl

theorem Unit.DeclaresOnly.lacksBody {unit : Unit} {node : AstNode} (declaresOnly : unit.DeclaresOnly name node) :
    unit.LacksBody name :=
  ⟨node, declaresOnly.declares, fun static => declaresOnly.external ⟨node, declaresOnly.declares, static⟩,
    declaresOnly.bodiless⟩

/-- Files are counted for a name exactly if its units match its files. -/
theorem filesCounted_iff (nonempty : name ≠ "") (ids : (units.map Unit.translationUnitId).Nodup) :
    FilesCounted units name ↔ UnitsMatchFiles units name := by
  constructor
  · intro counted
    have several : (TwoUnits units fun unit => unit.LacksBody name) ↔ TwoFiles units name := by
      constructor
      · rintro ⟨first, here, second, there, different, lacksHere, lacksThere⟩
        exact ((counted first here).mp ((retypingReported_iff nonempty ids here).mpr
          ⟨⟨first, here, second, there, different, lacksHere, lacksThere⟩, lacksHere⟩)).1
      · intro files
        have ⟨first, here, node, declaresOnly, _⟩ := files
        exact ((retypingReported_iff nonempty ids here).mp ((counted first here).mpr ⟨files, node, declaresOnly⟩)).1
    refine ⟨several, fun files unit member lacks => ?_⟩
    exact ((counted unit member).mp
      ((retypingReported_iff nonempty ids member).mpr ⟨several.mpr files, lacks⟩)).2
  · rintro ⟨several, concerned⟩ unit member
    rw [retypingReported_iff nonempty ids member, several]
    exact and_congr_right fun files =>
      ⟨concerned files unit member, fun ⟨_, declaresOnly⟩ => declaresOnly.lacksBody⟩

section Examples

/-- This is `extern int counter;` in a file of its own or in a header. -/
def counterDecl (header : Option String) : AstNode :=
  { nodeId := "n1", nodeKind := .varDecl, sourceRange := { filePath := header },
    semanticProperties := [("name", "counter"), ("storage_class", "extern")] }

def counterUnit (filePath : String) (header : Option String) : Unit where
  translationUnitId := filePath
  filePath := filePath
  graph := ⟨[counterDecl header]⟩

variable {filePath : String} {header : Option String}

theorem counterUnit_declares : (counterUnit filePath header).Declares "counter" (counterDecl header) := by
  refine ⟨List.mem_singleton_self _, .inr rfl, rfl, ?_⟩
  cases header <;> rfl

theorem counterUnit_only {node : AstNode} (declares : (counterUnit filePath header).Declares "counter" node) :
    node = counterDecl header :=
  List.mem_singleton.mp declares.1

theorem counterUnit_declaresOnly : (counterUnit filePath header).DeclaresOnly "counter" (counterDecl header) where
  external := by
    rintro ⟨node, declares, static⟩
    rw [counterUnit_only declares] at static
    have external : (counterDecl header).property "storage_class" "external" = "extern" := rfl
    exact absurd (external.symm.trans static) (by decide)
  declares := counterUnit_declares
  bodiless hasBody := by cases hasBody.1
  uninitialized hasInitializer := by
    have absent : (counterDecl header).truthy "has_initializer" = false := rfl
    exact absurd (hasInitializer.2.symm.trans absent) (by decide)

/-- Each unit declares the object in its own file. -/
theorem retyped_counted : FilesCounted [counterUnit "a.c" none, counterUnit "b.c" none] "counter" := by
  refine (filesCounted_iff (by decide) (by decide)).mpr ⟨?_, ?_⟩
  · refine iff_of_true ?_ ?_
    · exact ⟨_, List.mem_cons_self, _, List.mem_cons_of_mem _ List.mem_cons_self, by decide,
        counterUnit_declaresOnly.lacksBody, counterUnit_declaresOnly.lacksBody⟩
    · exact ⟨_, List.mem_cons_self, _, counterUnit_declaresOnly, _, List.mem_cons_of_mem _ List.mem_cons_self, _,
        counterUnit_declaresOnly, by decide⟩
  · intro _ unit member _
    rcases List.mem_cons.mp member with rfl | other
    · exact ⟨_, counterUnit_declaresOnly⟩
    · exact List.mem_singleton.mp other ▸ ⟨_, counterUnit_declaresOnly⟩

/-- Both units include the one header that declares the object. -/
theorem header_reported :
    ¬ FilesCounted [counterUnit "a.c" (some "shared.h"), counterUnit "b.c" (some "shared.h")] "counter" := by
  intro counted
  have inHeader : ∀ unit ∈ [counterUnit "a.c" (some "shared.h"), counterUnit "b.c" (some "shared.h")],
      ∀ node, unit.DeclaresOnly "counter" node → unit.sourceFile node = "shared.h" := by
    intro unit member node declaresOnly
    rcases List.mem_cons.mp member with rfl | other
    · rw [counterUnit_only declaresOnly.declares]
      rfl
    · rw [List.mem_singleton.mp other] at declaresOnly ⊢
      rw [counterUnit_only declaresOnly.declares]
      rfl
  have reported : RetypingReported [counterUnit "a.c" (some "shared.h"), counterUnit "b.c" (some "shared.h")]
      (counterUnit "a.c" (some "shared.h")) "counter" :=
    (retypingReported_iff (by decide) (by decide) List.mem_cons_self).mpr
    ⟨⟨_, List.mem_cons_self, _, List.mem_cons_of_mem _ List.mem_cons_self, by decide,
      counterUnit_declaresOnly.lacksBody, counterUnit_declaresOnly.lacksBody⟩, counterUnit_declaresOnly.lacksBody⟩
  obtain ⟨first, here, _, declaresHere, second, there, _, declaresThere, different⟩ :=
    ((counted _ List.mem_cons_self).mp reported).1
  exact different ((inHeader first here _ declaresHere).trans (inHeader second there _ declaresThere).symm)

end Examples

section Names

/-! ### Names of several units -/

/-- A group has the items of its key in their order. -/
theorem mem_entries_grouped {ν : Type} (key : ν → String) (items : List ν) {name : String} {group : List ν} :
    (name, group) ∈ (items.foldl (fun index item => appendTo index (key item) item) .empty).entries ↔
      group = items.filter (fun item => key item = name) ∧ group ≠ [] := by
  have grouped := get?_foldl_appendTo (items.map fun item => (key item, item)) .empty name
  have known := mem_keys_foldl_appendTo (items.map fun item => (key item, item)) .empty name
  rw [List.foldl_map] at grouped known
  have listed : ((items.map fun item => (key item, item)).filter fun entry => entry.1 = name).map Prod.snd =
      items.filter fun item => key item = name := by
    rw [List.filter_map, List.map_map]
    exact List.map_id _
  rw [OrderedDict.get?_empty, Option.getD_none, List.nil_append, listed] at grouped
  rw [or_iff_right (by simp [OrderedDict.keys, OrderedDict.empty])] at known
  rw [OrderedDict.mem_entries_iff]
  constructor
  · intro found
    have keyed := (OrderedDict.mem_keys_iff _ name).mpr ⟨group, found⟩
    obtain ⟨entry, inside, same⟩ := known.mp keyed
    obtain ⟨item, member, rfl⟩ := List.mem_map.mp inside
    rw [found, Option.getD_some] at grouped
    refine ⟨grouped, ?_⟩
    rw [grouped]
    exact List.ne_nil_of_mem (List.mem_filter.mpr ⟨member, by simpa using same⟩)
  · rintro ⟨rfl, nonempty⟩
    obtain ⟨item, inside⟩ := List.exists_mem_of_ne_nil _ nonempty
    obtain ⟨member, same⟩ := List.mem_filter.mp inside
    have keyed := known.mpr ⟨(key item, item), List.mem_map_of_mem member, of_decide_eq_true same⟩
    obtain ⟨group, found⟩ := (OrderedDict.mem_keys_iff _ name).mp keyed
    rw [found, Option.getD_some] at grouped
    rw [found, grouped]

theorem mem_allNames_iff : name ∈ (build units).allNames ↔ Indexed units name := by
  constructor
  · intro listed
    obtain ⟨entry, inside, rfl⟩ := (mem_allNames_build units name).mp listed
    obtain ⟨nonempty, unit, member, node, declares, _⟩ := (mem_symbolEntries units entry).mp inside
    exact ⟨nonempty, unit, member, node, declares⟩
  · rintro ⟨nonempty, declared⟩
    exact mem_allNames nonempty declared

theorem mem_duplicateNamesWithin {significantChars : Nat} {first second : String} :
    (first, second) ∈ (build units).duplicateNamesWithin significantChars ↔ first < second ∧
      first.toList.take significantChars = second.toList.take significantChars ∧ Indexed units first ∧
        Indexed units second := by
  have increases : ∀ names : List String, (names.dedup.insertionSort (· ≤ ·)).Pairwise (· < ·) := by
    intro names
    have sorted := List.pairwise_insertionSort (· ≤ ·) names.dedup
    have distinct := (List.perm_insertionSort (· ≤ ·) names.dedup).nodup_iff.mpr (List.nodup_dedup names)
    exact (sorted.and distinct).imp fun both => lt_of_le_of_ne both.1 both.2
  have among : ∀ (names : List String) (name : String),
      name ∈ names.dedup.insertionSort (· ≤ ·) ↔ name ∈ names := by
    intro names name
    rw [List.mem_insertionSort, List.mem_dedup]
  rw [Data.duplicateNamesWithin, List.mem_flatMap]
  constructor
  · rintro ⟨names, listed, paired⟩
    obtain ⟨⟨key, group⟩, inside, rfl⟩ := List.mem_map.mp listed
    obtain ⟨same, _⟩ := (mem_entries_grouped _ _).mp inside
    have group : group = (build units).allNames.filter fun name =>
        String.ofList (name.toList.take significantChars) = key := same
    subst group
    obtain ⟨here, there, less⟩ := (mem_orderedPairs_of_pairwise lt_asymm (increases _)).mp paired
    obtain ⟨firstListed, firstKey⟩ := List.mem_filter.mp ((among _ _).mp here)
    obtain ⟨secondListed, secondKey⟩ := List.mem_filter.mp ((among _ _).mp there)
    have cut := String.ofList_injective ((of_decide_eq_true firstKey).trans (of_decide_eq_true secondKey).symm)
    exact ⟨less, cut, mem_allNames_iff.mp firstListed, mem_allNames_iff.mp secondListed⟩
  · rintro ⟨less, cut, here, there⟩
    have firstIn : first ∈ (build units).allNames.filter fun name =>
        String.ofList (name.toList.take significantChars) = String.ofList (first.toList.take significantChars) :=
      List.mem_filter.mpr ⟨mem_allNames_iff.mpr here, by simp⟩
    have secondIn : second ∈ (build units).allNames.filter fun name =>
        String.ofList (name.toList.take significantChars) = String.ofList (first.toList.take significantChars) :=
      List.mem_filter.mpr ⟨mem_allNames_iff.mpr there, by simp [cut]⟩
    refine ⟨_, List.mem_map.mpr ⟨(_, _), (mem_entries_grouped _ _).mpr ⟨rfl, List.ne_nil_of_mem firstIn⟩, rfl⟩, ?_⟩
    exact (mem_orderedPairs_of_pairwise lt_asymm (increases _)).mpr ⟨(among _ _).mpr firstIn, (among _ _).mpr secondIn, less⟩

/-- A search among the functions and objects finds the first one. -/
theorem find?_eq_some_iff_firstDecl {unit : Unit} {property : AstNode → Prop} {test : AstNode → Bool}
    (tests : ∀ node, test node = true ↔ property node) {node : AstNode} :
    (unit.context.astNodes.find? fun node =>
      (node.nodeKind = .functionDecl || node.nodeKind = .varDecl) && test node) = some node ↔
        unit.FirstDecl property node := by
  rw [List.find?_eq_some_iff_append]
  simp only [Bool.not_eq_true', ← Bool.not_eq_true, Bool.and_eq_true, Bool.or_eq_true, decide_eq_true_eq, tests,
    not_and]
  constructor
  · rintro ⟨⟨kind, has⟩, before, after, same, earlier⟩
    exact ⟨before, after, same, kind, has, earlier⟩
  · rintro ⟨before, after, same, kind, has, earlier⟩
    exact ⟨⟨kind, has⟩, before, after, same, earlier⟩

theorem lookup_name_iff (nonempty : name ≠ "") {node : AstNode} :
    node.semanticProperties.lookup "name" = some name ↔ node.property "name" "" = name := by
  rw [AstNode.property]
  cases node.semanticProperties.lookup "name" with
  | none => simp [nonempty.symm]
  | some value => simp

theorem lookup_static_iff {node : AstNode} :
    node.semanticProperties.lookup "storage_class" = some "static" ↔ isStatic node := by
  rw [isStatic, AstNode.property]
  cases node.semanticProperties.lookup "storage_class" with
  | none => simp
  | some value => simp

theorem Unit.Declares.exists_firstDecl {unit : Unit} {node : AstNode} (declares : unit.Declares name node)
    {first second : String} (has : node.property "name" "" = first ∨ node.property "name" "" = second) :
    ∃ found, unit.FirstDecl
      (fun other => other.property "name" "" = first ∨ other.property "name" "" = second) found := by
  obtain ⟨present, kind, _⟩ := declares
  have searched : (unit.context.astNodes.find? fun node =>
      (node.nodeKind = .functionDecl || node.nodeKind = .varDecl) &&
        decide (node.property "name" "" = first ∨ node.property "name" "" = second)).isSome = true := by
    rw [List.find?_isSome]
    exact ⟨node, present, by simp [kind, has]⟩
  obtain ⟨found, same⟩ := Option.isSome_iff_exists.mp searched
  exact ⟨found, (find?_eq_some_iff_firstDecl fun _ => decide_eq_true_iff).mp same⟩

theorem symbols_of_indexed (indexed : Indexed units name) : (build units).symbols.entries.isEmpty = false :=
  symbols_ne_nil indexed.1 indexed.2

/-- The smaller of two names tells them apart in their set. -/
theorem pair_of_set {first second third fourth : String} (less : first < second) (lower : third < fourth)
    (same : ({first, second} : Finset String) = {third, fourth}) : (first, second) = (third, fourth) := by
  have sets : ({first, second} : Set String) = {third, fourth} := by
    have coerced := congrArg (fun names : Finset String => (names : Set String)) same
    simpa using coerced
  rcases Set.pair_eq_pair_iff.mp sets with ⟨rfl, rfl⟩ | ⟨rfl, rfl⟩
  · rfl
  · exact absurd lower less.asymm

/-- A pair that collides stands beside the first of its declarations in the unit. -/
theorem mem_offending_collisions {unit : Unit} {first second : String} {node : AstNode} :
    ((first, second), node) ∈ Rule5_1.offending (build units) unit.context ↔ Collide units first second ∧
      unit.FirstDecl (fun other => other.property "name" "" = first ∨ other.property "name" "" = second) node := by
  have declared : Collide units first second → (Rule5_1.localDecl unit.context (first, second) = some node ↔
      unit.FirstDecl
        (fun other => other.property "name" "" = first ∨ other.property "name" "" = second) node) := by
    intro collide
    apply find?_eq_some_iff_firstDecl
    intro other
    rw [Bool.or_eq_true, decide_eq_true_eq, decide_eq_true_eq, lookup_name_iff collide.2.2.1.1,
      lookup_name_iff collide.2.2.2.1]
  have listed : ∀ entry, entry ∈ ((build units).duplicateNamesWithin Rule5_1.significantChars).filterMap
      (fun names => (Rule5_1.localDecl unit.context names).map fun node => (names, node)) ↔
        Collide units entry.1.1 entry.1.2 ∧ Rule5_1.localDecl unit.context entry.1 = some entry.2 := by
    intro entry
    rw [List.mem_filterMap]
    constructor
    · rintro ⟨names, inside, found⟩
      obtain ⟨other, searched, rfl⟩ := Option.map_eq_some_iff.mp found
      exact ⟨mem_duplicateNamesWithin.mp inside, searched⟩
    · rintro ⟨collide, searched⟩
      exact ⟨entry.1, mem_duplicateNamesWithin.mpr collide, by rw [searched]; rfl⟩
  constructor
  · intro inside
    rw [Rule5_1.offending] at inside
    split at inside
    · cases inside
    · obtain ⟨collide, searched⟩ := (listed _).mp ((keepFirst_sublist _ _).subset inside)
      exact ⟨collide, (declared collide).mp searched⟩
  · rintro ⟨collide, located⟩
    rw [Rule5_1.offending, symbols_of_indexed collide.2.2.1, if_neg Bool.false_ne_true]
    have searched := (declared collide).mpr located
    obtain ⟨⟨⟨third, fourth⟩, other⟩, kept, same⟩ := @exists_keepFirst _ _ _
      (fun entry : (String × String) × AstNode => ({entry.1.1, entry.1.2} : Finset String)) _ _
      ((listed ((first, second), node)).mpr ⟨collide, searched⟩)
    obtain ⟨again, found⟩ := (listed _).mp ((keepFirst_sublist _ _).subset kept)
    have pair : (third, fourth) = (first, second) := pair_of_set again.1 collide.1 same
    rw [pair] at kept found
    have one : other = node := Option.some.inj (found.symm.trans searched)
    rwa [one] at kept

/-- Every unit with a function or an object of one of two colliding names reports the pair once, at the first such
declaration. No pair is missed in all units. -/
theorem collisions_reported (units : List Unit) :
    (∀ unit : Unit, ∃ found : List ((String × String) × AstNode),
      Rule5_1.detect (build units) unit.context =
          found.map (fun entry => Rule5_1.report unit.context entry.1 entry.2) ∧
        (found.map Prod.fst).Nodup ∧ ∀ first second node, ((first, second), node) ∈ found ↔
          Collide units first second ∧ unit.FirstDecl
            (fun other => other.property "name" "" = first ∨ other.property "name" "" = second) node) ∧
    ∀ first second, Collide units first second → SomeUnit units fun unit => ∃ node,
      Rule5_1.report unit.context (first, second) node ∈ Rule5_1.detect (build units) unit.context := by
  constructor
  · intro unit
    refine ⟨Rule5_1.offending (build units) unit.context, rfl, ?_, fun _ _ _ => mem_offending_collisions⟩
    rw [Rule5_1.offending]
    split
    · exact List.nodup_nil
    · have keys := @keepFirst_nodup _ _ _ (fun entry : (String × String) × AstNode =>
        ({entry.1.1, entry.1.2} : Finset String)) [] (((build units).duplicateNamesWithin
          Rule5_1.significantChars).filterMap fun names =>
            (Rule5_1.localDecl unit.context names).map fun node => (names, node))
      refine List.Nodup.of_map (fun names : String × String => ({names.1, names.2} : Finset String)) ?_
      rwa [List.map_map]
  · intro first second collide
    obtain ⟨unit, member, node, declares⟩ := collide.2.2.1.2
    have named : node.property "name" "" = first ∨ node.property "name" "" = second := .inl declares.2.2.1
    obtain ⟨found, located⟩ := declares.exists_firstDecl named
    exact ⟨unit, member, found, List.mem_map.mpr ⟨_, mem_offending_collisions.mpr ⟨collide, located⟩, rfl⟩⟩

/-! ### Units of a name -/

theorem mem_internalLinkageTranslationUnits (nonempty : name ≠ "") {translationUnitId : String} :
    translationUnitId ∈ (build units).internalLinkageTranslationUnits name ↔
      ∃ unit ∈ units, unit.translationUnitId = translationUnitId ∧ unit.Internal name := by
  rw [Data.internalLinkageTranslationUnits, Data.internalLinkageOccurrences, List.mem_dedup, List.mem_map]
  simp only [List.mem_filter, mem_occurrences nonempty, decide_eq_true_eq]
  constructor
  · rintro ⟨_, ⟨⟨unit, member, node, declares, rfl⟩, static⟩, same⟩
    exact ⟨unit, member, same, node, declares, static⟩
  · rintro ⟨unit, member, same, node, declares, static⟩
    exact ⟨_, ⟨⟨unit, member, node, declares, rfl⟩, static⟩, same⟩

theorem several_internal (nonempty : name ≠ "") :
    1 < ((build units).internalLinkageTranslationUnits name).length ↔
      TwoUnits units fun unit => unit.Internal name := by
  have once : ((build units).internalLinkageTranslationUnits name).dedup =
      (build units).internalLinkageTranslationUnits name := List.dedup_idem
  rw [← once, one_lt_length_dedup]
  simp only [mem_internalLinkageTranslationUnits nonempty]
  constructor
  · rintro ⟨_, ⟨first, here, rfl, internalHere⟩, _, ⟨second, there, rfl, internalThere⟩, different⟩
    exact ⟨first, here, second, there, different, internalHere, internalThere⟩
  · rintro ⟨first, here, second, there, different, internalHere, internalThere⟩
    exact ⟨_, ⟨first, here, rfl, internalHere⟩, _, ⟨second, there, rfl, internalThere⟩, different⟩

theorem singleTranslationUnit_eq_some (nonempty : name ≠ "") {translationUnitId : String} :
    (build units).singleTranslationUnit name = some translationUnitId ↔
      (SomeUnit units fun unit => ∃ node, unit.Declares name node) ∧
        ∀ unit ∈ units, (∃ node, unit.Declares name node) → unit.translationUnitId = translationUnitId := by
  have listed : ∀ other, other ∈ (((build units).occurrences name).map Occurrence.translationUnitId).dedup ↔
      ∃ unit ∈ units, unit.translationUnitId = other ∧ ∃ node, unit.Declares name node := by
    intro other
    rw [List.mem_dedup, List.mem_map]
    simp only [mem_occurrences nonempty]
    constructor
    · rintro ⟨_, ⟨unit, member, node, declares, rfl⟩, same⟩
      exact ⟨unit, member, same, node, declares⟩
    · rintro ⟨unit, member, same, node, declares⟩
      exact ⟨_, ⟨unit, member, node, declares, rfl⟩, same⟩
  have single : (build units).singleTranslationUnit name = some translationUnitId ↔
      (((build units).occurrences name).map Occurrence.translationUnitId).dedup = [translationUnitId] := by
    rw [Data.singleTranslationUnit]
    split
    · rename_i other same
      rw [same]
      simp
    · rename_i several
      exact iff_of_false (by simp) (several translationUnitId)
  rw [single]
  constructor
  · intro alone
    rw [alone] at listed
    obtain ⟨unit, member, _, declared⟩ := (listed translationUnitId).mp (List.mem_singleton_self _)
    exact ⟨⟨unit, member, declared⟩, fun other inside declares =>
      List.mem_singleton.mp ((listed _).mpr ⟨other, inside, rfl, declares⟩)⟩
  · rintro ⟨⟨unit, member, declared⟩, only⟩
    apply List.perm_singleton.mp
    refine (List.perm_ext_iff_of_nodup (List.nodup_dedup _) (List.nodup_singleton _)).mpr fun other => ?_
    rw [listed, List.mem_singleton]
    constructor
    · rintro ⟨another, inside, rfl, declares⟩
      exact only another inside declares
    · rintro rfl
      exact ⟨unit, member, only unit member declared, declared⟩

section Rules

variable (ids : (units.map Unit.translationUnitId).Nodup) {unit : Unit} (member : unit ∈ units)

include ids member

theorem mem_offending_internal {node : AstNode} :
    (name, node) ∈ Rule5_9.offending (build units) unit.translationUnitId unit.context ↔
      name ≠ "" ∧ unit.Internal name ∧ (TwoUnits units fun other => other.Internal name) ∧
        unit.FirstDecl (fun other => other.property "name" "" = name ∧ isStatic other) node := by
  have own : name ≠ "" → (unit.translationUnitId ∈ (build units).internalLinkageTranslationUnits name ↔
      unit.Internal name) := by
    intro nonempty
    rw [mem_internalLinkageTranslationUnits nonempty]
    constructor
    · rintro ⟨other, inside, same, internal⟩
      exact List.inj_on_of_nodup_map ids inside member same ▸ internal
    · exact fun internal => ⟨unit, member, rfl, internal⟩
  have searched : name ≠ "" → (Rule5_9.localDecl unit.context name = some node ↔
      unit.FirstDecl (fun other => other.property "name" "" = name ∧ isStatic other) node) := by
    intro nonempty
    apply find?_eq_some_iff_firstDecl
    intro other
    rw [Bool.and_eq_true, decide_eq_true_eq, decide_eq_true_eq, lookup_name_iff nonempty, lookup_static_iff]
  rw [Rule5_9.offending]
  constructor
  · intro inside
    split at inside
    · cases inside
    · obtain ⟨other, listed, found⟩ := List.mem_filterMap.mp inside
      have nonempty := (mem_allNames_iff.mp listed).1
      split at found
      · cases found
      · rename_i several
        split at found
        · cases found
        · rename_i here
          obtain ⟨_, located, same⟩ := Option.map_eq_some_iff.mp found
          cases same
          exact ⟨nonempty, (own nonempty).mp (not_not.mp here), (several_internal nonempty).mp (not_le.mp several),
            (searched nonempty).mp located⟩
  · rintro ⟨nonempty, internal, several, located⟩
    have ⟨declared, declares, _⟩ := internal
    have indexed : Indexed units name := ⟨nonempty, unit, member, declared, declares⟩
    rw [symbols_of_indexed indexed, if_neg Bool.false_ne_true, List.mem_filterMap]
    refine ⟨name, mem_allNames_iff.mpr indexed, ?_⟩
    rw [if_neg (not_le.mpr ((several_internal nonempty).mpr several)),
      if_neg (not_not.mpr ((own nonempty).mpr internal)), (searched nonempty).mpr located]
    rfl

theorem mem_offending_single {node : AstNode} :
    node ∈ Rule8_7.offending (build units) unit.translationUnitId unit.context ↔
      node.property "name" "" ≠ "" ∧ unit.Declares (node.property "name" "") node ∧ ¬ isStatic node ∧
        ∀ other ∈ units, (∃ twin, other.Declares (node.property "name" "") twin) → other = unit := by
  have candidates : node ∈ [NodeKind.functionDecl, .varDecl].flatMap
      (BaseRulePlugin.graph unit.context).nodesByKind ↔
        node ∈ unit.graph.nodes ∧ (node.nodeKind = .functionDecl ∨ node.nodeKind = .varDecl) := by
    simp only [List.mem_flatMap, List.mem_cons, List.not_mem_nil, or_false, AstGraph.nodesByKind, List.mem_filter,
      decide_eq_true_eq, exists_eq_or_imp, exists_eq_left, BaseRulePlugin.graph, Unit.context]
    tauto
  have offends : Rule8_7.offends (build units) unit.translationUnitId unit.context node = true ↔
      unit.graph.isFileScope node.nodeId = true ∧ node.property "name" "" ≠ "" ∧ ¬ isStatic node ∧
        (build units).singleTranslationUnit (node.property "name" "") = some unit.translationUnitId := by
    simp only [Rule8_7.offends, Bool.and_eq_true, decide_eq_true_eq, isStatic, and_assoc]
    rfl
  rw [Rule8_7.offending]
  constructor
  · intro inside
    split at inside
    · cases inside
    · obtain ⟨listed, bad⟩ := List.mem_filter.mp inside
      obtain ⟨present, kind⟩ := candidates.mp listed
      obtain ⟨fileScope, nonempty, notStatic, single⟩ := offends.mp bad
      obtain ⟨_, only⟩ := (singleTranslationUnit_eq_some nonempty).mp single
      exact ⟨nonempty, ⟨present, kind, rfl, fileScope⟩, notStatic, fun other inside declares =>
        List.inj_on_of_nodup_map ids inside member (only other inside declares)⟩
  · rintro ⟨nonempty, declares, notStatic, only⟩
    have known : SomeUnit units fun other => ∃ twin, other.Declares (node.property "name" "") twin :=
      ⟨unit, member, node, declares⟩
    rw [symbols_ne_nil nonempty known, if_neg Bool.false_ne_true, List.mem_filter]
    refine ⟨candidates.mpr ⟨declares.1, declares.2.1⟩, offends.mpr ⟨declares.2.2.2, nonempty, notStatic, ?_⟩⟩
    exact (singleTranslationUnit_eq_some nonempty).mpr
      ⟨known, fun other inside declared => congrArg Unit.translationUnitId (only other inside declared)⟩

end Rules

/-- A unit reports a static name of its own that is static in another unit, at its first static declaration in any
scope. It reports its external declarations of the names that no other unit declares at file scope. -/
theorem unitsCounted (ids : (units.map Unit.translationUnitId).Nodup) {unit : Unit} (member : unit ∈ units) :
    (∃ found : List (String × AstNode),
      Rule5_9.detect (build units) unit.translationUnitId unit.context = found.map (fun entry =>
        Rule5_9.report unit.context entry.1 ((build units).internalLinkageTranslationUnits entry.1).length entry.2) ∧
      (found.map Prod.fst).Nodup ∧ ∀ name node, (name, node) ∈ found ↔
        name ≠ "" ∧ unit.Internal name ∧ (TwoUnits units fun other => other.Internal name) ∧
          unit.FirstDecl (fun other => other.property "name" "" = name ∧ isStatic other) node) ∧
    ∃ nodes : List AstNode, Rule8_7.detect (build units) unit.translationUnitId unit.context =
        nodes.map (Rule8_7.report unit.context) ∧
      (unit.graph.nodes.Nodup → nodes.Nodup) ∧ ∀ node, node ∈ nodes ↔
        node.property "name" "" ≠ "" ∧ unit.Declares (node.property "name" "") node ∧ ¬ isStatic node ∧
          ∀ other ∈ units, (∃ twin, other.Declares (node.property "name" "") twin) → other = unit := by
  refine ⟨⟨_, rfl, ?_, fun _ _ => mem_offending_internal ids member⟩,
    _, rfl, fun distinct => ?_, fun _ => mem_offending_single ids member⟩
  · rw [Rule5_9.offending]
    split
    · exact List.nodup_nil
    · refine (map_filterMap_sublist (fun name found same => ?_) _).nodup (build units).symbols.keys_nodup
      split at same
      · cases same
      · split at same
        · cases same
        · obtain ⟨node, _, rfl⟩ := Option.map_eq_some_iff.mp same
          rfl
  · rw [Rule8_7.offending]
    split
    · exact List.nodup_nil
    · refine List.Nodup.filter _ ?_
      rw [List.flatMap_cons, List.flatMap_singleton]
      refine List.Nodup.append (distinct.filter _) (distinct.filter _) (List.disjoint_left.mpr ?_)
      intro node one another
      have first := of_decide_eq_true (List.mem_filter.mp one).2
      have second := of_decide_eq_true (List.mem_filter.mp another).2
      exact absurd (first.symm.trans second) (by decide)

/-- This is `static int counter;`. -/
def internalDecl : AstNode :=
  { nodeId := "n1", nodeKind := .varDecl, semanticProperties := [("name", "counter"), ("storage_class", "static")] }

def internalUnit (filePath : String) : Unit where
  translationUnitId := filePath
  filePath := filePath
  graph := ⟨[internalDecl]⟩

/-- The object is reported in the first of two units that have one of its name. -/
theorem unitsCounted_static : ∃ found : List (String × AstNode),
    Rule5_9.detect (build [internalUnit "a.c", internalUnit "b.c"]) "a.c" (internalUnit "a.c").context =
        found.map (fun entry => Rule5_9.report (internalUnit "a.c").context entry.1
          ((build [internalUnit "a.c", internalUnit "b.c"]).internalLinkageTranslationUnits entry.1).length entry.2) ∧
      ("counter", internalDecl) ∈ found := by
  have internal : ∀ filePath, (internalUnit filePath).Internal "counter" :=
    fun filePath => ⟨internalDecl, ⟨List.mem_singleton_self _, .inr rfl, rfl, rfl⟩, rfl⟩
  obtain ⟨⟨found, detected, _, spec⟩, _⟩ := @unitsCounted [internalUnit "a.c", internalUnit "b.c"] (by decide)
    (internalUnit "a.c") List.mem_cons_self
  refine ⟨found, detected, (spec _ _).mpr ⟨by decide, internal _, ?_, ?_⟩⟩
  · exact ⟨_, List.mem_cons_self, _, List.mem_cons_of_mem _ List.mem_cons_self, by decide, internal _, internal _⟩
  · exact ⟨[], [], rfl, .inr rfl, ⟨rfl, rfl⟩, fun _ inside => (List.not_mem_nil inside).elim⟩

end Names

end MisraPlatform.LinkageIndex
