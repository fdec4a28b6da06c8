import MisraPlatform.Semantics.Declarations

/-
This file shows which enumerators of an enum are reported for their values, and which typedefs are taken for used
because a longer name contains theirs.
-/

namespace MisraPlatform.Rule8_12
open EssentialTypeEngine

/-! ### Numbers in texts -/

theorem digitOf_decimal {char : Char} (digit : char.isDigit = true) :
    digitOf 10 char = some (char.toNat - '0'.toNat) := by
  obtain ⟨low, high⟩ := Char.isDigit_iff_toNat.mp digit
  have range : '0' ≤ char ∧ char ≤ '9' := ⟨low, high⟩
  rw [digitOf, if_pos range, Option.filter_some, if_pos]
  have small : '9'.toNat = '0'.toNat + 9 := rfl
  rw [decide_eq_true_eq]
  omega

theorem moreDigits_decimal {chars : List Char} (digits : ∀ char ∈ chars, char.isDigit = true) (value : ℕ) :
    moreDigits 10 value chars = some (Nat.ofDigitChars 10 chars value) := by
  induction chars generalizing value with
  | nil => simp [moreDigits]
  | cons char rest ih =>
      have here := digits char List.mem_cons_self
      have mark : char ≠ '_' := by
        rintro rfl
        cases here
      rw [moreDigits.eq_3 _ _ _ _ fun next later same _ => mark same, digitOf_decimal here]
      refine (ih (fun other inside => digits other (List.mem_cons_of_mem _ inside)) _).trans ?_
      rw [Nat.ofDigitChars_cons, Nat.mul_comm]

theorem readDigits_toDigits (number : ℕ) : readDigits 10 (Nat.toDigits 10 number) = some number := by
  have digits : ∀ char ∈ Nat.toDigits 10 number, char.isDigit = true :=
    fun char inside => Nat.isDigit_of_mem_toDigits (by omega) (by omega) inside
  cases chars : Nat.toDigits 10 number with
  | nil => exact absurd chars Nat.toDigits_ne_nil
  | cons char rest =>
      rw [chars] at digits
      rw [readDigits, digitOf_decimal (digits char List.mem_cons_self)]
      refine (moreDigits_decimal (fun other inside => digits other (List.mem_cons_of_mem _ inside)) _).trans ?_
      have whole : Nat.ofDigitChars 10 (char :: rest) 0 = number := chars ▸ Nat.ofDigitChars_ten_toDigits
      rw [Nat.ofDigitChars_cons, Nat.mul_zero, Nat.zero_add] at whole
      rw [whole]

/-- A text without whitespace is not stripped. -/
theorem strip_eq {chars : List Char} (solid : ∀ char ∈ chars, char ∉ whitespace) :
    (chars.dropWhile whitespace.contains).rdropWhile whitespace.contains = chars := by
  have front : chars.dropWhile whitespace.contains = chars := by
    rw [List.dropWhile_eq_self_iff]
    intro nonempty
    simp [solid _ (List.getElem_mem nonempty)]
  rw [front, List.rdropWhile_eq_self_iff]
  intro nonempty
  simp [solid _ (List.getLast_mem nonempty)]

theorem solid_digit {char : Char} (digit : char.isDigit = true) : char ∉ whitespace := by
  obtain ⟨low, high⟩ := Char.isDigit_iff_toNat.mp digit
  intro inside
  have blank : (whitespace.all fun space => space.toNat < '0'.toNat || '9'.toNat < space.toNat) = true := by decide
  have apart := List.all_eq_true.mp blank char inside
  rw [Bool.or_eq_true, decide_eq_true_eq, decide_eq_true_eq] at apart
  omega

theorem toInt_toString (value : Int) : toInt (toString value) = some value := by
  have digits (number : ℕ) : ∀ char ∈ Nat.toDigits 10 number, char.isDigit = true :=
    fun char inside => Nat.isDigit_of_mem_toDigits (by omega) (by omega) inside
  cases value with
  | ofNat number =>
      have text : (toString (Int.ofNat number)).toList = Nat.toDigits 10 number := by
        exact String.toList_ofList
      rw [toInt, text, strip_eq fun char inside => solid_digit (digits number char inside)]
      have read := readDigits_toDigits number
      cases chars : Nat.toDigits 10 number with
      | nil => exact absurd chars Nat.toDigits_ne_nil
      | cons char rest =>
          have digit := digits number char (by rw [chars]; exact List.mem_cons_self)
          rw [chars] at read
          split
          · next same => exact absurd ((List.cons.inj same).1 ▸ digit) (by decide)
          · next same => exact absurd ((List.cons.inj same).1 ▸ digit) (by decide)
          · rw [read]
            rfl
  | negSucc number =>
      have text : (toString (Int.negSucc number)).toList = '-' :: Nat.toDigits 10 (number + 1) := by
        rw [show toString (Int.negSucc number) = "-" ++ (number + 1).repr from rfl, String.toList_append,
          Nat.toList_repr]
        rfl
      rw [toInt, text, strip_eq]
      · simp only [readDigits_toDigits]
        rfl
      · intro char inside
        rcases List.mem_cons.mp inside with rfl | digit
        · decide
        · exact solid_digit (digits _ char digit)

/-! ### The scan -/

/-- Two implicit enumerators of an enum with the same value have the same key. -/
def key (node : AstNode) : Option (String × Int) :=
  if metaTrue (node.value "is_implicit_enumerator") then
    (enumeratorValue node).map fun value => (node.parentId, value)
  else none

def Collides (seen : List AstNode) (node : AstNode) : Prop :=
  ∃ other ∈ seen, other ≠ node ∧ ∃ found, key node = some found ∧ key other = some found

variable {all seen : List AstNode} {scan : Scan} {node : AstNode} {found : String × Int}

theorem Scan.report_table (scan : Scan) (node : AstNode) :
    (scan.report node).implicitByParent = scan.implicitByParent := by
  rw [Scan.report]
  split
  · rfl
  · rfl

theorem visit_keyless (fresh : node.nodeId ∉ scan.reported) (keyless : key node = none) :
    visitImplicit scan node = scan := by
  rw [visitImplicit, if_neg fresh]
  rw [key] at keyless
  split
  · rfl
  · rename_i isImplicit
    rw [if_pos (by simpa using isImplicit), Option.map_eq_none_iff] at keyless
    rw [keyless]

theorem visit_keyed (fresh : node.nodeId ∉ scan.reported) (keyed : key node = some found) :
    visitImplicit scan node =
      (scan.implicitByParent.get? found).elim
        { scan with implicitByParent := scan.implicitByParent.insert found node }
        fun first => (scan.report first).report node := by
  rw [key] at keyed
  split at keyed
  · rename_i isImplicit
    obtain ⟨value, number, rfl⟩ := Option.map_eq_some_iff.mp keyed
    rw [visitImplicit, if_neg fresh, isImplicit, number]
    cases earlier : scan.implicitByParent.get? (node.parentId, value) with
    | none => simp [earlier]
    | some first => simp [earlier]
  · cases keyed

/-- Every result is reported once under its id. -/
structure Scan.Sound (all : List AstNode) (scan : Scan) : Prop where
  ids : ∀ nodeId, nodeId ∈ scan.reported ↔ nodeId ∈ scan.results.map AstNode.nodeId
  once : scan.results.Nodup
  known : ∀ node ∈ scan.results, node ∈ all

theorem Scan.Sound.report (distinct : ∀ first ∈ all, ∀ second ∈ all, first.nodeId = second.nodeId → first = second)
    (sound : scan.Sound all) (inside : node ∈ all) : (scan.report node).Sound all ∧
      ∀ other, other ∈ (scan.report node).results ↔ other ∈ scan.results ∨ other = node := by
  have old : node.nodeId ∈ scan.reported ↔ node ∈ scan.results := by
    rw [sound.ids, List.mem_map]
    constructor
    · rintro ⟨other, listed, same⟩
      exact distinct other (sound.known other listed) node inside same ▸ listed
    · intro listed
      exact ⟨node, listed, rfl⟩
  rw [Scan.report]
  split
  · rename_i reported
    refine ⟨sound, fun other => ⟨.inl, ?_⟩⟩
    rintro (listed | rfl)
    · exact listed
    · exact old.mp reported
  · rename_i fresh
    constructor
    · constructor
      · intro nodeId
        rw [List.mem_cons, List.map_append, List.mem_append, List.map_singleton, List.mem_singleton, sound.ids]
        exact or_comm
      · refine List.Nodup.append sound.once (List.nodup_singleton node) (List.disjoint_singleton.mpr ?_)
        exact fun listed => fresh (old.mpr listed)
      · intro other listed
        rcases List.mem_append.mp listed with before | new
        · exact sound.known other before
        · exact List.mem_singleton.mp new ▸ inside
    · intro other
      rw [List.mem_append, List.mem_singleton]

/-- The table has the first implicit enumerator of each value, and the results are those that collide. -/
structure Scanned (all seen : List AstNode) (scan : Scan) : Prop where
  sound : scan.Sound all
  firsts : ∀ found, scan.implicitByParent.get? found = seen.find? fun node => key node = some found
  members : ∀ node, node ∈ scan.results ↔ node ∈ seen ∧ Collides seen node

theorem scanned_empty (all : List AstNode) : Scanned all [] {} := by
  refine ⟨⟨by simp, List.nodup_nil, by simp⟩, fun found => ?_, by simp⟩
  rw [List.find?_nil]
  exact OrderedDict.get?_empty found

theorem find_next (seen : List AstNode) (found : String × Int) :
    (seen ++ [node]).find? (fun node => key node = some found) =
      (seen.find? fun node => key node = some found).or (if key node = some found then some node else none) := by
  rw [List.find?_append, List.find?_singleton]
  simp only [decide_eq_true_eq]

/-- Behind the list stands an enumerator whose key no enumerator of the list has. -/
theorem collides_apart (apart : ∀ other ∈ seen, ∀ found, key node = some found → key other ≠ some found)
    (other : AstNode) : other ∈ seen ++ [node] ∧ Collides (seen ++ [node]) other ↔ other ∈ seen ∧ Collides seen other := by
  constructor
  · rintro ⟨listed, third, there, different, found, left, right⟩
    rcases List.mem_append.mp listed with before | new
    · rcases List.mem_append.mp there with thirdBefore | thirdNew
      · exact ⟨before, third, thirdBefore, different, found, left, right⟩
      · rw [List.mem_singleton.mp thirdNew] at right
        exact absurd left (apart other before found right)
    · rw [List.mem_singleton.mp new] at different left
      rcases List.mem_append.mp there with thirdBefore | thirdNew
      · exact absurd right (apart third thirdBefore found left)
      · exact absurd (List.mem_singleton.mp thirdNew) different
  · rintro ⟨listed, third, there, rest⟩
    exact ⟨List.mem_append_left _ listed, third, List.mem_append_left _ there, rest⟩

/-- The new enumerator collides with the first one of its key, and so does every other one of the key. -/
theorem collides_first {first : AstNode} {found : String × Int} (here : key node = some found)
    (firstListed : first ∈ seen) (firstKey : key first = some found) (fresh : node ∉ seen) (other : AstNode) :
    other ∈ seen ++ [node] ∧ Collides (seen ++ [node]) other ↔
      ((other ∈ seen ∧ Collides seen other) ∨ other = first) ∨ other = node := by
  have away : first ≠ node := fun same => fresh (same ▸ firstListed)
  constructor
  · rintro ⟨listed, third, there, different, value, left, right⟩
    rcases List.mem_append.mp listed with before | new
    · by_cases isFirst : other = first
      · exact .inl (.inr isFirst)
      rcases List.mem_append.mp there with thirdBefore | thirdNew
      · exact .inl (.inl ⟨before, third, thirdBefore, different, value, left, right⟩)
      · rw [List.mem_singleton.mp thirdNew, here] at right
        exact .inl (.inl ⟨before, first, firstListed, Ne.symm isFirst, value, left, firstKey.trans right⟩)
    · exact .inr (List.mem_singleton.mp new)
  · rintro ((⟨listed, third, there, rest⟩ | rfl) | rfl)
    · exact ⟨List.mem_append_left _ listed, third, List.mem_append_left _ there, rest⟩
    · exact ⟨List.mem_append_left _ firstListed, node, List.mem_append_right _ List.mem_cons_self, away.symm, found,
        firstKey, here⟩
    · exact ⟨List.mem_append_right _ List.mem_cons_self, first, List.mem_append_left _ firstListed, away, found,
        here, firstKey⟩

theorem Scanned.visit (distinct : ∀ first ∈ all, ∀ second ∈ all, first.nodeId = second.nodeId → first = second)
    (scanned : Scanned all seen scan) (known : seen ⊆ all) (inside : node ∈ all) (new : node ∉ seen) :
    Scanned all (seen ++ [node]) (visitImplicit scan node) := by
  have fresh : node.nodeId ∉ scan.reported := by
    rw [scanned.sound.ids]
    intro reported
    obtain ⟨other, listed, same⟩ := List.mem_map.mp reported
    have before := ((scanned.members other).mp listed).1
    exact new (distinct other (known before) node inside same ▸ before)
  cases here : key node with
  | none =>
      rw [visit_keyless fresh here]
      refine ⟨scanned.sound, fun found => ?_, fun other => ?_⟩
      · rw [find_next, here, if_neg (Option.some_ne_none found).symm, Option.or_none, scanned.firsts]
      · rw [scanned.members, collides_apart]
        intro _ _ found same
        rw [here] at same
        cases same
  | some found =>
      rw [visit_keyed fresh here]
      have others (value : String × Int) (different : ¬ value = found) :
          (seen ++ [node]).find? (fun node => key node = some value) = scan.implicitByParent.get? value := by
        rw [find_next, here, if_neg fun equal => different (Option.some.inj equal).symm, Option.or_none,
          scanned.firsts]
      cases earlier : scan.implicitByParent.get? found with
      | none =>
          have absent := earlier
          rw [scanned.firsts] at absent
          have apart : ∀ other ∈ seen, ∀ value, key node = some value → key other ≠ some value := by
            intro other listed value same
            rw [← here.symm.trans same]
            simpa using List.find?_eq_none.mp absent other listed
          refine ⟨⟨scanned.sound.ids, scanned.sound.once, scanned.sound.known⟩, fun value => ?_, fun other => ?_⟩
          · rw [Option.elim_none, OrderedDict.get?_insert]
            by_cases same : value = found
            · rw [if_pos same, same, find_next, absent, Option.none_or, if_pos here]
            · rw [if_neg same, others value same]
          · rw [Option.elim_none, collides_apart apart]
            exact scanned.members other
      | some first =>
          have firstFound := earlier
          rw [scanned.firsts] at firstFound
          have firstListed := List.mem_of_find?_eq_some firstFound
          have firstKey : key first = some found := by simpa using List.find?_some firstFound
          obtain ⟨sound, members⟩ := scanned.sound.report distinct (known firstListed)
          obtain ⟨soundBoth, membersBoth⟩ := sound.report distinct inside
          refine ⟨soundBoth, fun value => ?_, fun other => ?_⟩
          · rw [Option.elim_some, Scan.report_table, Scan.report_table]
            by_cases same : value = found
            · rw [same, find_next, firstFound, Option.some_or, earlier]
            · rw [others value same]
          · rw [Option.elim_some, membersBoth, members, scanned.members,
              collides_first here firstListed firstKey new]

theorem scanned_fold (distinct : ∀ first ∈ all, ∀ second ∈ all, first.nodeId = second.nodeId → first = second)
    (nodup : all.Nodup) {rest : List AstNode} (split : all = seen ++ rest) (scanned : Scanned all seen scan) :
    Scanned all all (rest.foldl visitImplicit scan) := by
  induction rest generalizing seen scan with
  | nil =>
      rw [List.append_nil] at split
      exact split ▸ scanned
  | cons node rest ih =>
      have known : seen ⊆ all := split ▸ List.subset_append_left _ _
      have inside : node ∈ all := split ▸ List.mem_append_right _ List.mem_cons_self
      have new : node ∉ seen := by
        rw [split] at nodup
        exact fun listed => (List.disjoint_of_nodup_append nodup) listed List.mem_cons_self
      exact ih (by rw [split]; simp) (scanned.visit distinct known inside new)

/-! ### Recorded enumerators -/

variable {value other : Int} {isImplicit flag : Bool}

theorem Records.properties (records : Records node value isImplicit) :
    node.value "enumerator_value" = some (.text (toString value)) ∧
      node.value "is_implicit_enumerator" = some (.text (AstSerializer.boolText isImplicit)) ∧
      node.value "duplicate_implicit_enumerator" = none := by
  obtain ⟨unflagged, info, name, form, properties⟩ := records
  unfold AstNode.value
  rw [unflagged, properties, AstSerializer.enrichDeclProperties, form]
  dsimp only
  rw [Bool.not_not]
  exact ⟨rfl, rfl, rfl⟩

theorem Records.metaTrue (records : Records node value isImplicit) :
    metaTrue (node.value "is_implicit_enumerator") = isImplicit := by
  rw [records.properties.2.1]
  cases isImplicit with
  | false => decide
  | true => decide

theorem Records.number (records : Records node value isImplicit) : enumeratorValue node = some value := by
  rw [enumeratorValue, records.properties.1]
  exact toInt_toString value

theorem Records.unique (records : Records node value isImplicit) (again : Records node other flag) :
    value = other ∧ isImplicit = flag :=
  ⟨Option.some.inj (records.number.symm.trans again.number), records.metaTrue.symm.trans again.metaTrue⟩

theorem Records.key_eq (records : Records node value isImplicit) :
    key node = if isImplicit then some (node.parentId, value) else none := by
  rw [key, records.metaTrue, records.number, Option.map_some]

variable {graph : AstGraph}

theorem visitMarked_quiet (recorded : Recorded graph) :
    (enumerators graph).foldl visitMarked {} = ({} : Scan) := by
  have quiet : ∀ nodes ⊆ enumerators graph, nodes.foldl visitMarked {} = ({} : Scan) := by
    intro nodes
    induction nodes with
    | nil => exact fun _ => rfl
    | cons node rest ih =>
        intro inside
        obtain ⟨value, isImplicit, records⟩ := recorded node (inside List.mem_cons_self)
        have unmarked : visitMarked {} node = {} := by
          rw [visitMarked, records.properties.2.2]
          rfl
        rw [List.foldl_cons, unmarked, ih fun _ listed => inside (List.mem_cons_of_mem _ listed)]
  exact quiet _ (List.Subset.refl _)

variable (distinct : (graph.nodes.map AstNode.nodeId).Nodup) (recorded : Recorded graph)

include distinct recorded

theorem offending_spec : (offending graph).Nodup ∧ ∀ node,
    node ∈ offending graph ↔ node ∈ enumerators graph ∧ Collides (enumerators graph) node := by
  have apart : ∀ first ∈ enumerators graph, ∀ second ∈ enumerators graph,
      first.nodeId = second.nodeId → first = second := fun first left second right same =>
    List.inj_on_of_nodup_map distinct (List.mem_of_mem_filter left) (List.mem_of_mem_filter right) same
  have scanned := scanned_fold apart (distinct.of_map.filter _) (List.nil_append _).symm (scanned_empty _)
  rw [offending, visitMarked_quiet recorded]
  exact ⟨scanned.sound.once, scanned.members⟩

/-- The rule compares implicit enumerators with implicit ones. -/
theorem mem_offending (node : AstNode) : node ∈ offending graph ↔ node ∈ enumerators graph ∧
    ∃ value, Records node value true ∧ Shares graph node value true := by
  rw [(offending_spec distinct recorded).2]
  apply and_congr_right
  intro inside
  obtain ⟨value, isImplicit, records⟩ := recorded node inside
  constructor
  · rintro ⟨other, listed, different, found, left, right⟩
    obtain ⟨otherValue, flag, otherRecords⟩ := recorded other listed
    rw [records.key_eq] at left
    rw [otherRecords.key_eq] at right
    cases isImplicit with
    | false => cases left
    | true =>
        cases flag with
        | false => cases right
        | true =>
            have same := Option.some.inj (right.trans left.symm)
            rw [Prod.mk.injEq] at same
            exact ⟨value, records, other, listed, different, same.1, same.2 ▸ otherRecords⟩
  · rintro ⟨value, records, other, listed, different, parents, otherRecords⟩
    refine ⟨other, listed, different, (node.parentId, value), ?_, ?_⟩
    · rw [records.key_eq, if_pos rfl]
    · rw [otherRecords.key_eq, if_pos rfl, parents]

/-- The reports are right where no implicit enumerator shares its value with explicit ones only. -/
theorem enumeratorsReported_iff : EnumeratorsReported graph ↔ SharedImplicitly graph := by
  constructor
  · intro given node inside value records shares
    have reported := (given.reported node).mpr ⟨inside, value, records, false, shares⟩
    obtain ⟨_, other, again, implicitly⟩ := (mem_offending distinct recorded node).mp reported
    exact (records.unique again).1 ▸ implicitly
  · intro shared
    refine ⟨(offending_spec distinct recorded).1, fun node => ?_⟩
    rw [mem_offending distinct recorded]
    apply and_congr_right
    intro inside
    constructor
    · rintro ⟨value, records, shares⟩
      exact ⟨value, records, true, shares⟩
    · rintro ⟨value, records, isImplicit, shares⟩
      cases isImplicit with
      | false => exact ⟨value, records, shared node inside value records shares⟩
      | true => exact ⟨value, records, shares⟩

omit distinct recorded

/-! ### An enum of both kinds -/

def enumerator (nodeId : String) (value : Int) (isImplicit : Bool) : AstNode where
  nodeId := nodeId
  nodeKind := .other "EnumConstantDecl"
  parentId := "e"
  semanticProperties := AstSerializer.enrichDeclProperties ⟨0, .enumConstant nodeId value !isImplicit, none, {}, true⟩

theorem enumerator_records (nodeId : String) (value : Int) (isImplicit : Bool) :
    Records (enumerator nodeId value isImplicit) value isImplicit :=
  ⟨rfl, ⟨0, .enumConstant nodeId value !isImplicit, none, {}, true⟩, nodeId, rfl, rfl⟩

/-- The second enumerator is set to the value of the first one. -/
def modes : AstGraph where
  nodes := [{ nodeId := "e", nodeKind := .enumDecl, childrenIds := ["MODE_A", "MODE_B", "MODE_C"] },
    enumerator "MODE_A" 0 true, enumerator "MODE_B" 0 false, enumerator "MODE_C" 1 true]

theorem modes_recorded : Recorded modes := by
  intro node inside
  have listed : node ∈ [enumerator "MODE_A" 0 true, enumerator "MODE_B" 0 false, enumerator "MODE_C" 1 true] := inside
  simp only [List.mem_cons, List.not_mem_nil, or_false] at listed
  rcases listed with rfl | rfl | rfl
  · exact ⟨_, _, enumerator_records _ _ _⟩
  · exact ⟨_, _, enumerator_records _ _ _⟩
  · exact ⟨_, _, enumerator_records _ _ _⟩

theorem enumeratorsReported_iff_modes : EnumeratorsReported modes ↔ SharedImplicitly modes :=
  enumeratorsReported_iff (by decide) modes_recorded

/-- The value of the first enumerator is only compared with that of the third one. -/
theorem explicit_missed : Recorded modes ∧ offending modes = [] ∧ ¬ EnumeratorsReported modes := by
  have none : offending modes = [] := by decide
  refine ⟨modes_recorded, none, fun given => ?_⟩
  have reported := (given.reported (enumerator "MODE_A" 0 true)).mpr ⟨by decide, 0, enumerator_records _ _ _, false,
    enumerator "MODE_B" 0 false, by decide, by decide, rfl, enumerator_records _ _ _⟩
  rw [none] at reported
  cases reported

end MisraPlatform.Rule8_12

namespace MisraPlatform.Rule2_3

variable {name text : String} {graph : AstGraph} {node : AstNode}

theorem OccursWhole.isInfix (whole : OccursWhole name text) : name.toList <:+: text.toList := by
  obtain ⟨before, behind, split, _⟩ := whole
  exact ⟨before, behind, split.symm⟩

theorem isTypeReferenced_iff (named : node.property "name" "" ≠ "") :
    SymbolIndex.isTypeReferenced graph node = true ↔
      (∃ other ∈ graph.nodes, other.nodeId ≠ node.nodeId ∧
        SymbolIndex.namesType (node.property "name" "") other = true) ∨ MentionedElsewhere graph node := by
  simp only [SymbolIndex.isTypeReferenced, named, decide_false, Bool.false_or, List.any_eq_true, Bool.and_eq_true,
    Bool.or_eq_true, decide_eq_true_eq, MentionedElsewhere]
  constructor
  · rintro ⟨other, listed, different, typed | mentioned⟩
    · exact .inl ⟨other, listed, different, typed⟩
    · exact .inr ⟨other, listed, different, mentioned⟩
  · rintro (⟨other, listed, different, typed⟩ | ⟨other, listed, different, mentioned⟩)
    · exact ⟨other, listed, different, .inl typed⟩
    · exact ⟨other, listed, different, .inr mentioned⟩

theorem UsedElsewhere.referenced (named : node.property "name" "" ≠ "") (used : UsedElsewhere graph node) :
    SymbolIndex.isTypeReferenced graph node = true := by
  rw [isTypeReferenced_iff named]
  obtain ⟨other, listed, different, typed | whole⟩ := used
  · exact .inl ⟨other, listed, different, typed⟩
  · exact .inr ⟨other, listed, different, whole.isInfix⟩

theorem mem_typedefs : node ∈ typedefs graph → node.property "name" "" ≠ "" := by
  intro listed
  exact of_decide_eq_true (List.mem_filter.mp listed).2

/-- The reports are right as long as every mentioned typedef is used. -/
theorem typedefsReported_iff (graph : AstGraph) : TypedefsReported graph ↔
    ∀ node ∈ typedefs graph, MentionedElsewhere graph node → UsedElsewhere graph node := by
  constructor
  · intro reported node listed mentioned
    by_contra unused
    have kept := ((reported node).mpr ⟨listed, unused⟩)
    have unreferenced := (List.mem_filter.mp kept).2
    rw [(isTypeReferenced_iff (mem_typedefs listed)).mpr (.inr mentioned)] at unreferenced
    cases unreferenced
  · intro mentions node
    rw [offending, List.mem_filter, Bool.not_eq_true', Bool.eq_false_iff]
    apply and_congr_right
    intro listed
    have named := mem_typedefs listed
    apply not_congr
    constructor
    · intro referenced
      rcases (isTypeReferenced_iff named).mp referenced with ⟨other, inside, different, typed⟩ | mentioned
      · exact ⟨other, inside, different, .inl typed⟩
      · exact mentions node listed mentioned
    · exact fun used => used.referenced named

/-! ### A name inside a longer one -/

/-- Nothing has the type `speed`, and its name is the start of another one. -/
def speeds : AstGraph where
  nodes := [{ nodeId := "a", nodeKind := .other "TypedefDecl", semanticProperties := [("name", "speed")] },
    { nodeId := "b", nodeKind := .other "TypedefDecl", semanticProperties := [("name", "speed_t")] },
    { nodeId := "x", nodeKind := .varDecl, typedefChain := "speed_t -> int" }]

/-- The unused typedef is not reported. -/
theorem speed_missed : offending speeds = [] ∧ ¬ TypedefsReported speeds := by
  have none : offending speeds = [] := by decide
  refine ⟨none, fun reported => ?_⟩
  have unused : ∀ other ∈ speeds.nodes, other.nodeId ≠ "a" → ¬ Uses "speed" other := by decide
  have kept := (reported { nodeId := "a", nodeKind := .other "TypedefDecl",
                           semanticProperties := [("name", "speed")] }).mpr
    ⟨by decide, fun used => by
      obtain ⟨other, inside, different, uses⟩ := used
      exact unused other inside different uses⟩
  rw [none] at kept
  cases kept

end MisraPlatform.Rule2_3
