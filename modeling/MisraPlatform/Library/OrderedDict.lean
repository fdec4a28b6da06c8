import Mathlib.Data.List.Basic
import Mathlib.Data.List.Nodup

/-
This file is a dictionary that keeps the order in which its keys were first inserted.
-/

namespace MisraPlatform

/-- The entries keep their insertion order and no key stands in two of them. -/
structure OrderedDict (κ ν : Type) where
  entries : List (κ × ν)
  distinct : (entries.map Prod.fst).Nodup

namespace OrderedDict

variable {κ ν : Type}

def empty : OrderedDict κ ν := ⟨[], List.nodup_nil⟩

def keys (dict : OrderedDict κ ν) : List κ := dict.entries.map Prod.fst

def values (dict : OrderedDict κ ν) : List ν := dict.entries.map Prod.snd

def size (dict : OrderedDict κ ν) : Nat := dict.entries.length

theorem keys_nodup (dict : OrderedDict κ ν) : dict.keys.Nodup := dict.distinct

theorem keys_length (dict : OrderedDict κ ν) : dict.keys.length = dict.size := by
  simp [keys, size]

variable [DecidableEq κ]

def get? (dict : OrderedDict κ ν) (key : κ) : Option ν := dict.entries.lookup key

/-- A modification changes one value and leaves every key where it stands. -/
def modify (dict : OrderedDict κ ν) (key : κ) (change : ν → ν) : OrderedDict κ ν where
  entries := dict.entries.map fun entry =>
    if entry.1 = key then (entry.1, change entry.2) else entry
  distinct := by
    have same : Prod.fst ∘ (fun entry : κ × ν =>
        if entry.1 = key then (entry.1, change entry.2) else entry) = Prod.fst := by
      funext entry
      simp only [Function.comp]
      split <;> rfl
    rw [List.map_map, same]
    exact dict.distinct

/-- An insertion overwrites a present key in place and appends an absent one. -/
def insert (dict : OrderedDict κ ν) (key : κ) (value : ν) : OrderedDict κ ν :=
  if present : key ∈ dict.keys then dict.modify key fun _ => value
  else
    { entries := dict.entries ++ [(key, value)]
      distinct := by
        rw [List.map_append]
        exact dict.distinct.append (List.nodup_singleton key)
          (List.disjoint_singleton.mpr present) }

/-- A default is stored only when the key is absent. -/
def setDefault (dict : OrderedDict κ ν) (key : κ) (value : ν) : OrderedDict κ ν :=
  if key ∈ dict.keys then dict else dict.insert key value

def erase (dict : OrderedDict κ ν) (key : κ) : OrderedDict κ ν where
  entries := dict.entries.filter fun entry => entry.1 ≠ key
  distinct := (List.filter_sublist.map Prod.fst).nodup dict.distinct

/-- A change of the values leaves every key where it stands. -/
def mapValues {μ : Type} (dict : OrderedDict κ ν) (change : ν → μ) : OrderedDict κ μ where
  entries := dict.entries.map fun entry => (entry.1, change entry.2)
  distinct := by
    rw [List.map_map]
    exact dict.distinct

theorem lookup_cons_if (key : κ) (entry : κ × ν) (rest : List (κ × ν)) :
    (entry :: rest).lookup key = if key = entry.1 then some entry.2 else rest.lookup key := by
  cases entry with
  | mk first second =>
      by_cases same : key = first <;> simp [List.lookup_cons, same, beq_eq_false_iff_ne.mpr]

@[simp] theorem get?_empty (key : κ) : (empty : OrderedDict κ ν).get? key = none := rfl

theorem get?_eq_none (dict : OrderedDict κ ν) (key : κ) :
    dict.get? key = none ↔ key ∉ dict.keys := by
  simp only [get?, keys, List.lookup_eq_none_iff, List.mem_map, not_exists, not_and, bne_iff_ne, ne_eq]
  exact ⟨fun absent entry inside same => absent entry inside same.symm,
    fun absent entry inside same => absent entry inside same.symm⟩

theorem mem_keys_iff (dict : OrderedDict κ ν) (key : κ) :
    key ∈ dict.keys ↔ ∃ value, dict.get? key = some value := by
  rw [← Option.isSome_iff_exists, ← Option.ne_none_iff_isSome, Ne, get?_eq_none, not_not]

theorem mem_entries_iff (dict : OrderedDict κ ν) (key : κ) (value : ν) :
    (key, value) ∈ dict.entries ↔ dict.get? key = some value := by
  obtain ⟨entries, distinct⟩ := dict
  simp only [get?]
  induction entries with
  | nil => simp
  | cons entry rest ih =>
      have split := List.nodup_cons.mp distinct
      rw [lookup_cons_if, List.mem_cons, ih split.2]
      by_cases same : key = entry.1
      · have absent : rest.lookup key ≠ some value := fun found =>
          split.1 (same ▸ List.mem_map_of_mem (f := Prod.fst) ((ih split.2).mpr found))
        simp [same ▸ absent, same, Prod.ext_iff, eq_comm]
      · simp [same, Prod.ext_iff]

@[simp] theorem keys_modify (dict : OrderedDict κ ν) (key : κ) (change : ν → ν) :
    (dict.modify key change).keys = dict.keys := by
  simp only [keys, modify, List.map_map]
  apply List.map_congr_left
  intro entry _
  simp only [Function.comp]
  split <;> rfl

/-- A reordered dictionary has the same values. -/
theorem get?_perm {dict other : OrderedDict κ ν} (same : dict.entries.Perm other.entries) (key : κ) :
    other.get? key = dict.get? key := by
  apply Option.ext
  intro value
  rw [← mem_entries_iff, ← mem_entries_iff]
  exact same.symm.mem_iff

theorem get?_modify (dict : OrderedDict κ ν) (key query : κ) (change : ν → ν) :
    (dict.modify key change).get? query =
      if query = key then (dict.get? query).map change else dict.get? query := by
  simp only [get?, modify]
  induction dict.entries with
  | nil => simp
  | cons entry rest ih =>
      rw [List.map_cons, lookup_cons_if, lookup_cons_if, ih]
      by_cases changed : entry.1 = key <;> by_cases same : query = entry.1 <;> grind

theorem entries_insert_of_absent (dict : OrderedDict κ ν) (key : κ) (value : ν)
    (absent : key ∉ dict.keys) : (dict.insert key value).entries = dict.entries ++ [(key, value)] := by
  rw [insert, dif_neg absent]

theorem keys_insert_of_absent (dict : OrderedDict κ ν) (key : κ) (value : ν)
    (absent : key ∉ dict.keys) : (dict.insert key value).keys = dict.keys ++ [key] := by
  rw [insert, dif_neg absent]
  simp [keys]

theorem mem_keys_insert (dict : OrderedDict κ ν) (key query : κ) (value : ν) :
    query ∈ (dict.insert key value).keys ↔ query = key ∨ query ∈ dict.keys := by
  by_cases present : key ∈ dict.keys
  · rw [insert, dif_pos present, keys_modify]
    exact ⟨Or.inr, fun either => either.elim (fun same => same ▸ present) id⟩
  · rw [keys_insert_of_absent dict key value present, List.mem_append, List.mem_singleton, or_comm]

/-- Insertions under one key keep two dictionaries with the same keys alike. -/
theorem keys_insert_congr {μ : Type} {dict : OrderedDict κ ν} {other : OrderedDict κ μ} {key : κ} {value : ν}
    {otherValue : μ} (same : dict.keys = other.keys) :
    (dict.insert key value).keys = (other.insert key otherValue).keys := by
  by_cases present : key ∈ dict.keys
  · rw [insert, insert, dif_pos present, dif_pos (same ▸ present), keys_modify, keys_modify, same]
  · rw [keys_insert_of_absent _ _ _ present, keys_insert_of_absent _ _ _ (same ▸ present), same]

theorem get?_insert (dict : OrderedDict κ ν) (key query : κ) (value : ν) :
    (dict.insert key value).get? query =
      if query = key then some value else dict.get? query := by
  by_cases present : key ∈ dict.keys
  · obtain ⟨old, found⟩ := (mem_keys_iff dict key).mp present
    rw [insert, dif_pos present, get?_modify]
    by_cases same : query = key
    · simp [same, found]
    · simp [same]
  · have missing := (get?_eq_none dict key).mpr present
    rw [insert, dif_neg present, get?, List.lookup_append, lookup_cons_if]
    by_cases same : query = key
    · rw [get?] at missing
      simp [same, missing]
    · simp [same, get?]

/-- The last of several insertions under one key wins. -/
theorem get?_foldl_insert (entries : List (κ × ν)) (dict : OrderedDict κ ν) (key : κ) :
    (entries.foldl (fun table entry => table.insert entry.1 entry.2) dict).get? key =
      (entries.reverse.lookup key).or (dict.get? key) := by
  induction entries generalizing dict with
  | nil => simp
  | cons entry rest ih =>
      rw [List.foldl_cons, ih, List.reverse_cons, List.lookup_append, get?_insert, Option.or_assoc,
        lookup_cons_if]
      by_cases same : key = entry.1 <;> simp [same]

/-- Insertions under fresh and distinct keys append their entries. -/
theorem entries_foldl_insert {ι : Type} (key : ι → κ) (value : ι → ν) (items : List ι)
    (dict : OrderedDict κ ν) (distinct : (dict.keys ++ items.map key).Nodup) :
    (items.foldl (fun table item => table.insert (key item) (value item)) dict).entries =
      dict.entries ++ items.map fun item => (key item, value item) := by
  induction items generalizing dict with
  | nil => simp
  | cons item rest ih =>
      have fresh : key item ∉ dict.keys := by
        intro present
        exact (List.nodup_append.mp distinct).2.2 _ present _ (by simp) rfl
      have appended : (dict.insert (key item) (value item)).keys = dict.keys ++ [key item] :=
        keys_insert_of_absent dict _ _ fresh
      have next : ((dict.insert (key item) (value item)).keys ++ rest.map key).Nodup := by
        rw [appended, List.append_assoc]
        exact distinct
      have entries := entries_insert_of_absent dict (key item) (value item) fresh
      rw [List.foldl_cons, ih _ next, entries, List.append_assoc]
      rfl

/-- A dictionary made from distinct keys has one entry for each item. -/
theorem get?_ofItems {ι : Type} (key : ι → κ) (value : ι → ν) (items : List ι)
    (distinct : (items.map key).Nodup) (query : κ) (found : ν) :
    (items.foldl (fun table item => table.insert (key item) (value item)) empty).get? query =
      some found ↔ ∃ item ∈ items, key item = query ∧ value item = found := by
  have entries := entries_foldl_insert key value items empty distinct
  rw [← mem_entries_iff, entries]
  simp [empty]

theorem get?_setDefault (dict : OrderedDict κ ν) (key query : κ) (value : ν) :
    (dict.setDefault key value).get? query =
      if query = key then some ((dict.get? key).getD value) else dict.get? query := by
  by_cases present : key ∈ dict.keys
  · obtain ⟨old, found⟩ := (mem_keys_iff dict key).mp present
    rw [setDefault, if_pos present]
    by_cases same : query = key
    · simp [same, found]
    · simp [same]
  · have missing := (get?_eq_none dict key).mpr present
    rw [setDefault, if_neg present, get?_insert, missing]
    rfl

theorem get?_erase (dict : OrderedDict κ ν) (key query : κ) :
    (dict.erase key).get? query = if query = key then none else dict.get? query := by
  simp only [get?, erase]
  induction dict.entries with
  | nil => simp
  | cons entry rest ih =>
      rw [List.filter_cons]
      by_cases erased : entry.1 = key <;> by_cases same : query = entry.1 <;>
        grind [lookup_cons_if]

theorem keys_erase (dict : OrderedDict κ ν) (key : κ) :
    (dict.erase key).keys = dict.keys.filter fun other => other ≠ key := by
  simp only [keys, erase, List.filter_map]
  rfl

section MapValues

variable {μ : Type} (dict : OrderedDict κ ν) (change : ν → μ)

omit [DecidableEq κ] in
@[ext] theorem ext {first second : OrderedDict κ ν} (same : first.entries = second.entries) :
    first = second := by
  cases first
  cases second
  cases same
  rfl

/-- The insertion of the value that a key has changes nothing. -/
theorem insert_same (dict : OrderedDict κ ν) {key : κ} {value : ν} (found : dict.get? key = some value) :
    dict.insert key value = dict := by
  have present : key ∈ dict.keys := (mem_keys_iff dict key).mpr ⟨value, found⟩
  rw [insert, dif_pos present]
  apply ext
  conv_rhs => rw [← List.map_id dict.entries]
  apply List.map_congr_left
  rintro ⟨query, held⟩ inside
  dsimp only [id]
  split
  · rename_i same
    subst same
    rw [mem_entries_iff] at inside
    rw [Option.some.inj (inside.symm.trans found)]
  · rfl

omit [DecidableEq κ] in
@[simp] theorem keys_mapValues : (dict.mapValues change).keys = dict.keys := by
  simp only [keys, mapValues, List.map_map]
  rfl

theorem get?_mapValues (key : κ) : (dict.mapValues change).get? key = (dict.get? key).map change := by
  simp only [get?, mapValues]
  induction dict.entries with
  | nil => rfl
  | cons entry rest ih =>
      rw [List.map_cons, lookup_cons_if, lookup_cons_if, ih]
      split <;> rfl

/-- A modification goes along with a change of the values that agrees with it. -/
theorem mapValues_modify (key : κ) (first : ν → ν) (second : μ → μ)
    (agree : ∀ value, change (first value) = second (change value)) :
    (dict.modify key first).mapValues change = (dict.mapValues change).modify key second := by
  apply ext
  simp only [mapValues, modify, List.map_map]
  apply List.map_congr_left
  intro entry _
  simp only [Function.comp]
  split
  · rw [agree]
  · rfl

theorem mapValues_insert (key : κ) (value : ν) :
    (dict.insert key value).mapValues change = (dict.mapValues change).insert key (change value) := by
  by_cases present : key ∈ dict.keys
  · have known : key ∈ (dict.mapValues change).keys := by rwa [keys_mapValues]
    rw [insert, insert, dif_pos present, dif_pos known]
    exact mapValues_modify dict change key _ _ fun _ => rfl
  · have unknown : key ∉ (dict.mapValues change).keys := by rwa [keys_mapValues]
    rw [insert, insert, dif_neg present, dif_neg unknown]
    apply ext
    simp [mapValues]

theorem mapValues_erase (key : κ) :
    (dict.erase key).mapValues change = (dict.mapValues change).erase key := by
  apply ext
  simp only [mapValues, erase, List.filter_map]
  rfl

end MapValues

end OrderedDict

end MisraPlatform
