import Mathlib.Data.List.Basic
import Mathlib.Data.List.Induction
import Mathlib.Data.List.Nodup
import MisraPlatform.Library.OrderedDict

/-
This file is the filter that keeps the first item of each key, and the filter that keeps the others.
-/

namespace MisraPlatform

/-- Results that know their items stand in the order of the items. -/
theorem map_filterMap_sublist {α β : Type} {result : α → Option β} {item : β → α}
    (known : ∀ source found, result source = some found → item found = source) (items : List α) :
    ((items.filterMap result).map item).Sublist items := by
  induction items with
  | nil => exact List.Sublist.refl _
  | cons source rest ih =>
      rw [List.filterMap_cons]
      split
      · exact ih.cons source
      · rename_i found same
        rw [List.map_cons, known source found same]
        exact ih.cons_cons source

variable {α κ : Type} [DecidableEq κ] (key : α → κ)

/-- The keys seen so far are those of the items before. -/
def keepFirst : List κ → List α → List α
  | _, [] => []
  | seen, item :: rest =>
      if key item ∈ seen then keepFirst seen rest else item :: keepFirst (key item :: seen) rest

variable {key}

/-- Only the keys of the items matter among those seen. -/
theorem keepFirst_congr {seen other : List κ} {items : List α}
    (same : ∀ item ∈ items, key item ∈ seen ↔ key item ∈ other) :
    keepFirst key seen items = keepFirst key other items := by
  induction items generalizing seen other with
  | nil => rfl
  | cons item rest ih =>
      have here := same item (by simp)
      have later : ∀ next ∈ rest, key next ∈ seen ↔ key next ∈ other :=
        fun next inside => same next (List.mem_cons_of_mem _ inside)
      rw [keepFirst, keepFirst]
      by_cases known : key item ∈ seen
      · rw [if_pos known, if_pos (here.mp known), ih later]
      · rw [if_neg known, if_neg (here.not.mp known)]
        congr 1
        apply ih
        intro next inside
        rw [List.mem_cons, List.mem_cons, later next inside]

theorem keepFirst_sublist (seen : List κ) (items : List α) : (keepFirst key seen items).Sublist items := by
  induction items generalizing seen with
  | nil => exact List.Sublist.refl _
  | cons item rest ih =>
      rw [keepFirst]
      split
      · exact (ih seen).cons item
      · exact (ih _).cons_cons item

/-- A kept key has not been seen. -/
theorem keepFirst_fresh (seen : List κ) (items : List α) :
    ∀ item ∈ keepFirst key seen items, key item ∉ seen := by
  induction items generalizing seen with
  | nil => simp [keepFirst]
  | cons item rest ih =>
      intro next inside
      rw [keepFirst] at inside
      split at inside
      · exact ih seen next inside
      · rename_i fresh
        cases List.mem_cons.mp inside with
        | inl same => exact same ▸ fresh
        | inr later => exact fun known => ih _ next later (List.mem_cons_of_mem _ known)

theorem keepFirst_nodup (seen : List κ) (items : List α) : ((keepFirst key seen items).map key).Nodup := by
  induction items generalizing seen with
  | nil => exact List.nodup_nil
  | cons item rest ih =>
      rw [keepFirst]
      split
      · exact ih seen
      · rw [List.map_cons, List.nodup_cons]
        constructor
        · intro again
          obtain ⟨other, inside, same⟩ := List.mem_map.mp again
          exact keepFirst_fresh _ _ other inside (by simp [same])
        · exact ih _

theorem keepFirst_append (seen : List κ) (items others : List α) :
    keepFirst key seen (items ++ others) =
      keepFirst key seen items ++ keepFirst key (items.map key ++ seen) others := by
  induction items generalizing seen with
  | nil => rfl
  | cons item rest ih =>
      rw [List.cons_append, keepFirst, keepFirst]
      by_cases known : key item ∈ seen
      · rw [if_pos known, if_pos known, ih]
        congr 1
        apply keepFirst_congr
        intro next _
        simp only [List.map_cons, List.cons_append, List.mem_cons, List.mem_append]
        constructor
        · exact .inr
        · intro either
          exact either.elim (fun same => .inr (same ▸ known)) id
      · rw [if_neg known, if_neg known, ih, List.cons_append]
        congr 2
        apply keepFirst_congr
        intro next _
        simp only [List.map_cons, List.cons_append, List.mem_cons, List.mem_append]
        tauto

/-- Blocks that share no key are filtered one by one. -/
theorem keepFirst_flatMap {ι : Type} (blocks : List ι) (items : ι → List α)
    (apart : blocks.Pairwise fun first second =>
      ∀ item ∈ items first, ∀ other ∈ items second, key item ≠ key other) :
    keepFirst key [] (blocks.flatMap items) = blocks.flatMap fun block => keepFirst key [] (items block) := by
  induction blocks with
  | nil => rfl
  | cons block rest ih =>
      obtain ⟨here, later⟩ := List.pairwise_cons.mp apart
      rw [List.flatMap_cons, List.flatMap_cons, keepFirst_append, ← ih later]
      congr 1
      apply keepFirst_congr
      intro other inside
      obtain ⟨second, member, found⟩ := List.mem_flatMap.mp inside
      simp only [List.append_nil, List.mem_map, List.not_mem_nil, iff_false, not_exists, not_and]
      intro item inBlock
      exact here second member item inBlock other found

/-- Every key of a list is the key of an item that is kept. -/
theorem exists_keepFirst {items : List α} {item : α}
    (inside : item ∈ items) : ∃ kept ∈ keepFirst key [] items, key kept = key item := by
  have general : ∀ seen : List κ, key item ∈ seen ∨ ∃ kept ∈ keepFirst key seen items, key kept = key item := by
    induction items with
    | nil => cases inside
    | cons first rest ih =>
        intro seen
        rw [keepFirst]
        by_cases known : key first ∈ seen
        · rw [if_pos known]
          cases List.mem_cons.mp inside with
          | inl same => exact .inl (same ▸ known)
          | inr later => exact ih later seen
        · rw [if_neg known]
          cases List.mem_cons.mp inside with
          | inl same => exact .inr ⟨first, by simp, by rw [same]⟩
          | inr later =>
              cases ih later (key first :: seen) with
              | inl before =>
                  cases List.mem_cons.mp before with
                  | inl same => exact .inr ⟨first, by simp, same.symm⟩
                  | inr earlier => exact .inl earlier
              | inr found =>
                  obtain ⟨kept, member, same⟩ := found
                  exact .inr ⟨kept, List.mem_cons_of_mem _ member, same⟩
  exact (general []).resolve_left (by simp)

/-- Two items have kept items of their own when their keys differ. -/
theorem keepFirst_separates {items : List α} {first second : α}
    (here : first ∈ items) (there : second ∈ items) :
    (∃ kept ∈ keepFirst key [] items, ∃ other ∈ keepFirst key [] items,
      kept ≠ other ∧ key kept = key first ∧ key other = key second) ↔ key first ≠ key second := by
  constructor
  · rintro ⟨kept, keptInside, other, otherInside, different, keptKey, otherKey⟩ same
    apply different
    exact List.inj_on_of_nodup_map (keepFirst_nodup [] items) keptInside otherInside
      (keptKey.trans (same.trans otherKey.symm))
  · intro different
    obtain ⟨kept, keptInside, keptKey⟩ := @exists_keepFirst _ _ _ key _ _ here
    obtain ⟨other, otherInside, otherKey⟩ := @exists_keepFirst _ _ _ key _ _ there
    refine ⟨kept, keptInside, other, otherInside, ?_, keptKey, otherKey⟩
    intro same
    exact different (keptKey.symm.trans ((congrArg key same).trans otherKey))

section Keys

variable {ι : Type} [DecidableEq ι] {finer : α → ι}

/-- Keys that tell the same items apart keep the same ones. -/
theorem keepFirst_congr_key {before items : List α}
    (same : ∀ first ∈ before ++ items, ∀ second ∈ before ++ items,
      key first = key second ↔ finer first = finer second) :
    keepFirst key (before.map key) items = keepFirst finer (before.map finer) items := by
  induction items generalizing before with
  | nil => rfl
  | cons item rest ih =>
      have inside : item ∈ before ++ item :: rest := List.mem_append_right _ List.mem_cons_self
      have known : key item ∈ before.map key ↔ finer item ∈ before.map finer := by
        rw [List.mem_map, List.mem_map]
        exact exists_congr fun other => and_congr_right fun listed =>
          same other (List.mem_append_left _ listed) item inside
      have later : keepFirst key (before.map key) rest = keepFirst finer (before.map finer) rest :=
        ih fun first listed second present => same first (by
          rw [List.mem_append] at listed ⊢
          exact listed.imp_right (List.mem_cons_of_mem _)) second (by
          rw [List.mem_append] at present ⊢
          exact present.imp_right (List.mem_cons_of_mem _))
      have added :
          keepFirst key ((item :: before).map key) rest = keepFirst finer ((item :: before).map finer) rest := by
        refine ih fun first listed second present => same first ?_ second ?_
        · rw [List.cons_append, List.mem_cons, List.mem_append] at listed
          rw [List.mem_append, List.mem_cons]
          tauto
        · rw [List.cons_append, List.mem_cons, List.mem_append] at present
          rw [List.mem_append, List.mem_cons]
          tauto
      rw [keepFirst, keepFirst]
      by_cases seen : key item ∈ before.map key
      · rw [if_pos seen, if_pos (known.mp seen), later]
      · rw [if_neg seen, if_neg (known.not.mp seen)]
        exact congrArg (List.cons item) added

/-- A coarser key keeps the same items exactly if it tells all of them apart that the finer key does. -/
theorem keepFirst_eq_iff {items : List α}
    (coarser : ∀ first ∈ items, ∀ second ∈ items, finer first = finer second → key first = key second) :
    keepFirst key [] items = keepFirst finer [] items ↔
      ∀ first ∈ items, ∀ second ∈ items, key first = key second → finer first = finer second := by
  constructor
  · intro same first here second there agree
    by_contra different
    obtain ⟨kept, keptInside, other, otherInside, apart, keptFiner, otherFiner⟩ :=
      (keepFirst_separates here there).mpr different
    have keptItem := (keepFirst_sublist [] items).subset keptInside
    have otherItem := (keepFirst_sublist [] items).subset otherInside
    rw [← same] at keptInside otherInside
    apply apart
    exact List.inj_on_of_nodup_map (keepFirst_nodup [] items) keptInside otherInside
      ((coarser kept keptItem first here keptFiner).trans
        (agree.trans (coarser other otherItem second there otherFiner).symm))
  · intro apart
    exact @keepFirst_congr_key _ _ _ key _ _ finer [] items fun first here second there =>
      ⟨apart first here second there, coarser first here second there⟩

end Keys

section Defaults

/-- No item before a kept one has its key. -/
theorem split_of_keepFirst {seen : List κ} {items : List α} {item : α} (kept : item ∈ keepFirst key seen items) :
    ∃ before after, items = before ++ item :: after ∧ ∀ earlier ∈ before, key earlier ≠ key item := by
  induction items generalizing seen with
  | nil => cases kept
  | cons first rest ih =>
      have fresh := keepFirst_fresh seen (first :: rest) item kept
      rw [keepFirst] at kept
      by_cases same : item = first
      · exact ⟨[], rest, by rw [same]; rfl, fun _ inside => (List.not_mem_nil inside).elim⟩
      · have later : ∃ seen, item ∈ keepFirst key seen rest ∧ key first ≠ key item := by
          split at kept
          · rename_i known
            exact ⟨seen, kept, fun equal => fresh (equal ▸ known)⟩
          · have inside := (List.mem_cons.mp kept).resolve_left same
            exact ⟨_, inside, fun equal => keepFirst_fresh _ _ item inside (equal ▸ List.mem_cons_self)⟩
        obtain ⟨_, inside, apart⟩ := later
        obtain ⟨before, after, split, earlier⟩ := ih inside
        refine ⟨first :: before, after, by rw [split]; rfl, fun other listed => ?_⟩
        cases List.mem_cons.mp listed with
        | inl here => exact here ▸ apart
        | inr there => exact earlier other there

/-- A dictionary of defaults has the first item of each key. -/
theorem entries_foldl_setDefault {ν : Type} (value : α → ν) (items : List α) :
    (items.foldl (fun dict item => dict.setDefault (key item) (value item)) OrderedDict.empty).entries =
      (keepFirst key [] items).map fun item => (key item, value item) := by
  induction items using List.reverseRecOn with
  | nil => rfl
  | append_singleton before last ih =>
      have known : key last ∈ (before.foldl (fun dict item => dict.setDefault (key item) (value item))
          OrderedDict.empty).keys ↔ key last ∈ before.map key ++ [] := by
        rw [OrderedDict.keys, ih, List.map_map, List.append_nil]
        constructor
        · exact fun inside => ((keepFirst_sublist [] before).map key).subset inside
        · intro inside
          obtain ⟨item, listed, same⟩ := List.mem_map.mp inside
          obtain ⟨kept, inside, own⟩ := @exists_keepFirst _ _ _ key _ _ listed
          exact List.mem_map.mpr ⟨kept, inside, own.trans same⟩
      rw [List.foldl_append, keepFirst_append, List.map_append, ← ih]
      change (OrderedDict.setDefault _ _ _).entries = _
      rw [OrderedDict.setDefault, keepFirst, keepFirst]
      by_cases old : key last ∈ before.map key ++ []
      · rw [if_pos (known.mpr old), if_pos old]
        exact (List.append_nil _).symm
      · rw [if_neg (known.not.mpr old), if_neg old]
        exact OrderedDict.entries_insert_of_absent _ _ _ (known.not.mpr old)

end Defaults

section Repeats

/-- An item stays if its key has been seen. -/
def keepRepeats (key : α → κ) : List κ → List α → List α
  | _, [] => []
  | seen, item :: rest =>
      if key item ∈ seen then item :: keepRepeats key seen rest else keepRepeats key (key item :: seen) rest

/-- The items whose key an earlier item of the list has. -/
def laterRepeats (key : α → κ) (items : List α) : List α :=
  (items.zipIdx.filter fun entry => key entry.1 ∈ (items.take entry.2).map key).map Prod.fst

/-- The seen keys are those of the items before. -/
theorem keepRepeats_from (before rest : List α) {seen : List κ} (same : ∀ found, found ∈ seen ↔ found ∈ before.map key) :
    keepRepeats key seen rest = ((rest.zipIdx before.length).filter fun entry =>
      key entry.1 ∈ ((before ++ rest).take entry.2).map key).map Prod.fst := by
  induction rest generalizing before seen with
  | nil => rfl
  | cons item rest ih =>
      have split : before ++ item :: rest = (before ++ [item]) ++ rest := by simp
      have here : (before ++ item :: rest).take before.length = before := List.take_left
      have length : (before ++ [item]).length = before.length + 1 := by simp
      rw [keepRepeats, List.zipIdx_cons, List.filter_cons]
      simp only [here, ← same, decide_eq_true_eq]
      by_cases known : key item ∈ seen
      · rw [if_pos known, if_pos known, List.map_cons, split, ← length]
        congr 1
        apply ih
        intro found
        rw [same, List.map_append, List.mem_append, List.map_singleton, List.mem_singleton]
        constructor
        · exact .inl
        · rintro (old | rfl)
          · exact old
          · exact (same _).mp known
      · rw [if_neg known, if_neg known, split, ← length]
        apply ih
        intro found
        rw [List.mem_cons, same, List.map_append, List.mem_append, List.map_singleton, List.mem_singleton]
        exact or_comm

theorem keepRepeats_eq (items : List α) : keepRepeats key [] items = laterRepeats key items :=
  keepRepeats_from [] items (by simp)

end Repeats

end MisraPlatform
