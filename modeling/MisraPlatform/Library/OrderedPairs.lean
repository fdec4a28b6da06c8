import Mathlib.Data.List.Nodup

/-
This file is the pairs of the items of a list in the order of the list.
-/

namespace MisraPlatform

/-- Every item is paired with each one after it. -/
def orderedPairs {α : Type} : List α → List (α × α)
  | [] => []
  | first :: rest => rest.map (fun second => (first, second)) ++ orderedPairs rest

variable {α : Type}

theorem mem_orderedPairs {items : List α} {pair : α × α} :
    pair ∈ orderedPairs items ↔ [pair.1, pair.2].Sublist items := by
  induction items with
  | nil => simp [orderedPairs]
  | cons first rest ih =>
      obtain ⟨left, right⟩ := pair
      rw [orderedPairs, List.mem_append, List.mem_map, ih]
      constructor
      · rintro (⟨second, inside, same⟩ | later)
        · obtain ⟨rfl, rfl⟩ := Prod.mk.inj same
          exact (List.singleton_sublist.mpr inside).cons_cons first
        · exact later.cons first
      · intro sublist
        cases sublist with
        | cons _ later => exact .inr later
        | cons_cons _ inside => exact .inl ⟨right, List.singleton_sublist.mp inside, rfl⟩

/-- Two items of a list stand in one order or the other. -/
theorem sublist_or_swap {items : List α} {first second : α} (here : first ∈ items) (there : second ∈ items)
    (different : first ≠ second) : [first, second].Sublist items ∨ [second, first].Sublist items := by
  induction items with
  | nil => cases here
  | cons item rest ih =>
      rcases List.mem_cons.mp here with rfl | firstLater
      · left
        exact (List.singleton_sublist.mpr ((List.mem_cons.mp there).resolve_left different.symm)).cons_cons first
      · rcases List.mem_cons.mp there with rfl | secondLater
        · right
          exact (List.singleton_sublist.mpr firstLater).cons_cons second
        · exact (ih firstLater secondLater).imp (.cons item) (.cons item)

/-- In a list in the order of a strict relation every item is paired with those that it is related to. -/
theorem mem_orderedPairs_of_pairwise {r : α → α → Prop}
    (asymmetric : ∀ {first second}, r first second → ¬ r second first)
    {items : List α} (ordered : items.Pairwise r) {first second : α} :
    (first, second) ∈ orderedPairs items ↔ first ∈ items ∧ second ∈ items ∧ r first second := by
  rw [mem_orderedPairs]
  constructor
  · intro sublist
    have order := ordered.sublist sublist
    exact ⟨sublist.subset (by simp), sublist.subset (by simp), by simpa using order⟩
  · rintro ⟨here, there, related⟩
    have different : first ≠ second := fun same => asymmetric (same ▸ related) (same ▸ related)
    rcases sublist_or_swap here there different with forward | backward
    · exact forward
    · have order := ordered.sublist backward
      exact absurd (by simpa using order) (asymmetric related)

/-- Different items have different pairs. -/
theorem orderedPairs_nodup {items : List α} (distinct : items.Nodup) : (orderedPairs items).Nodup := by
  induction items with
  | nil => exact List.nodup_nil
  | cons first rest ih =>
      obtain ⟨fresh, later⟩ := List.nodup_cons.mp distinct
      refine List.Nodup.append (later.map fun left right same => (Prod.mk.inj same).2) (ih later) ?_
      rintro pair here there
      obtain ⟨second, _, rfl⟩ := List.mem_map.mp here
      exact fresh ((mem_orderedPairs.mp there).subset List.mem_cons_self)

/-- One of two different items stands first. -/
theorem swap_not_mem_orderedPairs {items : List α} (distinct : items.Nodup) {first second : α}
    (inside : (first, second) ∈ orderedPairs items) : (second, first) ∉ orderedPairs items := by
  rw [mem_orderedPairs] at inside ⊢
  induction items with
  | nil => cases inside
  | cons item rest ih =>
      obtain ⟨fresh, later⟩ := List.nodup_cons.mp distinct
      intro swapped
      cases inside with
      | cons _ inside =>
          cases swapped with
          | cons _ swapped => exact ih later inside swapped
          | cons_cons _ _ => exact fresh (inside.subset (by simp))
      | cons_cons _ inside =>
          cases swapped with
          | cons _ swapped => exact fresh (swapped.subset (by simp))
          | cons_cons _ _ => exact fresh (inside.subset (by simp))

end MisraPlatform
