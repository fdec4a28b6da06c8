import Mathlib.Data.List.Basic

/-
This file is filters whose test depends on the items that came before.
-/

namespace MisraPlatform

section StatefulFilter

variable {α β γ σ τ : Type}

/-- Every item is tested with the state before it and moves the state on. -/
def statefulFilter (step : σ → α → σ) (keep : σ → α → Bool) : σ → List α → List α
  | _, [] => []
  | state, item :: rest =>
      if keep state item = true then item :: statefulFilter step keep (step state item) rest
      else statefulFilter step keep (step state item) rest

variable {step : σ → α → σ} {keep : σ → α → Bool}
variable {otherStep : τ → α → τ} {otherKeep : τ → α → Bool}

theorem statefulFilter_sublist (state : σ) (list : List α) :
    (statefulFilter step keep state list).Sublist list := by
  induction list generalizing state with
  | nil => exact List.Sublist.slnil
  | cons item rest ih =>
      unfold statefulFilter
      split
      · exact (ih _).cons_cons item
      · exact (ih _).cons item

/-- An item stays when it passes the test at one of its places. -/
theorem mem_statefulFilter {state : σ} {list : List α} {item : α} :
    item ∈ statefulFilter step keep state list ↔
      ∃ before after, list = before ++ item :: after ∧ keep (before.foldl step state) item = true := by
  induction list generalizing state with
  | nil => simp [statefulFilter]
  | cons first rest ih =>
      have tail : item ∈ statefulFilter step keep (step state first) rest ↔
          ∃ before after, first :: rest = (first :: before) ++ item :: after ∧
            keep ((first :: before).foldl step state) item = true := by
        rw [ih]
        simp
      constructor
      · intro inside
        by_cases kept : item = first ∧ keep state first = true
        · obtain ⟨rfl, kept⟩ := kept
          exact ⟨[], rest, rfl, kept⟩
        · have later : item ∈ statefulFilter step keep (step state first) rest := by
            unfold statefulFilter at inside
            split at inside
            · rename_i passes
              exact (List.mem_cons.mp inside).resolve_left fun same => kept ⟨same, passes⟩
            · exact inside
          obtain ⟨before, after, split, passes⟩ := tail.mp later
          exact ⟨first :: before, after, split, passes⟩
      · rintro ⟨before, after, split, passes⟩
        unfold statefulFilter
        cases before with
        | nil =>
            obtain ⟨rfl, rfl⟩ := List.cons.inj split
            rw [if_pos (show keep state first = true from passes)]
            exact List.mem_cons_self
        | cons other before =>
            obtain ⟨rfl, same⟩ := List.cons.inj split
            have later := tail.mpr ⟨before, after, split, passes⟩
            split_ifs
            · exact List.mem_cons_of_mem _ later
            · exact later

/-- Items that are changed before the filter may as well be changed after it. -/
theorem statefulFilter_map (step : σ → β → σ) (keep : σ → β → Bool) (change : α → β) (state : σ)
    (list : List α) : statefulFilter step keep state (list.map change) =
      (statefulFilter (fun state item => step state (change item))
        (fun state item => keep state (change item)) state list).map change := by
  induction list generalizing state with
  | nil => rfl
  | cons item rest ih =>
      rw [List.map_cons, statefulFilter, statefulFilter, ih]
      split
      · rw [List.map_cons]
      · rfl

/-- Two filters give the same images exactly when their tests agree at every place. -/
theorem map_statefulFilter_eq_iff {change : α → γ} {list : List α} (distinct : (list.map change).Nodup)
    (state : σ) (otherState : τ) :
    (statefulFilter step keep state list).map change =
        (statefulFilter otherStep otherKeep otherState list).map change ↔
      ∀ before item after, list = before ++ item :: after →
        keep (before.foldl step state) item = otherKeep (before.foldl otherStep otherState) item := by
  induction list generalizing state otherState with
  | nil => simp [statefulFilter]
  | cons first rest ih =>
      obtain ⟨fresh, distinct⟩ := List.nodup_cons.mp distinct
      -- The places of the list are its head and the places of the rest.
      have places : (∀ before item after, first :: rest = before ++ item :: after →
          keep (before.foldl step state) item = otherKeep (before.foldl otherStep otherState) item) ↔
            keep state first = otherKeep otherState first ∧
              ∀ before item after, rest = before ++ item :: after →
                keep (before.foldl step (step state first)) item =
                  otherKeep (before.foldl otherStep (otherStep otherState first)) item := by
        constructor
        · exact fun agree => ⟨agree [] first rest rfl,
            fun before item after split => agree (first :: before) item after (split ▸ rfl)⟩
        · rintro ⟨head, tail⟩ before item after split
          cases before with
          | nil =>
              cases split
              exact head
          | cons other before =>
              cases split
              exact tail before item after rfl
      have absent : ∀ {ρ : Type} {move : ρ → α → ρ} {test : ρ → α → Bool} (start : ρ) (images : List γ),
          change first :: images ≠ (statefulFilter move test start rest).map change := by
        intro ρ move test start images same
        have inside : change first ∈ (statefulFilter move test start rest).map change :=
          same ▸ List.mem_cons_self
        exact fresh (((statefulFilter_sublist start rest).map change).subset inside)
      rw [places, ← ih distinct, statefulFilter, statefulFilter]
      cases keep state first <;> cases otherKeep otherState first
      · simp
      · simpa using fun same => absent _ _ same.symm
      · simpa using fun same => absent _ _ same
      · simp

end StatefulFilter
end MisraPlatform
