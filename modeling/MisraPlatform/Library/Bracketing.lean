import Mathlib.Data.List.Count
import Mathlib.Data.List.Infix
import Mathlib.Data.List.Perm.Basic

/-
This file is the bracketing of a sequence, which a counter of the open groups decides.
-/

namespace MisraPlatform

/-- An item opens a group, continues or closes the innermost one, or has no part in the groups. -/
inductive Bracket where
  | opens
  | within
  | closes
  | other
  deriving DecidableEq

namespace Bracket

/-- Every item that continues or closes a group has an open one, and no group stays open. -/
structure WellBracketed (items : List Bracket) : Prop where
  opened : ∀ before item behind, items = before ++ item :: behind → item = within ∨ item = closes →
    before.count closes < before.count opens
  closed : items.count opens = items.count closes

/-- The number of the open groups behind the items, given that in front of them. -/
def depth : Nat → List Bracket → Option Nat
  | level, [] => some level
  | level, opens :: rest => depth (level + 1) rest
  | level, other :: rest => depth level rest
  | 0, within :: _ => none
  | 0, closes :: _ => none
  | level + 1, within :: rest => depth (level + 1) rest
  | level + 1, closes :: rest => depth level rest

variable {items inner rest : List Bracket} {level : Nat}

/-- A level above that of a prefix stands for the items before the sequence. -/
def Opened (level : Nat) (items : List Bracket) : Prop :=
  ∀ before item behind, items = before ++ item :: behind → item = within ∨ item = closes →
    before.count closes < level + before.count opens

theorem opened_nil (level : Nat) : Opened level [] := by
  intro before item behind split
  cases before <;> cases split

/-- The first item needs an open group, and the others count it. -/
theorem opened_cons (item : Bracket) (next : Nat) (held : item = within ∨ item = closes → 0 < level)
    (counted : next + [item].count closes = level + [item].count opens) :
    Opened level (item :: rest) ↔ Opened next rest := by
  have moved (before : List Bracket) : (item :: before).count closes < level + (item :: before).count opens ↔
      before.count closes < next + before.count opens := by
    rw [← List.singleton_append, List.count_append, List.count_append]
    omega
  constructor
  · intro opened before middle behind split kind
    apply (moved before).mp
    exact opened (item :: before) middle behind (by rw [split, List.cons_append]) kind
  · intro opened before middle behind split kind
    cases before with
    | nil =>
        obtain ⟨rfl, rfl⟩ := List.cons.inj split
        simpa using held kind
    | cons head before =>
        obtain ⟨rfl, tail⟩ := List.cons.inj split
        exact (moved before).mpr (opened before middle behind tail kind)

theorem not_opened_zero {item : Bracket} (kind : item = within ∨ item = closes) : ¬ Opened 0 (item :: rest) := by
  intro opened
  exact absurd (opened [] item rest rfl kind) (by simp)

/-- The counter ends at a level if it never closes a group that is not open, and then the level is the surplus. -/
theorem depth_eq_some {final : Nat} : depth level items = some final ↔
    Opened level items ∧ level + items.count opens = final + items.count closes := by
  induction items generalizing level with
  | nil => simp [depth, opened_nil]
  | cons item rest ih =>
      cases item with
      | opens =>
          rw [depth, ih, opened_cons opens (level + 1) (by simp) (by simp)]
          refine and_congr_right fun _ => ?_
          simp
          omega
      | other =>
          rw [depth, ih, opened_cons other level (by simp) (by simp)]
          simp
      | within =>
          cases level with
          | zero => simp [depth, not_opened_zero]
          | succ level =>
              rw [depth, ih, opened_cons within (level + 1) (by simp) (by simp)]
              simp
      | closes =>
          cases level with
          | zero => simp [depth, not_opened_zero]
          | succ level =>
              rw [depth, ih, opened_cons closes level (by simp) (by simp)]
              refine and_congr_right fun _ => ?_
              simp
              omega

theorem wellBracketed_iff : WellBracketed items ↔ depth 0 items = some 0 := by
  rw [depth_eq_some, Nat.zero_add, Nat.zero_add]
  constructor
  · intro well
    refine ⟨fun before item behind split kind => ?_, well.closed⟩
    rw [Nat.zero_add]
    exact well.opened before item behind split kind
  · rintro ⟨opened, closed⟩
    refine ⟨fun before item behind split kind => ?_, closed⟩
    simpa using opened before item behind split kind

instance (items : List Bracket) : Decidable (WellBracketed items) :=
  decidable_of_iff _ wellBracketed_iff.symm

/-- A group that ends before it begins is not one. -/
example : ¬ WellBracketed [closes, opens] ∧ WellBracketed [opens, within, opens, closes, closes] := by decide

/-- No prefix closes more groups than it opens. -/
theorem WellBracketed.count_le {before behind : List Bracket} (well : WellBracketed (before ++ behind)) :
    before.count closes ≤ before.count opens := by
  induction before using List.reverseRecOn generalizing behind with
  | nil => exact Nat.le_refl 0
  | append_singleton before item ih =>
      rw [List.append_assoc, List.singleton_append] at well
      have earlier := ih well
      have strict := well.opened before item behind rfl
      rw [List.count_append, List.count_append]
      cases item with
      | closes =>
          have left := strict (.inr rfl)
          simp
          omega
      | opens | within | other =>
          simp
          omega

section Parts

variable {α κ : Type} [DecidableEq κ] (key : α → κ) (bracket : α → Bracket)

/-- Without the items of one part the others are as before. -/
theorem part_of_others (items : List α) (left part : κ) :
    ((items.filter fun item => key item ≠ left).filter fun item => key item = part) =
      if part = left then [] else items.filter fun item => key item = part := by
  rw [List.filter_filter]
  split
  · rename_i same
    rw [List.filter_eq_nil_iff]
    simp [same]
  · rename_i different
    apply List.filter_congr
    intro item _
    by_cases placed : key item = part
    · simp [placed, different]
    · simp [placed]

/-- Interleaved sequences that are well bracketed open as many groups as they close. -/
theorem count_eq_of_parts (items : List α)
    (well : ∀ part, WellBracketed ((items.filter fun item => key item = part).map bracket)) :
    (items.map bracket).count opens = (items.map bracket).count closes := by
  induction length : items.length using Nat.strongRecOn generalizing items with
  | _ bound ih =>
      cases items with
      | nil => rfl
      | cons head tail =>
          let others := (head :: tail).filter fun item => key item ≠ key head
          have shorter : others.length < bound := by
            have dropped : others = tail.filter fun item => key item ≠ key head := by simp [others]
            rw [dropped, ← length, List.length_cons]
            exact Nat.lt_succ_of_le (List.length_filter_le _ _)
          have wellOthers (part : κ) :
              WellBracketed ((others.filter fun item => key item = part).map bracket) := by
            rw [part_of_others]
            split
            · exact wellBracketed_iff.mpr rfl
            · exact well part
          have both (item : Bracket) : ((head :: tail).map bracket).count item =
              (((head :: tail).filter fun item => key item = key head).map bracket).count item +
                (others.map bracket).count item := by
            rw [← List.count_append, ← List.map_append]
            apply List.Perm.count_eq
            apply List.Perm.map
            simpa [others] using (List.filter_append_perm (fun item => decide (key item = key head)) _).symm
          rw [both, both, ih others.length shorter others wellOthers rfl, (well (key head)).closed]

end Parts

/-- The first item opens the group that the last one closes. -/
def Enclosed (items : List Bracket) : Prop :=
  ∃ inner, items = opens :: (inner ++ [closes]) ∧ WellBracketed inner

/-- Every part of an enclosed sequence that ends earlier leaves the group open. -/
theorem Enclosed.held {before behind : List Bracket} (enclosed : Enclosed (before ++ behind))
    (nonempty : before ≠ []) (proper : behind ≠ []) : before.count closes < before.count opens := by
  obtain ⟨inner, split, well⟩ := enclosed
  obtain ⟨head, front, rfl⟩ := List.exists_cons_of_ne_nil nonempty
  obtain ⟨rest, last, rfl⟩ := (List.eq_nil_or_concat' behind).resolve_left proper
  rw [List.cons_append, ← List.append_assoc] at split
  obtain ⟨rfl, tail⟩ := List.cons.inj split
  obtain ⟨rfl, _⟩ := List.append_inj' tail rfl
  have le := well.count_le
  simp
  omega

/-- The group of the first item ends before the last one. -/
theorem not_enclosed_of_rest (well : WellBracketed inner) (proper : rest ≠ []) :
    ¬ Enclosed (opens :: (inner ++ closes :: rest)) := by
  intro enclosed
  have whole : opens :: (inner ++ closes :: rest) = (opens :: (inner ++ [closes])) ++ rest := by simp
  rw [whole] at enclosed
  have held := enclosed.held (List.cons_ne_nil _ _) proper
  have closed := well.closed
  simp at held
  omega

end Bracket

end MisraPlatform
