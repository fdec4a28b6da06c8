import Mathlib.Data.List.Basic
import Mathlib.Data.List.Induction
import Mathlib.Logic.Relation
import Mathlib.Order.Bounds.Basic
import Mathlib.Order.WellFounded

/-
This file is the least assignment of levels over a relation of dependencies, and the lists in which the items
stand behind what they depend on.
-/

namespace MisraPlatform

variable {κ : Type} (depends : κ → κ → Prop) (base level : κ → Nat)

/-- A level is the least number from the base on that exceeds the level of each dependency. -/
def IsLeveling : Prop :=
  ∀ node, IsLeast {number | base node ≤ number ∧ ∀ dependency, depends node dependency →
    level dependency < number} (level node)

namespace IsLeveling

variable {depends base level}

theorem base_le (leveled : IsLeveling depends base level) (node : κ) : base node ≤ level node :=
  (leveled node).1.1

theorem lt (leveled : IsLeveling depends base level) {node dependency : κ}
    (edge : depends node dependency) : level dependency < level node :=
  (leveled node).1.2 dependency edge

theorem lt_of_path (leveled : IsLeveling depends base level) {node dependency : κ}
    (path : Relation.TransGen depends node dependency) : level dependency < level node := by
  induction path with
  | single edge => exact leveled.lt edge
  | tail _ edge ih => exact (leveled.lt edge).trans ih

/-- A relation with levels has no cycle. -/
theorem acyclic (leveled : IsLeveling depends base level) (node : κ) :
    ¬ Relation.TransGen depends node node := by
  intro path
  exact (leveled.lt_of_path path).false

/-- Levels are below every assignment that keeps the two bounds. -/
theorem le_of_bounds (leveled : IsLeveling depends base level) (other : κ → Nat)
    (above : ∀ node, base node ≤ other node)
    (exceeds : ∀ node dependency, depends node dependency → other dependency < other node) (node : κ) :
    level node ≤ other node := by
  have measured : ∀ bound node, level node = bound → level node ≤ other node := by
    intro bound
    induction bound using Nat.strong_induction_on with
    | _ bound ih =>
        intro node same
        apply (leveled node).2
        constructor
        · exact above node
        · intro dependency edge
          have lower := ih _ (same ▸ leveled.lt edge) dependency rfl
          exact lower.trans_lt (exceeds node dependency edge)
  exact measured _ node rfl

theorem unique {other : κ → Nat} (leveled : IsLeveling depends base level)
    (otherLeveled : IsLeveling depends base other) : level = other := by
  funext node
  apply le_antisymm
  · exact leveled.le_of_bounds other otherLeveled.base_le (fun _ _ => otherLeveled.lt) node
  · exact otherLeveled.le_of_bounds level leveled.base_le (fun _ _ => leveled.lt) node

end IsLeveling

/-- A relation that descends in a rank has no cycle. -/
theorem acyclic_of_rank {depends : κ → κ → Prop} (rank : κ → Nat)
    (descends : ∀ node dependency, depends node dependency → rank dependency < rank node) (node : κ) :
    ¬ Relation.TransGen depends node node := by
  have lower : ∀ {first last}, Relation.TransGen depends first last → rank last < rank first := by
    intro first last path
    induction path with
    | single edge => exact descends _ _ edge
    | tail _ edge ih => exact (descends _ _ edge).trans ih
  intro path
  exact (lower path).false

section Support

variable {ι : Type} (key : ι → κ) (needs : ι → List κ)

/-- Every item needs only keys of items in front of it. -/
def SupportedBy (items : List ι) : Prop :=
  ∀ front item back, items = front ++ item :: back → ∀ needed ∈ needs item, needed ∈ front.map key

variable {key needs}

theorem SupportedBy.nil : SupportedBy key needs [] := by
  intro front item back split
  simp at split

/-- A list can be continued by an item whose needs it meets. -/
theorem SupportedBy.concat {items : List ι} {item : ι} (supported : SupportedBy key needs items)
    (met : ∀ needed ∈ needs item, needed ∈ items.map key) : SupportedBy key needs (items ++ [item]) := by
  intro front other back split needed listed
  induction back using List.reverseRecOn with
  | nil =>
      obtain ⟨rfl, same⟩ := List.append_inj' split rfl
      cases same
      exact met needed listed
  | append_singleton back last _ =>
      rw [← List.cons_append, ← List.append_assoc] at split
      exact supported front other back (List.append_inj' split rfl).1 needed listed

variable [DecidableEq κ]

/-- The key that is needed stands in front of the one that needs it. -/
theorem SupportedBy.idxOf_lt {items : List ι} (supported : SupportedBy key needs items)
    (distinct : (items.map key).Nodup) {item : ι} (listed : item ∈ items) {needed : κ} (required : needed ∈ needs item) :
    (items.map key).idxOf needed < (items.map key).idxOf (key item) := by
  obtain ⟨front, back, rfl⟩ := List.append_of_mem listed
  have earlier := supported front item back rfl needed required
  rw [List.map_append, List.map_cons] at distinct ⊢
  have absent : key item ∉ front.map key := fun present =>
    (List.nodup_append.mp distinct).2.2 _ present _ List.mem_cons_self rfl
  rw [List.idxOf_append_of_mem earlier, List.idxOf_append_of_notMem absent, List.idxOf_cons_self, Nat.add_zero]
  exact List.idxOf_lt_length_of_mem earlier

end Support

end MisraPlatform
