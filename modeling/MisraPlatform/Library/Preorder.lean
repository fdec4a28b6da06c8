import Mathlib.Data.List.Basic
import Mathlib.Data.List.Infix
import Mathlib.Data.List.Range

/-
This file is the numbering of the nodes of a forest in preorder.
-/

namespace MisraPlatform

/-- A forest is a first tree with its children and the trees behind it. -/
inductive Forest (α : Type) where
  | nil
  | cons (label : α) (children rest : Forest α)

namespace Forest

variable {α : Type}

def append : Forest α → Forest α → Forest α
  | nil, other => other
  | cons label children rest, other => cons label children (rest.append other)

def size : Forest α → ℕ
  | nil => 0
  | cons _ children rest => 1 + children.size + rest.size

/-- The labels stand in preorder. -/
def labels : Forest α → List α
  | nil => []
  | cons label children rest => label :: children.labels ++ rest.labels

def rootLabels : Forest α → List α
  | nil => []
  | cons label _ rest => label :: rest.rootLabels

/-- Every node stands with the forest of its children. -/
def branches : Forest α → List (α × Forest α)
  | nil => []
  | cons label children rest => (label, children) :: children.branches ++ rest.branches

/-- A node is recorded with its number, the number of its parent and those of its children. -/
structure Entry (α : Type) where
  index : ℕ
  parent : ℕ
  children : List ℕ
  label : α

/-- These are the numbers of the trees when the next free number is known. -/
def roots (next : ℕ) : Forest α → List ℕ
  | nil => []
  | cons _ children rest => next :: rest.roots (next + 1 + children.size)

def number (parent next : ℕ) : Forest α → List (Entry α)
  | nil => []
  | cons label children rest =>
      ⟨next, parent, children.roots (next + 1), label⟩ ::
        children.number next (next + 1) ++ rest.number parent (next + 1 + children.size)

/-- The shape of the forest stays. -/
def map {β : Type} (change : α → β) : Forest α → Forest β
  | nil => nil
  | cons label children rest => cons (change label) (children.map change) (rest.map change)

def Entry.map {β : Type} (change : α → β) (entry : Entry α) : Entry β :=
  ⟨entry.index, entry.parent, entry.children, change entry.label⟩

theorem labels_append (first second : Forest α) :
    (first.append second).labels = first.labels ++ second.labels := by
  induction first with
  | nil => rfl
  | cons label children rest _ ih => simp [append, labels, ih]

theorem rootLabels_append (first second : Forest α) :
    (first.append second).rootLabels = first.rootLabels ++ second.rootLabels := by
  induction first with
  | nil => rfl
  | cons label children rest _ ih => simp [append, rootLabels, ih]

theorem branches_append (first second : Forest α) :
    (first.append second).branches = first.branches ++ second.branches := by
  induction first with
  | nil => rfl
  | cons label children rest _ ih => simp [append, branches, ih]

theorem size_append (first second : Forest α) : (first.append second).size = first.size + second.size := by
  induction first with
  | nil => simp [append, size]
  | cons label children rest _ ih =>
      rw [append, size, size, ih]
      omega

theorem append_assoc (first second third : Forest α) :
    (first.append second).append third = first.append (second.append third) := by
  induction first with
  | nil => rfl
  | cons label children rest _ ih => rw [append, append, append, ih]

section Map

variable {β : Type} (change : α → β)

theorem map_append (first second : Forest α) :
    (first.append second).map change = (first.map change).append (second.map change) := by
  induction first with
  | nil => rfl
  | cons label children rest _ ih => rw [append, map, map, append, ih]

@[simp] theorem size_map (forest : Forest α) : (forest.map change).size = forest.size := by
  induction forest with
  | nil => rfl
  | cons label children rest inner outer => rw [map, size, size, inner, outer]

@[simp] theorem roots_map (next : ℕ) (forest : Forest α) : (forest.map change).roots next = forest.roots next := by
  induction forest generalizing next with
  | nil => rfl
  | cons label children rest _ outer => rw [map, roots, roots, outer, size_map]

theorem number_map (parent next : ℕ) (forest : Forest α) :
    (forest.map change).number parent next = (forest.number parent next).map (Entry.map change) := by
  induction forest generalizing parent next with
  | nil => rfl
  | cons label children rest inner outer =>
      rw [map, number, number, inner, outer, roots_map, size_map, List.map_append, List.map_cons]
      rfl

end Map

theorem labels_map {β : Type} (change : α → β) (forest : Forest α) :
    (forest.map change).labels = forest.labels.map change := by
  induction forest with
  | nil => rfl
  | cons label children rest inner outer =>
      rw [map, labels, labels, inner, outer, List.map_append, List.map_cons]

theorem map_map {β γ : Type} (change : α → β) (further : β → γ) (forest : Forest α) :
    (forest.map change).map further = forest.map fun label => further (change label) := by
  induction forest with
  | nil => rfl
  | cons label children rest inner outer => rw [map, map, map, inner, outer]

/-! ### Numbers -/

variable {parent next : ℕ} {forest : Forest α}

/-- The entries keep the shape of the forest. -/
def recorded (parent next : ℕ) : Forest α → Forest (Entry α)
  | nil => nil
  | cons label children rest =>
      cons ⟨next, parent, children.roots (next + 1), label⟩ (children.recorded next (next + 1))
        (rest.recorded parent (next + 1 + children.size))

theorem labels_recorded (parent next : ℕ) (forest : Forest α) :
    (forest.recorded parent next).labels = forest.number parent next := by
  induction forest generalizing parent next with
  | nil => rfl
  | cons label children rest inner outer => rw [recorded, labels, number, inner, outer]

theorem map_recorded (parent next : ℕ) (forest : Forest α) :
    (forest.recorded parent next).map Entry.label = forest := by
  induction forest generalizing parent next with
  | nil => rfl
  | cons label children rest inner outer => rw [recorded, map, inner, outer]

theorem index_number (parent next : ℕ) (forest : Forest α) :
    (forest.number parent next).map Entry.index = List.range' next forest.size := by
  induction forest generalizing parent next with
  | nil => rfl
  | cons label children rest inner outer =>
      have total : size (cons label children rest) = (children.size + rest.size) + 1 := by
        rw [size]
        omega
      rw [number, List.cons_append, List.map_cons, List.map_append, inner, outer, total, List.range'_succ,
        List.range'_append_1]

theorem length_number (parent next : ℕ) (forest : Forest α) : (forest.number parent next).length = forest.size := by
  rw [← List.length_map, index_number, List.length_range']

/-- The numbers follow the positions. -/
theorem index_of_position {position : ℕ} {entry : Entry α}
    (found : (forest.number parent next)[position]? = some entry) : entry.index = next + position := by
  obtain ⟨bound, _⟩ := List.getElem?_eq_some_iff.mp found
  rw [length_number] at bound
  have listed := congrArg (fun numbers => numbers[position]?) (index_number parent next forest)
  simp only [List.getElem?_map, found, Option.map_some] at listed
  rw [List.getElem?_range' bound, Option.some.injEq] at listed
  omega

theorem label_number (parent next : ℕ) (forest : Forest α) :
    (forest.number parent next).map Entry.label = forest.labels := by
  induction forest generalizing parent next with
  | nil => rfl
  | cons label children rest inner outer => simp [number, labels, inner, outer]

theorem index_bounds {entry : Entry α} (inside : entry ∈ forest.number parent next) :
    next ≤ entry.index ∧ entry.index < next + forest.size := by
  have listed := List.mem_map_of_mem (f := Entry.index) inside
  rw [index_number] at listed
  exact List.mem_range'_1.mp listed

theorem exists_index (parent : ℕ) (forest : Forest α) {index : ℕ} (after : next ≤ index) (before : index < next + forest.size) :
    ∃ entry ∈ forest.number parent next, entry.index = index := by
  have range : index ∈ (forest.number parent next).map Entry.index := by
    rw [index_number]
    exact List.mem_range'_1.mpr ⟨after, before⟩
  exact List.mem_map.mp range

theorem index_nodup (parent next : ℕ) (forest : Forest α) :
    ((forest.number parent next).map Entry.index).Nodup := by
  rw [index_number]
  exact List.nodup_range'

theorem number_append (parent next : ℕ) (first second : Forest α) :
    (first.append second).number parent next =
      first.number parent next ++ second.number parent (next + first.size) := by
  induction first generalizing next with
  | nil => rfl
  | cons label children rest _ outer =>
      rw [append, number, number, outer, size, List.cons_append, List.cons_append, List.cons_append,
        List.append_assoc]
      congr 4
      omega

/-- The parent of an entry is the given one or an entry that stands before. -/
theorem parent_bounds {entry : Entry α} (inside : entry ∈ forest.number parent next) :
    entry.parent = parent ∨ (next ≤ entry.parent ∧ entry.parent < entry.index) := by
  induction forest generalizing parent next with
  | nil => exact absurd inside List.not_mem_nil
  | cons label children rest inner outer =>
      rcases List.mem_cons.mp inside with rfl | below
      · exact .inl rfl
      · rcases List.mem_append.mp below with first | later
        · have index := (index_bounds first).1
          rcases inner first with same | between
          · exact .inr ⟨same.ge, by omega⟩
          · exact .inr ⟨by omega, between.2⟩
        · rcases outer later with same | between
          · exact .inl same
          · exact .inr ⟨by omega, between.2⟩

/-- The entries below the given parent are those of the trees. -/
theorem filter_parent (before : parent < next) :
    ((forest.number parent next).filter fun entry => entry.parent = parent).map
      (fun entry => (entry.index, entry.label)) = (forest.roots next).zip forest.rootLabels := by
  induction forest generalizing next with
  | nil => rfl
  | cons label children rest _ outer =>
      have nothing : (children.number next (next + 1)).filter (fun entry => entry.parent = parent) = [] := by
        rw [List.filter_eq_nil_iff]
        intro entry inside
        have bounds := parent_bounds inside
        simp only [decide_eq_true_eq]
        omega
      rw [number, List.cons_append, List.filter_cons_of_pos (by simp), List.filter_append, nothing, List.nil_append,
        List.map_cons, outer (by omega)]
      rfl

theorem length_roots (next : ℕ) (forest : Forest α) : (forest.roots next).length = forest.rootLabels.length := by
  induction forest generalizing next with
  | nil => rfl
  | cons label children rest _ outer => simp [roots, rootLabels, outer]

theorem index_filter_parent (before : parent < next) :
    ((forest.number parent next).filter fun entry => entry.parent = parent).map Entry.index =
      forest.roots next := by
  have both := congrArg (List.map Prod.fst) (@filter_parent _ _ _ forest before)
  rw [List.map_map, List.map_fst_zip (length_roots next forest).le] at both
  exact both

theorem label_filter_parent (before : parent < next) :
    ((forest.number parent next).filter fun entry => entry.parent = parent).map Entry.label =
      forest.rootLabels := by
  have both := congrArg (List.map Prod.snd) (@filter_parent _ _ _ forest before)
  rw [List.map_map, List.map_snd_zip (length_roots next forest).ge] at both
  exact both

/-- An entry stands in front of the entries of its children. -/
theorem exists_branch {entry : Entry α} (inside : entry ∈ forest.number parent next) :
    ∃ children, (entry.label, children) ∈ forest.branches ∧ entry.children = children.roots (entry.index + 1) ∧
      (entry :: children.number entry.index (entry.index + 1)) <:+: forest.number parent next := by
  induction forest generalizing parent next with
  | nil => exact absurd inside List.not_mem_nil
  | cons label children rest inner outer =>
      rcases List.mem_cons.mp inside with rfl | below
      · exact ⟨children, List.mem_cons_self, rfl, [], rest.number parent (next + 1 + children.size), rfl⟩
      · rcases List.mem_append.mp below with first | later
        · obtain ⟨found, listed, same, part⟩ := inner first
          refine ⟨found, List.mem_cons_of_mem _ (List.mem_append_left _ listed), same, part.trans ?_⟩
          exact ⟨[_], _, rfl⟩
        · obtain ⟨found, listed, same, part⟩ := outer later
          refine ⟨found, List.mem_cons_of_mem _ (List.mem_append_right _ listed), same, part.trans ?_⟩
          exact (List.suffix_append _ _).isInfix

/-- The entries with a parent among the numbered ones are the children of that entry. -/
theorem filter_index {entry : Entry α} (before : parent < next) (inside : entry ∈ forest.number parent next) :
    ((forest.number parent next).filter fun other => other.parent = entry.index).map Entry.index =
      entry.children := by
  induction forest generalizing parent next with
  | nil => exact absurd inside List.not_mem_nil
  | cons label children rest inner outer =>
      have skip : ∀ (trees : Forest α) (first above : ℕ), entry.index ≠ above →
          (entry.index < first ∨ first + trees.size ≤ entry.index) →
          (trees.number above first).filter (fun other => other.parent = entry.index) = [] := by
        intro trees first above other_ apart
        rw [List.filter_eq_nil_iff]
        intro other listed
        have bounds := parent_bounds listed
        have index := index_bounds listed
        simp only [decide_eq_true_eq]
        omega
      rcases List.mem_cons.mp inside with rfl | below
      · rw [number, List.cons_append, List.filter_cons_of_neg (by simp; omega), List.filter_append]
        rw [skip rest _ parent (by dsimp only; omega) (.inl (by dsimp only; omega)), List.append_nil]
        exact index_filter_parent (Nat.lt_succ_self next)
      · rcases List.mem_append.mp below with first | later
        · have index := index_bounds first
          rw [number, List.cons_append, List.filter_cons_of_neg (by simp; omega), List.filter_append]
          rw [skip rest _ parent (by omega) (.inl (by omega)), List.append_nil]
          exact inner (Nat.lt_succ_self next) first
        · have index := index_bounds later
          rw [number, List.cons_append, List.filter_cons_of_neg (by simp; omega), List.filter_append]
          rw [skip children _ next (by omega) (.inr (by omega)), List.nil_append]
          exact outer (by omega) later

end Forest
end MisraPlatform
