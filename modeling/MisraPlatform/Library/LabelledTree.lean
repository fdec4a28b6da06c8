import Mathlib.Data.List.Basic
import Mathlib.Logic.Relation

/-
This file is the trees with labelled nodes and the values that a rule computes from the leaves up.
-/

namespace MisraPlatform

inductive LabelledTree (Label : Type) where
  | node (label : Label) (children : List (LabelledTree Label))

namespace LabelledTree

variable {Label Attribute : Type}

mutual

/-- The value of a node comes from its label and from the values of its children. -/
def fold (rule : Label → List Attribute → Attribute) : LabelledTree Label → Attribute
  | node label children => rule label (foldAll rule children)

def foldAll (rule : Label → List Attribute → Attribute) : List (LabelledTree Label) → List Attribute
  | [] => []
  | child :: rest => fold rule child :: foldAll rule rest

end

/-- What holds of a node when it holds of its children holds of every tree. -/
theorem induction {property : LabelledTree Label → Prop}
    (step : ∀ label children, (∀ child ∈ children, property child) → property (node label children)) :
    ∀ tree, property tree
  | node label children => step label children (all children)
where
  all : ∀ children : List (LabelledTree Label), ∀ child ∈ children, property child
    | [], _, listed => absurd listed List.not_mem_nil
    | first :: rest, child, listed => by
        cases listed with
        | head => exact induction step first
        | tail _ later => exact all rest child later

section Rules

variable (rule reference : Label → List Attribute → Attribute)

theorem foldAll_eq_map (children : List (LabelledTree Label)) : foldAll rule children = children.map (fold rule) := by
  induction children with
  | nil => rfl
  | cons child rest ih => rw [foldAll, ih, List.map_cons]

theorem fold_node (label : Label) (children : List (LabelledTree Label)) :
    fold rule (node label children) = rule label (children.map (fold rule)) := by
  rw [fold, foldAll_eq_map]

/-- The first tree is the second one or lies below its root. -/
inductive Within (tree : LabelledTree Label) : LabelledTree Label → Prop
  | root : Within tree tree
  | child {label : Label} {children : List (LabelledTree Label)} {child : LabelledTree Label} :
      child ∈ children → Within tree child → Within tree (node label children)

theorem within_node {tree : LabelledTree Label} {label : Label} {children : List (LabelledTree Label)} :
    Within tree (node label children) ↔ tree = node label children ∨ ∃ child ∈ children, Within tree child := by
  constructor
  · intro within
    cases within with
    | root => exact .inl rfl
    | child listed below => exact .inr ⟨_, listed, below⟩
  · rintro (rfl | ⟨child, listed, below⟩)
    · exact .root
    · exact .child listed below

theorem Within.trans {first second third : LabelledTree Label} (lower : Within first second)
    (upper : Within second third) : Within first third := by
  induction upper with
  | root => exact lower
  | child listed _ ih => exact .child listed ih

/-- A condition on each node of a tree may use the values of the children. -/
def Everywhere (holds : Label → List Attribute → Prop) (tree : LabelledTree Label) : Prop :=
  ∀ label children, Within (node label children) tree → holds label (children.map (fold rule))

/-- A condition on each node of a tree may use the number of its children. -/
def Counted (holds : Label → Nat → Prop) (tree : LabelledTree Label) : Prop :=
  ∀ label children, Within (node label children) tree → holds label children.length

variable {rule reference}

theorem everywhere_node {holds : Label → List Attribute → Prop} {label : Label}
    {children : List (LabelledTree Label)} :
    Everywhere rule holds (node label children) ↔
      holds label (children.map (fold rule)) ∧ ∀ child ∈ children, Everywhere rule holds child := by
  constructor
  · intro everywhere
    exact ⟨everywhere label children .root,
      fun child listed inner below within => everywhere inner below (.child listed within)⟩
  · rintro ⟨here, below⟩ inner lower within
    rcases within_node.mp within with same | ⟨child, listed, within⟩
    · cases same
      exact here
    · exact below child listed inner lower within

theorem Everywhere.within {holds : Label → List Attribute → Prop} {tree inner : LabelledTree Label}
    (everywhere : Everywhere rule holds tree) (within : Within inner tree) : Everywhere rule holds inner :=
  fun label children lower => everywhere label children (lower.trans within)

theorem Counted.within {holds : Label → Nat → Prop} {tree inner : LabelledTree Label} (counted : Counted holds tree)
    (within : Within inner tree) : Counted holds inner :=
  fun label children lower => counted label children (lower.trans within)

theorem counted_node {holds : Label → Nat → Prop} {label : Label} {children : List (LabelledTree Label)} :
    Counted holds (node label children) ↔ holds label children.length ∧ ∀ child ∈ children, Counted holds child := by
  constructor
  · intro counted
    exact ⟨counted label children .root, fun child listed => counted.within (.child listed .root)⟩
  · rintro ⟨here, below⟩ inner lower within
    rcases within_node.mp within with same | ⟨child, listed, within⟩
    · cases same
      exact here
    · exact below child listed inner lower within

/-- A condition on the number of the children does not depend on the rule. -/
theorem everywhere_count {holds : Label → Nat → Prop} {tree : LabelledTree Label} :
    Everywhere rule (fun label values => holds label values.length) tree ↔ Counted holds tree := by
  simp only [Everywhere, Counted, List.length_map]

/-- Rules that agree at each node of a tree compute the same value for it. -/
theorem fold_eq {tree : LabelledTree Label}
    (agree : Everywhere reference (fun label values => rule label values = reference label values) tree) :
    fold rule tree = fold reference tree := by
  induction tree using induction with
  | step label children ih =>
      obtain ⟨here, below⟩ := everywhere_node.mp agree
      have values : children.map (fold rule) = children.map (fold reference) :=
        List.map_congr_left fun child listed => ih child listed (below child listed)
      rw [fold_node, fold_node, values, here]

/-- Rules compute the same values for a tree and for all within it exactly if they agree at each node. -/
theorem fold_eq_iff {tree : LabelledTree Label} :
    (∀ inner, Within inner tree → fold rule inner = fold reference inner) ↔
      Everywhere reference (fun label values => rule label values = reference label values) tree := by
  constructor
  · intro same label children within
    have values : children.map (fold rule) = children.map (fold reference) :=
      List.map_congr_left fun child listed => same child ((Within.child listed .root).trans within)
    have here := same _ within
    rwa [fold_node, fold_node, values] at here
  · intro agree inner within
    exact fold_eq (agree.within within)

/-- What a rule keeps holds of the values of all trees whose nodes let it. -/
theorem fold_induction {good : Attribute → Prop} {allowed : Label → List Attribute → Prop}
    (kept : ∀ label values, allowed label values → (∀ value ∈ values, good value) → good (rule label values))
    {tree : LabelledTree Label} (everywhere : Everywhere rule allowed tree) : good (fold rule tree) := by
  induction tree using induction with
  | step label children ih =>
      obtain ⟨here, below⟩ := everywhere_node.mp everywhere
      rw [fold_node]
      refine kept _ _ here fun value computed => ?_
      obtain ⟨child, listed, rfl⟩ := List.mem_map.mp computed
      exact ih child listed (below child listed)

end Rules

section Exchanges

/-- The children of one node somewhere in the tree are exchanged. -/
inductive Exchanged (exchange : Label → List (LabelledTree Label) → List (LabelledTree Label) → Prop) :
    LabelledTree Label → LabelledTree Label → Prop
  | here {label : Label} {children others : List (LabelledTree Label)} : exchange label children others →
      Exchanged exchange (node label children) (node label others)
  | inside {label : Label} {child other : LabelledTree Label} (before after : List (LabelledTree Label)) :
      Exchanged exchange child other →
      Exchanged exchange (node label (before ++ child :: after)) (node label (before ++ other :: after))

variable {exchange : Label → List (LabelledTree Label) → List (LabelledTree Label) → Prop}
  {rule : Label → List Attribute → Attribute}

/-- An exchange that the rule does not notice changes no value above it. -/
theorem Exchanged.fold_eq {tree other : LabelledTree Label} (exchanged : Exchanged exchange tree other)
    (unnoticed : ∀ label children others, Within (node label children) tree → exchange label children others →
      rule label (children.map (fold rule)) = rule label (others.map (fold rule))) :
    fold rule tree = fold rule other := by
  induction exchanged with
  | here swapped => rw [fold_node, fold_node, unnoticed _ _ _ .root swapped]
  | inside before after _ ih =>
      have same := ih fun label children others within =>
        unnoticed label children others (.child (List.mem_append_right _ List.mem_cons_self) within)
      rw [fold_node, fold_node, List.map_append, List.map_append, List.map_cons, List.map_cons, same]

/-- A condition on the nodes that an exchange respects holds after it as before. -/
theorem Exchanged.everywhere {holds : Label → List Attribute → Prop} {tree other : LabelledTree Label}
    (exchanged : Exchanged exchange tree other)
    (unnoticed : ∀ label children others, Within (node label children) tree → exchange label children others →
      rule label (children.map (fold rule)) = rule label (others.map (fold rule)))
    (permuted : ∀ label children others, exchange label children others → children.Perm others)
    (respected : ∀ label children others, exchange label children others →
      holds label (children.map (fold rule)) → holds label (others.map (fold rule)))
    (everywhere : Everywhere rule holds tree) : Everywhere rule holds other := by
  induction exchanged with
  | here swapped =>
      obtain ⟨here, below⟩ := everywhere_node.mp everywhere
      exact everywhere_node.mpr ⟨respected _ _ _ swapped here,
        fun child listed => below child ((permuted _ _ _ swapped).mem_iff.mpr listed)⟩
  | inside before after inner ih =>
      have lower := fun label children others within =>
        unnoticed label children others (.child (List.mem_append_right before List.mem_cons_self) within)
      obtain ⟨here, below⟩ := everywhere_node.mp everywhere
      rw [List.map_append, List.map_cons, inner.fold_eq lower, ← List.map_cons, ← List.map_append] at here
      refine everywhere_node.mpr ⟨here, fun child listed => ?_⟩
      rcases List.mem_append.mp listed with left | right
      · exact below child (List.mem_append_left _ left)
      · cases right with
        | head => exact ih lower (below _ (List.mem_append_right _ List.mem_cons_self))
        | tail _ later => exact below child (List.mem_append_right _ (List.mem_cons_of_mem _ later))

theorem Exchanged.counted {holds : Label → Nat → Prop} {tree other : LabelledTree Label}
    (exchanged : Exchanged exchange tree other)
    (permuted : ∀ label children others, exchange label children others → children.Perm others)
    (counted : Counted holds tree) : Counted holds other := by
  have everywhere : Everywhere (fun _ _ => ()) (fun label values => holds label values.length) tree :=
    everywhere_count.mpr counted
  refine everywhere_count.mp (exchanged.everywhere (fun _ _ _ _ _ => rfl) permuted ?_ everywhere)
  intro label children others swapped here
  rw [List.length_map, ← (permuted _ _ _ swapped).length_eq]
  rwa [List.length_map] at here

end Exchanges

end LabelledTree

end MisraPlatform
