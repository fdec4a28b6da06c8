import Mathlib.Algebra.Order.Group.Nat
import Mathlib.Data.List.Basic
import Mathlib.Logic.Relation

/-
This file is the stack of a depth-first search and the components that it closes.
-/

namespace MisraPlatform

open Relation

variable {α : Type} {successor : α → α → Prop} {visited later : α → Prop} {number renumbered : α → Nat}
  {opened stack : List α}

/-- The stack keeps the visited points whose component is not complete, the latest one first. -/
structure Frontier (successor : α → α → Prop) (visited : α → Prop) (number : α → Nat)
    (opened stack : List α) : Prop where
  stacked : ∀ point ∈ stack, visited point
  descending : stack.Pairwise fun newer older => number older < number newer
  openInside : ∀ point ∈ opened, point ∈ stack
  explored : ∀ point, visited point → point ∉ opened → ∀ next, successor point next → visited next
  reaches : ∀ older ∈ stack, ∀ newer ∈ stack, number older ≤ number newer →
    ReflTransGen successor older newer
  returns : ∀ newer ∈ stack, ∃ older ∈ opened, number older ≤ number newer ∧
    ReflTransGen successor newer older
  closed : ∀ point, visited point → point ∉ stack → ∀ next, successor point next → next ∉ stack

namespace Frontier

theorem nodup (frontier : Frontier successor visited number opened stack) : stack.Nodup :=
  frontier.descending.imp fun less same => (same ▸ less).false

/-- A point off the stack leads only to visited points off the stack. -/
theorem closed_path (frontier : Frontier successor visited number opened stack) {point target : α}
    (seen : visited point) (off : point ∉ stack) (path : ReflTransGen successor point target) :
    visited target ∧ target ∉ stack := by
  induction path with
  | refl => exact ⟨seen, off⟩
  | tail _ edge ih =>
      have notOpen := fun inside => ih.2 (frontier.openInside _ inside)
      exact ⟨frontier.explored _ ih.1 notOpen _ edge, frontier.closed _ ih.1 ih.2 _ edge⟩

/-- Without an open call the stack is empty. -/
theorem stack_nil (frontier : Frontier successor visited number [] stack) : stack = [] := by
  cases stack with
  | nil => rfl
  | cons point rest =>
      obtain ⟨older, inside, _⟩ := frontier.returns point (by simp)
      cases inside

theorem start (number : α → Nat) (unseen : ∀ point, ¬ visited point) :
    Frontier successor visited number [] [] where
  stacked := by simp
  descending := List.Pairwise.nil
  openInside := by simp
  explored point seen := absurd seen (unseen point)
  reaches := by simp
  returns := by simp
  closed := by simp

/-- A new point is pushed when every open call leads to it. -/
theorem enter (frontier : Frontier successor visited number opened stack) {node : α}
    (fresh : ¬ visited node) (leads : ∀ point ∈ opened, ReflTransGen successor point node)
    (visits : ∀ point, later point ↔ point = node ∨ visited point)
    (keeps : ∀ point, visited point → renumbered point = number point)
    (highest : ∀ point ∈ stack, number point < renumbered node) :
    Frontier successor later renumbered (node :: opened) (node :: stack) := by
  have kept : ∀ point ∈ stack, renumbered point = number point :=
    fun point inside => keeps point (frontier.stacked point inside)
  have toNode : ∀ point ∈ stack, ReflTransGen successor point node := by
    intro point inside
    obtain ⟨older, olderOpen, _, path⟩ := frontier.returns point inside
    exact path.trans (leads older olderOpen)
  constructor
  · intro point inside
    rw [visits]
    exact (List.mem_cons.mp inside).imp_right (frontier.stacked point)
  · rw [List.pairwise_cons]
    constructor
    · intro point inside
      rw [kept point inside]
      exact highest point inside
    · apply List.Pairwise.imp_of_mem _ frontier.descending
      intro newer older newerInside olderInside less
      rw [kept newer newerInside, kept older olderInside]
      exact less
  · intro point inside
    rw [List.mem_cons] at inside ⊢
    exact inside.imp_right (frontier.openInside point)
  · intro point seen notOpen next edge
    rw [List.mem_cons, not_or] at notOpen
    rw [visits] at seen ⊢
    exact .inr (frontier.explored point (seen.resolve_left notOpen.1) notOpen.2 next edge)
  · intro older olderInside newer newerInside less
    rw [List.mem_cons] at olderInside newerInside
    cases newerInside with
    | inl same =>
        subst same
        cases olderInside with
        | inl same => exact same ▸ .refl
        | inr inside => exact toNode older inside
    | inr newerInside =>
        cases olderInside with
        | inl same =>
            subst same
            rw [kept newer newerInside] at less
            exact absurd (highest newer newerInside) (not_lt.mpr less)
        | inr olderInside =>
            rw [kept older olderInside, kept newer newerInside] at less
            exact frontier.reaches older olderInside newer newerInside less
  · intro newer inside
    cases List.mem_cons.mp inside with
    | inl same => exact ⟨node, by simp, by rw [same], same ▸ .refl⟩
    | inr inside =>
        obtain ⟨older, olderOpen, less, path⟩ := frontier.returns newer inside
        refine ⟨older, List.mem_cons_of_mem _ olderOpen, ?_, path⟩
        rw [kept older (frontier.openInside older olderOpen), kept newer inside]
        exact less
  · intro point seen off next edge
    rw [List.mem_cons, not_or] at off ⊢
    have seen := ((visits point).mp seen).resolve_left off.1
    have notOpen := fun inside => off.2 (frontier.openInside _ inside)
    have nextSeen := frontier.explored point seen notOpen next edge
    exact ⟨fun same => fresh (same ▸ nextSeen), frontier.closed point seen off.2 next edge⟩

/-- A finished call stays on the stack when its point leads to an older one. -/
theorem leave {node : α} (frontier : Frontier successor visited number (node :: opened) stack)
    (finished : ∀ next, successor node next → visited next)
    (escapes : ∃ older ∈ stack, number older < number node ∧ ReflTransGen successor node older) :
    Frontier successor visited number opened stack where
  stacked := frontier.stacked
  descending := frontier.descending
  openInside point inside := frontier.openInside point (List.mem_cons_of_mem _ inside)
  explored point seen notOpen := by
    by_cases same : point = node
    · exact same ▸ finished
    · exact frontier.explored point seen (by simp [same, notOpen])
  reaches := frontier.reaches
  returns newer inside := by
    obtain ⟨older, olderOpen, less, path⟩ := frontier.returns newer inside
    cases List.mem_cons.mp olderOpen with
    | inr olderOpen => exact ⟨older, olderOpen, less, path⟩
    | inl same =>
        subst same
        obtain ⟨escape, escapeInside, lower, escapePath⟩ := escapes
        obtain ⟨target, targetOpen, below, targetPath⟩ := frontier.returns escape escapeInside
        have other : target ≠ older := by
          intro same
          subst same
          omega
        exact ⟨target, List.mem_of_ne_of_mem other targetOpen, by omega,
          path.trans (escapePath.trans targetPath)⟩
  closed := frontier.closed

section Close

variable {node : α} {fresh older : List α}

/-- The points from the top of the stack to the root lead to each other. -/
theorem component_reaches
    (frontier : Frontier successor visited number (node :: opened) (fresh ++ node :: older))
    (openOlder : ∀ point ∈ opened, point ∈ older) {first second : α} (firstInside : first ∈ fresh ++ [node])
    (secondInside : second ∈ fresh ++ [node]) : ReflTransGen successor first second := by
  have ordered := List.pairwise_append.mp frontier.descending
  have onStack : ∀ point ∈ fresh ++ [node], point ∈ fresh ++ node :: older := by
    intro point inside
    simp only [List.mem_append, List.mem_cons, List.not_mem_nil, or_false] at inside ⊢
    exact inside.imp_right .inl
  have atLeast : number node ≤ number second := by
    cases List.mem_append.mp secondInside with
    | inl inside => exact (ordered.2.2 second inside node (by simp)).le
    | inr same => rw [List.mem_singleton.mp same]
  have fromNode := frontier.reaches node (by simp) second (onStack second secondInside) atLeast
  obtain ⟨target, targetOpen, _, path⟩ := frontier.returns first (onStack first firstInside)
  cases List.mem_cons.mp targetOpen with
  | inl same => exact (same ▸ path).trans fromNode
  | inr inside =>
      have below := (List.pairwise_cons.mp ordered.2.1).1 target (openOlder target inside)
      have toNode := frontier.reaches target (by simp [openOlder target inside]) node (by simp) below.le
      exact path.trans (toNode.trans fromNode)

/-- A component that leads to no older point is closed and popped. -/
theorem close (frontier : Frontier successor visited number (node :: opened) (fresh ++ node :: older))
    (openOlder : ∀ point ∈ opened, point ∈ older)
    (finished : ∀ next, successor node next → visited next)
    (escapeless : ∀ point ∈ fresh ++ [node], ∀ next ∈ older, ¬ successor point next) :
    Frontier successor visited number opened older := by
  have ordered := List.pairwise_append.mp frontier.descending
  have inStack : ∀ point ∈ older, point ∈ fresh ++ node :: older := fun point inside => by simp [inside]
  constructor
  · exact fun point inside => frontier.stacked point (inStack point inside)
  · exact ordered.2.1.of_cons
  · exact openOlder
  · intro point seen notOpen
    by_cases same : point = node
    · exact same ▸ finished
    · exact frontier.explored point seen (by simp [same, notOpen])
  · exact fun first firstInside second secondInside =>
      frontier.reaches first (inStack first firstInside) second (inStack second secondInside)
  · intro newer inside
    obtain ⟨target, targetOpen, less, path⟩ := frontier.returns newer (inStack newer inside)
    have below := (List.pairwise_cons.mp ordered.2.1).1 newer inside
    have other : target ≠ node := by
      intro same
      subst same
      omega
    exact ⟨target, List.mem_of_ne_of_mem other targetOpen, less, path⟩
  · intro point seen off next edge inside
    by_cases member : point ∈ fresh ++ [node]
    · exact escapeless point member next inside edge
    · have offStack : point ∉ fresh ++ node :: older := by
        intro found
        simp only [List.mem_append, List.mem_cons, List.not_mem_nil, or_false] at found member
        tauto
      exact frontier.closed point seen offStack next edge (inStack next inside)

/-- A point of a closed component lies on a cycle when the component has another point or its root an edge to itself. -/
theorem onCycle_iff (frontier : Frontier successor visited number (node :: opened) (fresh ++ node :: older))
    (openOlder : ∀ point ∈ opened, point ∈ older)
    (finished : ∀ next, successor node next → visited next)
    (escapeless : ∀ point ∈ fresh ++ [node], ∀ next ∈ older, ¬ successor point next)
    {point : α} (inside : point ∈ fresh ++ [node]) :
    TransGen successor point point ↔ fresh ≠ [] ∨ successor node node := by
  constructor
  · intro cycle
    by_cases single : fresh = []
    · right
      subst single
      have same : point = node := by simpa using inside
      subst same
      obtain ⟨next, edge, path⟩ := TransGen.head'_iff.mp cycle
      have seen := finished next edge
      by_cases onStack : next ∈ [] ++ point :: older
      · cases List.mem_cons.mp onStack with
        | inl same => exact same ▸ edge
        | inr below => exact absurd edge (escapeless point (by simp) next below)
      · exact absurd (by simp) (frontier.closed_path seen onStack path).2
    · exact .inl single
  · intro either
    have distinct := frontier.nodup
    by_cases single : fresh = []
    · subst single
      have same : point = node := by simpa using inside
      subst same
      exact .single (either.resolve_left fun differs => differs rfl)
    · obtain ⟨other, otherInside, differs⟩ : ∃ other ∈ fresh ++ [node], other ≠ point := by
        obtain ⟨first, rest, rfl⟩ := List.exists_cons_of_ne_nil single
        by_cases same : point = node
        · refine ⟨first, by simp, ?_⟩
          intro equal
          rw [equal, same] at distinct
          simp at distinct
        · exact ⟨node, by simp, Ne.symm same⟩
      have there := frontier.component_reaches openOlder inside otherInside
      have back := frontier.component_reaches openOlder otherInside inside
      cases there.cases_head with
      | inl same => exact absurd same.symm differs
      | inr step =>
          obtain ⟨next, edge, path⟩ := step
          exact .head' edge (path.trans back)

end Close

end Frontier

end MisraPlatform
