import Mathlib.Data.List.Basic
import Mathlib.Logic.Relation

/-
This file is the depth-first search of a finite relation and the set of points it visits.
-/

namespace MisraPlatform.Reachability

variable {α : Type} [DecidableEq α]

/-- The targets of one point stand in the order of the arrows. -/
def targets (arrows : List (α × α)) (point : α) : List α :=
  (arrows.filter fun arrow => arrow.1 = point).map Prod.snd

/-- The search pops one point at a time and pushes the targets of a point it has not seen. -/
def search (arrows : List (α × α)) : Nat → List α → List α → Option (List α)
  | 0, _, _ => none
  | _ + 1, visited, [] => some visited
  | fuel + 1, visited, point :: stack =>
      if point ∈ visited then search arrows fuel visited stack
      else search arrows fuel (visited ++ [point]) ((targets arrows point).reverse ++ stack)

/-- Every arrow is pushed at most once, so this fuel empties the stack. -/
def reachable (arrows : List (α × α)) (start : α) : List α :=
  (search arrows (arrows.length + 2) [] [start]).getD []

def Arrow (arrows : List (α × α)) (source target : α) : Prop := (source, target) ∈ arrows

theorem mem_targets (arrows : List (α × α)) (source target : α) :
    target ∈ targets arrows source ↔ Arrow arrows source target := by
  simp only [targets, Arrow, List.mem_map, List.mem_filter, decide_eq_true_eq]
  constructor
  · rintro ⟨⟨first, second⟩, ⟨inside, rfl⟩, rfl⟩
    exact inside
  · intro inside
    exact ⟨(source, target), ⟨inside, rfl⟩, rfl⟩

/-- The pending work is the stack and the arrows whose source is still unseen. -/
def pending (arrows : List (α × α)) (visited stack : List α) : Nat :=
  stack.length + arrows.countP fun arrow => arrow.1 ∉ visited

/-- The unseen arrows are those of the next point and those that stay unseen. -/
theorem countP_visit (arrows : List (α × α)) (visited : List α) (point : α)
    (fresh : point ∉ visited) :
    (targets arrows point).length + (arrows.countP fun arrow => arrow.1 ∉ visited ++ [point]) =
      arrows.countP fun arrow => arrow.1 ∉ visited := by
  induction arrows with
  | nil => rfl
  | cons arrow rest ih =>
      simp only [targets, List.length_map, List.filter_cons, List.countP_cons] at ih ⊢
      by_cases same : arrow.1 = point
      · simp [same, fresh] at ih ⊢
        omega
      · by_cases seen : arrow.1 ∈ visited <;> simp [same, seen] at ih ⊢ <;> omega

/-- A new point moves its own arrows from the relation to the stack. -/
theorem pending_visit (arrows : List (α × α)) (visited stack : List α) (point : α)
    (fresh : point ∉ visited) :
    pending arrows (visited ++ [point]) ((targets arrows point).reverse ++ stack) + 1 =
      pending arrows visited (point :: stack) := by
  have total := countP_visit arrows visited point fresh
  simp only [pending, List.length_append, List.length_reverse, List.length_cons]
  omega

/-- Enough fuel ends the search. -/
theorem search_isSome (arrows : List (α × α)) (fuel : Nat) (visited stack : List α)
    (enough : pending arrows visited stack < fuel) :
    (search arrows fuel visited stack).isSome := by
  induction fuel generalizing visited stack with
  | zero => omega
  | succ fuel ih =>
      cases stack with
      | nil => rfl
      | cons point stack =>
          rw [search]
          split
          · apply ih
            simp only [pending, List.length_cons] at enough ⊢
            omega
          · rename_i fresh
            apply ih
            have step := pending_visit arrows visited stack point fresh
            omega

/-- The visited points are closed once the stack is empty. -/
theorem search_closed (arrows : List (α × α)) (fuel : Nat) (visited stack result : List α)
    (found : search arrows fuel visited stack = some result)
    (closed : ∀ source ∈ visited, ∀ target, Arrow arrows source target →
      target ∈ visited ∨ target ∈ stack) :
    (∀ point, point ∈ visited ∨ point ∈ stack → point ∈ result) ∧
      ∀ source ∈ result, ∀ target, Arrow arrows source target → target ∈ result := by
  induction fuel generalizing visited stack with
  | zero => simp [search] at found
  | succ fuel ih =>
      cases stack with
      | nil =>
          simp only [search, Option.some.injEq] at found
          subst found
          exact ⟨by simp, fun source inside target arrow => by simpa using closed source inside target arrow⟩
      | cons point stack =>
          rw [search] at found
          split at found
          · rename_i seen
            have next := ih visited stack found (fun source inside target arrow => by
              rcases closed source inside target arrow with old | pushed
              · exact .inl old
              · rcases List.mem_cons.mp pushed with rfl | below
                · exact .inl seen
                · exact .inr below)
            refine ⟨fun other inside => next.1 other ?_, next.2⟩
            rcases inside with old | pushed
            · exact .inl old
            · rcases List.mem_cons.mp pushed with rfl | below
              · exact .inl seen
              · exact .inr below
          · have next := ih (visited ++ [point]) ((targets arrows point).reverse ++ stack) found
              (fun source inside target arrow => by
                rcases List.mem_append.mp inside with old | new
                · rcases closed source old target arrow with done | pushed
                  · exact .inl (List.mem_append_left _ done)
                  · rcases List.mem_cons.mp pushed with rfl | below
                    · exact .inl (by simp)
                    · exact .inr (List.mem_append_right _ below)
                · rw [List.mem_singleton.mp new] at arrow
                  refine .inr (List.mem_append_left _ ?_)
                  rw [List.mem_reverse, mem_targets]
                  exact arrow)
            refine ⟨fun other inside => next.1 other ?_, next.2⟩
            rcases inside with old | pushed
            · exact .inl (List.mem_append_left _ old)
            · rcases List.mem_cons.mp pushed with rfl | below
              · exact .inl (by simp)
              · exact .inr (List.mem_append_right _ below)

/-- The search adds no point that its stack does not lead to. -/
theorem search_sound (arrows : List (α × α)) (good : α → Prop)
    (step : ∀ source target, good source → Arrow arrows source target → good target)
    (fuel : Nat) (visited stack result : List α)
    (found : search arrows fuel visited stack = some result)
    (old : ∀ point ∈ visited, good point) (pushed : ∀ point ∈ stack, good point) :
    ∀ point ∈ result, good point := by
  induction fuel generalizing visited stack with
  | zero => simp [search] at found
  | succ fuel ih =>
      cases stack with
      | nil =>
          simp only [search, Option.some.injEq] at found
          exact found ▸ old
      | cons point stack =>
          have here := pushed point (by simp)
          have below : ∀ other ∈ stack, good other := fun other inside =>
            pushed other (List.mem_cons_of_mem _ inside)
          rw [search] at found
          split at found
          · exact ih visited stack found old below
          · refine ih _ _ found ?_ ?_
            · intro other inside
              rcases List.mem_append.mp inside with before | new
              · exact old other before
              · exact List.mem_singleton.mp new ▸ here
            · intro other inside
              rcases List.mem_append.mp inside with new | before
              · rw [List.mem_reverse, mem_targets] at new
                exact step point other here new
              · exact below other before

/-- The search visits exactly the points that a path of arrows leads to. -/
theorem mem_reachable (arrows : List (α × α)) (start point : α) :
    point ∈ reachable arrows start ↔ Relation.ReflTransGen (Arrow arrows) start point := by
  have ends := search_isSome arrows (arrows.length + 2) [] [start] (by simp [pending]; omega)
  obtain ⟨result, found⟩ := Option.isSome_iff_exists.mp ends
  have same : reachable arrows start = result := by rw [reachable, found]; rfl
  rw [same]
  constructor
  · refine search_sound arrows (Relation.ReflTransGen (Arrow arrows) start)
      (fun source target path arrow => path.tail arrow) _ [] [start] result found (by simp) ?_ point
    intro other inside
    rw [List.mem_singleton.mp inside]
  · intro path
    have closed := search_closed arrows _ [] [start] result found (by simp)
    induction path with
    | refl => exact closed.1 start (.inr (by simp))
    | tail _ arrow ih => exact closed.2 _ ih _ arrow

section Queue

/-- The search takes the first point of a queue and appends the targets of a point it has not seen. -/
def walk (arrows : List (α × α)) : Nat → List α → List α → Option (List α)
  | 0, _, _ => none
  | _ + 1, visited, [] => some visited
  | fuel + 1, visited, point :: queue =>
      if point ∈ visited then walk arrows fuel visited queue
      else walk arrows fuel (visited ++ [point]) (queue ++ targets arrows point)

/-- Every arrow is appended at most once, so this fuel empties the queue. -/
def reachableFrom (arrows : List (α × α)) (starts : List α) : List α :=
  (walk arrows (starts.length + arrows.length + 1) [] starts).getD []

theorem walk_isSome (arrows : List (α × α)) (fuel : Nat) (visited queue : List α)
    (enough : pending arrows visited queue < fuel) : (walk arrows fuel visited queue).isSome := by
  induction fuel generalizing visited queue with
  | zero => omega
  | succ fuel ih =>
      cases queue with
      | nil => rfl
      | cons point queue =>
          rw [walk]
          split
          · apply ih
            simp only [pending, List.length_cons] at enough ⊢
            omega
          · rename_i fresh
            apply ih
            have total := countP_visit arrows visited point fresh
            simp only [pending, List.length_append, List.length_cons] at enough ⊢
            omega

/-- What the queue and the visited points lead to is visited, and nothing else. -/
theorem mem_walk (arrows : List (α × α)) (fuel : Nat) (visited queue result : List α)
    (found : walk arrows fuel visited queue = some result)
    (closed : ∀ source ∈ visited, ∀ target, Arrow arrows source target → target ∈ visited ∨ target ∈ queue)
    (point : α) : point ∈ result ↔ ∃ source, (source ∈ visited ∨ source ∈ queue) ∧
      Relation.ReflTransGen (Arrow arrows) source point := by
  induction fuel generalizing visited queue with
  | zero => cases found
  | succ fuel ih =>
      cases queue with
      | nil =>
          rw [walk, Option.some.injEq] at found
          subst found
          constructor
          · intro inside
            exact ⟨point, .inl inside, .refl⟩
          · rintro ⟨source, inside, path⟩
            clear ih
            induction path with
            | refl => exact inside.resolve_right (List.not_mem_nil)
            | tail _ arrow earlier => exact (closed _ earlier _ arrow).resolve_right (List.not_mem_nil)
      | cons head queue =>
          rw [walk] at found
          split at found
          · rename_i seen
            have kept : ∀ other, other ∈ visited ∨ other ∈ queue ↔ other ∈ visited ∨ other ∈ head :: queue := by
              intro other
              rw [List.mem_cons]
              constructor
              · exact fun either => either.imp_right .inr
              · rintro (old | rfl | queued)
                · exact .inl old
                · exact .inl seen
                · exact .inr queued
            rw [ih visited queue found fun source inside target arrow =>
              (kept target).mpr (closed source inside target arrow)]
            simp only [kept]
          · have next : ∀ source ∈ visited ++ [head], ∀ target, Arrow arrows source target →
                target ∈ visited ++ [head] ∨ target ∈ queue ++ targets arrows head := by
              intro source inside target arrow
              rw [List.mem_append, List.mem_append]
              cases List.mem_append.mp inside with
              | inl old =>
                  cases closed source old target arrow with
                  | inl done => exact .inl (.inl done)
                  | inr queued =>
                      cases List.mem_cons.mp queued with
                      | inl same => exact .inl (.inr (List.mem_singleton.mpr same))
                      | inr behind => exact .inr (.inl behind)
              | inr new =>
                  rw [List.mem_singleton.mp new] at arrow
                  exact .inr (.inr ((mem_targets arrows head target).mpr arrow))
            rw [ih _ _ found next]
            constructor
            · rintro ⟨source, inside, path⟩
              simp only [List.mem_append, List.mem_singleton, mem_targets] at inside
              rcases inside with (old | rfl) | (queued | arrow)
              · exact ⟨source, .inl old, path⟩
              · exact ⟨source, .inr List.mem_cons_self, path⟩
              · exact ⟨source, .inr (List.mem_cons_of_mem _ queued), path⟩
              · exact ⟨head, .inr List.mem_cons_self, .head arrow path⟩
            · rintro ⟨source, inside, path⟩
              refine ⟨source, ?_, path⟩
              simp only [List.mem_append, List.mem_cons] at inside ⊢
              tauto

theorem walk_nodup (arrows : List (α × α)) (fuel : Nat) (visited queue result : List α)
    (found : walk arrows fuel visited queue = some result) (distinct : visited.Nodup) : result.Nodup := by
  induction fuel generalizing visited queue with
  | zero => cases found
  | succ fuel ih =>
      cases queue with
      | nil =>
          rw [walk, Option.some.injEq] at found
          exact found ▸ distinct
      | cons point queue =>
          rw [walk] at found
          split at found
          · exact ih visited queue found distinct
          · rename_i fresh
            refine ih _ _ found (List.nodup_append.mpr ⟨distinct, by simp, ?_⟩)
            intro old inside new added same
            exact fresh (List.mem_singleton.mp added ▸ same ▸ inside)

/-- The fuel of the walk empties its queue. -/
theorem walk_ends (arrows : List (α × α)) (starts : List α) :
    walk arrows (starts.length + arrows.length + 1) [] starts = some (reachableFrom arrows starts) := by
  have ends := walk_isSome arrows (starts.length + arrows.length + 1) [] starts (by simp [pending])
  obtain ⟨result, found⟩ := Option.isSome_iff_exists.mp ends
  rw [reachableFrom, found, Option.getD_some]

/-- The walk visits exactly the points that a path leads to from one of its starts. -/
theorem mem_reachableFrom (arrows : List (α × α)) (starts : List α) (point : α) :
    point ∈ reachableFrom arrows starts ↔
      ∃ start ∈ starts, Relation.ReflTransGen (Arrow arrows) start point := by
  rw [mem_walk arrows _ [] starts _ (walk_ends arrows starts) (by simp)]
  simp

end Queue

end MisraPlatform.Reachability
