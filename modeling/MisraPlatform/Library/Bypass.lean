import MisraPlatform.Library.RoundRobin

/-
This file takes a key that changes no facts out of a flow.
-/

namespace MisraPlatform.RoundRobin

variable {κ α : Type} [DecidableEq κ]

/-- Every edge into the key goes to its only target instead. -/
structure Bypass (edge after : κ → κ → Prop) (gone target : κ) : Prop where
  leaves : ∀ key, edge gone key ↔ key = target
  other : target ≠ gone
  after : ∀ source key, after source key ↔ source ≠ gone ∧
    ∃ old, edge source old ∧ (if old = gone then target else old) = key

namespace Bypass

variable {edge after : κ → κ → Prop} {gone target : κ} (bypass : Bypass edge after gone target)

include bypass

theorem keeps {source key : κ} (leaving : source ≠ gone) (arriving : key ≠ gone)
    (step : edge source key) : after source key :=
  (bypass.after source key).mpr ⟨leaving, key, step, if_neg arriving⟩

theorem around {source : κ} (leaving : source ≠ gone) (step : edge source gone) :
    after source target :=
  (bypass.after source target).mpr ⟨leaving, gone, step, if_pos rfl⟩

/-- A new edge is an old one or replaces the way through the key. -/
theorem split {source key : κ} (step : after source key) : source ≠ gone ∧ key ≠ gone ∧
    (edge source key ∨ key = target ∧ edge source gone) := by
  obtain ⟨leaving, old, inside, same⟩ := (bypass.after source key).mp step
  by_cases through : old = gone
  · rw [if_pos through] at same
    subst through same
    exact ⟨leaving, bypass.other, .inr ⟨rfl, inside⟩⟩
  · rw [if_neg through] at same
    subst same
    exact ⟨leaving, through, .inl inside⟩

end Bypass

/-- The two flows have the same facts except at a key that adds and drops none. -/
structure Flow.Agrees (before after : Flow κ α) (gone : κ) : Prop where
  gen : ∀ key, key ≠ gone → ∀ fact, after.gen key fact ↔ before.gen key fact
  pass : ∀ key, key ≠ gone → ∀ old fact, after.pass key old fact ↔ before.pass key old fact
  silent : ∀ fact, ¬ before.gen gone fact
  through : ∀ old fact, before.pass gone old fact ↔ old = fact

variable {before after : Flow κ α} {gone target : κ}

/-- A flow along the edges derives the same facts without the key. -/
theorem Bypass.forward (bypass : Bypass before.edge after.edge gone target)
    (agrees : before.Agrees after gone) {key : κ} (kept : key ≠ gone) (fact : α) :
    after.Derives key fact ↔ before.Derives key fact := by
  constructor
  · intro derives
    induction derives with
    | @gen key fact generated => exact .gen ((agrees.gen key kept fact).mp generated)
    | @pass source key old fact _ step passes ih =>
        obtain ⟨leaving, _, direct | ⟨rfl, through⟩⟩ := bypass.split step
        · exact .pass (ih leaving) direct ((agrees.pass key kept old fact).mp passes)
        · have carried : before.Derives gone old :=
            .pass (ih leaving) through ((agrees.through old old).mpr rfl)
          exact .pass carried ((bypass.leaves key).mpr rfl) ((agrees.pass key kept old fact).mp passes)
  · intro derives
    have found : (key ≠ gone → after.Derives key fact) ∧ (key = gone →
        ∃ source, source ≠ gone ∧ before.edge source gone ∧ after.Derives source fact) := by
      clear kept
      induction derives with
      | @gen key fact generated =>
          refine ⟨fun kept => .gen ((agrees.gen key kept fact).mpr generated), ?_⟩
          rintro rfl
          exact absurd generated (agrees.silent fact)
      | @pass source key old fact _ step passes ih =>
          by_cases leaving : source = gone
          · subst leaving
            obtain rfl := (bypass.leaves key).mp step
            refine ⟨fun kept => ?_, fun same => absurd same bypass.other⟩
            obtain ⟨first, outside, into, known⟩ := ih.2 rfl
            exact .pass known (bypass.around outside into) ((agrees.pass key kept old fact).mpr passes)
          · refine ⟨fun kept => ?_, ?_⟩
            · exact .pass (ih.1 leaving) (bypass.keeps leaving kept step)
                ((agrees.pass key kept old fact).mpr passes)
            · rintro rfl
              obtain rfl := (agrees.through old fact).mp passes
              exact ⟨source, leaving, step, ih.1 leaving⟩
    exact found.1 kept

section Backward

variable (bypass : Bypass (flip before.edge) (flip after.edge) gone target)
  (agrees : before.Agrees after gone)

include bypass agrees

/-- A fact of the key is one of its target. -/
theorem Bypass.backward_rename {key : κ} {fact : α} (derives : before.Derives key fact) :
    after.Derives (if key = gone then target else key) fact := by
  induction derives with
  | @gen key fact generated =>
      by_cases same : key = gone
      · subst same
        exact absurd generated (agrees.silent fact)
      · rw [if_neg same]
        exact .gen ((agrees.gen key same fact).mpr generated)
  | @pass source key old fact _ step passes ih =>
      by_cases same : key = gone
      · subst same
        obtain rfl := (agrees.through old fact).mp passes
        obtain rfl := (bypass.leaves source).mp step
        rw [if_neg bypass.other] at ih
        rw [if_pos rfl]
        exact ih
      · rw [if_neg same]
        have passed := (agrees.pass key same old fact).mpr passes
        by_cases through : source = gone
        · subst through
          rw [if_pos rfl] at ih
          exact .pass ih (bypass.around same step) passed
        · rw [if_neg through] at ih
          exact .pass ih (bypass.keeps same through step) passed

/-- A flow against the edges derives the same facts without the key. -/
theorem Bypass.backward {key : κ} (kept : key ≠ gone) (fact : α) :
    after.Derives key fact ↔ before.Derives key fact := by
  constructor
  · intro derives
    induction derives with
    | @gen key fact generated => exact .gen ((agrees.gen key kept fact).mp generated)
    | @pass source key old fact _ step passes ih =>
        obtain ⟨_, leaving, direct | ⟨rfl, through⟩⟩ := bypass.split step
        · exact .pass (ih leaving) direct ((agrees.pass key kept old fact).mp passes)
        · have carried : before.Derives gone old :=
            .pass (ih leaving) ((bypass.leaves source).mpr rfl) ((agrees.through old old).mpr rfl)
          exact .pass carried through ((agrees.pass key kept old fact).mp passes)
  · intro derives
    have found := bypass.backward_rename agrees derives
    rw [if_neg kept] at found
    exact found

/-- The facts that come to another key are the same without the key. -/
theorem Bypass.backward_next {key : κ} (kept : key ≠ gone) (fact : α) :
    (∃ next, after.edge next key ∧ after.Derives next fact) ↔
      ∃ next, before.edge next key ∧ before.Derives next fact := by
  constructor
  · rintro ⟨next, step, derives⟩
    obtain ⟨_, leaving, direct | ⟨rfl, through⟩⟩ := bypass.split step
    · exact ⟨next, direct, (bypass.backward agrees leaving fact).mp derives⟩
    · exact ⟨gone, through, .pass ((bypass.backward agrees leaving fact).mp derives)
        ((bypass.leaves next).mpr rfl) ((agrees.through fact fact).mpr rfl)⟩
  · rintro ⟨next, step, derives⟩
    have found := bypass.backward_rename agrees derives
    by_cases through : next = gone
    · subst through
      rw [if_pos rfl] at found
      exact ⟨target, bypass.around kept step, found⟩
    · rw [if_neg through] at found
      exact ⟨next, bypass.keeps kept through step, found⟩

end Backward

/-- This flow marks the keys that a path from the start leads to. -/
def pathFlow (edge : κ → κ → Prop) (start : κ) : Flow κ Unit where
  edge := edge
  gen key _ := key = start
  pass _ _ _ := True

omit [DecidableEq κ] in
theorem pathFlow_derives (edge : κ → κ → Prop) (start key : κ) (mark : Unit) :
    (pathFlow edge start).Derives key mark ↔ Relation.ReflTransGen edge start key := by
  constructor
  · intro derives
    induction derives with
    | gen generated => exact generated ▸ .refl
    | pass _ step _ ih => exact ih.tail step
  · intro path
    induction path with
    | refl => exact .gen rfl
    | tail _ step ih => exact .pass ih step trivial

/-- A path between two other keys exists without the key exactly when it does with it. -/
theorem Bypass.path_iff {edge shorter : κ → κ → Prop} (bypass : Bypass edge shorter gone target)
    {start key : κ} (first : start ≠ gone) (kept : key ≠ gone) :
    Relation.ReflTransGen shorter start key ↔ Relation.ReflTransGen edge start key := by
  rw [← pathFlow_derives shorter start key (), ← pathFlow_derives edge start key ()]
  have agrees : (pathFlow edge start).Agrees (pathFlow shorter start) gone :=
    { gen := fun _ _ _ => Iff.rfl
      pass := fun _ _ _ _ => Iff.rfl
      silent := fun _ same => first same.symm
      through := fun _ _ => ⟨fun _ => rfl, fun _ => trivial⟩ }
  exact Bypass.forward bypass agrees kept ()

end MisraPlatform.RoundRobin
