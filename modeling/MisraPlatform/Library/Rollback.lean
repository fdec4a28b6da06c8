import Mathlib.Logic.Basic

/-
This file is the rules for computations that change a state and may raise, and the commit of their results.
-/

namespace MisraPlatform.Rollback

variable {ε σ α β : Type}

/-- Every result of the computation is related to the state that it started in. -/
def Ensures (computation : EStateM ε σ α) (related : σ → α → σ → Prop) : Prop :=
  ∀ before value after, computation before = .ok value after → related before value after

/-- Every error of the computation is related to the state that it started in. -/
def Refuses (computation : EStateM ε σ α) (related : σ → ε → σ → Prop) : Prop :=
  ∀ before error after, computation before = .error error after → related before error after

section Rules

variable {computation : EStateM ε σ α} {related : σ → α → σ → Prop}

theorem Ensures.weaken (ensures : Ensures computation related) {wider : σ → α → σ → Prop}
    (implied : ∀ before value after, related before value after → wider before value after) :
    Ensures computation wider :=
  fun before value after done => implied before value after (ensures before value after done)

theorem ensures_pure (value : α) :
    Ensures (pure value : EStateM ε σ α) fun before result after => result = value ∧ after = before := by
  intro before result after done
  cases done
  exact ⟨rfl, rfl⟩

theorem get_apply (state : σ) : (get : EStateM ε σ σ) state = .ok state state := rfl

theorem throw_apply (error : ε) (state : σ) : (throw error : EStateM ε σ α) state = .error error state := rfl

theorem modifyGet_apply (change : σ → α × σ) (state : σ) :
    (modifyGet change : EStateM ε σ α) state = .ok (change state).1 (change state).2 := rfl

theorem ensures_get : Ensures (get : EStateM ε σ σ) fun before result after => result = before ∧ after = before := by
  intro before result after done
  cases done
  exact ⟨rfl, rfl⟩

theorem ensures_throw (error : ε) : Ensures (throw error : EStateM ε σ α) related := by
  intro before result after done
  cases done

theorem Ensures.bind {next : α → EStateM ε σ β} {later : α → σ → β → σ → Prop}
    (first : Ensures computation related) (second : ∀ value, Ensures (next value) (later value)) :
    Ensures (computation >>= next) fun before result after =>
      ∃ value middle, related before value middle ∧ later value middle result after := by
  intro before result after done
  change EStateM.bind computation next before = _ at done
  unfold EStateM.bind at done
  split at done
  · rename_i value middle ran
    exact ⟨value, middle, first before value middle ran, second value middle result after done⟩
  · cases done

theorem bind_apply {next : α → EStateM ε σ β} {before middle : σ} {value : α}
    (ran : computation before = .ok value middle) : (computation >>= next) before = next value middle := by
  change EStateM.bind computation next before = _
  rw [EStateM.bind, ran]

/-- The rule for a sequence whose second part is described first. -/
theorem Ensures.before {next : α → EStateM ε σ β} (later : α → σ → β → σ → Prop) (first : Ensures computation related)
    (second : ∀ value, Ensures (next value) (later value)) :
    Ensures (computation >>= next) fun before result after =>
      ∃ value middle, related before value middle ∧ later value middle result after :=
  first.bind second

theorem Refuses.bind {next : α → EStateM ε σ β} {refused : σ → ε → σ → Prop} {later : α → σ → ε → σ → Prop}
    (first : Refuses computation refused) (started : Ensures computation related)
    (second : ∀ value, Refuses (next value) (later value)) :
    Refuses (computation >>= next) fun before error after =>
      refused before error after ∨ ∃ value middle, related before value middle ∧ later value middle error after := by
  intro before error after raised
  change EStateM.bind computation next before = _ at raised
  unfold EStateM.bind at raised
  split at raised
  · rename_i value middle ran
    exact .inr ⟨value, middle, started before value middle ran, second value middle error after raised⟩
  · rename_i ran
    cases raised
    exact .inl (first before error after ran)

theorem Refuses.weaken {refused wider : σ → ε → σ → Prop} (refuses : Refuses computation refused)
    (implied : ∀ before error after, refused before error after → wider before error after) :
    Refuses computation wider :=
  fun before error after raised => implied before error after (refuses before error after raised)

theorem refuses_pure {refused : σ → ε → σ → Prop} (value : α) : Refuses (pure value : EStateM ε σ α) refused := by
  intro before error after raised
  cases raised

theorem refuses_throw (error : ε) :
    Refuses (throw error : EStateM ε σ α) fun before raised after => raised = error ∧ after = before := by
  intro before raised after done
  cases done
  exact ⟨rfl, rfl⟩

/-- What the parts of a computation reach is reached by the whole. -/
theorem Ensures.trans {reach : σ → σ → Prop} (transitive : ∀ a b c, reach a b → reach b c → reach a c)
    {next : α → EStateM ε σ β} (first : Ensures computation fun before _ after => reach before after)
    (second : ∀ value, Ensures (next value) fun before _ after => reach before after) :
    Ensures (computation >>= next) fun before _ after => reach before after := by
  refine (first.bind second).weaken ?_
  rintro before result after ⟨value, middle, started, ended⟩
  exact transitive before middle after started ended

end Rules

section Commits

/-- The changes of a computation are committed, or they are rolled back where it raises. -/
def settle (computation : EStateM ε σ α) (stored : σ) : σ :=
  match computation stored with
  | .ok _ after => after
  | .error _ _ => stored

theorem settle_cases (computation : EStateM ε σ α) (stored : σ) :
    (∃ value, computation stored = .ok value (settle computation stored)) ∨
      (∃ error after, computation stored = .error error after) ∧ settle computation stored = stored := by
  rw [settle]
  cases ran : computation stored with
  | ok value after => exact .inl ⟨value, rfl⟩
  | error error after => exact .inr ⟨⟨error, after, rfl⟩, rfl⟩

end Commits

end MisraPlatform.Rollback
