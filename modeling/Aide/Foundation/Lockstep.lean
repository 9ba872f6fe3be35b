import Aide.Foundation.TransitionRun

/-- Two computations that fail together or reach results that `R` relates. -/
inductive Lockstep {ε α β : Type*} (R : α → β → Prop) : Except ε α → Except ε β → Prop
  | ok {a : α} {b : β} (related : R a b) : Lockstep R (.ok a) (.ok b)
  | error (left right : ε) : Lockstep R (.error left) (.error right)

namespace Lockstep
variable {ε : Type*}

theorem pure {α β : Type*} {R : α → β → Prop} {a : α} {b : β} (related : R a b) :
    Lockstep R (Pure.pure a : Except ε α) (Pure.pure b) :=
  ok related

/-- What the second computation reaches whatever the first does. -/
theorem and_right {α β : Type*} {R : α → β → Prop} {Q : β → Prop} {m : Except ε α} {n : Except ε β}
    (locked : Lockstep R m n) (reached : ∀ b, n = .ok b → Q b) :
    Lockstep (fun a b => R a b ∧ Q b) m n := by
  cases locked with
  | ok related => exact ok ⟨related, reached _ rfl⟩
  | error left right => exact error left right

theorem bind {α β γ δ : Type _} {R : α → β → Prop} {S : γ → δ → Prop} {m : Except ε α}
    {n : Except ε β} {f : α → Except ε γ} {g : β → Except ε δ} (first : Lockstep R m n)
    (rest : ∀ a b, R a b → Lockstep S (f a) (g b)) : Lockstep S (m >>= f) (n >>= g) := by
  cases first with
  | ok related => exact rest _ _ related
  | error left right => exact error left right

theorem of_ok {α β : Type*} {R : α → β → Prop} {m : Except ε α} {n : Except ε β}
    (left : ∀ a, m = .ok a → ∃ b, n = .ok b ∧ R a b) (right : ∀ b, n = .ok b → ∃ a, m = .ok a) :
    Lockstep R m n := by
  cases m with
  | ok a =>
    obtain ⟨b, rfl, related⟩ := left a rfl
    exact ok related
  | error e =>
    cases n with
    | ok b => exact absurd (right b rfl) (by simp)
    | error e' => exact error e e'

/-- A first part that both computations share. -/
theorem bind_same {α γ δ : Type _} {S : γ → δ → Prop} {m : Except ε α} {f : α → Except ε γ}
    {g : α → Except ε δ} (rest : ∀ a, m = .ok a → Lockstep S (f a) (g a)) :
    Lockstep S (m >>= f) (m >>= g) := by
  cases same : m with
  | ok a => exact rest a same
  | error e => exact error e e

/-- Attempted steps in lockstep keep what relates their states. -/
theorem after {σ τ α β : Type*} {R : σ → τ → Prop} {step : σ → α → Except ε σ}
    {stepOther : τ → β → Except ε τ} {s : σ} {t : τ} {a : α} {b : β}
    (locked : Lockstep R (step s a) (stepOther t b)) (related : R s t) :
    R (TransitionRun.after step s a) (TransitionRun.after stepOther t b) := by
  unfold TransitionRun.after
  generalize step s a = m, stepOther t b = n at locked ⊢
  cases locked with
  | ok related => exact related
  | error => exact related

end Lockstep
