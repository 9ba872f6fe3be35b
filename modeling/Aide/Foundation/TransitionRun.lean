import Mathlib.Data.List.Basic
import Mathlib.Tactic.Common

namespace TransitionRun
variable {σ α ε : Type*}

/-- One attempted step. A step that fails is rolled back. -/
def after (step : σ → α → Except ε σ) (s : σ) (a : α) : σ :=
  match step s a with
  | .ok next => next
  | .error _ => s

/-- The state in which a list of attempted steps ends. -/
def exec (step : σ → α → Except ε σ) (s : σ) (run : List α) : σ :=
  run.foldl (after step) s

/-- Every step of the run meets `P` in the state in which it is attempted. -/
def Meets (step : σ → α → Except ε σ) (P : σ → α → Prop) : σ → List α → Prop
  | _, [] => True
  | s, a :: rest => P s a ∧ Meets step P (after step s a) rest

instance decidableMeets (step : σ → α → Except ε σ) (P : σ → α → Prop) [∀ s a, Decidable (P s a)] :
    ∀ s run, Decidable (Meets step P s run)
  | _, [] => isTrue trivial
  | s, a :: rest => @instDecidableAnd _ _ _ (decidableMeets step P (after step s a) rest)

variable {step : σ → α → Except ε σ} {P Q : σ → α → Prop} {s next : σ} {a : α} {run rest : List α}

theorem after_ok (taken : step s a = .ok next) : after step s a = next := by
  simp only [after, taken]

theorem after_error {e : ε} (failed : step s a = .error e) : after step s a = s := by
  simp only [after, failed]

@[simp] theorem exec_nil : exec step s [] = s := rfl

@[simp] theorem exec_cons : exec step s (a :: rest) = exec step (after step s a) rest := rfl

theorem exec_append : exec step s (run ++ rest) = exec step (exec step s run) rest :=
  List.foldl_append

@[simp] theorem meets_nil : Meets step P s [] ↔ True := Iff.rfl

@[simp] theorem meets_cons :
    Meets step P s (a :: rest) ↔ P s a ∧ Meets step P (after step s a) rest := Iff.rfl

theorem meets_append :
    Meets step P s (run ++ rest) ↔ Meets step P s run ∧ Meets step P (exec step s run) rest := by
  induction run generalizing s with
  | nil => simp
  | cons a run ih => simp [ih, and_assoc]

theorem Meets.imp (weaker : ∀ s a, P s a → Q s a) (meets : Meets step P s run) :
    Meets step Q s run := by
  induction run generalizing s with
  | nil => trivial
  | cons a run ih => exact ⟨weaker s a meets.1, ih meets.2⟩

theorem Meets.of_forall (all : ∀ a ∈ run, ∀ s, P s a) : Meets step P s run := by
  induction run generalizing s with
  | nil => trivial
  | cons a run ih =>
    exact ⟨all a (List.mem_cons_self ..) s, ih fun b member => all b (List.mem_cons_of_mem _ member)⟩

theorem Meets.and (left : Meets step P s run) (right : Meets step Q s run) :
    Meets step (fun s a => P s a ∧ Q s a) s run := by
  induction run generalizing s with
  | nil => trivial
  | cons a run ih => exact ⟨⟨left.1, right.1⟩, ih left.2 right.2⟩

/-- A property of states that every taken step keeps is kept by one attempted step. -/
theorem after_preserves {I : σ → Prop} (keeps : ∀ next, step s a = .ok next → I next) (start : I s) :
    I (after step s a) := by
  cases taken : step s a with
  | ok next => rw [after_ok taken]; exact keeps next taken
  | error e => rw [after_error taken]; exact start

/-- The invariant rule. An invariant that holds at the start and that every taken step
meeting `P` keeps holds at the end of every run whose steps meet `P`. -/
theorem exec_preserves {I : σ → Prop}
    (keeps : ∀ s a next, I s → P s a → step s a = .ok next → I next)
    (start : I s) (meets : Meets step P s run) : I (exec step s run) := by
  induction run generalizing s with
  | nil => exact start
  | cons a run ih =>
    exact ih (after_preserves (fun next taken => keeps s a next start meets.1 taken) start) meets.2

/-- The rule for relations. What relates every taken step that meets `P` to its outcome relates a run
to its end. -/
theorem exec_relates {R : σ → σ → Prop} (refl : ∀ s, R s s)
    (trans : ∀ s between next, R s between → R between next → R s next)
    (relates : ∀ s a next, P s a → step s a = .ok next → R s next) (meets : Meets step P s run) :
    R s (exec step s run) :=
  exec_preserves (I := fun t => R s t)
    (fun t a next related meets taken => trans s t next related (relates t a next meets taken)) (refl s) meets

/-- The rule for exact conditions. Where an invariant of a state and of the run that is ahead of it makes two
properties of a step the same, and steps that have them keep it, all steps of a run have the one property
exactly if they all have the other. -/
theorem meets_congr {I : σ → List α → Prop}
    (same : ∀ s a rest, I s (a :: rest) → (P s a ↔ Q s a))
    (keeps : ∀ s a rest, I s (a :: rest) → P s a → I (after step s a) rest) (start : I s run) :
    Meets step P s run ↔ Meets step Q s run := by
  induction run generalizing s with
  | nil => exact Iff.rfl
  | cons a run ih =>
    rw [meets_cons, meets_cons, ← same s a run start]
    exact and_congr_right fun meets => ih (keeps s a run start meets)

/-- The rule for causes. What does not hold at the start and holds at the end was brought about by a
step of the run. -/
theorem exists_cause {Q : σ → Prop} {E : σ → α → Prop} (start : ¬ Q s)
    (gains : ∀ s a next, ¬ Q s → step s a = .ok next → Q next → E s a) (ends : Q (exec step s run)) :
    ∃ before a rest, run = before ++ a :: rest ∧ E (exec step s before) a := by
  induction run generalizing s with
  | nil => exact absurd ends start
  | cons a run ih =>
    by_cases gained : Q (after step s a)
    · refine ⟨[], a, run, rfl, ?_⟩
      cases taken : step s a with
      | ok next => exact gains s a next start taken (after_ok taken ▸ gained)
      | error e => exact absurd (after_error taken ▸ gained) start
    · obtain ⟨before, b, rest, rfl, cause⟩ := ih gained ends
      exact ⟨a :: before, b, rest, rfl, cause⟩

/-- The rule for effects that must not be repeated. An effect leaves a mark, marks are kept, and
where there is a mark a step that meets `P` has no effect. -/
theorem effective_once {E : σ → α → Prop} {mark : σ → Prop} {before between : List α}
    {first second : α} (marks : ∀ s a, E s a → mark (after step s a))
    (keeps : ∀ s a next, mark s → step s a = .ok next → mark next)
    (refuses : ∀ s a, mark s → P s a → ¬ E s a)
    (meets : Meets step P s (before ++ first :: between ++ second :: rest))
    (effective : E (exec step s before) first) :
    ¬ E (exec step s (before ++ first :: between)) second := by
  obtain ⟨meetsBefore, meetsAfter⟩ := meets_append.mp meets
  refine refuses _ _ ?_ meetsAfter.1
  rw [exec_append, exec_cons]
  exact exec_preserves (P := fun _ _ => True) (fun s a next marked _ taken => keeps s a next marked taken)
    (marks _ _ effective) (Meets.of_forall fun _ _ _ => trivial)

end TransitionRun
