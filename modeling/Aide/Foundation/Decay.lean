import Aide.Foundation.TransitionRun
import Mathlib.Tactic.Ring

namespace TransitionRun
variable {σ α ε : Type*} {step : σ → α → Except ε σ} {P : σ → α → Prop} {s : σ} {run : List α}

/-- How many steps of a run lower a quantity. -/
def lowerings (step : σ → α → Except ε σ) (m : σ → ℕ) : σ → List α → ℕ
  | _, [] => 0
  | s, a :: rest => (if m (after step s a) < m s then 1 else 0) + lowerings step m (after step s a) rest

/-- The rule for decay. Where every step that lowers a quantity leaves the share `part / whole` of it, a run
leaves the power of that share. -/
theorem exec_decays {m : σ → ℕ} {I : σ → Prop} {part whole : ℕ}
    (keeps : ∀ s a next, I s → P s a → step s a = .ok next → I next ∧ m s * part ≤ m next * whole)
    (start : I s) (meets : Meets step P s run) :
    m s * part ^ lowerings step m s run ≤ m (exec step s run) * whole ^ lowerings step m s run := by
  induction run generalizing s with
  | nil => exact le_rfl
  | cons a run ih =>
    rw [exec_cons]
    have kept : I (after step s a) :=
      after_preserves (fun next taken => (keeps s a next start meets.1 taken).1) start
    have rest := ih kept meets.2
    rw [lowerings]
    generalize lowerings step m (after step s a) run = n at rest ⊢
    split
    · rename_i lowers
      have share : m s * part ≤ m (after step s a) * whole := by
        cases taken : step s a with
        | ok next =>
          rw [after_ok taken]
          exact (keeps s a next start meets.1 taken).2
        | error e =>
          rw [after_error taken] at lowers
          exact absurd lowers (lt_irrefl _)
      calc m s * part ^ (1 + n) = m s * part * part ^ n := by ring
        _ ≤ m (after step s a) * whole * part ^ n := Nat.mul_le_mul_right _ share
        _ = whole * (m (after step s a) * part ^ n) := by ring
        _ ≤ whole * (m (exec step (after step s a) run) * whole ^ n) := Nat.mul_le_mul_left _ rest
        _ = m (exec step (after step s a) run) * whole ^ (1 + n) := by ring
    · rename_i kept
      rw [Nat.zero_add]
      exact (Nat.mul_le_mul_right _ (not_lt.mp kept)).trans rest

end TransitionRun
