import Aide.Foundation.TransitionRun

/-!
Effects that have to wait: a state keeps the time of the last effect, and zero where there was none.
-/

namespace TransitionRun
variable {σ α ε : Type*} {step : σ → α → Except ε σ} {P E : σ → α → Prop} {last : σ → ℕ}
  {time : α → ℕ} {interval limit : ℕ} {s : σ}

/-- Once an effect has set the time of the last one, no later attempt sets it back. -/
theorem last_after {between : List α} {t : ℕ}
    (sets : ∀ s a, P s a → E s a → last (after step s a) = time a)
    (keeps : ∀ s a, P s a → ¬ E s a → last (after step s a) = last s)
    (meets : Meets step P s between) (later : ∀ a ∈ between, t ≤ time a ∧ time a < limit)
    (start : t ≤ last s ∧ last s < limit) :
    t ≤ last (exec step s between) ∧ last (exec step s between) < limit := by
  induction between generalizing s with
  | nil => exact start
  | cons a between ih =>
    refine ih meets.2 (fun b member => later b (List.mem_cons_of_mem _ member)) ?_
    by_cases effect : E s a
    · rw [sets s a meets.1 effect]
      exact later a (List.mem_cons_self ..)
    · rw [keeps s a meets.1 effect]
      exact start

/-- The rule for a cooldown. Where an effect has to wait for an interval after the last one, any two
effects of a run are that far apart. -/
theorem effects_apart {before between rest : List α} {first second : α}
    (sets : ∀ s a, P s a → E s a → last (after step s a) = time a)
    (keeps : ∀ s a, P s a → ¬ E s a → last (after step s a) = last s)
    (waits : ∀ s a, P s a → E s a → last s < limit → last s = 0 ∨ last s + interval ≤ time a)
    (meets : Meets step P s (before ++ first :: between ++ second :: rest))
    (ordered : (before ++ first :: between ++ second :: rest).Pairwise fun a b => time a ≤ time b)
    (clock : ∀ a ∈ before ++ first :: between ++ second :: rest, 0 < time a ∧ time a < limit)
    (one : E (exec step s before) first)
    (other : E (exec step s (before ++ first :: between)) second) :
    time first + interval ≤ time second := by
  obtain ⟨meetsBefore, meetsSecond⟩ := meets_append.mp meets
  obtain ⟨_, meetsFirst⟩ := meets_append.mp meetsBefore
  have ticks := clock first (by simp)
  have set := sets _ _ meetsFirst.1 one
  have inOrder : (first :: between).Pairwise fun a b => time a ≤ time b :=
    (List.pairwise_append.mp (List.pairwise_append.mp ordered).1).2.1
  have later : ∀ a ∈ between, time first ≤ time a ∧ time a < limit := fun a member =>
    ⟨(List.pairwise_cons.mp inOrder).1 a member, (clock a (by simp [member])).2⟩
  have stays := last_after (t := time first) sets keeps meetsFirst.2 later ⟨by omega, by omega⟩
  rw [exec_append, exec_cons] at other
  rw [exec_append, exec_cons] at meetsSecond
  rcases waits _ _ meetsSecond.1 other stays.2 with never | waited
  · omega
  · omega

end TransitionRun
