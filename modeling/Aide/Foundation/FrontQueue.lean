import Mathlib.Data.List.Basic
import Mathlib.Tactic.Common

/-!
Queues that are filled at the back and emptied at the front: a release takes elements from the front as
long as they are ripe.
-/

namespace FrontQueue
variable {α κ : Type*}

theorem takeWhile_of_front {p : α → Bool} {queue : List α}
    (front : queue.Pairwise fun a b => p b = true → p a = true) :
    queue.takeWhile p = queue.filter p := by
  induction queue with
  | nil => rfl
  | cons a queue ih =>
    obtain ⟨before, rest⟩ := List.pairwise_cons.mp front
    by_cases first : p a = true
    · rw [List.takeWhile_cons_of_pos first, List.filter_cons_of_pos first, ih rest]
    · have none : ∀ b ∈ queue, ¬ p b = true := fun b member later => first (before b member later)
      rw [List.takeWhile_cons_of_neg first, List.filter_cons_of_neg first,
        List.filter_eq_nil_iff.mpr none]

theorem dropWhile_of_front {p : α → Bool} {queue : List α}
    (front : queue.Pairwise fun a b => p b = true → p a = true) :
    queue.dropWhile p = queue.filter fun a => !p a := by
  induction queue with
  | nil => rfl
  | cons a queue ih =>
    obtain ⟨before, rest⟩ := List.pairwise_cons.mp front
    by_cases first : p a = true
    · rw [List.dropWhile_cons_of_pos first, ih rest, List.filter_cons_of_neg (by simp [first])]
    · have all : ∀ b ∈ a :: queue, (!p b) = true := by
        intro b member
        rcases List.mem_cons.mp member with rfl | later
        · simp [first]
        · simpa using fun ripe => first (before b later ripe)
      rw [List.dropWhile_cons_of_neg first, List.filter_eq_self.mpr all]

/-- An element is pushed, or the elements that are ripe for a key are released. -/
inductive Call (α κ : Type*)
  | push (a : α)
  | release (key : κ)

def Call.pushed : Call α κ → Option α
  | .push a => some a
  | .release _ => none

/-- What the calls release, each element with the key of its call, and what they leave. -/
def run (ripe : κ → α → Bool) : List α → List (Call α κ) → List (κ × α) × List α
  | queue, [] => ([], queue)
  | queue, .push a :: calls => run ripe (queue ++ [a]) calls
  | queue, .release key :: calls =>
    ((queue.takeWhile (ripe key)).map (fun a => (key, a)) ++
      (run ripe (queue.dropWhile (ripe key)) calls).1,
      (run ripe (queue.dropWhile (ripe key)) calls).2)

variable {ripe : κ → α → Bool} {queue : List α} {calls more : List (Call α κ)}

/-- First in, first out: what was pushed is what has been released and then what is left. -/
theorem released_append_left :
    (run ripe queue calls).1.map Prod.snd ++ (run ripe queue calls).2 =
      queue ++ calls.filterMap Call.pushed := by
  induction calls generalizing queue with
  | nil => exact (List.append_nil _).symm
  | cons call calls ih =>
    cases call with
    | push a =>
      rw [run, ih, List.append_assoc]
      rfl
    | release key =>
      have events : ((queue.takeWhile (ripe key)).map fun a => (key, a)).map Prod.snd =
          queue.takeWhile (ripe key) := by
        simp [Function.comp_def]
      rw [run, List.map_append, events, List.append_assoc, ih, ← List.append_assoc,
        List.takeWhile_append_dropWhile]
      rfl

/-- What is released is ripe. -/
theorem ripe_of_released {out : κ × α} (released : out ∈ (run ripe queue calls).1) :
    ripe out.1 out.2 = true := by
  induction calls generalizing queue with
  | nil => cases released
  | cons call calls ih =>
    cases call with
    | push a => exact ih released
    | release key =>
      rcases List.mem_append.mp released with now | later
      · obtain ⟨a, taken, rfl⟩ := List.mem_map.mp now
        exact List.all_eq_true.mp List.all_takeWhile a taken
      · exact ih later

theorem left_append :
    (run ripe queue (calls ++ more)).2 = (run ripe (run ripe queue calls).2 more).2 := by
  induction calls generalizing queue with
  | nil => rfl
  | cons call calls ih => cases call <;> exact ih

/-- Where the elements were pushed in an order in which they get ripe, none that is ripe is left by a
release. -/
theorem not_ripe_of_left {key : κ} {a : α}
    (front : (queue ++ calls.filterMap Call.pushed).Pairwise fun a b =>
      ripe key b = true → ripe key a = true)
    (left : a ∈ (run ripe queue (calls ++ [.release key])).2) : ¬ ripe key a = true := by
  rw [← @released_append_left _ _ ripe] at front
  rw [left_append, run, run, dropWhile_of_front (List.pairwise_append.mp front).2.1] at left
  simpa using (List.mem_filter.mp left).2

end FrontQueue
