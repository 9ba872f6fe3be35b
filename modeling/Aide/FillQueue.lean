import Aide.Engine.Settler

namespace Aide.Engine

namespace QueueEvent

def fill : QueueEvent → Option Fill
  | received fill => some fill
  | timer => none

/-- The fills that the loop receives, in order. -/
def fills (events : List QueueEvent) : List Fill := events.filterMap fill

/-- How many fills have come since the timer last expired. -/
def sinceTimer (events : List QueueEvent) : ℕ :=
  (events.reverse.takeWhile fun e => e ≠ timer).length

variable {events : List QueueEvent} {f : Fill}

@[simp] theorem fills_received : fills (events ++ [received f]) = fills events ++ [f] := by
  simp [fills, fill]

@[simp] theorem fills_timer : fills (events ++ [timer]) = fills events := by
  simp [fills, fill]

@[simp] theorem sinceTimer_received :
    sinceTimer (events ++ [received f]) = sinceTimer events + 1 := by
  simp [sinceTimer]

@[simp] theorem sinceTimer_timer : sinceTimer (events ++ [timer]) = 0 := by
  simp [sinceTimer]

end QueueEvent

namespace SettlerQueue

open QueueEvent (fills sinceTimer)

theorem loop_append (events : List QueueEvent) (e : QueueEvent) :
    loop (events ++ [e]) = (loop events).step e := List.foldl_concat ..

/-- What has been received is what has been flushed and what is in the batch, and the batch is
flushed by the timer and by every 256th fill after it. -/
theorem loop_keeps (events : List QueueEvent) :
    (loop events).flushed.flatten ++ (loop events).batch = fills events ∧
      (loop events).batch.length = sinceTimer events % 256 := by
  induction events using List.reverseRecOn with
  | nil => exact ⟨rfl, rfl⟩
  | append_singleton events e ih =>
    obtain ⟨kept, size⟩ := ih
    rw [loop_append]
    cases e with
    | received f =>
      simp only [step, List.length_append, List.length_singleton, QueueEvent.fills_received,
        QueueEvent.sinceTimer_received]
      split
      · refine ⟨?_, ?_⟩
        · simp [flushBatch, ← kept]
        · simp only [flushBatch, List.length_nil]
          omega
      · refine ⟨?_, ?_⟩
        · simp [← kept]
        · simp only [List.length_append, List.length_singleton]
          omega
    | timer =>
      simp only [step, QueueEvent.fills_timer, QueueEvent.sinceTimer_timer]
      split
      · rename_i empty
        exact ⟨kept, by simpa using empty⟩
      · exact ⟨by simp [flushBatch, ← kept], rfl⟩

/-- Every fill reaches exactly one flush, in order, if and only if the number of fills since the
timer last expired is a multiple of 256 when the channel is closed. -/
theorem fills_flushed_iff (events : List QueueEvent) :
    (runSettlerQueue events).flatten = fills events ↔ 256 ∣ sinceTimer events := by
  obtain ⟨kept, size⟩ := loop_keeps events
  have flushed : (runSettlerQueue events).flatten = fills events ↔ (loop events).batch = [] := by
    rw [← kept]
    unfold runSettlerQueue
    exact ⟨fun same => (List.append_right_eq_self.mp same.symm), fun none => by rw [none, List.append_nil]⟩
  rw [flushed, ← List.length_eq_zero_iff, size, Nat.dvd_iff_mod_eq_zero]

/-- One fill is received and the channel is closed before the timer expires. -/
theorem last_batch_lost :
    ¬ ∀ events : List QueueEvent, (runSettlerQueue events).flatten = fills events := by
  intro always
  exact absurd (always [.received ⟨1, 1, 2, 3, 4, 5, 6⟩]) (by decide)

end SettlerQueue

end Aide.Engine
