import Aide.Engine.Streamer
import Aide.Foundation.FrontQueue

namespace Aide

open Engine List

namespace Engine

/-- What the streamer does with its buffer. -/
inductive BufferCall
  | push (block : ℕ) (ev : EngineEvent)
  | drainConfirmed (head : ℕ)

def BufferCall.pushed : BufferCall → Option (ℕ × EngineEvent)
  | .push block ev => some (block, ev)
  | .drainConfirmed _ => none

def BufferCall.toQueue : BufferCall → FrontQueue.Call (ℕ × EngineEvent) ℕ
  | .push block ev => .push (block, ev)
  | .drainConfirmed head => .release head

theorem filterMap_pushed (calls : List BufferCall) :
    (calls.map BufferCall.toQueue).filterMap FrontQueue.Call.pushed =
      calls.filterMap BufferCall.pushed := by
  rw [List.filterMap_map]
  congr 1
  funext call
  cases call <;> rfl

namespace BlockBuffer

/-- What the calls drain, each event with the head of its call, and the buffer that they leave. -/
def run : BlockBuffer → List BufferCall → List (ℕ × EngineEvent) × BlockBuffer
  | buf, [] => ([], buf)
  | buf, .push block ev :: calls => (buf.push block ev).run calls
  | buf, .drainConfirmed head :: calls =>
    ((buf.drainConfirmed head).1.map (fun ev => (head, ev)) ++ ((buf.drainConfirmed head).2.run calls).1,
      ((buf.drainConfirmed head).2.run calls).2)

theorem drainConfirmed_eq (buf : BlockBuffer) (head : ℕ) :
    buf.drainConfirmed head =
      ((buf.queue.takeWhile (confirmed buf.confirmations head)).map Prod.snd,
        { buf with queue := buf.queue.dropWhile (confirmed buf.confirmations head) }) := by
  rw [drainConfirmed, drain_eq]

/-- The buffer is a queue whose entries get ripe with their confirmations. -/
theorem run_eq (buf : BlockBuffer) (calls : List BufferCall) :
    buf.run calls =
      ((FrontQueue.run (confirmed buf.confirmations) buf.queue (calls.map BufferCall.toQueue)).1.map
          (fun out => (out.1, out.2.2)),
        { buf with
          queue := (FrontQueue.run (confirmed buf.confirmations) buf.queue
            (calls.map BufferCall.toQueue)).2 }) := by
  induction calls generalizing buf with
  | nil => rfl
  | cons call calls ih =>
    cases call with
    | push block ev => exact ih (buf.push block ev)
    | drainConfirmed head =>
      rw [run, ih, drainConfirmed_eq]
      simp [FrontQueue.run, BufferCall.toQueue, Function.comp_def]

variable {buf : BlockBuffer} {calls : List BufferCall}

theorem released_append_left :
    (FrontQueue.run (confirmed buf.confirmations) buf.queue (calls.map BufferCall.toQueue)).1.map Prod.snd ++
        (buf.run calls).2.queue =
      buf.queue ++ calls.filterMap BufferCall.pushed := by
  rw [run_eq, ← filterMap_pushed]
  exact FrontQueue.released_append_left

/-- What is drained and what waits is what was pushed. -/
theorem drained_append_left :
    (buf.run calls).1.map Prod.snd ++ (buf.run calls).2.queue.map Prod.snd =
      (buf.queue ++ calls.filterMap BufferCall.pushed).map Prod.snd := by
  rw [← released_append_left, List.map_append, List.map_map]
  congr 1
  rw [run_eq, List.map_map]
  rfl

/-- Each drained event is the next that was pushed, and the head of its call confirms it. -/
theorem drained_confirmed :
    Forall₂ (fun out entry => out.2 = entry.2 ∧ entry.1 + buf.confirmations ≤ out.1) (buf.run calls).1
      ((buf.queue ++ calls.filterMap BufferCall.pushed).take (buf.run calls).1.length) := by
  have drained := congrArg Prod.fst (run_eq buf calls)
  rw [← released_append_left, drained, List.length_map, ← List.length_map Prod.snd, List.take_left,
    List.forall₂_map_left_iff, List.forall₂_map_right_iff, List.forall₂_same]
  exact fun out member => ⟨rfl, of_decide_eq_true (FrontQueue.ripe_of_released member)⟩

/-- Where the heights do not go down, an event stays behind only if the head does not confirm it. -/
theorem unconfirmed_of_left {head : ℕ} {entry : ℕ × EngineEvent}
    (ordered : ((buf.queue ++ calls.filterMap BufferCall.pushed).map Prod.fst).Pairwise (· ≤ ·))
    (left : entry ∈ (buf.run (calls ++ [.drainConfirmed head])).2.queue) :
    head < entry.1 + buf.confirmations := by
  have front : (buf.queue ++ calls.filterMap BufferCall.pushed).Pairwise fun a b =>
      confirmed buf.confirmations head b = true → confirmed buf.confirmations head a = true := by
    refine (List.pairwise_map.mp ordered).imp fun {a b} below => ?_
    simp only [confirmed, decide_eq_true_eq]
    omega
  rw [← filterMap_pushed] at front
  rw [run_eq, List.map_append] at left
  have unripe := FrontQueue.not_ripe_of_left front left
  simpa [confirmed] using unripe

end BlockBuffer

end Engine

/-- The buffer lets the events through in the order in which they were pushed and each of them once. No
event comes out before it has its confirmations, and where the heights do not go down, none stays
behind that has them. -/
theorem buffer_in_order (confirmations : ℕ) (calls : List BufferCall) :
    ((BlockBuffer.new confirmations).run calls).1.map Prod.snd ++
        ((BlockBuffer.new confirmations).run calls).2.queue.map Prod.snd =
      (calls.filterMap BufferCall.pushed).map Prod.snd ∧
    Forall₂ (fun out entry => out.2 = entry.2 ∧ entry.1 + confirmations ≤ out.1)
      ((BlockBuffer.new confirmations).run calls).1
      ((calls.filterMap BufferCall.pushed).take ((BlockBuffer.new confirmations).run calls).1.length) ∧
    (((calls.filterMap BufferCall.pushed).map Prod.fst).Pairwise (· ≤ ·) →
      ∀ head, ∀ entry ∈ ((BlockBuffer.new confirmations).run (calls ++ [.drainConfirmed head])).2.queue,
        head < entry.1 + confirmations) := by
  refine ⟨@BlockBuffer.drained_append_left (.new confirmations) calls,
    @BlockBuffer.drained_confirmed (.new confirmations) calls, fun ordered head entry left => ?_⟩
  exact @BlockBuffer.unconfirmed_of_left (.new confirmations) calls head entry ordered left

/-- Two cancellations in blocks one after the other, and the head that confirms the first. -/
def twoBlocks : List BufferCall :=
  [.push 5 (.orderCancelled 5 7 1), .push 6 (.orderCancelled 6 7 2), .drainConfirmed 8]

theorem buffer_in_order_of_two_blocks :
    ∀ head, ∀ entry ∈ ((BlockBuffer.new 3).run (twoBlocks ++ [.drainConfirmed head])).2.queue,
      head < entry.1 + 3 :=
  (buffer_in_order 3 twoBlocks).2.2 (by decide)

/-- An event of an earlier block waits behind that of a later one. -/
example : ((BlockBuffer.new 3).run [.push 9 (.newBlock 9), .push 5 (.newBlock 5),
    .drainConfirmed 8]).2.queue.map Prod.fst = [9, 5] := rfl

end Aide
