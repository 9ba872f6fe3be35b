import Aide.Engine.Matching
import Aide.Foundation.BigEndian

namespace Aide.Engine

/-- The arguments of one call of `settleTrade`. -/
structure SettleTradeCall where
  makerOrderId : ℕ
  takerOrderId : ℕ
  vstkAmount : ℕ
  aitNotional : ℕ
  settlementId : Bytes32
  deriving DecidableEq

/-- The bytes that are hashed into a settlement id: the entropy of the batch, the place in the
batch and the two order ids. -/
def hdata (batchEntropy : Bytes32) (i : ℕ) (f : Fill) : List UInt8 :=
  beBytes 32 batchEntropy.toNat ++ beBytes 8 i ++ beBytes 8 f.makerOrderId ++ beBytes 8 f.takerOrderId

def batchFromFills (keccak256 : List UInt8 → Bytes32) (fills : List Fill) (batchEntropy : Bytes32) :
    List SettleTradeCall :=
  fills.zipIdx.map fun (f, i) => {
    makerOrderId := f.makerOrderId
    takerOrderId := f.takerOrderId
    vstkAmount := f.vstkAmount
    aitNotional := f.aitNotional
    settlementId := keccak256 (hdata batchEntropy i f) }

/-- Everything that is hashed for a batch. -/
def hashed (fills : List Fill) (batchEntropy : Bytes32) : List (List UInt8) :=
  fills.zipIdx.map fun (f, i) => hdata batchEntropy i f

theorem settlementIds (keccak256 : List UInt8 → Bytes32) (fills : List Fill)
    (batchEntropy : Bytes32) :
    (batchFromFills keccak256 fills batchEntropy).map SettleTradeCall.settlementId =
      (hashed fills batchEntropy).map keccak256 := by
  simp [batchFromFills, hashed]

/-- The last sixteen bytes are the order ids. -/
theorem hashed_orders (fills : List Fill) (batchEntropy : Bytes32) :
    (hashed fills batchEntropy).map (List.drop 40) =
      fills.map fun f => beBytes 8 f.makerOrderId ++ beBytes 8 f.takerOrderId := by
  have orders : ∀ (i : ℕ) (f : Fill), (hdata batchEntropy i f).drop 40 =
      beBytes 8 f.makerOrderId ++ beBytes 8 f.takerOrderId := by
    intro i f
    unfold hdata
    rw [List.append_assoc]
    exact List.drop_left' (by simp)
  have first := List.zipIdx_map_fst 0 fills
  unfold hashed
  rw [List.map_map]
  conv_rhs => rw [← first, List.map_map]
  refine List.map_congr_left fun entry _ => ?_
  obtain ⟨f, i⟩ := entry
  simp only [Function.comp_apply]
  rw [orders]

/-- What the loop of `run_settler_queue` waits for while the channel is open: a fill, or the time
at which the batch is due. -/
inductive QueueEvent
  | received (fill : Fill)
  | timer
  deriving DecidableEq

/-- The batch of the loop, and the batches that `flush_batch` has been called with. -/
structure SettlerQueue where
  batch : List Fill
  flushed : List (List Fill)

namespace SettlerQueue

def started : SettlerQueue := ⟨[], []⟩

/-- The call of `flush_batch`, which takes the whole batch. -/
def flushBatch (q : SettlerQueue) : SettlerQueue := ⟨[], q.flushed ++ [q.batch]⟩

def step (q : SettlerQueue) : QueueEvent → SettlerQueue
  | .received fill =>
    let q := { q with batch := q.batch ++ [fill] }
    if 256 ≤ q.batch.length then q.flushBatch else q
  | .timer => if q.batch.isEmpty then q else q.flushBatch

/-- The loop over some events. -/
def loop (events : List QueueEvent) : SettlerQueue := events.foldl step started

/-- The batches that are flushed before the task ends. The loop breaks when the channel is closed
and flushes nothing then. -/
def runSettlerQueue (events : List QueueEvent) : List (List Fill) := (loop events).flushed

end SettlerQueue

end Aide.Engine
