import Aide.Contracts.World
import Mathlib.Data.List.Range

namespace Aide.Engine

/-- What the listener sends to the streamer: a head it has read, or a log of the market. -/
inductive MarketChainEvent
  | newHead (number : ℕ)
  | orderPlaced (blockNumber orderId companyId : ℕ) (maker : Address) (side : Side)
      (priceRay amount timestamp engineHint : ℕ)
  | tradeSettled (blockNumber companyId takerOrderId makerOrderId : ℕ) (buyer seller : Address)
      (vstkAmount aitNotional fee : ℕ) (settlementId : Bytes32)
  | orderCancelled (blockNumber orderId : ℕ) (maker : Address)
  deriving DecidableEq

def MarketChainEvent.isLog : MarketChainEvent → Bool
  | .newHead _ => false
  | _ => true

def MarketChainEvent.block : MarketChainEvent → ℕ
  | .newHead number => number
  | .orderPlaced blockNumber .. => blockNumber
  | .tradeSettled blockNumber .. => blockNumber
  | .orderCancelled blockNumber .. => blockNumber

/-- Logs of other events are passed over. -/
def processLog (blockNumber : ℕ) : Event → Option MarketChainEvent
  | .orderPlaced orderId companyId maker side priceRay amount timestamp engineHint =>
    some (.orderPlaced blockNumber orderId companyId maker side priceRay amount timestamp engineHint)
  | .tradeSettled companyId takerOrderId makerOrderId buyer seller vstkAmount aitNotional fee id =>
    some (.tradeSettled blockNumber companyId takerOrderId makerOrderId buyer seller vstkAmount
      aitNotional fee id)
  | .orderCancelled orderId maker => some (.orderCancelled blockNumber orderId maker)
  | _ => none

theorem processLog_isLog {blockNumber : ℕ} {log : Event} {event : MarketChainEvent}
    (decoded : processLog blockNumber log = some event) :
    event.isLog = true ∧ event.block = blockNumber := by
  unfold processLog at decoded
  split at decoded <;> cases decoded <;> exact ⟨rfl, rfl⟩

/-- The canonical chain, as far as the market is concerned: its logs block by block. -/
structure Chain where
  blocks : List (List Event)

namespace Chain

def head (chain : Chain) : ℕ := chain.blocks.length - 1

def getLogs (chain : Chain) (number : ℕ) : List Event := (chain.blocks[number]?).getD []

/-- The last `depth` blocks are replaced by others. At depth zero the chain just grows. -/
def replace (chain : Chain) (depth : ℕ) (blocks : List (List Event)) : Chain :=
  ⟨chain.blocks.take (chain.blocks.length - depth) ++ blocks⟩

/-- The logs of one block that the listener decodes. -/
def decoded (chain : Chain) (number : ℕ) : List MarketChainEvent :=
  (chain.getLogs number).filterMap (processLog number)

/-- The decoded logs of the blocks after `lo` and up to `hi`. -/
def logs (chain : Chain) (lo hi : ℕ) : List MarketChainEvent :=
  (List.range' (lo + 1) (hi - lo)).flatMap chain.decoded

variable {chain other : Chain} {lo mid hi number : ℕ} {event : MarketChainEvent}

theorem mem_decoded (member : event ∈ chain.decoded number) :
    event.isLog = true ∧ event.block = number := by
  obtain ⟨log, _, decoded⟩ := List.mem_filterMap.mp member
  exact processLog_isLog decoded

theorem mem_logs (member : event ∈ chain.logs lo hi) :
    event.isLog = true ∧ lo < event.block ∧ event.block ≤ hi := by
  obtain ⟨number, inRange, decoded⟩ := List.mem_flatMap.mp member
  obtain ⟨isLog, rfl⟩ := mem_decoded decoded
  rw [List.mem_range'_1] at inRange
  exact ⟨isLog, by omega, by omega⟩

@[simp] theorem logs_self : chain.logs lo lo = [] := by simp [logs]

theorem logs_append (chain : Chain) (first : lo ≤ mid) (second : mid ≤ hi) :
    chain.logs lo mid ++ chain.logs mid hi = chain.logs lo hi := by
  unfold logs
  rw [← List.flatMap_append, show mid + 1 = lo + 1 + (mid - lo) by omega, List.range'_append_1,
    show mid - lo + (hi - mid) = hi - lo by omega]

theorem logs_succ (scanned : lo ≤ hi) :
    chain.logs lo (hi + 1) = chain.logs lo hi ++ chain.decoded (hi + 1) := by
  rw [← logs_append _ scanned (Nat.le_add_right hi 1)]
  simp [logs]

/-- Blocks that keep their logs keep what is decoded from them. -/
theorem logs_congr (same : ∀ number, lo < number → number ≤ hi →
    other.getLogs number = chain.getLogs number) : other.logs lo hi = chain.logs lo hi := by
  unfold logs
  refine List.flatMap_congr fun number inRange => ?_
  rw [List.mem_range'_1] at inRange
  rw [decoded, decoded, same number (by omega) (by omega)]

theorem head_le_replace (chain : Chain) (blocks : List (List Event)) :
    chain.head ≤ (chain.replace 0 blocks).head := by
  simp only [head, replace, Nat.sub_zero, List.take_length, List.length_append]
  omega

theorem getLogs_replace (blocks : List (List Event)) (mined : number < chain.blocks.length) :
    (chain.replace 0 blocks).getLogs number = chain.getLogs number := by
  simp only [getLogs, replace, Nat.sub_zero, List.take_length, List.getElem?_append_left mined]

end Chain

/-- The cursor of the listener, and the head up to which it is scanning. -/
structure Listener where
  cursor : ℕ
  head : ℕ

/-- A listener without a block to start from starts right before the head. -/
def Listener.started (fromBlock head : ℕ) : Listener where
  cursor := if 0 < fromBlock then fromBlock else head - 1
  head := 0

end Aide.Engine
