import Aide.Engine.MatchRunner

namespace Aide.Engine

/-- The same event in block zero. -/
def EngineEvent.unblocked : EngineEvent → EngineEvent
  | .orderPlaced _ orderId companyId maker side priceRay amount timestamp =>
    .orderPlaced 0 orderId companyId maker side priceRay amount timestamp
  | .orderCancelled _ companyId orderId => .orderCancelled 0 companyId orderId
  | .tradeSettled _ companyId buyer seller vstkAmount aitNotional =>
    .tradeSettled 0 companyId buyer seller vstkAmount aitNotional
  | .newBlock number => .newBlock number

namespace MarketChainEvent

/-- The same log in block zero. -/
def unblocked : MarketChainEvent → MarketChainEvent
  | .newHead number => .newHead number
  | .orderPlaced _ orderId companyId maker side priceRay amount timestamp engineHint =>
    .orderPlaced 0 orderId companyId maker side priceRay amount timestamp engineHint
  | .tradeSettled _ companyId takerOrderId makerOrderId buyer seller vstkAmount aitNotional fee id =>
    .tradeSettled 0 companyId takerOrderId makerOrderId buyer seller vstkAmount aitNotional fee id
  | .orderCancelled _ orderId maker => .orderCancelled 0 orderId maker

/-- What a log changes in the map of the streamer. -/
def tracked (orderCompany : ℕ → Option ℕ) : MarketChainEvent → ℕ → Option ℕ
  | .orderPlaced _ orderId companyId .. => Function.update orderCompany orderId (some companyId)
  | .orderCancelled _ orderId _ => Function.update orderCompany orderId none
  | _ => orderCompany

/-- The events that the streamer buffers for a log, but for their block. -/
def relayed (orderCompany : ℕ → Option ℕ) : MarketChainEvent → List EngineEvent
  | .newHead _ => []
  | .orderPlaced _ orderId companyId maker side priceRay amount timestamp _ =>
    [.orderPlaced 0 orderId companyId maker side priceRay amount timestamp]
  | .tradeSettled _ companyId _ _ buyer seller vstkAmount aitNotional _ _ =>
    [.tradeSettled 0 companyId buyer seller vstkAmount aitNotional]
  | .orderCancelled _ orderId _ =>
    if (orderCompany orderId).getD 0 = 0 then []
    else [.orderCancelled 0 ((orderCompany orderId).getD 0) orderId]

end MarketChainEvent

/-- The map of the streamer after a list of logs. -/
def track (orderCompany : ℕ → Option ℕ) (logs : List MarketChainEvent) : ℕ → Option ℕ :=
  logs.foldl (fun orderCompany log => log.tracked orderCompany) orderCompany

/-- The events that the streamer buffers for a list of logs. -/
def relay : (ℕ → Option ℕ) → List MarketChainEvent → List EngineEvent
  | _, [] => []
  | orderCompany, log :: rest => log.relayed orderCompany ++ relay (log.tracked orderCompany) rest

/-- The events that wait in the buffer, but for their block. -/
def Streamer.waiting (s : Streamer) : List EngineEvent :=
  s.buf.queue.map fun entry => entry.2.unblocked

/-- The streamer takes a list of logs. -/
def Streamer.take (s : Streamer) (logs : List MarketChainEvent) : Streamer :=
  logs.foldl (fun streamer log => (streamer.receive log).1) s

variable {orderCompany : ℕ → Option ℕ} {logs more : List MarketChainEvent}

theorem track_append : track orderCompany (logs ++ more) = track (track orderCompany logs) more :=
  List.foldl_append

theorem relay_append :
    relay orderCompany (logs ++ more) =
      relay orderCompany logs ++ relay (track orderCompany logs) more := by
  induction logs generalizing orderCompany with
  | nil => rfl
  | cons log logs ih =>
    change log.relayed orderCompany ++ relay _ (logs ++ more) = _
    rw [ih, ← List.append_assoc]
    rfl

theorem relay_unblocked :
    relay orderCompany (logs.map MarketChainEvent.unblocked) = relay orderCompany logs ∧
      track orderCompany (logs.map MarketChainEvent.unblocked) = track orderCompany logs := by
  induction logs generalizing orderCompany with
  | nil => exact ⟨rfl, rfl⟩
  | cons log logs ih =>
    have relayed : log.unblocked.relayed orderCompany = log.relayed orderCompany := by
      cases log <;> rfl
    have tracked : log.unblocked.tracked orderCompany = log.tracked orderCompany := by
      cases log <;> rfl
    obtain ⟨events, map⟩ := @ih (log.tracked orderCompany)
    constructor
    · rw [List.map_cons, relay, relay, relayed, tracked, events]
    · change track (log.unblocked.tracked orderCompany) _ = track (log.tracked orderCompany) logs
      rw [tracked, map]

theorem unblocked_relay :
    (relay orderCompany logs).map EngineEvent.unblocked = relay orderCompany logs := by
  induction logs generalizing orderCompany with
  | nil => rfl
  | cons log logs ih =>
    rw [relay, List.map_append, ih]
    cases log with
    | newHead => rfl
    | orderPlaced => rfl
    | tradeSettled => rfl
    | orderCancelled block orderId maker =>
      by_cases unknown : (orderCompany orderId).getD 0 = 0
      · rw [MarketChainEvent.relayed, if_pos unknown]
        rfl
      · rw [MarketChainEvent.relayed, if_neg unknown]
        rfl

theorem map_unblocked (block : ℕ) (log : List Event) :
    (log.filterMap (processLog block)).map MarketChainEvent.unblocked =
      log.filterMap (processLog 0) := by
  rw [List.map_filterMap]
  refine List.filterMap_congr fun e _ => ?_
  unfold processLog
  cases e <;> rfl

/-- What is relayed does not depend on the blocks of the logs. -/
theorem relay_filterMap (block : ℕ) (log : List Event) :
    relay orderCompany (log.filterMap (processLog block)) =
        relay orderCompany (log.filterMap (processLog 0)) ∧
      track orderCompany (log.filterMap (processLog block)) =
        track orderCompany (log.filterMap (processLog 0)) := by
  rw [← map_unblocked block log]
  exact ⟨relay_unblocked.1.symm, relay_unblocked.2.symm⟩

namespace Streamer
variable {s : Streamer} {log : MarketChainEvent}

theorem receive_relayed (isLog : log.isLog = true) :
    (s.receive log).1.waiting = s.waiting ++ log.relayed s.orderCompany ∧
      (s.receive log).1.orderCompany = log.tracked s.orderCompany := by
  cases log with
  | newHead => cases isLog
  | orderPlaced => exact ⟨List.map_append, rfl⟩
  | tradeSettled => exact ⟨List.map_append, rfl⟩
  | orderCancelled block orderId maker =>
    by_cases unknown : (s.orderCompany orderId).getD 0 = 0
    · simp [receive, unknown, waiting, MarketChainEvent.relayed, MarketChainEvent.tracked]
    · simp [receive, unknown, waiting, BlockBuffer.push, MarketChainEvent.relayed,
        MarketChainEvent.tracked, EngineEvent.unblocked]

/-- The streamer buffers what is relayed for the logs it takes. -/
theorem take_relayed (areLogs : ∀ log ∈ logs, log.isLog = true) :
    (s.take logs).waiting = s.waiting ++ relay s.orderCompany logs ∧
      (s.take logs).orderCompany = track s.orderCompany logs := by
  induction logs generalizing s with
  | nil => exact ⟨(List.append_nil _).symm, rfl⟩
  | cons log logs ih =>
    obtain ⟨waits, map⟩ := @receive_relayed s log (areLogs log (List.mem_cons_self ..))
    obtain ⟨waitsRest, mapRest⟩ :=
      @ih (s.receive log).1 fun other member => areLogs other (List.mem_cons_of_mem _ member)
    constructor
    · change ((s.receive log).1.take logs).waiting = _
      rw [waitsRest, waits, map, relay, List.append_assoc]
    · exact mapRest.trans (by rw [map]; rfl)

end Streamer

namespace Chain
variable {chain : Chain}

/-- The logs of a chain, block by block. -/
theorem flatten_blocks (chain : Chain) :
    (List.range chain.blocks.length).flatMap chain.getLogs = chain.blocks.flatten := by
  have blocks : (List.range chain.blocks.length).map chain.getLogs = chain.blocks := by
    refine List.ext_getElem (by simp) fun number inRange inBlocks => ?_
    simp [getLogs, inBlocks]
  rw [List.flatMap_def, blocks]

/-- Numbers up to a bound that contribute nothing can be left out. -/
theorem flatMap_range_of_early {α : Type} {f : ℕ → List α} {bound : ℕ}
    (early : ∀ number ≤ bound, f number = []) (count : ℕ) :
    (List.range' (bound + 1) (count - 1 - bound)).flatMap f = (List.range count).flatMap f := by
  induction count with
  | zero => simp
  | succ count ih =>
    rw [List.range_succ, List.flatMap_append, ← ih, List.flatMap_singleton]
    by_cases before : count ≤ bound
    · rw [early count before, List.append_nil, show count + 1 - 1 - bound = 0 by omega,
        show count - 1 - bound = 0 by omega]
    · rw [show count + 1 - 1 - bound = count - 1 - bound + 1 by omega, List.range'_1_concat,
        List.flatMap_append, List.flatMap_singleton,
        show bound + 1 + (count - 1 - bound) = count by omega]

/-- A scan from in front of the first log relays the whole log. -/
theorem relay_logs {fromBlock : ℕ} (early : ∀ number ≤ fromBlock, chain.decoded number = []) :
    relay orderCompany (chain.logs fromBlock chain.head) =
      relay orderCompany (chain.blocks.flatten.filterMap (processLog 0)) := by
  have scanned : (chain.logs fromBlock chain.head).map MarketChainEvent.unblocked =
      chain.blocks.flatten.filterMap (processLog 0) := by
    unfold logs head
    rw [flatMap_range_of_early early, List.map_flatMap, ← chain.flatten_blocks,
      List.filterMap_flatMap]
    refine List.flatMap_congr fun number _ => map_unblocked number _
  rw [← scanned, relay_unblocked.1]

end Chain

end Aide.Engine
