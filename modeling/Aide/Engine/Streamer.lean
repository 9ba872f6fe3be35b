import Aide.Engine.Chain

namespace Aide.Engine

/-- What the streamer releases to the match runner. -/
inductive EngineEvent
  | orderPlaced (block orderId companyId : ℕ) (maker : Address) (side : Side)
      (priceRay amount timestamp : ℕ)
  | orderCancelled (block companyId orderId : ℕ)
  | tradeSettled (block companyId : ℕ) (buyer seller : Address) (vstkAmount aitNotional : ℕ)
  | newBlock (number : ℕ)
  deriving DecidableEq

def EngineEvent.isMarket : EngineEvent → Bool
  | .newBlock _ => false
  | _ => true

/-- Events wait for their confirmations in the order in which they were pushed. -/
structure BlockBuffer where
  confirmations : ℕ
  queue : List (ℕ × EngineEvent)

namespace BlockBuffer

def new (confirmations : ℕ) : BlockBuffer := ⟨confirmations, []⟩

def push (buf : BlockBuffer) (block : ℕ) (ev : EngineEvent) : BlockBuffer :=
  { buf with queue := buf.queue ++ [(block, ev)] }

/-- The loop of `drain_confirmed`: what it pops, and what it leaves. -/
def drain (confirmations head : ℕ) :
    List (ℕ × EngineEvent) → List EngineEvent × List (ℕ × EngineEvent)
  | [] => ([], [])
  | (block, ev) :: rest =>
    if block + confirmations ≤ head then
      let (out, left) := drain confirmations head rest
      (ev :: out, left)
    else
      ([], (block, ev) :: rest)

def drainConfirmed (buf : BlockBuffer) (head : ℕ) : List EngineEvent × BlockBuffer :=
  let (out, queue) := drain buf.confirmations head buf.queue
  (out, { buf with queue })

/-- An entry has its confirmations. -/
def confirmed (confirmations head : ℕ) (entry : ℕ × EngineEvent) : Bool :=
  decide (entry.1 + confirmations ≤ head)

/-- What is drained is in front of the first entry that has not. -/
theorem drain_eq (confirmations head : ℕ) (queue : List (ℕ × EngineEvent)) :
    drain confirmations head queue =
      ((queue.takeWhile (confirmed confirmations head)).map Prod.snd,
        queue.dropWhile (confirmed confirmations head)) := by
  induction queue with
  | nil => rfl
  | cons entry rest ih =>
    by_cases late : entry.1 + confirmations ≤ head
    · have ripe : confirmed confirmations head entry = true := decide_eq_true late
      rw [drain, if_pos late, ih, List.takeWhile_cons_of_pos ripe, List.dropWhile_cons_of_pos ripe]
      rfl
    · have unripe : ¬ confirmed confirmations head entry = true := by simpa [confirmed] using late
      rw [drain, if_neg late, List.takeWhile_cons_of_neg unripe, List.dropWhile_cons_of_neg unripe]
      rfl

end BlockBuffer

/-- The locals of `run_event_streamer`. -/
structure Streamer where
  buf : BlockBuffer
  orderCompany : ℕ → Option ℕ

namespace Streamer

def new : Streamer := ⟨.new 3, fun _ => none⟩

/-- One pass of the streamer's loop, with what it sends to the match runner. -/
def receive (s : Streamer) : MarketChainEvent → Streamer × List EngineEvent
  | .newHead number =>
    let (confirmed, buf) := s.buf.drainConfirmed number
    ({ s with buf }, confirmed ++ [.newBlock number])
  | .orderPlaced blockNumber orderId companyId maker side priceRay amount timestamp _ =>
    let ev := .orderPlaced blockNumber orderId companyId maker side priceRay amount timestamp
    let orderCompany := Function.update s.orderCompany orderId (some companyId)
    ({ buf := s.buf.push blockNumber ev, orderCompany }, [])
  | .tradeSettled blockNumber companyId _ _ buyer seller vstkAmount aitNotional _ _ =>
    let ev := .tradeSettled blockNumber companyId buyer seller vstkAmount aitNotional
    ({ s with buf := s.buf.push blockNumber ev }, [])
  | .orderCancelled blockNumber orderId _ =>
    let companyId := (s.orderCompany orderId).getD 0
    let s := { s with orderCompany := Function.update s.orderCompany orderId none }
    if companyId = 0 then
      (s, [])
    else
      ({ s with buf := s.buf.push blockNumber (.orderCancelled blockNumber companyId orderId) }, [])

end Streamer

/-- The order that a log places or cancels. -/
def MarketChainEvent.order : MarketChainEvent → Option ℕ
  | .orderPlaced _ orderId .. => some orderId
  | .orderCancelled _ orderId _ => some orderId
  | _ => none

/-- The company in which a log places an order. -/
def MarketChainEvent.company : MarketChainEvent → ℕ
  | .orderPlaced _ _ companyId .. => companyId
  | _ => 0

/-- The company in which the last log about an order places it, if it does. -/
def openCompany (logs : List MarketChainEvent) (orderId : ℕ) : ℕ :=
  ((logs.filter (·.order = some orderId)).getLast?.map MarketChainEvent.company).getD 0

/-- Every log can be followed except the cancellation of an order that is not open. -/
def Known (before : List MarketChainEvent) : MarketChainEvent → Prop
  | .orderCancelled _ orderId _ => openCompany before orderId ≠ 0
  | _ => True

instance (before : List MarketChainEvent) : DecidablePred (Known before)
  | .newHead _ => isTrue trivial
  | .orderPlaced .. => isTrue trivial
  | .tradeSettled .. => isTrue trivial
  | .orderCancelled _ orderId _ => inferInstanceAs (Decidable (openCompany before orderId ≠ 0))

/-- The logs that can be followed, after those before them. -/
def knownLogs (before : List MarketChainEvent) : List MarketChainEvent → List MarketChainEvent
  | [] => []
  | log :: rest => (if Known before log then [log] else []) ++ knownLogs (before ++ [log]) rest

theorem openCompany_append (logs : List MarketChainEvent) (log : MarketChainEvent) (orderId : ℕ) :
    openCompany (logs ++ [log]) orderId =
      if log.order = some orderId then log.company else openCompany logs orderId := by
  unfold openCompany
  rw [List.filter_append]
  split
  · rename_i about
    simp [about]
  · rename_i other
    simp [other]

theorem knownLogs_append (before logs more : List MarketChainEvent) :
    knownLogs before (logs ++ more) = knownLogs before logs ++ knownLogs (before ++ logs) more := by
  induction logs generalizing before with
  | nil => simp [knownLogs]
  | cons log logs ih => simp [knownLogs, ih]

theorem knownLogs_subset (before logs : List MarketChainEvent) : knownLogs before logs ⊆ logs := by
  induction logs generalizing before with
  | nil => exact List.Subset.refl _
  | cons log logs ih =>
    intro event member
    rw [knownLogs, List.mem_append] at member
    rcases member with first | rest
    · split at first
      · exact List.mem_singleton.mp first ▸ List.mem_cons_self ..
      · cases first
    · exact List.mem_cons_of_mem _ (ih _ rest)

/-- An engine event carries what a log says. -/
inductive Carries : EngineEvent → MarketChainEvent → Prop
  | orderPlaced {block orderId companyId : ℕ} {maker : Address} {side : Side}
      {priceRay amount timestamp engineHint : ℕ} :
      Carries (.orderPlaced block orderId companyId maker side priceRay amount timestamp)
        (.orderPlaced block orderId companyId maker side priceRay amount timestamp engineHint)
  | tradeSettled {block companyId takerOrderId makerOrderId : ℕ} {buyer seller : Address}
      {vstkAmount aitNotional fee : ℕ} {settlementId : Bytes32} :
      Carries (.tradeSettled block companyId buyer seller vstkAmount aitNotional)
        (.tradeSettled block companyId takerOrderId makerOrderId buyer seller vstkAmount aitNotional
          fee settlementId)
  | orderCancelled {block companyId orderId : ℕ} {maker : Address} :
      Carries (.orderCancelled block companyId orderId) (.orderCancelled block orderId maker)

/-- An entry of the buffer that waits under the block of the log it carries. -/
def Buffers (entry : ℕ × EngineEvent) (event : MarketChainEvent) : Prop :=
  entry.1 = event.block ∧ Carries entry.2 event

open List (Forall₂)

/-- Confirmed logs in front of unconfirmed ones are what is drained. -/
theorem drain_confirmed (confirmations head : ℕ) {ripe unripe : List MarketChainEvent}
    {queue : List (ℕ × EngineEvent)} (waits : Forall₂ Buffers queue (ripe ++ unripe))
    (confirmed : ∀ event ∈ ripe, event.block + confirmations ≤ head)
    (unconfirmed : ∀ event ∈ unripe, ¬ event.block + confirmations ≤ head) :
    ∃ out left, BlockBuffer.drain confirmations head queue = (out, left) ∧
      Forall₂ Carries out ripe ∧ Forall₂ Buffers left unripe := by
  induction ripe generalizing queue with
  | nil =>
    cases waits with
    | nil => exact ⟨[], [], rfl, .nil, .nil⟩
    | @cons entry event rest later buffers waits =>
      refine ⟨[], entry :: rest, ?_, .nil, .cons buffers waits⟩
      have early := unconfirmed event (List.mem_cons_self ..)
      rw [← buffers.1] at early
      exact if_neg early
  | cons event ripe ih =>
    cases waits with
    | @cons entry _ rest _ buffers waits =>
      obtain ⟨out, left, drained, carries, waiting⟩ :=
        ih waits fun other member => confirmed other (List.mem_cons_of_mem _ member)
      have late := confirmed event (List.mem_cons_self ..)
      rw [← buffers.1] at late
      refine ⟨entry.2 :: out, left, ?_, .cons buffers.2 carries, waiting⟩
      rw [BlockBuffer.drain, if_pos late, drained]

theorem filter_isMarket {out : List EngineEvent} {logs : List MarketChainEvent}
    (carries : Forall₂ Carries out logs) : out.filter EngineEvent.isMarket = out := by
  induction carries with
  | nil => rfl
  | cons first _ ih => cases first <;> exact congrArg _ ih

/-- The map of the streamer holds the open orders of the logs that were received. -/
def Streamer.Tracks (s : Streamer) (received : List MarketChainEvent) : Prop :=
  ∀ orderId, (s.orderCompany orderId).getD 0 = openCompany received orderId

namespace Streamer
variable {s : Streamer} {received : List MarketChainEvent} {event : MarketChainEvent}

theorem tracks_receive (tracks : s.Tracks received) (isLog : event.isLog = true) :
    (s.receive event).1.Tracks (received ++ [event]) := by
  intro orderId
  rw [openCompany_append, ← tracks orderId]
  cases event with
  | newHead number => cases isLog
  | tradeSettled => rfl
  | orderPlaced _ placed =>
    by_cases same : placed = orderId
    · subst same
      simp [receive, MarketChainEvent.order, MarketChainEvent.company]
    · simp [receive, MarketChainEvent.order, same, Ne.symm same]
  | orderCancelled blockNumber cancelled maker =>
    have map : (s.receive (.orderCancelled blockNumber cancelled maker)).1.orderCompany =
        Function.update s.orderCompany cancelled none := by
      rw [receive]
      split <;> rfl
    rw [map]
    by_cases same : cancelled = orderId
    · subst same
      simp [MarketChainEvent.order, MarketChainEvent.company]
    · simp [MarketChainEvent.order, same, Ne.symm same]

/-- A log is buffered behind those before it, unless it cannot be followed. -/
theorem receive_log (tracks : s.Tracks received) (isLog : event.isLog = true) :
    ∃ entries, Forall₂ Buffers entries (if Known received event then [event] else []) ∧
      (s.receive event).1.buf = { s.buf with queue := s.buf.queue ++ entries } ∧
      (s.receive event).2 = [] := by
  cases event with
  | newHead number => cases isLog
  | orderPlaced => exact ⟨[_], .cons ⟨rfl, .orderPlaced⟩ .nil, rfl, rfl⟩
  | tradeSettled => exact ⟨[_], .cons ⟨rfl, .tradeSettled⟩ .nil, rfl, rfl⟩
  | orderCancelled blockNumber orderId maker =>
    have company := tracks orderId
    by_cases unknown : (s.orderCompany orderId).getD 0 = 0
    · refine ⟨[], ?_, ?_⟩
      · rw [if_neg (fun known => known (company.symm.trans unknown))]
        exact .nil
      · simp [receive, unknown]
    · refine ⟨[(blockNumber, .orderCancelled blockNumber ((s.orderCompany orderId).getD 0) orderId)],
        ?_, ?_⟩
      · have known : Known received (.orderCancelled blockNumber orderId maker) :=
          fun none => unknown (company.trans none)
        rw [if_pos known]
        exact .cons ⟨rfl, .orderCancelled⟩ .nil
      · simp [receive, unknown, BlockBuffer.push]

end Streamer

end Aide.Engine
