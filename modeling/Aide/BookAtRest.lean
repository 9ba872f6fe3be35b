import Aide.Contracts.OrderLogs
import Aide.Engine.Pipeline
import Aide.Engine.Tally
import Aide.PriceTime

namespace Aide

open Engine NaiveBook

variable {τ : Type} {d : Deployment} {s next : Pipeline τ} {w : World τ} {block : ℕ}
  {books : ℕ → List OrderRecord}

namespace Engine.Pipeline

/-- Nothing is on its way. -/
structure AtRest (s : Pipeline τ) : Prop where
  noEvent : s.streamer.buf.queue = []
  noFill : s.fills = []

/-- The book of each company holds the active orders of the market, but for those in `dropped`,
each with what remains of it. -/
structure HoldsActive (s : Pipeline τ) (dropped : List ℕ) : Prop where
  sound : ∀ companyId id r, (s.state.engine.books companyId).orders id = some r →
    (s.world.market.orders id).active = true ∧ id ∉ dropped ∧
    (s.world.market.orders id).companyId = companyId ∧ (s.world.market.orders id).maker = r.maker ∧
    (s.world.market.orders id).side = r.side ∧ (s.world.market.orders id).priceRay = r.priceRay ∧
    (s.world.market.orders id).remaining = r.remaining
  complete : ∀ id, (s.world.market.orders id).active = true → id ∉ dropped →
    ((s.state.engine.books (s.world.market.orders id).companyId).orders id).isSome

def isTradeSettled : Event → Bool
  | .tradeSettled .. => true
  | _ => false

/-- The transaction that settles a fill succeeds and logs `TradeSettled`. -/
def settlesTrade [AitToken τ] (d : Deployment) (msg : Msg) (f : Fill) (settlementId : Bytes32) (w : World τ) :
    Bool :=
  match InternalMarket.settleTrade d msg f.makerOrderId f.takerOrderId f.vstkAmount f.aitNotional
      settlementId w with
  | .ok next => (next.log.drop w.log.length).any isTradeSettled
  | .error _ => false

/-- A fill that is sent is settled, and none is given up. -/
def Settles [AitToken τ] (d : Deployment) (s : Pipeline τ) : Action τ → Bool
  | .settle _ msg settlementId =>
    match s.fills with
    | [] => true
    | f :: _ => settlesTrade d msg f settlementId s.world
  | .exhaust => false
  | _ => true

def tally (s : Pipeline τ) (books : ℕ → List OrderRecord) : Tally where
  orders := s.world.market.orders
  nextOrderId := s.world.market.nextOrderId
  orderCompany := s.streamer.orderCompany
  queue := s.streamer.buf.queue
  fills := s.fills
  dropped := s.dropped
  books

/-- The engine refines a reference whose books are consistent with the market. -/
def Inv (s : Pipeline τ) : Prop :=
  ∃ naive, Refines s.state.engine naive ∧ (s.tally naive.books).Consistent

/-- A step of the market that neither touches orders nor logs anything about them. -/
theorem consistent_quiet {emitted : List Event} (consistent : (s.tally books).Consistent)
    (orders : w.market.orders = s.world.market.orders)
    (nextOrderId : w.market.nextOrderId = s.world.market.nextOrderId)
    (logs : w.log = s.world.log ++ emitted) (silent : emitted.filterMap (processLog block) = []) :
    ((s.follow block w).tally books).Consistent := by
  have same : (s.follow block w).tally books = s.tally books := by
    rw [follow_eq logs, silent, tally, tally, orders, nextOrderId]
    rfl
  rw [same]
  exact consistent

theorem processLog_silent {emitted : List Event} (silent : ∀ e ∈ emitted, e.aboutOrders = false) :
    emitted.filterMap (processLog block) = [] := by
  refine List.filterMap_eq_nil_iff.mpr fun e member => ?_
  have quiet := silent e member
  cases e <;> first | rfl | cases quiet

theorem consistent_placeOrder {msg : Msg} {companyId priceRay amount engineHint : ℕ} {side : Side}
    (consistent : (s.tally books).Consistent)
    (run : InternalMarket.placeOrder msg companyId side priceRay amount engineHint s.world = .ok w) :
    ((s.follow block w).tally books).Consistent := by
  obtain ⟨⟨company, _⟩, ⟨positive, _⟩, rfl⟩ := InternalMarket.placeOrder_effect run
  rw [follow_eq rfl]
  exact consistent.place msg.timestamp
    (o := { id := s.world.market.nextOrderId, companyId, maker := msg.sender, side, priceRay,
            remaining := amount, active := true }) rfl company (Nat.pos_of_ne_zero positive)

/-- The streamer knows the company of an order that is cancelled. -/
theorem consistent_cancelOrder {msg : Msg} {orderId : ℕ} (consistent : (s.tally books).Consistent)
    (run : InternalMarket.cancelOrder msg orderId s.world = .ok w) :
    ((s.follow block w).tally books).Consistent := by
  obtain ⟨active, rfl⟩ := InternalMarket.cancelOrder_effect run
  have known := consistent.active orderId active
  have cancelled := consistent.cancel block active
  rw [follow_eq rfl]
  have received : s.streamer.receive (.orderCancelled block orderId msg.sender) =
      ({ buf := s.streamer.buf.push block (.orderCancelled block
          (s.world.market.orders orderId).companyId orderId)
         orderCompany := Function.update s.streamer.orderCompany orderId none }, []) := by
    have company : s.streamer.orderCompany orderId =
        some (s.world.market.orders orderId).companyId := known.followed
    have positive : (s.world.market.orders orderId).companyId ≠ 0 := known.company
    simp [Streamer.receive, company, positive]
  simpa [tally, Tally.cancel, processLog, received, BlockBuffer.push] using cancelled

section Deliver
variable {naive : NaiveEngine} {state : SharedState} {rest : List (ℕ × EngineEvent)}

/-- What is left when the runner has taken the first event. -/
def delivered (s : Pipeline τ) (ev : EngineEvent) (rest : List (ℕ × EngineEvent)) : Pipeline τ :=
  { s with
    streamer := { s.streamer with buf := { s.streamer.buf with queue := rest } }
    state := (s.state.handle ev).state
    alive := (s.state.handle ev).alive
    fills := s.fills ++ (s.state.handle ev).sent
    dropped := droppedBy s.state ev ++ s.dropped }

theorem inv_cancelled {cancelledAt companyId orderId : ℕ} (inv : Inv s)
    (first : s.streamer.buf.queue = (block, .orderCancelled cancelledAt companyId orderId) :: rest) :
    Inv (s.delivered (.orderCancelled cancelledAt companyId orderId) rest) := by
  obtain ⟨naive, refines, consistent⟩ := inv
  obtain ⟨engine, runs, refinesNext⟩ := refines.ingestCancel companyId orderId
  have withdrawn := consistent.withdraw first
  refine ⟨(naive.exec (.ingestCancel companyId orderId)).2, ?_, ?_⟩
  · have same : (s.state.engine.ingestCancel companyId orderId).2 = engine :=
      congrArg Prod.snd (Except.ok.inj runs)
    change Refines (s.state.engine.ingestCancel companyId orderId).2 _
    rw [same]
    exact refinesNext
  · have books : (naive.exec (.ingestCancel companyId orderId)).2.books =
        Function.update naive.books companyId
          ((naive.books companyId).filter (·.orderId != orderId)) := by
      simp only [NaiveEngine.exec]
      split
      · rfl
      · rename_i absent
        have kept : (naive.books companyId).filter (·.orderId != orderId) = naive.books companyId := by
          refine List.filter_eq_self.mpr fun r rests => ?_
          simp only [bne_iff_ne]
          exact fun named => absent (List.any_eq_true.mpr ⟨r, rests, beq_iff_eq.mpr named⟩)
        rw [kept, Function.update_eq_self]
    rw [books]
    simpa [delivered, tally, Tally.withdraw, SharedState.handle, droppedBy] using withdrawn

theorem inv_dropped {placedAt orderId companyId priceRay amount timestamp : ℕ} {maker : Address}
    {side : Side} (inv : Inv s)
    (first : s.streamer.buf.queue = (block, .orderPlaced placedAt orderId companyId maker side
      priceRay amount timestamp) :: rest)
    (paused : (s.state.matchPaused || s.state.engine.matchingPaused) = true) :
    Inv (s.delivered (.orderPlaced placedAt orderId companyId maker side priceRay amount timestamp)
      rest) := by
  obtain ⟨naive, refines, consistent⟩ := inv
  have dropped := consistent.drop first rfl
  refine ⟨naive, ?_, ?_⟩
  · simpa [delivered, SharedState.handle, paused] using refines
  · simpa [delivered, tally, Tally.drop, SharedState.handle, droppedBy, paused] using dropped

theorem inv_matched {placedAt : ℕ} (incoming : OrderRecord) (inv : Inv s)
    (first : s.streamer.buf.queue = (block, .orderPlaced placedAt incoming.orderId incoming.companyId
      incoming.maker incoming.side incoming.priceRay incoming.remaining incoming.timestamp) :: rest)
    (running : (s.state.matchPaused || s.state.engine.matchingPaused) = false)
    (alive : (s.state.handle (.orderPlaced placedAt incoming.orderId incoming.companyId
      incoming.maker incoming.side incoming.priceRay incoming.remaining incoming.timestamp)).alive =
        true) :
    Inv (s.delivered (.orderPlaced placedAt incoming.orderId incoming.companyId incoming.maker
      incoming.side incoming.priceRay incoming.remaining incoming.timestamp) rest) := by
  obtain ⟨naive, refines, consistent⟩ := inv
  have waits : incoming.orderId ∈ placedIds s.streamer.buf.queue := by
    rw [first, placedIds_cons]
    exact List.mem_cons_self ..
  obtain ⟨engine, runs, refinesNext⟩ := refines.limitOrderPlacement incoming
    fun r rests same => (consistent.rests _ r rests).taken.delivered (same ▸ waits)
  have notPaused : naive.matchingPaused = false := by
    rw [← refines.paused]
    exact (Bool.or_eq_false_iff.mp running).2
  have placed : s.state.engine.limitOrderPlacement incoming =
      .ok (.ok (sweep incoming (naive.books incoming.companyId)).1, engine) := by
    refine runs.trans ?_
    simp [NaiveEngine.exec, notPaused]
  have handled : s.state.handle (.orderPlaced placedAt incoming.orderId incoming.companyId
      incoming.maker incoming.side incoming.priceRay incoming.remaining incoming.timestamp) =
      SharedState.pushFills { s.state with engine }
        (sweep incoming (naive.books incoming.companyId)).1 := by
    simp only [SharedState.handle, running, Bool.false_eq_true, if_false]
    rw [placed]
  rw [handled] at alive
  obtain ⟨sent, sameEngine⟩ := SharedState.pushFills_alive alive
  have traded := consistent.trade incoming first
  refine ⟨(naive.exec (.limitOrderPlacement incoming)).2, ?_, ?_⟩
  · simp only [delivered, handled, sameEngine]
    exact refinesNext
  · have books : (naive.exec (.limitOrderPlacement incoming)).2.books =
        ((s.tally naive.books).trade incoming rest).books := by
      simp only [NaiveEngine.exec, notPaused, Bool.false_eq_true, if_false]
      rfl
    rw [books]
    simpa [delivered, tally, handled, sent, Tally.trade, droppedBy, running] using traded

/-- A log that is neither a placement nor a cancellation leaves the books alone. -/
theorem inv_skipped {ev : EngineEvent} (inv : Inv s)
    (first : s.streamer.buf.queue = (block, ev) :: rest) (notPlaced : ev.placedId = none)
    (notCancelled : ev.cancelledId = none) : Inv (s.delivered ev rest) := by
  obtain ⟨naive, refines, consistent⟩ := inv
  have skipped := consistent.skip first notPlaced notCancelled
  cases ev with
  | orderPlaced => cases notPlaced
  | orderCancelled => cases notCancelled
  | newBlock number =>
    refine ⟨naive, refines, ?_⟩
    simpa [delivered, tally, SharedState.handle, droppedBy] using skipped
  | tradeSettled settledAt companyId buyer seller vstkAmount aitNotional =>
    cases counted : SharedState.accumulateVelocity { s.state with
        lastBlockHeight := settledAt
        sync := s.state.sync.applyFillShadow companyId buyer seller vstkAmount aitNotional }
        aitNotional with
    | none =>
      have handled : s.state.handle (.tradeSettled settledAt companyId buyer seller vstkAmount
          aitNotional) = ⟨{ s.state with
            lastBlockHeight := settledAt
            sync := s.state.sync.applyFillShadow companyId buyer seller vstkAmount aitNotional }, [],
            false⟩ := by
        simp only [SharedState.handle, counted]
      refine ⟨naive, ?_, ?_⟩
      · simpa [delivered, handled] using refines
      · simpa [delivered, tally, handled, droppedBy] using skipped
    | some state =>
      have handled : s.state.handle (.tradeSettled settledAt companyId buyer seller vstkAmount
          aitNotional) = ⟨state, [], true⟩ := by
        simp only [SharedState.handle, counted]
      have engine := SharedState.accumulateVelocity_engine counted
      refine ⟨naive, ?_, ?_⟩
      · simpa [delivered, handled, engine] using refines
      · simpa [delivered, tally, handled, droppedBy] using skipped

/-- A runner that survives an event leaves the pipeline consistent. -/
theorem inv_delivered {ev : EngineEvent} (inv : Inv s)
    (first : s.streamer.buf.queue = (block, ev) :: rest)
    (alive : (s.state.handle ev).alive = true) : Inv (s.delivered ev rest) := by
  cases ev with
  | orderPlaced placedAt orderId companyId maker side priceRay amount timestamp =>
    cases paused : s.state.matchPaused || s.state.engine.matchingPaused with
    | true => exact inv_dropped inv first paused
    | false =>
      exact inv_matched ⟨orderId, companyId, maker, side, priceRay, amount, timestamp⟩ inv first
        paused alive
  | orderCancelled => exact inv_cancelled inv first
  | tradeSettled => exact inv_skipped inv first rfl rfl
  | newBlock => exact inv_skipped inv first rfl rfl

end Deliver

theorem started_inv (w : World τ) (admin : Address) : Inv (started w admin) := by
  refine ⟨NaiveEngine.new, Refines.new, fun id active => ?_, fun _ _ rests => ?_, fun _ => ?_,
    fun _ filled => ?_, trivial, List.nodup_nil, fun _ dropped => ?_, fun id active => ?_⟩
  · cases active
  · cases rests
  · exact List.nodup_nil
  · cases filled
  · cases dropped
  · cases active

theorem Inv.holdsActive (inv : Inv s) (rest : s.AtRest) : s.HoldsActive s.dropped := by
  obtain ⟨naive, refines, consistent⟩ := inv
  refine ⟨fun companyId id r found => ?_, fun id active kept => ?_⟩
  · obtain ⟨rests, rfl⟩ := ((refines.books companyId).orders.lookup id r).mp found
    obtain ⟨active, remaining⟩ := consistent.of_resting rest.noEvent rest.noFill rests
    have was := consistent.rests companyId r rests
    exact ⟨active, was.taken.kept, was.company, was.maker, was.side, was.price, remaining⟩
  · obtain ⟨r, rests, rfl⟩ := consistent.resting_of rest.noEvent rest.noFill active kept
    have found := ((refines.books _).orders.lookup r.orderId r).mpr ⟨rests, rfl⟩
    exact Option.isSome_of_eq_some found

variable [AitToken τ]

/-- A call other than a settlement keeps the market and what is on its way consistent. -/
theorem consistent_call {msg : Msg} {call : InternalMarket.Call}
    (consistent : (s.tally books).Consistent)
    (other : isSettlement (τ := τ) (.own msg call) = false)
    (run : InternalMarket.exec d msg call s.world = .ok w) :
    ((s.follow block w).tally books).Consistent := by
  rcases InternalMarket.exec_orders run with ⟨_, _, _, _, _, _, place⟩ | ⟨_, _, cancel⟩ |
    ⟨_, _, _, _, _, _, _, _, _, rfl, _⟩ | quiet
  · exact consistent_placeOrder consistent place
  · exact consistent_cancelOrder consistent cancel
  · cases other
  · obtain ⟨emitted, logs, silent⟩ := quiet.log
    exact consistent_quiet consistent quiet.orders quiet.nextOrderId logs (processLog_silent silent)

/-- A settled trade leaves the market, what is on its way and the books consistent. -/
theorem consistent_settle {msg : Msg} {f : Fill} {fills : List Fill} {settlementId : Bytes32}
    (state : SharedState) (consistent : (s.tally books).Consistent) (first : s.fills = f :: fills)
    (run : InternalMarket.settleTrade d msg f.makerOrderId f.takerOrderId f.vstkAmount f.aitNotional
      settlementId s.world = .ok w)
    (settles : (w.log.drop s.world.log.length).any isTradeSettled = true) :
    (({ s with fills, state }.follow block w).tally books).Consistent := by
  obtain ⟨_, ⟨cid, fee, buyer, seller, settled⟩ | blocked⟩ := InternalMarket.settleTrade_cases run
  · have apart : f.makerOrderId ≠ f.takerOrderId := fun same =>
      settled.checks.opposite (by rw [same])
    obtain ⟨_, token, _, _, rfl⟩ := settled.effect
    rw [follow_eq (List.append_assoc ..), List.filterMap_append,
      Treasury.filterMap_taxLog (processLog block) rfl]
    exact consistent.settle cid buyer seller f.vstkAmount f.aitNotional first apart
  · rw [blocked] at settles
    simp only [World.emit, Guardrail.trip, List.append_assoc, List.drop_left,
      Guardrail.tripEvents] at settles
    split at settles <;> cases settles

theorem inv_exec {action : Action τ} (inv : s.alive = true → Inv s)
    (settles : Settles d s action = true) (run : s.exec d action = .ok next)
    (alive : next.alive = true) : Inv next := by
  cases stepped_of_exec run with
  | own other taken =>
    obtain ⟨naive, refines, consistent⟩ := inv alive
    exact ⟨naive, refines, consistent_call consistent other taken⟩
  | elsewhere =>
    obtain ⟨naive, refines, consistent⟩ := inv alive
    exact ⟨naive, refines, consistent_quiet consistent rfl rfl (List.append_nil _).symm rfl⟩
  | delivered first wasAlive => exact inv_delivered (inv wasAlive) first alive
  | settled first taken =>
    simp only [Settles, first, settlesTrade, taken] at settles
    obtain ⟨naive, refines, consistent⟩ := inv alive
    exact ⟨naive, refines,
      consistent_settle s.state.settlementConfirmed consistent first taken settles⟩
  | reverted first failed =>
    simp only [Settles, first, settlesTrade, failed] at settles
    cases settles
  | exhausted => cases settles
  | @paused matchPaused matchingPaused =>
    obtain ⟨naive, refines, consistent⟩ := inv alive
    exact ⟨{ naive with matchingPaused }, ⟨refines.books, rfl⟩, consistent⟩

end Engine.Pipeline

open Engine.Pipeline

/-- Where every fill that is sent is settled, the books at rest hold the active orders of the market
except those that reached the runner while matching was paused. -/
theorem book_agrees_at_rest [AitToken τ] {admin : Address} {run : List (Pipeline.Action τ)}
    (settles : TransitionRun.Meets (Pipeline.exec d) (fun s action => Settles d s action = true)
      (started w admin) run)
    (alive : (TransitionRun.exec (Pipeline.exec d) (started w admin) run).alive = true)
    (rest : (TransitionRun.exec (Pipeline.exec d) (started w admin) run).AtRest) :
    (TransitionRun.exec (Pipeline.exec d) (started w admin) run).HoldsActive
      (TransitionRun.exec (Pipeline.exec d) (started w admin) run).dropped := by
  have inv := TransitionRun.exec_preserves (I := fun s => s.alive = true → Pipeline.Inv s)
    (fun _ _ _ inv settles run => inv_exec inv settles run) (fun _ => started_inv w admin) settles
  exact (inv alive).holdsActive rest

namespace Devnet

/-- Alice offers a hundred shares and bob bids for sixty, at ten tokens a hundred. -/
def crossing : List (Pipeline.Action ERC20) :=
  founding.map (.chain 0) ++
    [.chain 1 (.own { sender := alice } (.placeOrder 1 .sell (10 ^ 17) 100 0)),
      .chain 2 (.own { sender := bob } (.placeOrder 1 .buy (10 ^ 17) 60 0)), .deliver, .deliver]

/-- Their trade is settled and its log comes back. -/
def settledTrade : List (Pipeline.Action ERC20) :=
  crossing ++ [.settle 3 { sender := admin } 7, .deliver]

/-- Alice's offer comes while matching is paused. -/
def pausedOffer : List (Pipeline.Action ERC20) :=
  founding.map (.chain 0) ++
    [.pause true false, .chain 1 (.own { sender := alice } (.placeOrder 1 .sell (10 ^ 17) 100 0)),
      .deliver, .pause false false]

def pipeline (run : List (Pipeline.Action ERC20)) : Pipeline ERC20 :=
  TransitionRun.exec (Pipeline.exec Deployment.devnet) (started listed admin) run

end Devnet

open Devnet

theorem book_agrees_after_settled_trade :
    (pipeline settledTrade).HoldsActive (pipeline settledTrade).dropped :=
  book_agrees_at_rest (by decide +kernel) (by decide +kernel)
    ⟨by decide +kernel, by decide +kernel⟩

/-- At rest, an order that was dropped is active on chain only, and a trade whose retries are exhausted
is off the books but not settled. -/
theorem book_disagrees_after_pause_and_after_failure :
    (TransitionRun.Meets (Pipeline.exec Deployment.devnet)
        (fun s action => Settles Deployment.devnet s action = true) (started listed admin) pausedOffer ∧
      (pipeline pausedOffer).AtRest ∧ ¬ (pipeline pausedOffer).HoldsActive []) ∧
    (pipeline (crossing ++ [.exhaust])).AtRest ∧
      ¬ (pipeline (crossing ++ [.exhaust])).HoldsActive
        (pipeline (crossing ++ [.exhaust])).dropped := by
  refine ⟨⟨by decide +kernel, ⟨by decide +kernel, by decide +kernel⟩, fun holds => ?_⟩,
    ⟨by decide +kernel, by decide +kernel⟩, fun holds => ?_⟩
  · have rests := holds.complete 1 (by decide +kernel) List.not_mem_nil
    exact absurd rests (by decide +kernel)
  · have rests := holds.complete 2 (by decide +kernel) (by decide +kernel)
    exact absurd rests (by decide +kernel)

end Aide
