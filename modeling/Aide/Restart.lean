import Aide.BookAtRest
import Aide.Engine.Relay
import Aide.Engine.Stock
import Aide.Engine.Tally

namespace Aide

open Engine

/-- The maker's and the taker's order of a logged trade. -/
def Event.trade : Event → Option (ℕ × ℕ)
  | .tradeSettled _ takerOrderId makerOrderId .. => some (makerOrderId, takerOrderId)
  | _ => none

namespace Engine

theorem MatchEngine.ingestCancel_unpaused (engine : MatchEngine) (companyId orderId : ℕ) :
    ({ engine with matchingPaused := false }.ingestCancel companyId orderId).2 =
        { (engine.ingestCancel companyId orderId).2 with matchingPaused := false } ∧
      (engine.ingestCancel companyId orderId).2.matchingPaused = engine.matchingPaused := by
  unfold MatchEngine.ingestCancel
  cases (engine.books companyId).cancelOrder orderId with
  | error e => exact ⟨rfl, rfl⟩
  | ok book => exact ⟨rfl, rfl⟩

theorem MatchEngine.limitOrderPlacement_flag {engine next : MatchEngine} {incoming : OrderRecord}
    {verdict : Verdict} (run : engine.limitOrderPlacement incoming = .ok (verdict, next)) :
    next.matchingPaused = engine.matchingPaused := by
  unfold MatchEngine.limitOrderPlacement at run
  split at run
  · cases run
    rfl
  · simp only [bind_eq_ok] at run
    obtain ⟨⟨book, left, fills⟩, _, rest⟩ := run
    dsimp only at rest
    split at rest
    · split at rest
      · cases rest
        rfl
      · cases rest
        rfl
    · cases rest
      rfl

namespace SharedState
variable {state other : SharedState} {ev ev' : EngineEvent} {events events' : List EngineEvent}

/-- The events do not touch the flags. -/
theorem handle_flags (state : SharedState) (ev : EngineEvent) :
    (state.handle ev).state.matchPaused = state.matchPaused ∧
      (state.handle ev).state.engine.matchingPaused = state.engine.matchingPaused := by
  cases ev with
  | newBlock => exact ⟨rfl, rfl⟩
  | orderCancelled => exact ⟨rfl, (MatchEngine.ingestCancel_unpaused ..).2⟩
  | tradeSettled block companyId buyer seller vstkAmount aitNotional =>
    unfold handle accumulateVelocity
    by_cases fits : aitNotional < 2 ^ 128
    · simp only [fits, if_true, and_self]
    · simp only [fits, if_false, and_self]
  | orderPlaced block orderId companyId maker side priceRay amount timestamp =>
    by_cases paused : (state.matchPaused || state.engine.matchingPaused) = true
    · simp only [handle, paused, if_true, and_self]
    · simp only [handle, paused]
      cases run : state.engine.limitOrderPlacement
          ⟨orderId, companyId, maker, side, priceRay, amount, timestamp⟩ with
      | error fault => exact ⟨rfl, rfl⟩
      | ok result =>
        obtain ⟨verdict, engine⟩ := result
        have flag := MatchEngine.limitOrderPlacement_flag run
        cases verdict with
        | error e => exact ⟨rfl, flag⟩
        | ok fills =>
          obtain ⟨_, _, same, unpaused⟩ :=
            pushFills_spec { state with engine } { state with engine } fills
          exact ⟨unpaused, (congrArg MatchEngine.matchingPaused same).trans flag⟩

/-- A runner that is never paused, and that has the books of another. -/
structure Echoes (state other : SharedState) : Prop where
  unpaused : other.matchPaused = false
  engine : other.engine = { state.engine with matchingPaused := false }

/-- The same event has the same effect on both, unless the pause drops it. -/
theorem Echoes.handle (echoes : Echoes state other) (same : ev'.unblocked = ev.unblocked)
    (kept : Pipeline.droppedBy state ev = []) :
    (other.handle ev').sent = (state.handle ev).sent ∧
      (other.handle ev').alive = (state.handle ev).alive ∧
      Echoes (state.handle ev).state (other.handle ev').state := by
  have unpaused := (other.handle_flags ev').1.trans echoes.unpaused
  cases ev with
  | newBlock =>
    cases ev' <;> cases same
    exact ⟨rfl, rfl, unpaused, echoes.engine⟩
  | orderCancelled block companyId orderId =>
    cases ev' <;> cases same
    refine ⟨rfl, rfl, unpaused, ?_⟩
    have cancelled := (MatchEngine.ingestCancel_unpaused state.engine companyId orderId).1
    rw [← echoes.engine] at cancelled
    exact cancelled
  | tradeSettled block companyId buyer seller vstkAmount aitNotional =>
    cases ev' <;> cases same
    unfold SharedState.handle accumulateVelocity at unpaused ⊢
    by_cases fits : aitNotional < 2 ^ 128
    · simp only [fits, if_true] at unpaused ⊢
      exact ⟨trivial, trivial, unpaused, echoes.engine⟩
    · simp only [fits, if_false] at unpaused ⊢
      exact ⟨trivial, trivial, unpaused, echoes.engine⟩
  | orderPlaced block orderId companyId maker side priceRay amount timestamp =>
    have running : (state.matchPaused || state.engine.matchingPaused) = false := by
      refine Bool.eq_false_iff.mpr fun paused => ?_
      rw [Pipeline.droppedBy, if_pos paused] at kept
      cases kept
    have flag := (Bool.or_eq_false_iff.mp running).2
    have sameEngine : other.engine = state.engine := echoes.engine.trans (by rw [← flag])
    have runningOther : (other.matchPaused || other.engine.matchingPaused) = false := by
      rw [echoes.unpaused, sameEngine, flag]
      rfl
    cases ev' <;> cases same
    simp only [SharedState.handle, running, runningOther, Bool.false_eq_true, if_false] at unpaused ⊢
    rw [sameEngine] at unpaused ⊢
    cases run : state.engine.limitOrderPlacement
        ⟨orderId, companyId, maker, side, priceRay, amount, timestamp⟩ with
    | error fault => exact ⟨rfl, rfl, echoes.unpaused, echoes.engine⟩
    | ok result =>
      obtain ⟨verdict, engine⟩ := result
      have next : engine = { engine with matchingPaused := false } := by
        rw [← (MatchEngine.limitOrderPlacement_flag run).trans flag]
      cases verdict with
      | error e => exact ⟨rfl, rfl, echoes.unpaused, next⟩
      | ok fills =>
        obtain ⟨sent, alive, engineOther, flagOther⟩ :=
          pushFills_spec { other with engine } { state with engine } fills
        obtain ⟨_, _, engineState, _⟩ :=
          pushFills_spec { state with engine } { other with engine } fills
        refine ⟨sent, alive, flagOther.trans echoes.unpaused, ?_⟩
        change (pushFills { other with engine } fills).state.engine =
          { (pushFills { state with engine } fills).state.engine with matchingPaused := false }
        rw [engineOther, engineState]
        exact next

/-- Runners that are not paused send the same fills for the same events. -/
theorem runMatchRunner_congr (echoes : Echoes state other) (flag : state.matchPaused = false)
    (running : state.engine.matchingPaused = false)
    (same : events'.map EngineEvent.unblocked = events.map EngineEvent.unblocked) :
    (other.runMatchRunner events').sent = (state.runMatchRunner events).sent := by
  induction events generalizing events' state other with
  | nil =>
    obtain rfl := List.map_eq_nil_iff.mp same
    rfl
  | cons ev events ih =>
    obtain ⟨ev', rest, rfl, first, later⟩ := List.map_eq_cons_iff.mp same
    have kept : Pipeline.droppedBy state ev = [] := by
      unfold Pipeline.droppedBy
      split
      · simp [flag, running]
      · rfl
    obtain ⟨sent, alive, next⟩ := echoes.handle first kept
    cases survives : (state.handle ev).alive with
    | false =>
      rw [runMatchRunner_dead survives, runMatchRunner_dead (alive.trans survives), sent]
    | true =>
      rw [runMatchRunner_alive survives, runMatchRunner_alive (alive.trans survives)]
      obtain ⟨flagNext, runningNext⟩ := state.handle_flags ev
      exact congrArg₂ (· ++ ·) sent
        (ih next (flagNext.trans flag) (runningNext.trans running) later)

/-- What a restarted runner makes of events. -/
def restarted (events : List EngineEvent) : Handled := SharedState.new.runMatchRunner events

theorem restarted_append (survives : (restarted events).alive = true) :
    restarted (events ++ [ev]) =
      { (restarted events).state.handle ev with
        sent := (restarted events).sent ++ ((restarted events).state.handle ev).sent } := by
  unfold restarted at survives ⊢
  rw [runMatchRunner_append survives, runMatchRunner_singleton]

end SharedState

namespace Pipeline
variable {τ : Type} {d : Deployment} {s next : Pipeline τ} {w : World τ} {block : ℕ}
  {past : List EngineEvent}

/-- The events of the log up to now, for a streamer that follows it from its start. -/
def told (w : World τ) : List EngineEvent :=
  relay (fun _ => none) (w.log.filterMap (processLog 0))

/-- The pair of orders is traded again after the events of the past, or an order was dropped that
had been placed before its taker. -/
def Resent (s : Pipeline τ) (past : List EngineEvent) (maker taker : ℕ) : Prop :=
  (∃ f ∈ (SharedState.restarted past).sent, f.makerOrderId = maker ∧ f.takerOrderId = taker) ∨
    ∃ orderId ∈ s.dropped, orderId < taker

/-- The orders that wait for the runner. -/
def pending (s : Pipeline τ) : List ℕ := s.streamer.waiting.filterMap EngineEvent.placedId

/-- The runner has handled the events of the past. A restarted runner would have sent the same fills
for them, until an order is dropped. -/
structure Repeats (s : Pipeline τ) (past : List EngineEvent) : Prop where
  tracks : s.streamer.orderCompany =
    track (fun _ => none) (s.world.log.filterMap (processLog 0))
  told : past ++ s.streamer.waiting = told s.world
  fills : ∀ f ∈ s.fills, s.Resent past f.makerOrderId f.takerOrderId
  trades : ∀ e ∈ s.world.log, ∀ maker taker, e.trade = some (maker, taker) →
    s.Resent past maker taker
  ordered : (s.dropped.reverse ++ s.pending).Pairwise (· < ·)
  placed : ∀ orderId ∈ s.dropped.reverse ++ s.pending, orderId < s.world.market.nextOrderId
  stocked : Stocked (fun _ => True) s.state.engine
  echoes : s.dropped = [] → s.alive = true → (SharedState.restarted past).alive = true ∧
    SharedState.Echoes s.state (SharedState.restarted past).state

theorem started_repeats {w : World τ} (noLog : w.log = []) (admin : Address) :
    Repeats (started w admin) [] := by
  have empty : (started w admin).world.log = [] := noLog
  refine ⟨?_, ?_, ?_, ?_, List.Pairwise.nil, ?_, Stocked.new, fun _ _ => ⟨rfl, rfl, rfl⟩⟩
  · rw [empty]
    rfl
  · rw [Pipeline.told, empty]
    rfl
  · exact fun f member => absurd member List.not_mem_nil
  · rw [empty]
    exact fun e member => absurd member List.not_mem_nil
  · exact fun orderId member => absurd member List.not_mem_nil

/-- The events that the streamer buffers for the logs of one step. -/
def news (s : Pipeline τ) (emitted : List Event) : List EngineEvent :=
  relay s.streamer.orderCompany (emitted.filterMap (processLog 0))

/-- A step of the market. Its trades are of fills that were sent, and it places the next order or none. -/
theorem Repeats.follow (repeats : s.Repeats past) {emitted : List Event}
    (logs : w.log = s.world.log ++ emitted)
    (trades : ∀ e ∈ emitted, ∀ maker taker, e.trade = some (maker, taker) →
      s.Resent past maker taker)
    (ids : (s.news emitted).filterMap EngineEvent.placedId = [] ∧
        s.world.market.nextOrderId ≤ w.market.nextOrderId ∨
      (s.news emitted).filterMap EngineEvent.placedId = [s.world.market.nextOrderId] ∧
        w.market.nextOrderId = s.world.market.nextOrderId + 1) :
    (s.follow block w).Repeats past := by
  have areLogs : ∀ log ∈ emitted.filterMap (processLog block), log.isLog = true := by
    intro log member
    obtain ⟨e, _, decoded⟩ := List.mem_filterMap.mp member
    exact (processLog_isLog decoded).1
  obtain ⟨waiting, map⟩ := @Streamer.take_relayed _ s.streamer areLogs
  obtain ⟨sameEvents, sameMap⟩ := @relay_filterMap s.streamer.orderCompany block emitted
  rw [sameEvents] at waiting
  rw [sameMap] at map
  have split : w.log.filterMap (processLog 0) =
      s.world.log.filterMap (processLog 0) ++ emitted.filterMap (processLog 0) := by
    rw [logs, List.filterMap_append]
  have pending : (s.follow block w).pending =
      s.pending ++ (s.news emitted).filterMap EngineEvent.placedId := by
    rw [follow_eq logs]
    change (s.streamer.take _).waiting.filterMap EngineEvent.placedId = _
    rw [waiting, List.filterMap_append]
    rfl
  obtain ⟨increasing, fresh, grows⟩ : ((s.news emitted).filterMap EngineEvent.placedId).Pairwise
      (· < ·) ∧ (∀ orderId ∈ (s.news emitted).filterMap EngineEvent.placedId,
        s.world.market.nextOrderId ≤ orderId ∧ orderId < w.market.nextOrderId) ∧
      s.world.market.nextOrderId ≤ w.market.nextOrderId := by
    rcases ids with ⟨none, grows⟩ | ⟨one, next⟩
    · rw [none]
      exact ⟨List.Pairwise.nil, fun orderId member => absurd member List.not_mem_nil, grows⟩
    · rw [one]
      refine ⟨List.pairwise_singleton .., fun orderId member => ?_, by omega⟩
      cases List.mem_singleton.mp member
      omega
  refine ⟨?_, ?_, ?_, ?_, ?_, ?_, ?_, ?_⟩
  · rw [follow_eq logs]
    change (s.streamer.take _).orderCompany = track _ (w.log.filterMap (processLog 0))
    rw [map, repeats.tracks, split, track_append]
  · rw [follow_eq logs]
    change past ++ (s.streamer.take _).waiting = relay _ (w.log.filterMap (processLog 0))
    rw [waiting, ← List.append_assoc, repeats.told, split, relay_append, ← repeats.tracks]
    rfl
  · rw [follow_eq logs]
    exact repeats.fills
  · rw [follow_eq logs]
    intro e member maker taker traded
    rcases List.mem_append.mp (logs ▸ member : e ∈ s.world.log ++ emitted) with old | new
    · exact repeats.trades e old maker taker traded
    · exact trades e new maker taker traded
  · rw [pending, ← List.append_assoc]
    exact List.pairwise_append.mpr ⟨repeats.ordered, increasing, fun old before new after =>
      (repeats.placed old before).trans_le (fresh new after).1⟩
  · rw [pending, ← List.append_assoc]
    intro orderId member
    rcases List.mem_append.mp member with old | new
    · exact (repeats.placed orderId old).trans_le grows
    · exact (fresh orderId new).2
  · rw [follow_eq logs]
    exact repeats.stocked
  · rw [follow_eq logs]
    exact repeats.echoes

/-- A step that changes neither the engine, but for its flag, nor what is on its way. -/
theorem Repeats.shared (repeats : s.Repeats past) {fills : List Fill} {state : SharedState}
    {flag : Bool} (fewer : fills ⊆ s.fills)
    (engine : state.engine = { s.state.engine with matchingPaused := flag }) :
    ({ s with fills, state }).Repeats past := by
  refine ⟨repeats.tracks, repeats.told, fun f member => repeats.fills f (fewer member),
    repeats.trades, repeats.ordered, repeats.placed, ?_, fun kept alive => ?_⟩
  · change Stocked _ state.engine
    rw [engine]
    exact repeats.stocked
  · obtain ⟨survives, echoes⟩ := repeats.echoes kept alive
    refine ⟨survives, echoes.unpaused, ?_⟩
    change _ = { state.engine with matchingPaused := false }
    rw [engine]
    exact echoes.engine

theorem placedId_unblocked (ev : EngineEvent) : ev.unblocked.placedId = ev.placedId := by
  cases ev <;> rfl

theorem unblocked_twice (ev : EngineEvent) : ev.unblocked.unblocked = ev.unblocked := by
  cases ev <;> rfl

/-- The runner drops the order that is placed, or nothing. -/
theorem droppedBy_cases (state : SharedState) (ev : EngineEvent) :
    droppedBy state ev = [] ∨
      droppedBy state ev = ev.placedId.toList ∧ (state.handle ev).sent = [] := by
  cases ev with
  | newBlock => exact Or.inl rfl
  | orderCancelled => exact Or.inl rfl
  | tradeSettled => exact Or.inl rfl
  | orderPlaced =>
    by_cases paused : (state.matchPaused || state.engine.matchingPaused) = true
    · refine Or.inr ⟨?_, ?_⟩
      · rw [droppedBy, if_pos paused]
        rfl
      · rw [SharedState.handle, if_pos paused]
    · rw [droppedBy, if_neg paused]
      exact Or.inl rfl

/-- Fills that a restarted runner sends stay sent, and orders that are dropped stay dropped. -/
theorem Resent.more {maker taker : ℕ} {events : List EngineEvent} (resent : s.Resent past maker taker)
    (kept : s.dropped ⊆ next.dropped) : next.Resent (past ++ events) maker taker := by
  rcases resent with ⟨f, sent, pair⟩ | ⟨orderId, dropped, before⟩
  · exact Or.inl ⟨f, SharedState.runMatchRunner_sent sent, pair⟩
  · exact Or.inr ⟨orderId, kept dropped, before⟩

/-- A restarted runner does with the next event what the runner does, until an order is dropped. -/
theorem Repeats.echo (repeats : s.Repeats past) (wasAlive : s.alive = true)
    (noneDropped : s.dropped = []) {ev : EngineEvent} (kept : droppedBy s.state ev = []) :
    (SharedState.restarted (past ++ [ev.unblocked])).alive = (s.state.handle ev).alive ∧
      (s.state.handle ev).sent ⊆ (SharedState.restarted (past ++ [ev.unblocked])).sent ∧
      SharedState.Echoes (s.state.handle ev).state
        (SharedState.restarted (past ++ [ev.unblocked])).state := by
  obtain ⟨survives, echoes⟩ := repeats.echoes noneDropped wasAlive
  obtain ⟨sent, alive, next⟩ := echoes.handle (unblocked_twice ev) kept
  rw [SharedState.restarted_append survives]
  refine ⟨alive, ?_, next⟩
  rw [← sent]
  exact List.subset_append_right ..

/-- The runner takes the next event. -/
theorem Repeats.deliver (repeats : s.Repeats past) (wasAlive : s.alive = true) {ev : EngineEvent}
    {queue : List (ℕ × EngineEvent)} (first : s.streamer.buf.queue = (block, ev) :: queue) :
    ({ s with
      streamer := { s.streamer with buf := { s.streamer.buf with queue } }
      state := (s.state.handle ev).state
      alive := (s.state.handle ev).alive
      fills := s.fills ++ (s.state.handle ev).sent
      dropped := droppedBy s.state ev ++ s.dropped }).Repeats (past ++ [ev.unblocked]) := by
  set waiting := queue.map fun entry => entry.2.unblocked
  have waits : s.streamer.waiting = ev.unblocked :: waiting := by
    rw [Streamer.waiting, first]
    rfl
  have pending : s.pending = ev.placedId.toList ++ waiting.filterMap EngineEvent.placedId := by
    rw [Pipeline.pending, waits, List.filterMap_cons, placedId_unblocked]
    cases ev.placedId <;> rfl
  obtain ⟨stocked, takers⟩ := @SharedState.handle_stocked _ ev _ (fun _ _ _ => trivial)
    repeats.stocked fun _ _ => trivial
  have stay : s.dropped ⊆ droppedBy s.state ev ++ s.dropped := List.subset_append_right ..
  -- An order that is dropped no longer waits.
  have moved : ((droppedBy s.state ev ++ s.dropped).reverse ++
      waiting.filterMap EngineEvent.placedId).Sublist (s.dropped.reverse ++ s.pending) := by
    rw [pending, List.reverse_append, List.append_assoc]
    refine List.Sublist.append_left (List.Sublist.append_right ?_ _) _
    rcases droppedBy_cases s.state ev with kept | ⟨dropped, _⟩
    · rw [kept]
      exact List.nil_sublist _
    · rw [dropped]
      cases ev.placedId <;> exact List.Sublist.refl _
  refine ⟨repeats.tracks, ?_, ?_, fun e member maker taker traded =>
    (repeats.trades e member maker taker traded).more stay, repeats.ordered.sublist moved,
    fun orderId member => repeats.placed orderId (moved.subset member), stocked, ?_⟩
  · rw [List.append_assoc]
    exact (congrArg (past ++ ·) waits).symm.trans repeats.told
  · intro f member
    rcases List.mem_append.mp member with old | new
    · exact (repeats.fills f old).more stay
    · have taker := takers f new
      rcases droppedBy_cases s.state ev with kept | ⟨_, silent⟩
      · by_cases noneDropped : s.dropped = []
        · exact Or.inl ⟨f, (repeats.echo wasAlive noneDropped kept).2.1 new, rfl, rfl⟩
        · obtain ⟨orderId, dropped⟩ := List.exists_mem_of_ne_nil _ noneDropped
          refine Or.inr ⟨orderId, stay dropped, ?_⟩
          have ordered := repeats.ordered
          rw [pending, taker] at ordered
          exact (List.pairwise_append.mp ordered).2.2 orderId (List.mem_reverse.mpr dropped) _
            (List.mem_cons_self ..)
      · rw [silent] at new
        cases new
  · intro noneDropped alive
    obtain ⟨kept, noneBefore⟩ := List.append_eq_nil_iff.mp noneDropped
    obtain ⟨survives, _, echoes⟩ := repeats.echo wasAlive noneBefore kept
    exact ⟨survives.trans alive, echoes⟩

theorem news_silent {emitted : List Event} (silent : ∀ e ∈ emitted, e.aboutOrders = false) :
    emitted.filterMap (processLog 0) = [] ∧ ∀ e ∈ emitted, e.trade = none := by
  refine ⟨processLog_silent silent, fun e member => ?_⟩
  have quiet := silent e member
  cases e <;> first | rfl | cases quiet

variable [AitToken τ]

/-- A call of the market, which settles only trades that were sent. -/
theorem Repeats.call (repeats : s.Repeats past) {msg : Msg} {call : InternalMarket.Call}
    (run : InternalMarket.exec d msg call s.world = .ok w)
    (sent : ∀ maker taker vstkAmount aitNotional settlementId,
      call = .settleTrade maker taker vstkAmount aitNotional settlementId →
      s.Resent past maker taker) : (s.follow block w).Repeats past := by
  rcases InternalMarket.exec_orders run with ⟨_, _, _, _, _, _, place⟩ | ⟨orderId, _, cancel⟩ |
    ⟨maker, taker, _, _, _, _, _, _, _, same, settled⟩ | quiet
  · obtain ⟨_, _, rfl⟩ := InternalMarket.placeOrder_effect place
    refine repeats.follow rfl (fun e member maker taker traded => ?_) (Or.inr ⟨rfl, rfl⟩)
    cases List.mem_singleton.mp member
    cases traded
  · obtain ⟨_, rfl⟩ := InternalMarket.cancelOrder_effect cancel
    refine repeats.follow rfl (fun e member maker taker traded => ?_) (Or.inl ⟨?_, le_rfl⟩)
    · cases List.mem_singleton.mp member
      cases traded
    · simp only [news, List.filterMap_cons, processLog, List.filterMap_nil, relay,
        MarketChainEvent.relayed, List.append_nil]
      split <;> rfl
  · obtain ⟨_, _, _, _, rfl⟩ := settled.effect
    obtain ⟨silent, untraded⟩ := news_silent (@InternalMarket.taxLog_quiet d.internalMarket d.internalMarket _ _)
    refine repeats.follow (List.append_assoc ..) (fun e member maker' taker' traded => ?_)
      (Or.inl ⟨?_, le_rfl⟩)
    · rcases List.mem_append.mp member with tax | trade
      · cases (untraded e tax).symm.trans traded
      · cases List.mem_singleton.mp trade
        cases traded
        exact sent maker taker _ _ _ same
    · rw [news, List.filterMap_append, silent]
      rfl
  · obtain ⟨emitted, logs, silent⟩ := quiet.log
    obtain ⟨none, untraded⟩ := news_silent silent
    refine repeats.follow logs (fun e member maker taker traded => ?_)
      (Or.inl ⟨?_, quiet.nextOrderId.ge⟩)
    · cases (untraded e member).symm.trans traded
    · rw [news, none]
      rfl

theorem repeats_exec {action : Action τ} (repeats : ∃ past, s.Repeats past)
    (run : s.exec d action = .ok next) : ∃ past, next.Repeats past := by
  obtain ⟨past, repeats⟩ := repeats
  cases stepped_of_exec run with
  | own other taken =>
    refine ⟨past, repeats.call taken fun _ _ _ _ _ same => ?_⟩
    subst same
    cases other
  | elsewhere =>
    exact ⟨past, repeats.follow (List.append_nil _).symm
      (fun e member => absurd member List.not_mem_nil) (Or.inl ⟨rfl, le_rfl⟩)⟩
  | delivered first wasAlive => exact ⟨_, repeats.deliver wasAlive first⟩
  | @settled block msg settlementId f fills w first taken =>
    have fewer : fills ⊆ s.fills := first ▸ List.subset_cons_self ..
    have shared : ({ s with fills, state := s.state.settlementConfirmed } : Pipeline τ).Repeats past :=
      repeats.shared fewer rfl
    have settles : InternalMarket.exec d msg (.settleTrade f.makerOrderId f.takerOrderId
      f.vstkAmount f.aitNotional settlementId) s.world = .ok w := taken
    refine ⟨past, shared.call settles fun _ _ _ _ _ same => ?_⟩
    cases same
    exact repeats.fills f (first ▸ List.mem_cons_self ..)
  | @reverted block msg settlementId f fills error first failed =>
    have fewer : fills ⊆ s.fills := first ▸ List.subset_cons_self ..
    exact ⟨past, repeats.shared fewer rfl⟩
  | @exhausted f fills first =>
    have fewer : fills ⊆ s.fills := first ▸ List.subset_cons_self ..
    obtain ⟨flag, engine⟩ := s.state.settlementFailed_engine
    exact ⟨past, repeats.shared fewer engine⟩
  | @paused matchPaused matchingPaused =>
    have engine : { s.state.engine with matchingPaused } =
      { s.state.engine with matchingPaused := matchingPaused } := rfl
    exact ⟨past, repeats.shared (List.Subset.refl _) engine⟩

end Pipeline

namespace Chain

/-- A restarted runner that is sent the logs of a chain which are scanned from a block on. -/
def rerun (chain : Chain) (fromBlock : ℕ) : SharedState.Handled :=
  SharedState.restarted ((Streamer.new.take (chain.logs
    (Listener.started fromBlock chain.head).cursor chain.head)).buf.queue.map Prod.snd)

/-- No fill is sent for a pair of orders whose trade is logged. -/
def TradesOnce (chain : Chain) (fromBlock : ℕ) : Prop :=
  ∀ f ∈ (chain.rerun fromBlock).sent, ∀ e ∈ chain.blocks.flatten,
    e.trade ≠ some (f.makerOrderId, f.takerOrderId)

instance (chain : Chain) (fromBlock : ℕ) : Decidable (chain.TradesOnce fromBlock) :=
  inferInstanceAs (Decidable (∀ f ∈ (chain.rerun fromBlock).sent, ∀ e ∈ chain.blocks.flatten,
    e.trade ≠ some (f.makerOrderId, f.takerOrderId)))

/-- A scan from in front of the first log has a restarted runner handle the whole history. -/
theorem rerun_sent {τ : Type} {chain : Chain} {fromBlock : ℕ} {w : World τ}
    (carried : chain.blocks.flatten = w.log)
    (early : ∀ number ≤ (Listener.started fromBlock chain.head).cursor, chain.decoded number = []) :
    (chain.rerun fromBlock).sent = (SharedState.restarted (Pipeline.told w)).sent := by
  refine SharedState.runMatchRunner_congr ⟨rfl, rfl⟩ rfl rfl ?_
  have areLogs : ∀ log ∈ chain.logs (Listener.started fromBlock chain.head).cursor chain.head,
      log.isLog = true := fun log member => (Chain.mem_logs member).1
  have waiting := (@Streamer.take_relayed _ Streamer.new areLogs).1
  rw [Chain.relay_logs early, carried] at waiting
  rw [Pipeline.told, unblocked_relay, List.map_map]
  exact waiting

end Chain

end Engine

open Engine.Pipeline

section
variable {τ : Type} [AitToken τ] {d : Deployment} {w : World τ} {admin : Address} {run : List (Pipeline.Action τ)}
  {s : Pipeline τ} {chain : Chain} {fromBlock : ℕ}

omit [AitToken τ] in
/-- No fill is of a logged trade where none is logged. -/
theorem tradesOnce_of_untraded (carried : chain.blocks.flatten = s.world.log)
    (untraded : ∀ e ∈ s.world.log, e.trade = none) : chain.TradesOnce fromBlock := by
  intro f _ e member same
  rw [carried] at member
  cases (untraded e member).symm.trans same

/-- Where a replay sends no fill for a logged trade, an order was dropped before the taker of each was placed. -/
theorem dropped_of_tradesOnce (noLog : w.log = [])
    (reached : s = TransitionRun.exec (Pipeline.exec d) (started w admin) run)
    (carried : chain.blocks.flatten = s.world.log)
    (early : ∀ number ≤ (Listener.started fromBlock chain.head).cursor, chain.decoded number = [])
    (once : chain.TradesOnce fromBlock) {e : Event} (member : e ∈ s.world.log) {maker taker : ℕ}
    (traded : e.trade = some (maker, taker)) : ∃ orderId ∈ s.dropped, orderId < taker := by
  obtain ⟨past, repeats⟩ : ∃ past, s.Repeats past := by
    rw [reached]
    exact TransitionRun.exec_preserves (I := fun s => ∃ past, Repeats s past) (P := fun _ _ => True)
      (fun _ _ _ repeats _ run => repeats_exec repeats run) ⟨[], started_repeats noLog admin⟩
      (TransitionRun.Meets.of_forall fun _ _ _ => trivial)
  unfold Chain.TradesOnce at once
  rw [Chain.rerun_sent carried early, carried] at once
  rcases repeats.trades e member maker taker traded with ⟨f, sent, rfl, rfl⟩ | dropped
  · have again : f ∈ (SharedState.restarted (told s.world)).sent := by
      rw [← repeats.told]
      exact SharedState.runMatchRunner_sent sent
    exact absurd traded (once f again e member)
  · exact dropped

/-- A restart that replays a history without a trade sends no fill for a trade of the history. One
that replays a history with a trade does, unless an order placed before the trade was dropped. -/
theorem restart_trades_once (noLog : w.log = [])
    (reached : s = TransitionRun.exec (Pipeline.exec d) (started w admin) run)
    (carried : chain.blocks.flatten = s.world.log)
    (early : ∀ number ≤ (Listener.started fromBlock chain.head).cursor, chain.decoded number = []) :
    ((∀ e ∈ s.world.log, e.trade = none) → chain.TradesOnce fromBlock) ∧
    (chain.TradesOnce fromBlock → ∀ e ∈ s.world.log, ∀ maker taker, e.trade = some (maker, taker) →
      ∃ orderId ∈ s.dropped, orderId < taker) :=
  ⟨tradesOnce_of_untraded carried,
    fun once _ member _ _ => dropped_of_tradesOnce noLog reached carried early once member⟩

/-- Where no order was dropped, a restart sends no fill for a trade of the history if and only if there is none. -/
theorem tradesOnce_iff_untraded (noLog : w.log = [])
    (reached : s = TransitionRun.exec (Pipeline.exec d) (started w admin) run)
    (carried : chain.blocks.flatten = s.world.log)
    (early : ∀ number ≤ (Listener.started fromBlock chain.head).cursor, chain.decoded number = [])
    (noneDropped : s.dropped = []) :
    chain.TradesOnce fromBlock ↔ ∀ e ∈ s.world.log, e.trade = none := by
  refine ⟨fun once e member => ?_, tradesOnce_of_untraded carried⟩
  cases traded : e.trade with
  | none => rfl
  | some pair =>
    obtain ⟨orderId, dropped, _⟩ := dropped_of_tradesOnce noLog reached carried early once member traded
    rw [noneDropped] at dropped
    cases dropped

end

namespace Devnet

/-- Alice's better offer comes while matching is paused, and bob takes her other one. -/
def missedOffer : List (Pipeline.Action ERC20) :=
  founding.map (.chain 0) ++
    [.pause true false, .chain 1 (.own { sender := alice } (.placeOrder 1 .sell (10 ^ 16) 100 0)),
      .deliver, .pause false false,
      .chain 2 (.own { sender := alice } (.placeOrder 1 .sell (10 ^ 17) 100 0)),
      .chain 3 (.own { sender := bob } (.placeOrder 1 .buy (10 ^ 17) 60 0)), .deliver, .deliver,
      .settle 4 { sender := admin } 7, .deliver]

/-- The history of a run, all in one block. -/
def inOneBlock (run : List (Pipeline.Action ERC20)) : Chain := ⟨[[], [], (pipeline run).world.log]⟩

theorem inOneBlock_early (run : List (Pipeline.Action ERC20)) :
    ∀ number ≤ (Listener.started 1 (inOneBlock run).head).cursor, (inOneBlock run).decoded number = [] := by
  intro number inRange
  have first : number ≤ 1 := inRange
  obtain rfl | rfl : number = 0 ∨ number = 1 := by omega
  · rfl
  · rfl

end Devnet

open Devnet

/-- The replay trades the offer that was missed instead of the one that bob took. -/
theorem restart_trades_once_of_missed_offer :
    (inOneBlock missedOffer).TradesOnce 1 ∧
      ∀ e ∈ (pipeline missedOffer).world.log, ∀ maker taker, e.trade = some (maker, taker) →
        ∃ orderId ∈ (pipeline missedOffer).dropped, orderId < taker := by
  have once : (inOneBlock missedOffer).TradesOnce 1 := by decide +kernel
  exact ⟨once, (@restart_trades_once ERC20 _ Deployment.devnet listed admin missedOffer (pipeline missedOffer)
    (inOneBlock missedOffer) 1 rfl rfl (List.append_nil _) (inOneBlock_early missedOffer)).2 once⟩

example : (pipeline missedOffer).world.log.filterMap Event.trade = [(2, 3)] ∧
    (pipeline missedOffer).dropped = [1] := by decide +kernel

/-- After a restart the trade of alice and bob is sent to the market once more. -/
theorem settled_trade_sent_again :
    ¬ ∀ (d : Deployment) (w : World ERC20) (admin : Address) (run : List (Pipeline.Action ERC20))
      (s : Pipeline ERC20) (chain : Chain) (fromBlock : ℕ), w.log = [] →
      s = TransitionRun.exec (Pipeline.exec d) (started w admin) run →
      chain.blocks.flatten = s.world.log →
      (∀ number ≤ (Listener.started fromBlock chain.head).cursor, chain.decoded number = []) →
      chain.TradesOnce fromBlock := by
  intro always
  have once := always Deployment.devnet listed admin settledTrade (pipeline settledTrade)
    (inOneBlock settledTrade) 1 rfl rfl (List.append_nil _) (inOneBlock_early settledTrade)
  exact absurd once (by decide +kernel)

end Aide
