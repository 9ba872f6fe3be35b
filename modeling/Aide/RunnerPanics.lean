import Aide.BookAtRest
import Aide.Engine.BookOffers

namespace Aide

open Engine NaiveBook

variable {τ : Type} {d : Deployment} {s next : Pipeline τ} {w : World τ} {block : ℕ}

/-- The notional of a trade that is logged. -/
def Event.notional : Event → ℕ
  | .tradeSettled _ _ _ _ _ _ aitNotional _ _ => aitNotional
  | _ => 0

/-- The order that a log places. -/
def Event.placedId (e : Event) : Option ℕ := e.placement.map Prod.fst

theorem notional_of_silent {e : Event} (silent : e.aboutOrders = false) : e.notional = 0 := by
  cases e <;> first | rfl | cases silent

theorem placedId_of_silent {e : Event} (silent : e.aboutOrders = false) : e.placedId = none := by
  cases e <;> first | rfl | cases silent

namespace Engine

/-- The notional of a trade that comes back. -/
def EngineEvent.notional : EngineEvent → ℕ
  | .tradeSettled _ _ _ _ _ aitNotional => aitNotional
  | _ => 0

/-- The runner survives the loop over the fills if and only if all notionals fit. -/
theorem SharedState.pushFills_alive_iff (state : SharedState) (fills : List Fill) :
    (state.pushFills fills).alive = true ↔ ∀ f ∈ fills, f.aitNotional < 2 ^ 128 := by
  induction fills generalizing state with
  | nil => exact iff_of_true rfl fun f member => absurd member List.not_mem_nil
  | cons f fills ih =>
    rw [List.forall_mem_cons]
    unfold pushFills accumulateVelocity
    by_cases fits : f.aitNotional < 2 ^ 128
    · simp only [fits, if_true, true_and]
      exact ih _
    · simp only [fits, if_false, false_and, iff_false]
      exact Bool.false_ne_true

/-- A running engine accepts an order whose id does not rest in it. -/
theorem Stocked.accepts {P : OrderRecord → Prop} {engine : MatchEngine} {incoming : OrderRecord}
    (stocked : Stocked P engine) (running : engine.matchingPaused = false)
    (fresh : ∀ r, P r → r.orderId ≠ incoming.orderId) :
    ∃ fills after, engine.limitOrderPlacement incoming = .ok (.ok fills, after) := by
  obtain ⟨resting, rep, holds⟩ := stocked incoming.companyId
  obtain ⟨verdict, after, runs, swept⟩ := MatchEngine.limitOrderPlacement_sweeps incoming rep running
  cases swept with
  | filled => exact ⟨_, _, runs⟩
  | rests => exact ⟨_, _, runs⟩
  | refused left named repBook =>
    obtain ⟨o, rested, same⟩ := mem_sweep left
    rw [same] at named
    exact absurd named (fresh o (holds o rested).2)

namespace SharedState
variable {state : SharedState} {ev : EngineEvent}

theorem pushFills_sent_fits (state : SharedState) (fills : List Fill) :
    ∀ f ∈ (state.pushFills fills).sent, f.aitNotional < 2 ^ 128 := by
  induction fills generalizing state with
  | nil => exact fun f member => absurd member List.not_mem_nil
  | cons f fills ih =>
    unfold pushFills accumulateVelocity
    by_cases fits : f.aitNotional < 2 ^ 128
    · simp only [fits, if_true]
      exact List.forall_mem_cons.mpr ⟨fits, ih _⟩
    · simp only [fits, if_false]
      exact fun f member => absurd member List.not_mem_nil

/-- If the event places an order that is not dropped, what it takes from the book has notionals that
fit `u128`. -/
def notionalsFit (state : SharedState) : EngineEvent → Bool
  | .orderPlaced _ orderId companyId maker side priceRay amount timestamp =>
    state.matchPaused || state.engine.matchingPaused ||
      ((state.engine.books companyId).taken
        ⟨orderId, companyId, maker, side, priceRay, amount, timestamp⟩).all fun taking =>
          mulDivRay taking.2 taking.1.priceRay < 2 ^ 128
  | _ => true

/-- Unless the id of an order rests already, the runner survives if and only if the notionals fit. -/
theorem handle_alive_iff {P : OrderRecord → Prop} (stocked : Stocked P state.engine)
    (fresh : ∀ r, P r → ev.placedId ≠ some r.orderId) (counted : ev.notional < 2 ^ 128) :
    (state.handle ev).alive = true ↔ state.notionalsFit ev = true := by
  cases ev with
  | newBlock => exact Iff.rfl
  | orderCancelled => exact Iff.rfl
  | tradeSettled block companyId buyer seller vstkAmount aitNotional =>
    have fits : aitNotional < 2 ^ 128 := counted
    simp only [handle]
    rw [accumulateVelocity, if_pos fits]
    exact Iff.rfl
  | orderPlaced block orderId companyId maker side priceRay amount timestamp =>
    cases paused : state.matchPaused || state.engine.matchingPaused with
    | true =>
      simp [handle, notionalsFit, paused]
    | false =>
      obtain ⟨fills, after, returned⟩ :
          ∃ fills after, state.engine.limitOrderPlacement
            ⟨orderId, companyId, maker, side, priceRay, amount, timestamp⟩ = .ok (.ok fills, after) :=
        stocked.accepts (Bool.or_eq_false_iff.mp paused).2 fun r held same =>
          fresh r held (congrArg some same.symm)
      obtain ⟨resting, rep, _⟩ := stocked companyId
      have taken := rep.fills_eq_taken returned
      rw [handle_running paused returned, pushFills_alive_iff, taken, List.forall_mem_map]
      simp only [notionalsFit, paused, Bool.false_or, List.all_eq_true, decide_eq_true_eq]
      rfl

theorem handle_sent_fits (state : SharedState) (ev : EngineEvent) :
    ∀ f ∈ (state.handle ev).sent, f.aitNotional < 2 ^ 128 := by
  have none : ∀ f : Fill, f ∈ ([] : List Fill) → f.aitNotional < 2 ^ 128 :=
    fun f member => absurd member List.not_mem_nil
  cases ev with
  | newBlock => exact none
  | orderCancelled => exact none
  | tradeSettled =>
    simp only [handle]
    split <;> exact none
  | orderPlaced =>
    simp only [handle]
    split
    · exact none
    · split
      · exact none
      · exact none
      · exact pushFills_sent_fits _ _

end SharedState

namespace Pipeline

/-- What the logs of a call append to the buffer of the streamer. -/
theorem receive_logs (block : ℕ) (emitted : List Event) (streamer : Streamer) :
    ∃ entries, ((emitted.filterMap (processLog block)).foldl
        (fun streamer event => (streamer.receive event).1) streamer).buf.queue =
          streamer.buf.queue ++ entries ∧
      placedIds entries = emitted.filterMap Event.placedId ∧
      ∀ entry ∈ entries, entry.2.notional = 0 ∨ ∃ e ∈ emitted, e.notional = entry.2.notional := by
  induction emitted generalizing streamer with
  | nil => exact ⟨[], (List.append_nil _).symm, rfl, fun entry member => absurd member List.not_mem_nil⟩
  | cons e emitted ih =>
    have one : ∃ entries, (([e].filterMap (processLog block)).foldl
        (fun streamer event => (streamer.receive event).1) streamer).buf.queue =
          streamer.buf.queue ++ entries ∧ placedIds entries = [e].filterMap Event.placedId ∧
        ∀ entry ∈ entries, entry.2.notional = 0 ∨ e.notional = entry.2.notional := by
      cases e with
      | orderPlaced orderId companyId maker side priceRay amount timestamp engineHint =>
        exact ⟨[_], rfl, rfl, fun entry member => Or.inl (List.mem_singleton.mp member ▸ rfl)⟩
      | tradeSettled =>
        exact ⟨[_], rfl, rfl, fun entry member => Or.inr (List.mem_singleton.mp member ▸ rfl)⟩
      | orderCancelled orderId maker =>
        by_cases unknown : (streamer.orderCompany orderId).getD 0 = 0
        · refine ⟨[], ?_, rfl, fun entry member => absurd member List.not_mem_nil⟩
          simp [processLog, Streamer.receive, unknown]
        · refine ⟨[(block, .orderCancelled block ((streamer.orderCompany orderId).getD 0) orderId)],
            ?_, rfl, fun entry member => Or.inl (List.mem_singleton.mp member ▸ rfl)⟩
          simp [processLog, Streamer.receive, unknown, BlockBuffer.push]
      | _ =>
        exact ⟨[], (List.append_nil _).symm, rfl, fun entry member => absurd member List.not_mem_nil⟩
    obtain ⟨first, queue, placed, notionals⟩ := one
    obtain ⟨later, queueRest, placedRest, notionalsRest⟩ := ih
      (([e].filterMap (processLog block)).foldl (fun streamer event => (streamer.receive event).1) streamer)
    rw [← List.singleton_append, List.filterMap_append, List.filterMap_append, List.foldl_append]
    refine ⟨first ++ later, ?_, ?_, fun entry member => ?_⟩
    · rw [queueRest, queue, List.append_assoc]
    · rw [placedIds_append, placed, placedRest]
    · rcases List.mem_append.mp member with new | old
      · exact (notionals entry new).imp_right fun same =>
          ⟨e, List.mem_append_left _ (List.mem_singleton_self e), same⟩
      · rcases notionalsRest entry old with nothing | ⟨o, among, same⟩
        · exact Or.inl nothing
        · exact Or.inr ⟨o, List.mem_append_right _ among, same⟩

/-- An order that the runner takes up next trades for notionals that fit `u128`. -/
def NotionalsFit (s : Pipeline τ) : Action τ → Bool
  | .deliver => s.streamer.buf.queue.head?.all fun entry => s.state.notionalsFit entry.2
  | _ => true

/-- Every order reaches the books once, and what has been traded fits. -/
structure Sound (s : Pipeline τ) : Prop where
  stocked : Stocked (fun r => r.orderId < s.world.market.nextOrderId ∧
    r.orderId ∉ placedIds s.streamer.buf.queue) s.state.engine
  placed : ∀ id ∈ placedIds s.streamer.buf.queue, id < s.world.market.nextOrderId
  nodup : (placedIds s.streamer.buf.queue).Nodup
  fills : ∀ f ∈ s.fills, f.aitNotional < 2 ^ 128
  queued : ∀ entry ∈ s.streamer.buf.queue, entry.2.notional < 2 ^ 128

theorem started_sound (w : World τ) (admin : Address) : Sound (started w admin) :=
  ⟨Stocked.new, fun _ waits => absurd waits List.not_mem_nil, List.nodup_nil,
    fun _ filled => absurd filled List.not_mem_nil, fun _ waits => absurd waits List.not_mem_nil⟩

/-- A call that places at most the next order, and settles nothing that does not fit. -/
theorem Sound.follow {emitted : List Event} (sound : Sound s) (logs : w.log = s.world.log ++ emitted)
    (notionals : ∀ e ∈ emitted, e.notional < 2 ^ 128)
    (places : emitted.filterMap Event.placedId = [] ∧ w.market.nextOrderId = s.world.market.nextOrderId ∨
      emitted.filterMap Event.placedId = [s.world.market.nextOrderId] ∧
        w.market.nextOrderId = s.world.market.nextOrderId + 1) : Sound (s.follow block w) := by
  obtain ⟨entries, queue, ids, counted⟩ := receive_logs block emitted s.streamer
  rw [← ids] at places
  rw [follow_eq logs]
  have fresh : ∀ id ∈ placedIds entries, s.world.market.nextOrderId ≤ id ∧ id < w.market.nextOrderId := by
    intro id member
    rcases places with ⟨none, _⟩ | ⟨one, more⟩
    · rw [none] at member
      cases member
    · rw [one] at member
      cases List.mem_singleton.mp member
      omega
  have more : s.world.market.nextOrderId ≤ w.market.nextOrderId := by omega
  constructor
  · refine sound.stocked.imp fun r ⟨known, taken⟩ => ⟨known.trans_le more, ?_⟩
    simp only [queue, placedIds_append, List.mem_append, not_or]
    exact ⟨taken, fun new => absurd (fresh _ new).1 (not_le.mpr known)⟩
  · intro id waits
    simp only [queue, placedIds_append, List.mem_append] at waits
    rcases waits with old | new
    · exact (sound.placed id old).trans_le more
    · exact (fresh id new).2
  · simp only [queue, placedIds_append]
    refine List.nodup_append.mpr ⟨sound.nodup, ?_, fun id old other new => ?_⟩
    · rcases places with ⟨none, _⟩ | ⟨one, _⟩
      · rw [none]
        exact List.nodup_nil
      · rw [one]
        exact List.nodup_singleton _
    · exact ((sound.placed id old).trans_le (fresh other new).1).ne
  · exact sound.fills
  · intro entry waits
    simp only [queue, List.mem_append] at waits
    rcases waits with old | new
    · exact sound.queued entry old
    · rcases counted entry new with zero | ⟨e, among, same⟩
      · rw [zero]
        decide
      · exact same ▸ notionals e among

theorem Sound.quiet (sound : Sound s) (quiet : InternalMarket.Quiet s.world w) :
    Sound (s.follow block w) := by
  obtain ⟨emitted, logs, silent⟩ := quiet.log
  refine sound.follow logs (fun e member => ?_) (Or.inl ⟨?_, quiet.nextOrderId⟩)
  · rw [notional_of_silent (silent e member)]
    exact Nat.two_pow_pos 128
  · exact List.filterMap_eq_nil_iff.mpr fun e member => placedId_of_silent (silent e member)

/-- An event leaves the pipeline sound. -/
theorem Sound.delivered {ev : EngineEvent} {rest : List (ℕ × EngineEvent)} (sound : Sound s)
    (first : s.streamer.buf.queue = (block, ev) :: rest) : Sound (s.delivered ev rest) := by
  have placed := sound.placed
  have nodup := sound.nodup
  have stocked := sound.stocked
  rw [first, placedIds_cons] at placed nodup stocked
  constructor
  · refine (SharedState.handle_stocked (fun r remaining held => held) (stocked.imp fun r ⟨known, taken⟩ =>
      ⟨known, fun waits => taken (List.mem_append_right _ waits)⟩) fun r placing => ?_).1
    rw [placing] at placed nodup
    exact ⟨placed _ (List.mem_cons_self ..), (List.nodup_cons.mp nodup).1⟩
  · exact fun id waits => placed id (List.mem_append_right _ waits)
  · exact (List.nodup_append.mp nodup).2.1
  · intro f member
    rcases List.mem_append.mp member with old | sent
    · exact sound.fills f old
    · exact SharedState.handle_sent_fits _ _ f sent
  · exact fun entry waits => sound.queued entry (first ▸ List.mem_cons_of_mem _ waits)

theorem Sound.alive_iff {ev : EngineEvent} {rest : List (ℕ × EngineEvent)} (sound : Sound s)
    (first : s.streamer.buf.queue = (block, ev) :: rest) :
    (s.delivered ev rest).alive = true ↔ s.state.notionalsFit ev = true := by
  refine SharedState.handle_alive_iff sound.stocked (fun r ⟨_, taken⟩ placing => taken ?_)
    (sound.queued (block, ev) (first ▸ List.mem_cons_self ..))
  rw [first, placedIds_cons, placing]
  exact List.mem_cons_self ..

/-- The first fill is taken out to be settled, and the engine changes its flag at most. -/
theorem Sound.sent {f : Fill} {fills : List Fill} {state : SharedState} {matchingPaused : Bool}
    (sound : Sound s) (first : s.fills = f :: fills)
    (engine : state.engine = { s.state.engine with matchingPaused }) :
    f.aitNotional < 2 ^ 128 ∧ Sound { s with fills, state } := by
  have fits := sound.fills
  rw [first] at fits
  obtain ⟨fitsFirst, fitsRest⟩ := List.forall_mem_cons.mp fits
  refine ⟨fitsFirst, ⟨?_, sound.placed, sound.nodup, fitsRest, sound.queued⟩⟩
  simp only [engine]
  exact sound.stocked

variable [AitToken τ]

theorem Sound.call {msg : Msg} {call : InternalMarket.Call} (sound : Sound s)
    (other : isSettlement (τ := τ) (.own msg call) = false)
    (run : InternalMarket.exec d msg call s.world = .ok w) : Sound (s.follow block w) := by
  rcases InternalMarket.exec_orders run with ⟨_, _, _, _, _, _, place⟩ | ⟨_, _, cancel⟩ |
    ⟨_, _, _, _, _, _, _, _, _, rfl, _⟩ | quiet
  · obtain ⟨_, _, rfl⟩ := InternalMarket.placeOrder_effect place
    refine sound.follow rfl (fun e member => ?_) (Or.inr ⟨rfl, rfl⟩)
    cases List.mem_singleton.mp member
    exact Nat.two_pow_pos 128
  · obtain ⟨_, rfl⟩ := InternalMarket.cancelOrder_effect cancel
    refine sound.follow rfl (fun e member => ?_) (Or.inl ⟨rfl, rfl⟩)
    cases List.mem_singleton.mp member
    exact Nat.two_pow_pos 128
  · cases other
  · exact sound.quiet quiet

theorem Sound.settlement {msg : Msg} {f : Fill} {settlementId : Bytes32} (sound : Sound s)
    (fits : f.aitNotional < 2 ^ 128)
    (run : InternalMarket.settleTrade d msg f.makerOrderId f.takerOrderId f.vstkAmount f.aitNotional
      settlementId s.world = .ok w) : Sound (s.follow block w) := by
  have called : InternalMarket.exec d msg (.settleTrade f.makerOrderId f.takerOrderId f.vstkAmount
    f.aitNotional settlementId) s.world = .ok w := run
  rcases InternalMarket.exec_orders called with ⟨_, _, _, _, _, same, _⟩ | ⟨_, same, _⟩ |
    ⟨_, _, _, _, _, _, _, _, _, same, settled⟩ | quiet
  · cases same
  · cases same
  · cases same
    obtain ⟨_, _, _, _, rfl⟩ := settled.effect
    refine sound.follow (List.append_assoc ..) (fun e member => ?_) (Or.inl ⟨?_, rfl⟩)
    · rcases List.mem_append.mp member with tax | trade
      · cases Treasury.mem_taxLog tax
        exact Nat.two_pow_pos 128
      · cases List.mem_singleton.mp trade
        exact fits
    · rw [List.filterMap_append, Treasury.filterMap_taxLog Event.placedId rfl]
      rfl
  · exact sound.quiet quiet

/-- A step of a sound pipeline, and what becomes of its runner. -/
theorem Sound.exec {action : Action τ} (sound : Sound s) (wasAlive : s.alive = true)
    (run : s.exec d action = .ok next) :
    Sound next ∧ (next.alive = true ↔ s.NotionalsFit action = true) := by
  have confirmed : s.state.settlementConfirmed.engine =
    { s.state.engine with matchingPaused := s.state.engine.matchingPaused } := rfl
  -- Only the delivery of an event can stop the runner.
  cases stepped_of_exec run with
  | own other taken => exact ⟨sound.call other taken, iff_of_true wasAlive rfl⟩
  | elsewhere =>
    refine ⟨?_, iff_of_true wasAlive rfl⟩
    exact sound.follow (List.append_nil _).symm (fun e member => absurd member List.not_mem_nil)
      (Or.inl ⟨rfl, rfl⟩)
  | delivered first =>
    refine ⟨sound.delivered first, (sound.alive_iff first).trans ?_⟩
    simp [NotionalsFit, first]
  | settled first taken =>
    obtain ⟨fits, sent⟩ := sound.sent first confirmed
    exact ⟨sent.settlement fits taken, iff_of_true wasAlive rfl⟩
  | reverted first => exact ⟨(sound.sent first confirmed).2, iff_of_true wasAlive rfl⟩
  | exhausted first =>
    obtain ⟨matchingPaused, engine⟩ := s.state.settlementFailed_engine
    exact ⟨(sound.sent first engine).2, iff_of_true wasAlive rfl⟩
  | paused =>
    exact ⟨⟨sound.stocked, sound.placed, sound.nodup, sound.fills, sound.queued⟩, iff_of_true wasAlive rfl⟩

/-- A step that is not taken is not the delivery of an event to a runner that is alive. -/
theorem notionalsFit_of_error {action : Action τ} (wasAlive : s.alive = true) {error : Unit}
    (failed : s.exec d action = .error error) : s.NotionalsFit action = true := by
  cases action with
  | deliver =>
    simp only [Pipeline.exec] at failed
    split at failed
    · rename_i none
      simp [NotionalsFit, none]
    · rw [if_pos wasAlive] at failed
      cases failed
  | _ => rfl

/-- A runner that is not alive stays so. -/
theorem exec_dead {action : Action τ} (dead : s.alive = false) (run : s.exec d action = .ok next) :
    next.alive = false := by
  cases stepped_of_exec run with
  | delivered first alive => cases dead.symm.trans alive
  | _ => exact dead

/-- A sound pipeline whose runner is alive keeps it so, as long as the notionals fit. -/
theorem Sound.survives_iff {run : List (Action τ)} (sound : Sound s) (alive : s.alive = true) :
    (TransitionRun.exec (Pipeline.exec d) s run).alive = true ↔
      TransitionRun.Meets (Pipeline.exec d) (fun s action => s.NotionalsFit action = true) s run := by
  induction run generalizing s with
  | nil => exact iff_of_true alive trivial
  | cons action run ih =>
    rw [TransitionRun.exec_cons, TransitionRun.meets_cons]
    cases taken : Pipeline.exec d s action with
    | error error =>
      rw [TransitionRun.after_error taken, and_iff_right (notionalsFit_of_error alive taken)]
      exact ih sound alive
    | ok next =>
      rw [TransitionRun.after_ok taken]
      obtain ⟨soundNext, aliveNext⟩ := sound.exec alive taken
      by_cases fits : s.NotionalsFit action = true
      · rw [and_iff_right fits]
        exact ih soundNext (aliveNext.mpr fits)
      · have dead : next.alive = false := Bool.eq_false_iff.mpr fun alive => fits (aliveNext.mp alive)
        have ends : (TransitionRun.exec (Pipeline.exec d) next run).alive = false :=
          TransitionRun.exec_preserves (I := fun s : Pipeline τ => s.alive = false) (P := fun _ _ => True)
            (fun _ _ _ dead _ run => exec_dead dead run) dead
            (TransitionRun.Meets.of_forall fun _ _ _ => trivial)
        exact iff_of_false (Bool.eq_false_iff.mp ends) fun meets => fits meets.1

end Pipeline

end Engine

open Engine.Pipeline

/-- The runner survives if and only if every order that it takes up trades for notionals that fit. -/
theorem runner_survives_iff [AitToken τ] {admin : Address} {run : List (Pipeline.Action τ)} :
    (TransitionRun.exec (Pipeline.exec d) (started w admin) run).alive = true ↔
      TransitionRun.Meets (Pipeline.exec d) (fun s action => s.NotionalsFit action = true)
        (started w admin) run :=
  (started_sound w admin).survives_iff rfl

namespace Devnet

/-- Bob bids a price that he could never pay, and alice sells to him. -/
def dearBid : List (Pipeline.Action ERC20) :=
  founding.map (.chain 0) ++
    [.chain 1 (.own { sender := bob } (.placeOrder 1 .buy (2 ^ 190) 100 0)),
      .chain 2 (.own { sender := alice } (.placeOrder 1 .sell 1 100 0)), .deliver, .deliver]

end Devnet

open Devnet

/-- The runner that matches the two orders panics. -/
theorem dear_bid_stops_runner :
    ¬ ∀ run : List (Pipeline.Action ERC20), (pipeline run).alive = true := by
  intro survives
  exact absurd (survives dearBid) (by decide +kernel)

end Aide
