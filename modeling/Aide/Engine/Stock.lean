import Aide.Engine.MatchRunner
import Aide.Engine.Tally
import Aide.PriceTime

/-!
What holds of the engine for every list of calls, also where an id is submitted again and the
book refuses it: its books stay well formed, and its fills trade orders that were submitted.
-/

namespace Aide.Engine

open NaiveBook (crosses sweep)

/-- The fill trades two orders that accept each other, at the price of the maker. -/
structure Fill.Between (f : Fill) (maker taker : OrderRecord) : Prop where
  accepts : crosses taker maker = true
  trades : f = Matching.fill taker maker maker.orderId maker.priceRay f.vstkAmount

/-- A property of an order that trading keeps. -/
def Lasting (P : OrderRecord → Prop) : Prop := ∀ r remaining, P r → P { r with remaining }

/-- Every book represents some resting orders, all of its own company and with the property `P`. -/
def Stocked (P : OrderRecord → Prop) (engine : MatchEngine) : Prop :=
  ∀ companyId, ∃ resting, Represents (engine.books companyId) resting ∧
    ∀ r ∈ resting, r.companyId = companyId ∧ P r

/-- A sweep trades the incoming order with orders that rested. -/
theorem sweep_between {resting : List OrderRecord} {incoming : OrderRecord} {f : Fill}
    (member : f ∈ (sweep incoming resting).1) :
    ∃ mo ∈ resting, f.Between mo incoming := by
  induction incoming, resting using NaiveBook.sweep.induct with
  | case1 incoming resting filled =>
    rw [NaiveBook.sweep_of_filled resting filled] at member
    cases member
  | case2 incoming resting unfilled none =>
    rw [NaiveBook.sweep_of_none none] at member
    cases member
  | case3 incoming resting unfilled mo found qty ih =>
    rw [NaiveBook.sweep_of_best unfilled found] at member
    obtain ⟨rests, accepts⟩ := NaiveBook.best_mem found
    rcases List.mem_cons.mp member with rfl | later
    · exact ⟨mo, rests, accepts, rfl⟩
    · obtain ⟨o, reduced, between⟩ := ih later
      obtain ⟨p, rested, same⟩ := NaiveBook.mem_reduce reduced
      refine ⟨p, rested, ?_, ?_⟩
      · have accepted := between.accepts
        rw [same] at accepted
        exact accepted
      · have trades := between.trades
        rw [same] at trades
        exact trades

namespace Stocked
variable {P : OrderRecord → Prop} {engine : MatchEngine}

theorem new : Stocked P MatchEngine.new := fun companyId =>
  ⟨[], Refines.new.books companyId, fun _ rests => absurd rests List.not_mem_nil⟩

theorem imp {Q : OrderRecord → Prop} (stocked : Stocked P engine)
    (weaker : ∀ r, P r → Q r) : Stocked Q engine := fun companyId => by
  obtain ⟨resting, rep, holds⟩ := stocked companyId
  exact ⟨resting, rep, fun r rests => ⟨(holds r rests).1, weaker r (holds r rests).2⟩⟩

theorem setBook (stocked : Stocked P engine) {companyId : ℕ} {book : OrderBook}
    {resting : List OrderRecord} (rep : Represents book resting)
    (holds : ∀ r ∈ resting, r.companyId = companyId ∧ P r) :
    Stocked P (engine.setBook companyId book) := by
  intro other
  by_cases same : other = companyId
  · subst same
    exact ⟨resting, by simpa [MatchEngine.setBook] using rep, holds⟩
  · simpa [MatchEngine.setBook, same] using stocked other

theorem ingestChainOrder (stocked : Stocked P engine) {record : OrderRecord} (submits : P record) :
    Stocked P (engine.ingestChainOrder record).2 := by
  obtain ⟨resting, rep, holds⟩ := stocked record.companyId
  unfold MatchEngine.ingestChainOrder
  rcases rep.insertLimitOrder_cases record with ⟨_, refused⟩ | ⟨book, inserted, repNext⟩
  · rw [refused]
    exact stocked
  · rw [inserted]
    refine stocked.setBook repNext fun r rests => ?_
    rcases List.mem_append.mp rests with rested | new
    · exact holds r rested
    · cases List.mem_singleton.mp new
      exact ⟨rfl, submits⟩

theorem ingestCancel (stocked : Stocked P engine) (companyId orderId : ℕ) :
    Stocked P (engine.ingestCancel companyId orderId).2 := by
  obtain ⟨resting, rep, holds⟩ := stocked companyId
  unfold MatchEngine.ingestCancel
  by_cases rests : ∃ r ∈ resting, r.orderId = orderId
  · obtain ⟨mo, member, rfl⟩ := rests
    obtain ⟨book, cancelled, repNext⟩ := rep.cancelOrder member
    rw [cancelled]
    exact stocked.setBook repNext fun r left => holds r (List.mem_of_mem_filter left)
  · have unknown := rep.cancelOrder_unknown fun r member same => rests ⟨r, member, same⟩
    rw [unknown]
    exact stocked

/-- The sweep leaves a well formed book, whether or not the rest of the order can be inserted. -/
theorem limitOrderPlacement (lasting : Lasting P) (stocked : Stocked P engine)
    {incoming : OrderRecord} (submits : P incoming) :
    ∃ verdict next, engine.limitOrderPlacement incoming = .ok (verdict, next) ∧ Stocked P next ∧
      ∀ fills, verdict = .ok fills → ∀ f ∈ fills, ∃ maker, P maker ∧ f.Between maker incoming := by
  by_cases paused : engine.matchingPaused = true
  · refine ⟨.error .matchingPaused, engine, ?_, stocked, fun fills same => by cases same⟩
    simp [MatchEngine.limitOrderPlacement, paused]
  · obtain ⟨resting, rep, holds⟩ := stocked incoming.companyId
    have running : engine.matchingPaused = false := by simpa using paused
    obtain ⟨verdict, next, runs, swept⟩ :=
      MatchEngine.limitOrderPlacement_sweeps incoming rep running
    have left : ∀ r ∈ (sweep incoming resting).2.2, r.companyId = incoming.companyId ∧ P r := by
      intro r rests
      obtain ⟨o, rested, same⟩ := NaiveBook.mem_sweep rests
      obtain ⟨company, held⟩ := holds o rested
      rw [same]
      exact ⟨company, lasting o _ held⟩
    have trades : ∀ f ∈ (sweep incoming resting).1, ∃ maker, P maker ∧ f.Between maker incoming := by
      intro f member
      obtain ⟨maker, rested, between⟩ := sweep_between member
      exact ⟨maker, (holds maker rested).2, between⟩
    refine ⟨verdict, next, runs, ?_⟩
    cases swept with
    | filled done repBook =>
      refine ⟨stocked.setBook repBook left, fun fills same => ?_⟩
      cases same
      exact trades
    | refused member named repBook =>
      exact ⟨stocked.setBook repBook left, fun fills same => by cases same⟩
    | rests unfilled repBook =>
      refine ⟨stocked.setBook repBook fun r rests => ?_, fun fills same => ?_⟩
      · rcases List.mem_append.mp rests with rested | new
        · exact left r rested
        · obtain ⟨remaining, rest⟩ := NaiveBook.sweep_incoming incoming resting
          cases List.mem_singleton.mp new
          rw [rest]
          exact ⟨rfl, lasting incoming remaining submits⟩
      · cases same
        exact trades

/-- One call. -/
theorem exec (lasting : Lasting P) (stocked : Stocked P engine) {call : MatchEngine.Call}
    (submits : ∀ record ∈ call.submitted, P record) :
    ∃ verdict next, engine.exec call = .ok (verdict, next) ∧ Stocked P next ∧
      ∀ fills, verdict = .ok fills → ∀ f ∈ fills,
        ∃ maker taker, P maker ∧ P taker ∧ f.Between maker taker := by
  cases call with
  | ingestChainOrder record =>
    refine ⟨(engine.ingestChainOrder record).1, _, rfl,
      stocked.ingestChainOrder (submits record rfl), fun fills same f member => ?_⟩
    unfold MatchEngine.ingestChainOrder at same
    split at same
    · cases same
    · cases same
      cases member
  | ingestCancel companyId orderId =>
    refine ⟨(engine.ingestCancel companyId orderId).1, _, rfl,
      stocked.ingestCancel companyId orderId, fun fills same f member => ?_⟩
    unfold MatchEngine.ingestCancel at same
    split at same
    · cases same
    · cases same
      cases member
  | limitOrderPlacement incoming =>
    obtain ⟨verdict, next, runs, stockedNext, trades⟩ :=
      stocked.limitOrderPlacement lasting (submits incoming rfl)
    refine ⟨verdict, next, runs, stockedNext, fun fills same f member => ?_⟩
    obtain ⟨maker, held, between⟩ := trades fills same f member
    exact ⟨maker, incoming, held, submits incoming rfl, between⟩
  | pauseMatching =>
    exact ⟨_, _, rfl, stocked, fun fills same f member => by cases same; cases member⟩
  | resumeMatching =>
    exact ⟨_, _, rfl, stocked, fun fills same f member => by cases same; cases member⟩

/-- Every run ends without a fault, and its fills trade submitted orders. -/
theorem run (lasting : Lasting P) (stocked : Stocked P engine) {calls : List MatchEngine.Call}
    (submits : ∀ call ∈ calls, ∀ record ∈ call.submitted, P record) :
    ∃ verdicts next, engine.run calls = .ok (verdicts, next) ∧ Stocked P next ∧
      ∀ fills, .ok fills ∈ verdicts → ∀ f ∈ fills,
        ∃ maker taker, P maker ∧ P taker ∧ f.Between maker taker := by
  induction calls generalizing engine with
  | nil => exact ⟨[], engine, rfl, stocked, fun fills member => absurd member List.not_mem_nil⟩
  | cons call rest ih =>
    obtain ⟨verdict, next, runs, stockedNext, trades⟩ :=
      stocked.exec lasting (submits call (List.mem_cons_self ..))
    obtain ⟨verdicts, final, ran, stockedFinal, tradesRest⟩ :=
      ih stockedNext fun call member => submits call (List.mem_cons_of_mem _ member)
    refine ⟨verdict :: verdicts, final, ?_, stockedFinal, fun fills member => ?_⟩
    · simp [MatchEngine.run, runs, ran, bind, Except.bind, pure, Except.pure]
    · rcases List.mem_cons.mp member with same | later
      · exact trades fills same.symm
      · exact tradesRest fills later

end Stocked

namespace SharedState
variable {state : SharedState} {ev : EngineEvent}

/-- What the runner does with an order that is not dropped. -/
theorem handle_running {placedAt : ℕ} {incoming : OrderRecord}
    (running : (state.matchPaused || state.engine.matchingPaused) = false) {fills : List Fill}
    {after : MatchEngine} (returned : state.engine.limitOrderPlacement incoming = .ok (.ok fills, after)) :
    state.handle (.orderPlaced placedAt incoming.orderId incoming.companyId incoming.maker incoming.side
      incoming.priceRay incoming.remaining incoming.timestamp) =
        pushFills { state with engine := after } fills := by
  simp only [handle, running, Bool.false_eq_true, if_false]
  rw [returned]

/-- The books stay well formed, and a fill is sent only for the order that is placed. -/
theorem handle_stocked {P : OrderRecord → Prop} (lasting : Lasting P) (stocked : Stocked P state.engine)
    (submits : ∀ r : OrderRecord, ev.placedId = some r.orderId → P r) :
    Stocked P (state.handle ev).state.engine ∧
      ∀ f ∈ (state.handle ev).sent, ev.placedId = some f.takerOrderId := by
  have none : ∀ f : Fill, f ∈ ([] : List Fill) → ev.placedId = some f.takerOrderId :=
    fun f sent => absurd sent List.not_mem_nil
  cases ev with
  | newBlock => exact ⟨stocked, none⟩
  | orderCancelled block companyId orderId => exact ⟨stocked.ingestCancel companyId orderId, none⟩
  | tradeSettled block companyId buyer seller vstkAmount aitNotional =>
    simp only [handle]
    split
    · exact ⟨stocked, none⟩
    · rename_i counted
      rw [accumulateVelocity_engine counted]
      exact ⟨stocked, none⟩
  | orderPlaced block orderId companyId maker side priceRay amount timestamp =>
    cases paused : state.matchPaused || state.engine.matchingPaused with
    | true =>
      simp only [handle, paused, if_true]
      exact ⟨stocked, none⟩
    | false =>
      obtain ⟨verdict, after, runs, stockedNext, trades⟩ := stocked.limitOrderPlacement lasting
        (submits ⟨orderId, companyId, maker, side, priceRay, amount, timestamp⟩ rfl)
      cases verdict with
      | error error =>
        simp only [handle, paused, Bool.false_eq_true, if_false]
        rw [runs]
        exact ⟨stockedNext, none⟩
      | ok fills =>
        rw [handle_running paused runs]
        refine ⟨?_, fun f sent => ?_⟩
        · rw [(pushFills_spec _ state fills).2.2.1]
          exact stockedNext
        · obtain ⟨maker, _, between⟩ := trades fills rfl f (pushFills_sent sent)
          exact congrArg some (congrArg Fill.takerOrderId between.trades).symm

end SharedState

end Aide.Engine
