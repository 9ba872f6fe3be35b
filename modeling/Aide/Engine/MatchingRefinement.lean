import Aide.Engine.BookRepresentation

namespace Aide.Engine

open NaiveBook (crosses reduce sweep)

variable {K : Type} [LinearOrder K] {resting : List OrderRecord} {side taker : Side} {key : ℕ ≃ K}
  {level best : K} {mo r incoming : OrderRecord} {qty oid : ℕ} {ids : List ℕ}
  {orders : ℕ → Option OrderRecord}

/-- The keys of a side are ordered from the best price for the taker to the worst. -/
structure Oriented (taker maker : Side) (key : ℕ ≃ K) : Prop where
  crosses_iff : ∀ {incoming r}, incoming.side = taker →
    (crosses incoming r = true ↔ r.side = maker ∧ key r.priceRay ≤ key incoming.priceRay)
  best_eq : ∀ {incoming resting}, incoming.side = taker → NaiveBook.best incoming resting =
    (resting.filter (crosses incoming)).argmin fun r => key r.priceRay

theorem askOriented : Oriented .buy .sell askKey where
  crosses_iff side := by simp [crosses, side, askKey]
  best_eq side := by
    unfold NaiveBook.best
    rw [side]
    rfl

theorem bidOriented : Oriented .sell .buy bidKey where
  crosses_iff side := by simp [crosses, side, bidKey]
  best_eq side := by
    unfold NaiveBook.best
    rw [side]
    rfl

section Side
variable {maker : Side} (oriented : Oriented taker maker key)
include oriented

/-- The reference trades next with the front of the queue at the best level. -/
theorem best_of_front (onSide : incoming.side = taker)
    (least : ∀ r ∈ resting, r.side = maker → best ≤ key r.priceRay)
    (reach : best ≤ key incoming.priceRay) (front : queue resting maker key best = oid :: ids) :
    ∃ mo ∈ resting, mo.orderId = oid ∧ mo.side = maker ∧ key mo.priceRay = best ∧
      NaiveBook.best incoming resting = some mo := by
  obtain ⟨mo, rest, filtered, named, _⟩ := List.map_eq_cons_iff.mp front
  obtain ⟨before, after, rfl, none, atLevel, _⟩ := List.filter_eq_cons_iff.mp filtered
  simp only [decide_eq_true_eq] at none atLevel
  have accepted : crosses incoming mo = true :=
    (oriented.crosses_iff onSide).mpr ⟨atLevel.1, atLevel.2.symm ▸ reach⟩
  refine ⟨mo, by simp, named, atLevel.1, atLevel.2, ?_⟩
  rw [oriented.best_eq onSide, List.filter_append, List.filter_cons_of_pos accepted]
  refine NaiveBook.argmin_of_first (fun x member => ?_) fun x member => ?_
  · obtain ⟨rests, crossing⟩ := List.mem_filter.mp member
    have sameSide := ((oriented.crosses_iff onSide).mp crossing).1
    have atLeast := least x (by simp [rests]) sameSide
    rw [atLevel.2]
    exact lt_of_le_of_ne atLeast fun same => none x rests ⟨sameSide, same.symm⟩
  · obtain ⟨rests, crossing⟩ := List.mem_filter.mp member
    rw [atLevel.2]
    exact least x (by simp [rests]) ((oriented.crosses_iff onSide).mp crossing).1

/-- The reference trades no more once the best level is out of reach. -/
theorem best_none_of_unreachable (onSide : incoming.side = taker)
    (beyond : ∀ r ∈ resting, r.side = maker → key incoming.priceRay < key r.priceRay) :
    NaiveBook.best incoming resting = none := by
  rw [oriented.best_eq onSide, List.argmin_eq_none, List.filter_eq_nil_iff]
  intro r rests crossing
  obtain ⟨sameSide, reach⟩ := (oriented.crosses_iff onSide).mp crossing
  exact absurd reach (not_le_of_gt (beyond r rests sameSide))

end Side

/-- What the reference makes of the state of a matching loop: the fills so far and those to come,
the rest of the incoming order and the orders that go on resting. -/
def Matching.outcome (s : Matching K) (resting : List OrderRecord) :
    List Fill × OrderRecord × List OrderRecord :=
  let swept := sweep s.incoming resting
  (s.fills ++ swept.1, swept.2)

/-- The state of the inner loop over the level at `best`, which may stand empty in the map. -/
structure Trading (s : Matching K) (maker : Side) (key : ℕ ≃ K) (best : K)
    (resting : List OrderRecord) : Prop where
  orders : OrdersHold s.orders resting
  level : s.levels[best]? = some (queue resting maker key best)
  others : ∀ level : K, level ≠ best → s.levels[level]? = levelOf (queue resting maker key level)

/-- What the inner loop over the level at `best` has done when it stops. -/
structure Traded (s next : Matching K) (maker : Side) (key : ℕ ≃ K) (best : K)
    (resting : List OrderRecord) : Prop where
  ended : ∃ left, OrdersHold next.orders left ∧ SideHolds (next.dropEmpty best).levels maker key left ∧
    next.outcome left = s.outcome resting ∧
    (next.incoming.remaining = 0 ∨ queue left maker key best = [])
  others : ∀ level : K, level ≠ best → next.levels[level]? = s.levels[level]?
  incoming : ∃ remaining, next.incoming = { s.incoming with remaining }

section Loop
variable {maker : Side} {s next : Matching K}

theorem getElem?_dropEmpty (s : Matching K) (level : K) :
    (s.dropEmpty best).levels[level]? =
      if level = best then (s.levels[best]?).filter (¬ ·.isEmpty) else s.levels[level]? := by
  unfold Matching.dropEmpty
  by_cases same : level = best
  · subst same
    cases found : s.levels[level]? with
    | none => simp
    | some ids => cases ids <;> simp [found, Option.filter]
  · rw [if_neg same]
    split
    · simp [Std.ExtTreeMap.getElem?_erase, Ne.symm same]
    · rfl

/-- A trade writes only the level at `best`. -/
theorem getElem?_trade (s : Matching K) (other : level ≠ best) :
    (s.trade key best ids oid mo).levels[level]? = s.levels[level]? := by
  simp only [Matching.trade]
  split
  · simp [Std.ExtTreeMap.getElem?_insert, Ne.symm other]
  · rfl

theorem Trading.closes (trading : Trading s maker key best resting) :
    SideHolds (s.dropEmpty best).levels maker key resting := by
  intro level
  rw [getElem?_dropEmpty]
  split
  · rename_i same
    subst same
    rw [trading.level, levelOf]
    cases queue resting maker key level <;> simp [Option.filter]
  · rename_i other
    exact trading.others level other

/-- One trade of the inner loop is the next trade of the reference. -/
theorem Trading.trade (oriented : Oriented taker maker key) (onSide : s.incoming.side = taker)
    (least : ∀ r ∈ resting, r.side = maker → best ≤ key r.priceRay)
    (reach : best ≤ key s.incoming.priceRay) (unfilled : s.incoming.remaining ≠ 0)
    (trading : Trading s maker key best resting)
    (front : queue resting maker key best = oid :: ids) :
    ∃ mo ∈ resting, s.orders oid = some mo ∧
      let qty := min s.incoming.remaining mo.remaining
      let next := s.trade key best (oid :: ids) oid mo
      Trading next maker key best (reduce mo qty resting) ∧
      next.outcome (reduce mo qty resting) = s.outcome resting ∧
      (next.incoming.remaining ≠ 0 → queue (reduce mo qty resting) maker key best = ids) := by
  obtain ⟨mo, member, rfl, sameSide, atBest, found⟩ :=
    best_of_front oriented onSide least reach front
  have popped : (mo.orderId :: ids).filter (· != mo.orderId) = ids := by
    have nodup : (queue resting maker key best).Nodup := trading.orders.queue_nodup
    rw [front, List.nodup_cons] at nodup
    rw [List.filter_cons_of_neg (by simp)]
    refine List.filter_eq_self.mpr fun id rests => ?_
    simp only [bne_iff_ne]
    rintro rfl
    exact nodup.1 rests
  have queueLeft : queue (reduce mo (min s.incoming.remaining mo.remaining) resting) maker key best =
      if mo.remaining = min s.incoming.remaining mo.remaining then ids else mo.orderId :: ids := by
    rw [queue_reduce, front, popped]
  refine ⟨mo, member, (trading.orders.lookup ..).mpr ⟨member, rfl⟩, ⟨?_, ?_, ?_⟩, ?_, ?_⟩
  · exact trading.orders.trade member (Nat.min_le_right ..)
  · rw [queueLeft]
    by_cases all : mo.remaining = min s.incoming.remaining mo.remaining
    · simp [Matching.trade, Matching.popOrder, ← all]
    · have part : ¬ mo.remaining - min s.incoming.remaining mo.remaining = 0 := by omega
      rw [if_neg all, ← front]
      simp only [Matching.trade, part, if_false]
      exact trading.level
  · intro level other
    rw [trading.orders.queue_reduce_of_ne member fun at_ => other (at_.2.symm.trans atBest),
      ← trading.others level other]
    exact getElem?_trade s other
  · have price : key.symm best = mo.priceRay := by rw [← atBest, Equiv.symm_apply_apply]
    simp [Matching.outcome, Matching.trade, NaiveBook.sweep_of_best unfilled found, price]
  · intro going
    have all : mo.remaining = min s.incoming.remaining mo.remaining := by
      simp only [Matching.trade] at going
      omega
    rw [queueLeft, if_pos all]

/-- The inner loop ends within its fuel, and has done what the reference does at this level. -/
theorem tradeLevel_traded (oriented : Oriented taker maker key) {fuel : ℕ}
    (onSide : s.incoming.side = taker)
    (least : ∀ r ∈ resting, r.side = maker → best ≤ key r.priceRay)
    (reach : best ≤ key s.incoming.priceRay) (trading : Trading s maker key best resting)
    (enough : (queue resting maker key best).length < fuel) :
    ∃ next, Matching.tradeLevel key best fuel s = .ok next ∧
      Traded s next maker key best resting := by
  induction fuel generalizing s resting with
  | zero => exact absurd enough (Nat.not_lt_zero _)
  | succ fuel ih =>
    cases front : queue resting maker key best with
    | nil =>
      have empty : s.levels[best]? = some [] := trading.level.trans (by rw [front])
      refine ⟨{ s with levels := s.levels.erase best },
        by simp [Matching.tradeLevel, Matching.tradeFront, empty],
        ⟨resting, trading.orders, fun level => ?_, rfl, Or.inr front⟩, fun level other => ?_,
        s.incoming.remaining, rfl⟩
      · rw [getElem?_dropEmpty]
        by_cases same : level = best
        · subst same
          simp [levelOf, front]
        · simp [same, Std.ExtTreeMap.getElem?_erase, Ne.symm same, trading.others level same]
      · simp [Std.ExtTreeMap.getElem?_erase, Ne.symm other]
    | cons oid ids =>
      have level : s.levels[best]? = some (oid :: ids) := trading.level.trans (by rw [front])
      by_cases filled : s.incoming.remaining = 0
      · exact ⟨s, by simp [Matching.tradeLevel, Matching.tradeFront, level, filled],
          ⟨resting, trading.orders, trading.closes, rfl, Or.inl filled⟩, fun _ _ => rfl,
          s.incoming.remaining, rfl⟩
      · obtain ⟨mo, member, found, traded, same, shorter⟩ :=
          trading.trade oriented onSide least reach filled front
        have step : s.tradeFront key best =
            .ok (decide ((s.trade key best (oid :: ids) oid mo).incoming.remaining ≠ 0),
              s.trade key best (oid :: ids) oid mo) := by
          simp [Matching.tradeFront, level, filled, found]
        by_cases stops : (s.trade key best (oid :: ids) oid mo).incoming.remaining = 0
        · refine ⟨s.trade key best (oid :: ids) oid mo,
            by rw [Matching.tradeLevel, step]; simp [stops],
            ⟨_, traded.orders, traded.closes, same, Or.inl stops⟩,
            fun level other => getElem?_trade s other, _, rfl⟩
        · have leastLeft : ∀ r ∈ reduce mo (min s.incoming.remaining mo.remaining) resting,
              r.side = maker → best ≤ key r.priceRay := fun r left sameSide => by
            obtain ⟨o, rests, same⟩ := NaiveBook.mem_reduce left
            rw [same] at sameSide ⊢
            exact least o rests sameSide
          have fewer : (queue (reduce mo (min s.incoming.remaining mo.remaining) resting)
              maker key best).length < fuel := by
            rw [shorter stops]
            rw [front, List.length_cons] at enough
            omega
          obtain ⟨next, runs, ended, others, remaining, incoming⟩ :=
            ih (s := s.trade key best (oid :: ids) oid mo) onSide leastLeft reach traded fewer
          obtain ⟨left, orders, holds, outcome, done⟩ := ended
          exact ⟨next, by rw [Matching.tradeLevel, step]; simpa [stops] using runs,
            ⟨left, orders, holds, outcome.trans same, done⟩,
            fun level other => (others level other).trans (getElem?_trade s other),
            remaining, incoming⟩

theorem dropEmpty_incoming (best : K) (s : Matching K) : (s.dropEmpty best).incoming = s.incoming := by
  unfold Matching.dropEmpty
  split <;> rfl

theorem dropEmpty_orders (best : K) (s : Matching K) : (s.dropEmpty best).orders = s.orders := by
  unfold Matching.dropEmpty
  split <;> rfl

theorem dropEmpty_outcome (best : K) (s : Matching K) (resting : List OrderRecord) :
    (s.dropEmpty best).outcome resting = s.outcome resting := by
  unfold Matching.dropEmpty
  split <;> rfl

/-- A resting order has a level. -/
theorem SideHolds.isSome {levels : Levels K} (holds : SideHolds levels maker key resting)
    (rests : r ∈ resting) (onSide : r.side = maker) : levels[key r.priceRay]?.isSome := by
  have queued : r.orderId ∈ queue resting maker key (key r.priceRay) :=
    mem_queue.mpr ⟨r, rests, onSide, rfl, rfl⟩
  rw [holds, levelOf, if_neg (List.ne_nil_of_mem queued)]
  rfl

/-- The outer loop ends within its fuel, and does what the reference does. -/
theorem tradeSide_sweeps (oriented : Oriented taker maker key) {fuel : ℕ}
    (onSide : s.incoming.side = taker) (orders : OrdersHold s.orders resting)
    (holds : SideHolds s.levels maker key resting) (enough : s.levels.keys.length < fuel) :
    ∃ next left, Matching.tradeSide key fuel s = .ok next ∧ OrdersHold next.orders left ∧
      SideHolds next.levels maker key left ∧
      s.outcome resting = (next.fills, next.incoming, left) := by
  induction fuel generalizing s resting with
  | zero => exact absurd enough (Nat.not_lt_zero _)
  | succ fuel ih =>
    have stops : NaiveBook.best s.incoming resting = none →
        s.outcome resting = (s.fills, s.incoming, resting) := fun none => by
      simp [Matching.outcome, NaiveBook.sweep_of_none none]
    cases first : s.levels.best with
    | none =>
      refine ⟨s, resting, by simp [Matching.tradeSide, first], orders, holds, stops ?_⟩
      refine best_none_of_unreachable oriented onSide fun r rests onMaker => ?_
      have level := holds.isSome rests onMaker
      simp [Levels.best_eq_none.mp first] at level
    | some best =>
      obtain ⟨present, smallest⟩ := Levels.best_eq_some.mp first
      have least : ∀ r ∈ resting, r.side = maker → best ≤ key r.priceRay :=
        fun r rests onMaker => smallest _ (holds.isSome rests onMaker)
      by_cases beyond : key s.incoming.priceRay < best
      · refine ⟨s, resting, by simp [Matching.tradeSide, first, beyond], orders, holds, stops ?_⟩
        exact best_none_of_unreachable oriented onSide fun r rests onMaker =>
          beyond.trans_le (least r rests onMaker)
      · have level : s.levels[best]? = some (queue resting maker key best) := by
          rw [holds, levelOf] at present ⊢
          split at present
          · cases present
          · rename_i filled
            rw [if_neg filled]
        have trading : Trading s maker key best resting := ⟨orders, level, fun other _ => holds other⟩
        obtain ⟨traded, runs, ⟨left, ordersLeft, holdsLeft, same, done⟩, others, remaining, incoming⟩ :=
          tradeLevel_traded oriented onSide least (not_lt.mp beyond) trading (Nat.lt_succ_self _)
        have unfolded : Matching.tradeSide key (fuel + 1) s =
            if (traded.dropEmpty best).incoming.remaining = 0 then .ok (traded.dropEmpty best)
            else Matching.tradeSide key fuel (traded.dropEmpty best) := by
          simp [Matching.tradeSide, first, beyond, level, runs]
        have sameOutcome := (dropEmpty_outcome best traded left).trans same
        rw [← dropEmpty_incoming best] at done incoming
        rw [← dropEmpty_orders best] at ordersLeft
        by_cases filled : (traded.dropEmpty best).incoming.remaining = 0
        · refine ⟨traded.dropEmpty best, left, by rw [unfolded, if_pos filled], ordersLeft, holdsLeft,
            sameOutcome.symm.trans ?_⟩
          simp [Matching.outcome, NaiveBook.sweep_of_filled left filled]
        · have gone : (traded.dropEmpty best).levels[best]? = none := by
            rw [holdsLeft, levelOf, if_pos (done.resolve_left filled)]
          have fewer : (traded.dropEmpty best).levels.keys.length < fuel :=
            (Levels.keys_length_lt present gone fun other apart => by
              rw [getElem?_dropEmpty, if_neg apart, others other apart]).trans_le
              (Nat.le_of_lt_succ enough)
          have onSideLeft : (traded.dropEmpty best).incoming.side = taker := by
            rw [incoming]
            exact onSide
          obtain ⟨next, final, ran, ordersFinal, holdsFinal, outcome⟩ :=
            ih onSideLeft ordersLeft holdsLeft fewer
          exact ⟨next, final, by rw [unfolded, if_neg filled, ran], ordersFinal, holdsFinal,
            sameOutcome.symm.trans outcome⟩

end Loop

/-- A sweep leaves the queues of the taker's own side alone. -/
theorem OrdersHold.sweep_own (hold : OrdersHold orders resting) :
    queue (sweep incoming resting).2.2 incoming.side key level =
      queue resting incoming.side key level := by
  induction incoming, resting using NaiveBook.sweep.induct generalizing orders with
  | case1 incoming resting filled => rw [NaiveBook.sweep_of_filled resting filled]
  | case2 incoming resting unfilled none => rw [NaiveBook.sweep_of_none none]
  | case3 incoming resting unfilled mo found _ =>
    rename_i ih
    obtain ⟨member, crossing⟩ := NaiveBook.best_mem found
    have otherSide := NaiveBook.crosses_side crossing
    rw [NaiveBook.sweep_of_best unfilled found]
    refine (ih (hold.trade member (Nat.min_le_right ..))).trans ?_
    exact hold.queue_reduce_of_ne member fun own => otherSide own.1

theorem matchBuy_sweeps {book : OrderBook} (rep : Represents book resting)
    (onSide : incoming.side = .buy) :
    ∃ next, matchBuy book incoming =
        .ok (next, (sweep incoming resting).2.1, (sweep incoming resting).1) ∧
      Represents next (sweep incoming resting).2.2 := by
  obtain ⟨next, left, runs, orders, holds, outcome⟩ := tradeSide_sweeps
    (s := { levels := book.asks, orders := book.orders, incoming, fills := [] }) askOriented onSide
    rep.orders rep.asks (Nat.lt_add_one book.asks.keys.length)
  simp only [Matching.outcome, List.nil_append, Prod.ext_iff] at outcome
  obtain ⟨fills, rest, rfl⟩ := outcome
  refine ⟨{ book with asks := next.levels, orders := next.orders }, ?_, orders, holds, fun level => ?_⟩
  · rw [matchBuy, runs, fills, rest]
    rfl
  · rw [← onSide, rep.orders.sweep_own, onSide]
    exact rep.bids level

theorem matchSell_sweeps {book : OrderBook} (rep : Represents book resting)
    (onSide : incoming.side = .sell) :
    ∃ next, matchSell book incoming =
        .ok (next, (sweep incoming resting).2.1, (sweep incoming resting).1) ∧
      Represents next (sweep incoming resting).2.2 := by
  obtain ⟨next, left, runs, orders, holds, outcome⟩ := tradeSide_sweeps
    (s := { levels := book.bids, orders := book.orders, incoming, fills := [] }) bidOriented onSide
    rep.orders rep.bids (Nat.lt_add_one book.bids.keys.length)
  simp only [Matching.outcome, List.nil_append, Prod.ext_iff] at outcome
  obtain ⟨fills, rest, rfl⟩ := outcome
  refine ⟨{ book with bids := next.levels, orders := next.orders }, ?_, orders, fun level => ?_, holds⟩
  · rw [matchSell, runs, fills, rest]
    rfl
  · rw [← onSide, rep.orders.sweep_own, onSide]
    exact rep.asks level

theorem matchIncoming_sweeps {book : OrderBook} (incoming : OrderRecord) (rep : Represents book resting) :
    ∃ next, matchIncoming book incoming =
        .ok (next, (sweep incoming resting).2.1, (sweep incoming resting).1) ∧
      Represents next (sweep incoming resting).2.2 := by
  unfold matchIncoming
  cases onSide : incoming.side with
  | buy => exact matchBuy_sweeps rep onSide
  | sell => exact matchSell_sweeps rep onSide

namespace MatchEngine

section Placement
variable {engine : MatchEngine} {incoming rest : OrderRecord} {book : OrderBook} {fills : List Fill}
  (running : engine.matchingPaused = false)
  (runs : matchIncoming (engine.books incoming.companyId) incoming = .ok (book, rest, fills))
include running runs

theorem limitOrderPlacement_filled (filled : ¬ 0 < rest.remaining) :
    engine.limitOrderPlacement incoming = .ok (.ok fills, engine.setBook rest.companyId book) := by
  simp [limitOrderPlacement, running, runs, bind, Except.bind, pure, Except.pure, filled]

theorem limitOrderPlacement_refused {error : BookError} (unfilled : 0 < rest.remaining)
    (refused : book.insertLimitOrder rest = .error error) : engine.limitOrderPlacement incoming =
      .ok (.error (.book error), engine.setBook rest.companyId book) := by
  simp [limitOrderPlacement, running, runs, bind, Except.bind, pure, Except.pure, unfilled, refused]

theorem limitOrderPlacement_rests {whole : OrderBook} (unfilled : 0 < rest.remaining)
    (inserted : book.insertLimitOrder rest = .ok whole) : engine.limitOrderPlacement incoming =
      .ok (.ok fills, engine.setBook rest.companyId whole) := by
  simp [limitOrderPlacement, running, runs, bind, Except.bind, pure, Except.pure, unfilled, inserted]

end Placement

/-- What the engine does with an order that has swept its book: it is filled, its rest is refused
because its id rests already, or its rest is appended. -/
inductive AfterSweep (engine : MatchEngine) (incoming : OrderRecord) (resting : List OrderRecord) :
    Verdict → MatchEngine → Prop
  | filled {book} : (sweep incoming resting).2.1.remaining = 0 →
      Represents book (sweep incoming resting).2.2 →
      AfterSweep engine incoming resting (.ok (sweep incoming resting).1)
        (engine.setBook incoming.companyId book)
  | refused {book r} : r ∈ (sweep incoming resting).2.2 → r.orderId = incoming.orderId →
      Represents book (sweep incoming resting).2.2 →
      AfterSweep engine incoming resting (.error (.book (.duplicateOrderId incoming.orderId)))
        (engine.setBook incoming.companyId book)
  | rests {book} : 0 < (sweep incoming resting).2.1.remaining →
      Represents book ((sweep incoming resting).2.2 ++ [(sweep incoming resting).2.1]) →
      AfterSweep engine incoming resting (.ok (sweep incoming resting).1)
        (engine.setBook incoming.companyId book)

theorem limitOrderPlacement_sweeps {engine : MatchEngine} (incoming : OrderRecord)
    (rep : Represents (engine.books incoming.companyId) resting)
    (running : engine.matchingPaused = false) :
    ∃ verdict next, engine.limitOrderPlacement incoming = .ok (verdict, next) ∧
      AfterSweep engine incoming resting verdict next := by
  obtain ⟨book, runs, repBook⟩ := matchIncoming_sweeps incoming rep
  obtain ⟨remaining, rest⟩ := NaiveBook.sweep_incoming incoming resting
  have sameCompany : (sweep incoming resting).2.1.companyId = incoming.companyId := by rw [rest]
  have sameId : (sweep incoming resting).2.1.orderId = incoming.orderId := by rw [rest]
  by_cases unfilled : 0 < (sweep incoming resting).2.1.remaining
  · rcases repBook.insertLimitOrder_cases (sweep incoming resting).2.1 with
      ⟨⟨r, member, same⟩, refused⟩ | ⟨whole, inserted, repWhole⟩
    · refine ⟨_, _, ?_, .refused member (same.trans sameId) repBook⟩
      rw [limitOrderPlacement_refused running runs unfilled refused, sameCompany, sameId]
    · refine ⟨_, _, ?_, .rests unfilled repWhole⟩
      rw [limitOrderPlacement_rests running runs unfilled inserted, sameCompany]
  · refine ⟨_, _, ?_, .filled (Nat.eq_zero_of_not_pos unfilled) repBook⟩
    rw [limitOrderPlacement_filled running runs unfilled, sameCompany]

end MatchEngine

end Aide.Engine
