import Aide.Engine.Stock

namespace Aide

open Engine NaiveBook MatchEngine

namespace Engine

/-- The call does not insert an order without matching it. -/
def MatchEngine.Call.Matched : Call → Prop
  | .ingestChainOrder _ => False
  | _ => True

/-- Every resting bid is below every resting ask. -/
def Uncrossed (resting : List OrderRecord) : Prop :=
  ∀ bid ∈ resting, ∀ ask ∈ resting, bid.side = .buy → ask.side = .sell → bid.priceRay < ask.priceRay

section Sweep
variable {incoming mo r : OrderRecord} {resting left : List OrderRecord}

theorem none_crosses_of_best (none : best incoming resting = none) (member : r ∈ resting) :
    crosses incoming r = false := by
  have empty : resting.filter (crosses incoming) = [] := by
    unfold best at none
    split at none
    · exact List.argmin_eq_none.mp none
    · exact List.argmax_eq_none.mp none
  simpa using List.filter_eq_nil_iff.mp empty r member

/-- An order that is not filled has left no order that it accepts. The loop stops for no other
reason: each trade takes the next order or the rest of the incoming one. -/
theorem sweep_exhausts (unfilled : 0 < (sweep incoming resting).2.1.remaining)
    (member : r ∈ (sweep incoming resting).2.2) : crosses incoming r = false := by
  induction incoming, resting using sweep.induct with
  | case1 incoming resting filled =>
    rw [sweep_of_filled resting filled, filled] at unfilled
    omega
  | case2 incoming resting _ none =>
    rw [sweep_of_none none] at member
    exact none_crosses_of_best none member
  | case3 incoming resting unfinished mo found qty ih =>
    rw [sweep_of_best unfinished found] at unfilled member
    exact ih unfilled member

/-- Every order that is left was resting at the same side and price. -/
theorem Uncrossed.of_prices (uncrossed : Uncrossed resting)
    (origin : ∀ r ∈ left, ∃ o ∈ resting, r = { o with remaining := r.remaining }) :
    Uncrossed left := by
  intro bid bidLeft ask askLeft buys sells
  obtain ⟨oldBid, bidRests, sameBid⟩ := origin bid bidLeft
  obtain ⟨oldAsk, askRests, sameAsk⟩ := origin ask askLeft
  rw [sameBid] at buys ⊢
  rw [sameAsk] at sells ⊢
  exact uncrossed oldBid bidRests oldAsk askRests buys sells

/-- An order that accepts no resting order can rest with them. -/
theorem Uncrossed.append (uncrossed : Uncrossed resting)
    (apart : ∀ r ∈ resting, crosses incoming r = false) : Uncrossed (resting ++ [incoming]) := by
  intro bid bidRests ask askRests buys sells
  rcases List.mem_append.mp bidRests with bidOld | bidNew
  · rcases List.mem_append.mp askRests with askOld | askNew
    · exact uncrossed bid bidOld ask askOld buys sells
    · cases List.mem_singleton.mp askNew
      have refused := apart bid bidOld
      simpa [crosses, sells, buys] using refused
  · cases List.mem_singleton.mp bidNew
    rcases List.mem_append.mp askRests with askOld | askNew
    · have refused := apart ask askOld
      simpa [crosses, sells, buys] using refused
    · cases List.mem_singleton.mp askNew
      cases buys.symm.trans sells

theorem Uncrossed.sweep (uncrossed : Uncrossed resting) :
    Uncrossed (NaiveBook.sweep incoming resting).2.2 :=
  uncrossed.of_prices fun _ member => mem_sweep member

theorem Uncrossed.sweep_append (uncrossed : Uncrossed resting)
    (unfilled : 0 < (NaiveBook.sweep incoming resting).2.1.remaining) :
    Uncrossed ((NaiveBook.sweep incoming resting).2.2 ++ [(NaiveBook.sweep incoming resting).2.1]) := by
  refine uncrossed.sweep.append fun r member => ?_
  obtain ⟨remaining, rest⟩ := sweep_incoming incoming resting
  have refused := sweep_exhausts unfilled member
  rw [rest]
  exact refused

end Sweep

/-- The resting bids of every company are below its resting asks. -/
def BooksUncrossed (engine : MatchEngine) : Prop :=
  ∀ companyId, ∃ resting, Represents (engine.books companyId) resting ∧ Uncrossed resting

namespace BooksUncrossed
variable {engine : MatchEngine} {companyId : ℕ} {book : OrderBook} {resting : List OrderRecord}

theorem new : BooksUncrossed MatchEngine.new := fun companyId =>
  ⟨[], Refines.new.books companyId, fun _ member => absurd member List.not_mem_nil⟩

theorem setBook (apart : BooksUncrossed engine) (rep : Represents book resting)
    (uncrossed : Uncrossed resting) : BooksUncrossed (engine.setBook companyId book) := by
  intro other
  by_cases same : other = companyId
  · subst same
    exact ⟨resting, by simpa [MatchEngine.setBook] using rep, uncrossed⟩
  · simpa [MatchEngine.setBook, same] using apart other

theorem ingestCancel (apart : BooksUncrossed engine) (companyId orderId : ℕ) :
    BooksUncrossed (engine.ingestCancel companyId orderId).2 := by
  obtain ⟨resting, rep, uncrossed⟩ := apart companyId
  unfold MatchEngine.ingestCancel
  by_cases rests : ∃ r ∈ resting, r.orderId = orderId
  · obtain ⟨mo, member, rfl⟩ := rests
    obtain ⟨book, cancelled, repNext⟩ := rep.cancelOrder member
    rw [cancelled]
    refine apart.setBook repNext (uncrossed.of_prices fun r left => ?_)
    exact ⟨r, List.mem_of_mem_filter left, rfl⟩
  · have unknown := rep.cancelOrder_unknown fun r member same => rests ⟨r, member, same⟩
    rw [unknown]
    exact apart

theorem limitOrderPlacement (apart : BooksUncrossed engine) (incoming : OrderRecord) :
    ∃ verdict next, engine.limitOrderPlacement incoming = .ok (verdict, next) ∧
      BooksUncrossed next := by
  cases paused : engine.matchingPaused with
  | true =>
    refine ⟨.error .matchingPaused, engine, ?_, apart⟩
    simp [MatchEngine.limitOrderPlacement, paused]
  | false =>
    obtain ⟨resting, rep, uncrossed⟩ := apart incoming.companyId
    obtain ⟨verdict, next, runs, swept⟩ := limitOrderPlacement_sweeps incoming rep paused
    refine ⟨verdict, next, runs, ?_⟩
    cases swept with
    | filled done repBook => exact apart.setBook repBook uncrossed.sweep
    | refused member named repBook => exact apart.setBook repBook uncrossed.sweep
    | rests unfilled repBook => exact apart.setBook repBook (uncrossed.sweep_append unfilled)

/-- One call. -/
theorem exec (apart : BooksUncrossed engine) {call : Call} (matched : call.Matched) :
    ∃ verdict next, engine.exec call = .ok (verdict, next) ∧ BooksUncrossed next := by
  cases call with
  | ingestChainOrder record => exact matched.elim
  | ingestCancel companyId orderId => exact ⟨_, _, rfl, apart.ingestCancel companyId orderId⟩
  | limitOrderPlacement incoming => exact apart.limitOrderPlacement incoming
  | pauseMatching => exact ⟨_, _, rfl, apart⟩
  | resumeMatching => exact ⟨_, _, rfl, apart⟩

/-- Every run, by induction on its calls. -/
theorem run (apart : BooksUncrossed engine) {calls : List Call}
    (matched : ∀ call ∈ calls, call.Matched) :
    ∃ verdicts next, engine.run calls = .ok (verdicts, next) ∧ BooksUncrossed next := by
  induction calls generalizing engine with
  | nil => exact ⟨[], engine, rfl, apart⟩
  | cons call rest ih =>
    obtain ⟨verdict, next, runs, apartNext⟩ := apart.exec (matched call (List.mem_cons_self ..))
    obtain ⟨verdicts, final, ran, apartFinal⟩ :=
      ih apartNext fun call member => matched call (List.mem_cons_of_mem _ member)
    refine ⟨verdict :: verdicts, final, ?_, apartFinal⟩
    simp [MatchEngine.run, runs, ran, bind, Except.bind, pure, Except.pure]

end BooksUncrossed

namespace Represents
variable {book : OrderBook} {resting : List OrderRecord} (rep : Represents book resting) {price : ℕ}
include rep

/-- The best price of a side is the price of an order that rests there. -/
theorem bestAsk_rests (best : book.bestAsk = some price) :
    ∃ r ∈ resting, r.side = .sell ∧ r.priceRay = price := by
  have level := (Levels.best_eq_some.mp best).1
  rw [rep.asks, levelOf] at level
  split at level
  · cases level
  · rename_i filled
    obtain ⟨id, queued⟩ := List.exists_mem_of_ne_nil _ filled
    obtain ⟨r, rests, onSide, atPrice, _⟩ := mem_queue.mp queued
    exact ⟨r, rests, onSide, atPrice⟩

theorem bestBid_rests (best : book.bestBid = some price) :
    ∃ r ∈ resting, r.side = .buy ∧ r.priceRay = price := by
  obtain ⟨key, found, rfl⟩ := Option.map_eq_some_iff.mp best
  have level := (Levels.best_eq_some.mp found).1
  rw [rep.bids, levelOf] at level
  split at level
  · cases level
  · rename_i filled
    obtain ⟨id, queued⟩ := List.exists_mem_of_ne_nil _ filled
    obtain ⟨r, rests, onSide, atPrice, _⟩ := mem_queue.mp queued
    exact ⟨r, rests, onSide, congrArg OrderDual.ofDual atPrice⟩

end Represents

end Engine

/-- Placements and cancels in any order, refused ones and those made while paused among them, leave
the best bid of every company below its best ask. -/
theorem book_is_never_crossed (calls : List Call) (matched : ∀ call ∈ calls, call.Matched) :
    ∃ verdicts engine, MatchEngine.new.run calls = .ok (verdicts, engine) ∧
      ∀ companyId bid ask, (engine.books companyId).bestBid = some bid →
        (engine.books companyId).bestAsk = some ask → bid < ask := by
  obtain ⟨verdicts, engine, ran, apart⟩ := BooksUncrossed.new.run matched
  refine ⟨verdicts, engine, ran, fun companyId bid ask bestBid bestAsk => ?_⟩
  obtain ⟨resting, rep, uncrossed⟩ := apart companyId
  obtain ⟨buy, buyRests, buys, rfl⟩ := rep.bestBid_rests bestBid
  obtain ⟨sell, sellRests, sells, rfl⟩ := rep.bestAsk_rests bestAsk
  exact uncrossed buy buyRests sell sellRests buys sells

/-- A bid that is filled in part, an offer above it, and an offer that comes while paused. -/
def contested : List Call :=
  [.limitOrderPlacement ⟨1, 7, 1, .sell, 10, 5, 0⟩, .limitOrderPlacement ⟨2, 7, 2, .buy, 12, 8, 0⟩,
    .pauseMatching, .limitOrderPlacement ⟨3, 7, 1, .sell, 4, 1, 0⟩, .resumeMatching,
    .limitOrderPlacement ⟨4, 7, 1, .sell, 15, 2, 0⟩, .ingestCancel 7 9]

theorem contested_is_not_crossed :
    ∃ verdicts engine, MatchEngine.new.run contested = .ok (verdicts, engine) ∧
      ∀ companyId bid ask, (engine.books companyId).bestBid = some bid →
        (engine.books companyId).bestAsk = some ask → bid < ask := by
  refine book_is_never_crossed contested fun call member => ?_
  simp only [contested, List.mem_cons, List.not_mem_nil, or_false] at member
  rcases member with rfl | rfl | rfl | rfl | rfl | rfl | rfl <;> trivial

end Aide
