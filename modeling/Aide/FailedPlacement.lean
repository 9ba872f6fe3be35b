import Aide.Engine.BookOffers

namespace Aide

open Engine NaiveBook MatchEngine

namespace Engine

/-- A book is determined by the orders that it represents. -/
theorem Represents.ext {book other : OrderBook} {resting : List OrderRecord}
    (rep : Represents book resting) (repOther : Represents other resting) : book = other := by
  have bids : book.bids = other.bids :=
    Std.ExtTreeMap.ext_getElem? fun level => (rep.bids level).trans (repOther.bids level).symm
  have asks : book.asks = other.asks :=
    Std.ExtTreeMap.ext_getElem? fun level => (rep.asks level).trans (repOther.asks level).symm
  have orders : book.orders = other.orders := by
    funext id
    refine Option.ext fun r => ?_
    rw [rep.orders.lookup, repOther.orders.lookup]
  cases book
  cases other
  simp_all

section Sweep
variable {incoming mo : OrderRecord} {resting rest : List OrderRecord}

/-- What remains of all orders that an incoming order accepts. -/
def NaiveBook.amountOffered (incoming : OrderRecord) (resting : List OrderRecord) : ℕ :=
  ((NaiveBook.offers incoming resting).map OrderRecord.remaining).sum

theorem amountOffered_reduce (nodup : (resting.map OrderRecord.orderId).Nodup)
    (front : NaiveBook.offers incoming resting = mo :: rest) (remaining : ℕ) :
    amountOffered { incoming with remaining } (reduce mo mo.remaining resting) + mo.remaining =
      amountOffered incoming resting := by
  rw [amountOffered, amountOffered, offers_reduce nodup front, front, List.map_cons, List.sum_cons]
  exact Nat.add_comm ..

/-- Of an order that has swept a book there remains what exceeds the offers. -/
theorem sweep_remaining (nodup : (resting.map OrderRecord.orderId).Nodup) :
    (sweep incoming resting).2.1.remaining = incoming.remaining - amountOffered incoming resting := by
  induction incoming, resting using sweep.induct with
  | case1 incoming resting filled =>
    rw [sweep_of_filled resting filled]
    show incoming.remaining = incoming.remaining - amountOffered incoming resting
    omega
  | case2 incoming resting unfilled none =>
    rw [sweep_of_none none, amountOffered, List.head?_eq_none_iff.mp ((best_eq_head? ..).symm.trans none)]
    rfl
  | case3 incoming resting unfilled mo found qty ih =>
    obtain ⟨rest, front⟩ := List.head?_eq_some_iff.mp ((best_eq_head? ..).symm.trans found)
    have left := ih (nodup.sublist reduce_ids)
    rw [sweep_of_best unfilled found]
    by_cases all : mo.remaining ≤ incoming.remaining
    · simp only [qty, Nat.min_eq_right all] at left ⊢
      have total := amountOffered_reduce nodup front (incoming.remaining - mo.remaining)
      rw [left]
      omega
    · have part : incoming.remaining - min incoming.remaining mo.remaining = 0 := by omega
      have first : mo.remaining ≤ amountOffered incoming resting := by
        rw [amountOffered, front, List.map_cons, List.sum_cons]
        exact Nat.le_add_right ..
      rw [sweep_of_filled _ part]
      simp only
      omega

/-- An order that exceeds the offers takes them all and leaves the others as they are. -/
theorem sweep_left (nodup : (resting.map OrderRecord.orderId).Nodup)
    (exceeds : amountOffered incoming resting < incoming.remaining) :
    (sweep incoming resting).2.2 = resting.filter fun r => !crosses incoming r := by
  induction incoming, resting using sweep.induct with
  | case1 incoming resting filled => omega
  | case2 incoming resting unfilled none =>
    have empty := List.head?_eq_none_iff.mp ((best_eq_head? ..).symm.trans none)
    rw [sweep_of_none none]
    refine (List.filter_eq_self.mpr fun r rests => ?_).symm
    rw [Bool.not_eq_true', ← Bool.not_eq_true]
    intro crossing
    exact absurd (mem_offers.mpr ⟨rests, crossing⟩) (empty ▸ List.not_mem_nil)
  | case3 incoming resting unfilled mo found qty ih =>
    obtain ⟨rest, front⟩ := List.head?_eq_some_iff.mp ((best_eq_head? ..).symm.trans found)
    have total := amountOffered_reduce nodup front (incoming.remaining - mo.remaining)
    have all : mo.remaining ≤ incoming.remaining := by omega
    rw [sweep_of_best unfilled found]
    simp only [qty, Nat.min_eq_right all] at ih ⊢
    rw [ih (nodup.sublist reduce_ids) (by omega), reduce, if_pos rfl, List.filter_filter]
    refine List.filter_congr fun r rests => ?_
    by_cases same : r.orderId = mo.orderId
    · cases List.inj_on_of_nodup_map nodup rests (best_mem found).1 same
      simp [(best_mem found).2]
    · have apart : (r.orderId != mo.orderId) = true := by simpa using same
      rw [apart, Bool.and_true]
      rfl

end Sweep

namespace MatchEngine
variable {engine next : MatchEngine} {incoming : OrderRecord} {resting : List OrderRecord}

/-- The fills that a placement makes, whether or not it returns them. -/
def made (engine : MatchEngine) (incoming : OrderRecord) : List Fill :=
  if engine.matchingPaused then [] else
    match matchIncoming (engine.books incoming.companyId) incoming with
    | .ok (_, _, fills) => fills
    | .error _ => []

/-- If the placement is refused, all books are as they were and no fill was made. -/
def FailsCleanly (engine : MatchEngine) (incoming : OrderRecord) : Prop :=
  ∀ error next, engine.limitOrderPlacement incoming = .ok (.error error, next) →
    next.books = engine.books ∧ engine.made incoming = []

/-- The order exceeds a positive number of offers, and an order that it does not accept has its id. -/
structure TradesThenConflicts (engine : MatchEngine) (incoming : OrderRecord) : Prop where
  running : engine.matchingPaused = false
  offered : (engine.books incoming.companyId).offers incoming ≠ []
  exceeds : (((engine.books incoming.companyId).offers incoming).map OrderRecord.remaining).sum <
    incoming.remaining
  conflict : ∃ r, (engine.books incoming.companyId).orders incoming.orderId = some r ∧
    crosses incoming r = false

/-- A running engine refuses an order whose rest has the id of an order that is left. -/
theorem refused_iff {book : OrderBook} {error : MatchError} (running : engine.matchingPaused = false)
    (swept : matchIncoming (engine.books incoming.companyId) incoming =
      .ok (book, (sweep incoming resting).2.1, (sweep incoming resting).1))
    (repBook : Represents book (sweep incoming resting).2.2) :
    engine.limitOrderPlacement incoming = .ok (.error error, next) ↔
      (0 < (sweep incoming resting).2.1.remaining ∧
        ∃ r ∈ (sweep incoming resting).2.2, r.orderId = incoming.orderId) ∧
      error = .book (.duplicateOrderId incoming.orderId) ∧
      next = engine.setBook incoming.companyId book := by
  obtain ⟨remaining, rest⟩ := sweep_incoming incoming resting
  have sameCompany : (sweep incoming resting).2.1.companyId = incoming.companyId := by rw [rest]
  have sameId : (sweep incoming resting).2.1.orderId = incoming.orderId := by rw [rest]
  by_cases unfilled : 0 < (sweep incoming resting).2.1.remaining
  · rcases repBook.insertLimitOrder_cases (sweep incoming resting).2.1 with
      ⟨conflict, refused⟩ | ⟨whole, inserted, repWhole⟩
    · rw [sameId] at conflict refused
      rw [limitOrderPlacement_refused running swept unfilled refused, sameCompany]
      constructor
      · rintro same
        cases same
        exact ⟨⟨unfilled, conflict⟩, rfl, rfl⟩
      · rintro ⟨_, rfl, rfl⟩
        rfl
    · rw [limitOrderPlacement_rests running swept unfilled inserted]
      refine iff_of_false (fun same => by simp at same) ?_
      rintro ⟨⟨_, r, left, same⟩, _⟩
      have nodup := repWhole.orders.nodup
      rw [List.map_append] at nodup
      exact (List.nodup_append.mp nodup).2.2 _ (List.mem_map_of_mem left) _ (List.mem_singleton_self _)
        (same.trans sameId.symm)
  · rw [limitOrderPlacement_filled running swept unfilled]
    exact iff_of_false (fun same => by simp at same) fun conflicts => unfilled conflicts.1.1

theorem made_eq {book : OrderBook} {rest : OrderRecord} {fills : List Fill}
    (running : engine.matchingPaused = false)
    (swept : matchIncoming (engine.books incoming.companyId) incoming = .ok (book, rest, fills)) :
    engine.made incoming = fills := by
  unfold made
  rw [running, swept]
  rfl

/-- Where the order is offered nothing, or its rest is not refused, there is nothing to take back. -/
theorem failsCleanly_of_no_conflict (rep : Represents (engine.books incoming.companyId) resting)
    (harmless : ¬ engine.TradesThenConflicts incoming) : engine.FailsCleanly incoming := by
  intro error next failed
  cases paused : engine.matchingPaused with
  | true =>
    have outcome : engine.limitOrderPlacement incoming = .ok (.error .matchingPaused, engine) := by
      simp [limitOrderPlacement, paused]
    cases outcome.symm.trans failed
    exact ⟨rfl, if_pos paused⟩
  | false =>
    obtain ⟨book, swept, repBook⟩ := matchIncoming_sweeps incoming rep
    obtain ⟨⟨unfilled, r, left, sameId⟩, _, rfl⟩ := (refused_iff paused swept repBook).mp failed
    rw [sweep_remaining rep.orders.nodup] at unfilled
    have exceeds : amountOffered incoming resting < incoming.remaining := by omega
    rw [sweep_left rep.orders.nodup exceeds] at left repBook
    obtain ⟨rests, refuses⟩ := List.mem_filter.mp left
    have nothing : NaiveBook.offers incoming resting = [] := by
      by_contra offered
      refine harmless ⟨paused, ?_, ?_, r, (rep.orders.lookup ..).mpr ⟨rests, sameId⟩, ?_⟩
      · rwa [rep.offers_eq]
      · rwa [rep.offers_eq]
      · simpa using refuses
    have untouched : resting.filter (fun r => !crosses incoming r) = resting := by
      refine List.filter_eq_self.mpr fun o rests => ?_
      rw [Bool.not_eq_true', ← Bool.not_eq_true]
      intro crossing
      exact absurd (mem_offers.mpr ⟨rests, crossing⟩) (nothing ▸ List.not_mem_nil)
    rw [untouched] at repBook
    constructor
    · rw [repBook.ext rep, setBook, Function.update_eq_self]
    · rw [made_eq paused swept, sweep_eq_trades rep.orders.nodup, nothing]
      rfl

/-- An order that exceeds its offers has taken one of them out before it is refused. -/
theorem not_failsCleanly_of_conflict (rep : Represents (engine.books incoming.companyId) resting)
    (harm : engine.TradesThenConflicts incoming) : ¬ engine.FailsCleanly incoming := by
  obtain ⟨running, offered, exceeds, r, found, refuses⟩ := harm
  intro clean
  obtain ⟨rests, sameId⟩ := (rep.orders.lookup ..).mp found
  rw [rep.offers_eq] at offered exceeds
  obtain ⟨book, swept, repBook⟩ := matchIncoming_sweeps incoming rep
  have left := sweep_left rep.orders.nodup exceeds
  have unfilled : 0 < (sweep incoming resting).2.1.remaining := by
    rw [sweep_remaining rep.orders.nodup]
    exact Nat.sub_pos_of_lt exceeds
  have stays : r ∈ (sweep incoming resting).2.2 := by
    rw [left]
    exact List.mem_filter.mpr ⟨rests, by simp [refuses]⟩
  obtain ⟨_, none⟩ := clean _ _ ((refused_iff running swept repBook).mpr
    ⟨⟨unfilled, r, stays, sameId⟩, rfl, rfl⟩)
  obtain ⟨mo, others, front⟩ := List.exists_cons_of_ne_nil offered
  rw [made_eq running swept, sweep_eq_trades rep.orders.nodup, front,
    trades_cons (Nat.ne_of_gt (Nat.zero_lt_of_lt exceeds))] at none
  cases none

end MatchEngine

end Engine

/-- A placement that fails changes nothing, if and only if it is not that of an order that trades and
then conflicts with an order of its id. -/
theorem failed_placement_is_clean_iff {calls : List Call} {verdicts : List Verdict} {engine : MatchEngine}
    (reached : MatchEngine.new.run calls = .ok (verdicts, engine)) (incoming : OrderRecord) :
    engine.FailsCleanly incoming ↔ ¬ engine.TradesThenConflicts incoming := by
  obtain ⟨resting, rep⟩ := reached_represents reached incoming.companyId
  exact ⟨fun clean harm => not_failsCleanly_of_conflict rep harm clean, failsCleanly_of_no_conflict rep⟩

/-- A bid, and an offer below which there is nothing. -/
def bidAndOffer : List Call :=
  [.limitOrderPlacement ⟨1, 7, 1, .buy, 5, 10, 0⟩, .limitOrderPlacement ⟨2, 7, 2, .sell, 8, 4, 0⟩]

/-- The engine that holds them. -/
def bidAndOfferEngine : MatchEngine := ((MatchEngine.new.run bidAndOffer).toOption.getD ([], .new)).2

theorem failed_placement_is_clean_iff_of_bid_and_offer :
    bidAndOfferEngine.FailsCleanly ⟨1, 7, 3, .buy, 9, 6, 0⟩ ↔
      ¬ bidAndOfferEngine.TradesThenConflicts ⟨1, 7, 3, .buy, 9, 6, 0⟩ :=
  @failed_placement_is_clean_iff bidAndOffer [.ok [], .ok []] _ rfl _

/-- A second bid under the id of the first buys the whole offer and is refused for its rest: the offer
is gone and the fill is lost. -/
theorem offer_is_lost_to_refused_bid :
    ¬ ∀ (calls : List Call) (verdicts : List Verdict) (engine : MatchEngine) (incoming : OrderRecord),
      MatchEngine.new.run calls = .ok (verdicts, engine) → engine.FailsCleanly incoming := by
  intro always
  have clean := always bidAndOffer [.ok [], .ok []] bidAndOfferEngine ⟨1, 7, 3, .buy, 9, 6, 0⟩ rfl
  have fails : ∃ error next, bidAndOfferEngine.limitOrderPlacement ⟨1, 7, 3, .buy, 9, 6, 0⟩ =
      .ok (.error error, next) := ⟨_, _, rfl⟩
  obtain ⟨error, next, failed⟩ := fails
  have none := (clean error next failed).2
  exact absurd none (by decide)

end Aide
