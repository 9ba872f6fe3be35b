import Aide.Engine.Stock

namespace Aide.Engine

/-- The ids queued on one side of a book at one price. -/
def OrderBook.queued (book : OrderBook) : Side → ℕ → List ℕ
  | .buy, priceRay => book.bids.ids (OrderDual.toDual priceRay)
  | .sell, priceRay => book.asks.ids priceRay

/-- The two sides of a book and its hash map agree: a queued id has an order with the side, the
price and the company of its place, an order is queued exactly once, and no level is empty. -/
structure OrderBook.WellFormed (book : OrderBook) (companyId : ℕ) : Prop where
  known : ∀ side priceRay, ∀ id ∈ book.queued side priceRay, ∃ r, book.orders id = some r ∧
    r.orderId = id ∧ r.side = side ∧ r.priceRay = priceRay ∧ r.companyId = companyId
  queuedOnce : ∀ id r, book.orders id = some r → ∀ side priceRay,
    (book.queued side priceRay).count id = if r.side = side ∧ r.priceRay = priceRay then 1 else 0
  bidLevels : ∀ key : ℕᵒᵈ, book.bids[key]? ≠ some []
  askLevels : ∀ key : ℕ, book.asks[key]? ≠ some []

namespace Represents
variable {book : OrderBook} {resting : List OrderRecord} (rep : Represents book resting)
include rep

theorem mem_queued {side : Side} {priceRay id : ℕ} :
    id ∈ book.queued side priceRay ↔
      ∃ r ∈ resting, r.side = side ∧ r.priceRay = priceRay ∧ r.orderId = id := by
  cases side with
  | buy =>
    have level := rep.bids (OrderDual.toDual priceRay)
    rw [OrderBook.queued, Levels.ids, level, levelOf_getD, mem_queue]
    rfl
  | sell =>
    have level := rep.asks priceRay
    rw [OrderBook.queued, Levels.ids, level, levelOf_getD, mem_queue]
    rfl

theorem queued_nodup (side : Side) (priceRay : ℕ) : (book.queued side priceRay).Nodup := by
  cases side with
  | buy =>
    have level := rep.bids (OrderDual.toDual priceRay)
    rw [OrderBook.queued, Levels.ids, level, levelOf_getD]
    exact rep.orders.queue_nodup
  | sell =>
    have level := rep.asks priceRay
    rw [OrderBook.queued, Levels.ids, level, levelOf_getD]
    exact rep.orders.queue_nodup

theorem wellFormed {companyId : ℕ} (own : ∀ r ∈ resting, r.companyId = companyId) :
    book.WellFormed companyId where
  known side priceRay id queued := by
    obtain ⟨r, rests, onSide, atPrice, named⟩ := rep.mem_queued.mp queued
    exact ⟨r, (rep.orders.lookup ..).mpr ⟨rests, named⟩, named, onSide, atPrice, own r rests⟩
  queuedOnce id r found side priceRay := by
    obtain ⟨rests, named⟩ := (rep.orders.lookup ..).mp found
    split
    · rename_i place
      have queued := rep.mem_queued.mpr ⟨r, rests, place.1, place.2, named⟩
      exact List.count_eq_one_of_mem (rep.queued_nodup side priceRay) queued
    · rename_i elsewhere
      refine List.count_eq_zero_of_not_mem fun queued => elsewhere ?_
      obtain ⟨o, rested, onSide, atPrice, same⟩ := rep.mem_queued.mp queued
      cases rep.orders.eq_of_id rested rests (same.trans named.symm)
      exact ⟨onSide, atPrice⟩
  bidLevels key := by
    rw [rep.bids key, levelOf]
    split
    · exact Option.some_ne_none _ |>.symm
    · rename_i filled
      exact fun empty => filled (Option.some.inj empty)
  askLevels key := by
    rw [rep.asks key, levelOf]
    split
    · exact Option.some_ne_none _ |>.symm
    · rename_i filled
      exact fun empty => filled (Option.some.inj empty)

end Represents

/-- Every list of calls ends without a missing level or order and within the bounds of both loops,
and leaves every book well formed. -/
theorem books_stay_well_formed (calls : List MatchEngine.Call) :
    ∃ verdicts engine, MatchEngine.new.run calls = .ok (verdicts, engine) ∧
      ∀ companyId, (engine.books companyId).WellFormed companyId := by
  have lasting : Lasting fun _ => True := fun _ _ _ => trivial
  obtain ⟨verdicts, engine, ran, stocked, _⟩ :=
    Stocked.new.run lasting fun _ _ _ _ => trivial
  refine ⟨verdicts, engine, ran, fun companyId => ?_⟩
  obtain ⟨resting, rep, holds⟩ := stocked companyId
  exact rep.wellFormed fun r rests => (holds r rests).1

/-- An id is submitted twice, and a bid carries the id of the ask that it has traded with in part. -/
example : (MatchEngine.new.run
    [.ingestChainOrder ⟨1, 7, 1, .sell, 10, 5, 0⟩, .ingestChainOrder ⟨1, 7, 2, .sell, 8, 0, 0⟩,
      .limitOrderPlacement ⟨1, 7, 3, .buy, 10, 4, 0⟩, .ingestCancel 7 1]).map Prod.fst =
    .ok [.ok [], .error (.book (.duplicateOrderId 1)), .ok [⟨7, 1, 1, 3, 1, 4, 0⟩], .ok []] := by
  decide +kernel

end Aide.Engine
