import Aide.TakerOrder

namespace List
variable {α K : Type*} [LinearOrder K] {f : α → K} {keys : List K} {l : List α}

/-- A sorted list is put together again from its parts at one key each. -/
theorem flatMap_filter_of_sorted (ordered : keys.Pairwise (· < ·)) (sorted : l.Pairwise (f · ≤ f ·))
    (known : ∀ a ∈ l, f a ∈ keys) : keys.flatMap (fun key => l.filter (f · = key)) = l := by
  induction l with
  | nil => simp
  | cons a l ih =>
    obtain ⟨least, sortedRest⟩ := pairwise_cons.mp sorted
    have rest := ih sortedRest fun b member => known b (mem_cons_of_mem _ member)
    obtain ⟨before, after, rfl⟩ := append_of_mem (known a (mem_cons_self ..))
    obtain ⟨_, apart, below⟩ := pairwise_append.mp ordered
    have none : ∀ key ∈ before, ∀ b ∈ a :: l, f b ≠ key := by
      intro key member b among same
      have less := below key member (f a) (mem_cons_self ..)
      rcases mem_cons.mp among with rfl | later
      · exact absurd same (ne_of_gt less)
      · exact absurd same (ne_of_gt (less.trans_le (least b later)))
    have empty : ∀ m : List α, (∀ b ∈ m, b ∈ a :: l) →
        before.flatMap (fun key => m.filter (f · = key)) = [] := by
      intro m among
      refine flatMap_eq_nil_iff.mpr fun key member => filter_eq_nil_iff.mpr fun b inside => ?_
      simpa using none key member b (among b inside)
    have above : ∀ key ∈ after, f a ≠ key := fun key member => ne_of_lt ((pairwise_cons.mp apart).1 key member)
    have same : after.flatMap (fun key => (a :: l).filter (f · = key)) =
        after.flatMap (fun key => l.filter (f · = key)) := by
      refine flatMap_congr fun key member => filter_cons_of_neg ?_
      simpa using above key member
    rw [flatMap_append, flatMap_cons, empty l fun b member => mem_cons_of_mem _ member] at rest
    rw [flatMap_append, flatMap_cons, empty _ fun b member => member, same,
      filter_cons_of_pos (by simp), nil_append, cons_append]
    exact congrArg (a :: ·) rest

end List

namespace Aide.Engine

open NaiveBook

section Ladder
variable {K : Type} [LinearOrder K] {key : ℕ ≃ K} {levels : Levels K} {resting : List OrderRecord}
  {taker maker : Side} {orders : ℕ → Option OrderRecord}

theorem OrdersHold.filterMap_map (hold : OrdersHold orders resting) {some : List OrderRecord}
    (among : ∀ r ∈ some, r ∈ resting) : (some.map OrderRecord.orderId).filterMap orders = some := by
  induction some with
  | nil => rfl
  | cons r rest ih =>
    have found : orders r.orderId = .some r := (hold.lookup ..).mpr ⟨among r (List.mem_cons_self ..), rfl⟩
    rw [List.map_cons, List.filterMap_cons_some found, ih fun o member => among o (List.mem_cons_of_mem _ member)]

/-- The queues of a side, level by level, are its ladder. -/
theorem SideHolds.orders_eq_ladder (against : maker ≠ taker) (hold : OrdersHold orders resting)
    (holds : SideHolds levels maker key resting)
    (oriented : ∀ a b : OrderRecord, AtLeast taker a b ↔ key a.priceRay ≤ key b.priceRay) :
    levels.allIds.filterMap orders = ladder taker resting := by
  have ordered : levels.keys.Pairwise (· < ·) :=
    Std.ExtTreeMap.ordered_keys.imp fun less => compare_lt_iff_lt.mp less
  have sorted : (ladder taker resting).Pairwise fun a b => key a.priceRay ≤ key b.priceRay :=
    (List.pairwise_insertionSort (AtLeast taker) _).imp fun less => (oriented ..).mp less
  have known : ∀ r ∈ ladder taker resting, key r.priceRay ∈ levels.keys := by
    intro r member
    obtain ⟨rests, other⟩ := mem_ladder.mp member
    exact holds.mem_keys ((hold.mem_queue_iff rests).mpr ⟨(side_eq_iff_ne against _).mpr other, rfl⟩)
  rw [Levels.allIds, List.filterMap_flatMap]
  refine (List.flatMap_congr fun level _ => ?_).trans (List.flatMap_filter_of_sorted ordered sorted known)
  rw [holds.ids_eq, queue_eq_ladder against]
  exact hold.filterMap_map fun r member => (mem_ladder.mp (List.mem_filter.mp member).1).1

end Ladder

/-- The resting orders that an incoming order accepts, in the order in which the book queues them. -/
def OrderBook.offers (book : OrderBook) (incoming : OrderRecord) : List OrderRecord :=
  ((book.makers incoming.side).filterMap book.orders).filter (crosses incoming)

theorem filter_ladder (incoming : OrderRecord) (resting : List OrderRecord) :
    (ladder incoming.side resting).filter (crosses incoming) = NaiveBook.offers incoming resting := by
  unfold ladder NaiveBook.offers
  rw [← List.insertionSort_filter, List.filter_filter]
  congr 1
  refine List.filter_congr fun r _ => ?_
  cases crossing : crosses incoming r with
  | false => rfl
  | true => simpa using crosses_side crossing

theorem Represents.offers_eq {book : OrderBook} {resting : List OrderRecord}
    (rep : Represents book resting) (incoming : OrderRecord) :
    book.offers incoming = NaiveBook.offers incoming resting := by
  have queued : (book.makers incoming.side).filterMap book.orders = ladder incoming.side resting := by
    cases incoming.side with
    | buy => exact rep.asks.orders_eq_ladder (by decide) rep.orders fun _ _ => Iff.rfl
    | sell => exact rep.bids.orders_eq_ladder (by decide) rep.orders fun _ _ => Iff.rfl
  rw [OrderBook.offers, queued, filter_ladder]

/-- What an incoming order takes from each of the orders that it accepts. -/
def OrderBook.taken (book : OrderBook) (incoming : OrderRecord) : List (OrderRecord × ℕ) :=
  takings incoming.remaining (book.offers incoming)

/-- The fills of an order are what it takes from the book, each at the price of its maker. -/
theorem Represents.fills_eq_taken {engine next : MatchEngine} {incoming : OrderRecord}
    {resting : List OrderRecord} {fills : List Fill}
    (rep : Represents (engine.books incoming.companyId) resting)
    (returned : engine.limitOrderPlacement incoming = .ok (.ok fills, next)) :
    fills = ((engine.books incoming.companyId).taken incoming).map fun taking =>
      Matching.fill incoming taking.1 taking.1.orderId taking.1.priceRay taking.2 := by
  rw [rep.fills_eq_trades returned, OrderBook.taken, rep.offers_eq]
  rfl

/-- The books that an engine can have are those of lists of resting orders. -/
theorem MatchEngine.reached_represents {calls : List MatchEngine.Call} {verdicts : List MatchEngine.Verdict}
    {engine : MatchEngine} (reached : MatchEngine.new.run calls = .ok (verdicts, engine)) (companyId : ℕ) :
    ∃ resting, Represents (engine.books companyId) resting := by
  have any : Lasting fun _ => True := fun _ _ _ => trivial
  have all : ∀ call ∈ calls, ∀ record ∈ call.submitted, True := fun _ _ _ _ => trivial
  obtain ⟨_, _, ran, stocked, _⟩ := Stocked.new.run any all
  cases reached.symm.trans ran
  obtain ⟨resting, rep, _⟩ := stocked companyId
  exact ⟨resting, rep⟩

end Aide.Engine
