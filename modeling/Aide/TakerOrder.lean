import Aide.Engine.Ladder
import Aide.QuantityRun

namespace Aide

open Engine NaiveBook MatchEngine

namespace Engine

/-- The ids on the side of a book that orders of the side `taker` trade with, level by level. -/
def OrderBook.makers (book : OrderBook) : Side → List ℕ
  | .buy => book.asks.allIds
  | .sell => book.bids.allIds

/-- What remains in all of the orders that orders of the side `taker` trade with. -/
def MatchEngine.depth (engine : MatchEngine) (companyId : ℕ) (taker : Side) : ℕ :=
  (((engine.books companyId).makers taker).map (engine.remaining companyId)).sum

/-- Two books agree on the side that orders of the side `taker` trade with: on its levels, their
queues, and the orders. -/
structure OrderBook.SameMakers (taker : Side) (book other : OrderBook) : Prop where
  asks : taker = .buy → book.asks = other.asks
  bids : taker = .sell → book.bids = other.bids
  orders : ∀ id r, r.side ≠ taker → (book.orders id = some r ↔ other.orders id = some r)

section Ladder
variable {K : Type} [LinearOrder K] {key : ℕ ≃ K} {level : K} {levels other : Levels K}
  {resting left : List OrderRecord} {taker maker : Side}

theorem side_eq_iff_ne (against : maker ≠ taker) (side : Side) : side = maker ↔ side ≠ taker := by
  cases side <;> cases maker <;> cases taker <;> simp_all

/-- The queues of a side are those of its ladder: a stable sort keeps the order at one price. -/
theorem queue_eq_ladder (against : maker ≠ taker) :
    queue resting maker key level =
      ((ladder taker resting).filter fun r => key r.priceRay = level).map OrderRecord.orderId := by
  unfold ladder queue
  rw [← List.insertionSort_filter, List.filter_filter]
  have samePrice : (resting.filter fun r => key r.priceRay = level && decide (r.side ≠ taker)).Pairwise
      (AtLeast taker) := by
    refine List.pairwise_of_forall_mem_list fun a left b right => ?_
    have atLeft : key a.priceRay = level ∧ a.side ≠ taker := by simpa using (List.mem_filter.mp left).2
    have atRight : key b.priceRay = level ∧ b.side ≠ taker := by
      simpa using (List.mem_filter.mp right).2
    have same : a.priceRay = b.priceRay := key.injective (atLeft.1.trans atRight.1.symm)
    cases taker with
    | buy => exact same.le
    | sell => exact same.ge
  rw [samePrice.insertionSort_eq]
  congr 1
  refine List.filter_congr fun r _ => ?_
  simp only [side_eq_iff_ne against, Bool.decide_and, Bool.and_comm]

/-- A ladder determines the levels of its side. -/
theorem SideHolds.ext (against : maker ≠ taker) (holds : SideHolds levels maker key resting)
    (holdsOther : SideHolds other maker key left) (same : ladder taker resting = ladder taker left) :
    levels = other := by
  refine Std.ExtTreeMap.ext_getElem? fun level => ?_
  rw [holds, holdsOther, queue_eq_ladder against, queue_eq_ladder against, same]

theorem SideHolds.ids_eq (holds : SideHolds levels maker key resting) (level : K) :
    levels.ids level = queue resting maker key level := by
  rw [Levels.ids, holds, levelOf_getD]

theorem SideHolds.mem_keys (holds : SideHolds levels maker key resting) {id : ℕ}
    (queued : id ∈ queue resting maker key level) : level ∈ levels.keys := by
  have filled : queue resting maker key level ≠ [] := List.ne_nil_of_mem queued
  rw [Std.ExtTreeMap.mem_keys, Std.ExtTreeMap.mem_iff_isSome_getElem?, holds, levelOf, if_neg filled]
  rfl

/-- The queued ids of a side are those of its ladder. -/
theorem SideHolds.ids_perm {orders : ℕ → Option OrderRecord} (against : maker ≠ taker)
    (hold : OrdersHold orders resting) (holds : SideHolds levels maker key resting) :
    levels.allIds.Perm ((ladder taker resting).map OrderRecord.orderId) := by
  have nodup : levels.allIds.Nodup := by
    rw [Levels.allIds, List.nodup_flatMap]
    refine ⟨fun level _ => ?_, ?_⟩
    · rw [holds.ids_eq]
      exact hold.queue_nodup
    · refine Std.ExtTreeMap.nodup_keys.pairwise_of_forall_ne fun a _ b _ apart => ?_
      intro id atLeft atRight
      rw [holds.ids_eq] at atLeft atRight
      obtain ⟨r, rests, _, price, rfl⟩ := mem_queue.mp atLeft
      exact apart (price.symm.trans ((hold.mem_queue_iff rests).mp atRight).2)
  refine (List.perm_ext_iff_of_nodup nodup (ladder_nodup hold.nodup)).mpr fun id => ?_
  rw [Levels.allIds, List.mem_flatMap, List.mem_map]
  constructor
  · rintro ⟨level, _, queued⟩
    rw [holds.ids_eq] at queued
    obtain ⟨r, rests, onSide, _, named⟩ := mem_queue.mp queued
    exact ⟨r, mem_ladder.mpr ⟨rests, (side_eq_iff_ne against _).mp onSide⟩, named⟩
  · rintro ⟨r, member, rfl⟩
    obtain ⟨rests, other⟩ := mem_ladder.mp member
    have queued : r.orderId ∈ queue resting maker key (key r.priceRay) :=
      (hold.mem_queue_iff rests).mpr ⟨(side_eq_iff_ne against _).mpr other, rfl⟩
    exact ⟨key r.priceRay, holds.mem_keys queued, by rwa [holds.ids_eq]⟩

end Ladder

namespace Represents
variable {book other : OrderBook} {resting left : List OrderRecord} {taker : Side}

/-- The makers of a book have the ids of the ladder. -/
theorem makers_perm (rep : Represents book resting) (taker : Side) :
    (book.makers taker).Perm ((ladder taker resting).map OrderRecord.orderId) := by
  cases taker with
  | buy => exact rep.asks.ids_perm (by decide) rep.orders
  | sell => exact rep.bids.ids_perm (by decide) rep.orders

/-- A ladder determines a side of the book and its orders. -/
theorem sameMakers (rep : Represents book resting) (repOther : Represents other left)
    (same : ladder taker resting = ladder taker left) : book.SameMakers taker other where
  asks buys := by
    subst buys
    exact rep.asks.ext (by decide) repOther.asks same
  bids sells := by
    subst sells
    exact rep.bids.ext (by decide) repOther.bids same
  orders id r against := by
    have member : r ∈ resting ↔ r ∈ left := by
      have inLadder : r ∈ ladder taker resting ↔ r ∈ ladder taker left := by rw [same]
      simpa [mem_ladder, against] using inLadder
    rw [rep.orders.lookup, repOther.orders.lookup, member]

/-- The depth of a side is what remains on its ladder. -/
theorem depth_eq {engine : MatchEngine} {companyId : ℕ}
    (rep : Represents (engine.books companyId) resting) (taker : Side) :
    engine.depth companyId taker = stock (fun _ => true) (ladder taker resting) := by
  have summed := ((rep.makers_perm taker).map (engine.remaining companyId)).sum_eq
  rw [MatchEngine.depth, summed, List.map_map, stock]
  simp only [List.filter_true]
  refine congrArg List.sum (List.map_congr_left fun r member => ?_)
  have found : (engine.books companyId).orders r.orderId = some r :=
    (rep.orders.lookup ..).mpr ⟨(mem_ladder.mp member).1, rfl⟩
  simp [MatchEngine.remaining, found]

end Represents

/-- Orders of one side of a company that are placed on a book: their ids are new and distinct, and
they accept every order against their side. -/
structure PlacedOn (resting : List OrderRecord) (companyId : ℕ) (taker : Side)
    (takers : List OrderRecord) : Prop where
  nodup : (takers.map OrderRecord.orderId).Nodup
  fresh : ∀ t ∈ takers, ∀ r ∈ resting, r.orderId ≠ t.orderId
  own : ∀ t ∈ takers, t.side = taker ∧ t.companyId = companyId
  accepts : ∀ t ∈ takers, ∀ r ∈ resting, r.side ≠ taker → crosses t r = true
  positive : ∀ r ∈ resting, r.side ≠ taker → 0 < r.remaining

section Placements
variable {engine next : MatchEngine} {resting : List OrderRecord} {companyId : ℕ} {taker : Side}
  {t : OrderRecord} {takers : List OrderRecord}

/-- What a book holds once an order has been placed on it. -/
structure PlacedOne (resting : List OrderRecord) (t : OrderRecord) (after : List OrderRecord) : Prop where
  ladder : ladder t.side after = drain t.remaining (ladder t.side resting)
  ids : ∀ r ∈ after, r.orderId = t.orderId ∨ ∃ o ∈ resting, o.orderId = r.orderId

/-- One placement. The order is never refused, since its id is new. -/
theorem limitOrderPlacement_drains (rep : Represents (engine.books companyId) resting)
    (running : engine.matchingPaused = false) (placed : PlacedOn resting companyId taker (t :: takers)) :
    ∃ next after, engine.limitOrderPlacement t = .ok (.ok (sweep t resting).1, next) ∧
      next.matchingPaused = false ∧ Represents (next.books companyId) after ∧
      PlacedOne resting t after := by
  have first : t ∈ t :: takers := List.mem_cons_self ..
  obtain ⟨onSide, company⟩ := placed.own t first
  subst onSide company
  obtain ⟨verdict, next, runs, swept⟩ := limitOrderPlacement_sweeps t rep running
  have drained := ladder_sweep rep.orders.nodup (placed.accepts t first) placed.positive
  obtain ⟨remaining, rest⟩ := sweep_incoming t resting
  cases swept with
  | @filled book done repBook =>
    refine ⟨_, _, runs, running, ?_, drained, fun r left => Or.inr (mem_sweep_id left)⟩
    simpa [MatchEngine.setBook] using repBook
  | refused left named _ =>
    obtain ⟨o, rested, same⟩ := mem_sweep_id left
    exact absurd (same.trans named) (placed.fresh t first o rested)
  | @rests book unfilled repBook =>
    refine ⟨_, _, runs, running, by simpa [MatchEngine.setBook] using repBook, ?_, fun r left => ?_⟩
    · rw [ladder_append_own (by rw [rest]), drained]
    · rcases List.mem_append.mp left with rested | new
      · exact Or.inr (mem_sweep_id rested)
      · cases List.mem_singleton.mp new
        exact Or.inl (by rw [rest])

/-- The other orders can still be placed. -/
theorem PlacedOn.tail {after : List OrderRecord} (placed : PlacedOn resting companyId taker (t :: takers))
    (one : PlacedOne resting t after) : PlacedOn after companyId taker takers where
  nodup := (List.nodup_cons.mp placed.nodup).2
  fresh other member r left same := by
    rcases one.ids r left with isTaker | ⟨o, rested, named⟩
    · refine (List.nodup_cons.mp placed.nodup).1 ?_
      rw [← isTaker, same]
      exact List.mem_map_of_mem member
    · exact placed.fresh other (List.mem_cons_of_mem _ member) o rested (named.trans same)
  own other member := placed.own other (List.mem_cons_of_mem _ member)
  accepts other member r left against := by
    obtain ⟨onSide, _⟩ := placed.own t (List.mem_cons_self ..)
    subst onSide
    have onLadder := mem_ladder.mpr ⟨left, against⟩
    rw [one.ladder] at onLadder
    obtain ⟨o, old, same, _⟩ := NaiveBook.mem_drain onLadder
    obtain ⟨rested, other⟩ := mem_ladder.mp old
    have accepted := placed.accepts _ (List.mem_cons_of_mem _ member) o rested other
    rw [same]
    exact accepted
  positive r left against := by
    obtain ⟨onSide, _⟩ := placed.own t (List.mem_cons_self ..)
    subst onSide
    have onLadder := mem_ladder.mpr ⟨left, against⟩
    rw [one.ladder] at onLadder
    obtain ⟨o, old, _, positive⟩ := NaiveBook.mem_drain onLadder
    obtain ⟨rested, other⟩ := mem_ladder.mp old
    exact positive (placed.positive o rested other)

/-- All placements, by induction on the orders: together they take their sum from the ladder. -/
theorem placements_drain (rep : Represents (engine.books companyId) resting)
    (running : engine.matchingPaused = false) (placed : PlacedOn resting companyId taker takers) :
    ∃ (fills : List (List Fill)) (next : MatchEngine) (after : List OrderRecord),
      engine.run (takers.map .limitOrderPlacement) = .ok (fills.map .ok, next) ∧
      Represents (next.books companyId) after ∧
      ladder taker after = drain (takers.map OrderRecord.remaining).sum (ladder taker resting) ∧
      ∀ p, makerFilled p fills.flatten + stock p (ladder taker after) =
        stock p (ladder taker resting) := by
  induction takers generalizing engine resting with
  | nil =>
    have whole : ∀ r ∈ ladder taker resting, 0 < r.remaining := fun r member =>
      placed.positive r (mem_ladder.mp member).1 (mem_ladder.mp member).2
    exact ⟨[], engine, resting, rfl, rep, (drain_zero whole).symm, fun p => Nat.zero_add _⟩
  | cons t takers ih =>
    obtain ⟨next, after, runs, runningNext, repNext, one⟩ := limitOrderPlacement_drains rep running placed
    obtain ⟨fills, final, left, ran, repFinal, drained, filled⟩ :=
      ih repNext runningNext (placed.tail one)
    obtain ⟨onSide, _⟩ := placed.own t (List.mem_cons_self ..)
    subst onSide
    have whole : ∀ r ∈ ladder t.side resting, 0 < r.remaining := fun r member =>
      placed.positive r (mem_ladder.mp member).1 (mem_ladder.mp member).2
    have traded : (sweep t resting).1 = trades t t.remaining (ladder t.side resting) := by
      rw [sweep_eq_trades rep.orders.nodup, offers_eq_ladder (placed.accepts t (List.mem_cons_self ..))]
    refine ⟨(sweep t resting).1 :: fills, final, left, ?_, repFinal, ?_, fun p => ?_⟩
    · simp only [List.map_cons, MatchEngine.run, MatchEngine.exec, runs, ran, bind, Except.bind, pure,
        Except.pure]
    · rw [drained, one.ladder, drain_drain, List.map_cons, List.sum_cons]
    · have taken := takings_add_stock p t.remaining whole
      have others := filled p
      rw [one.ladder] at others
      rw [List.flatten_cons, makerFilled_append, traded, makerFilled_trades]
      omega

/-- What leaves a ladder in trades is all that is asked for, or all that is there. -/
theorem total_traded {fills : List Fill} {after : List OrderRecord} {amount : ℕ}
    (rep : Represents (engine.books companyId) resting)
    (drained : ladder taker after = drain amount (ladder taker resting))
    (filled : ∀ p, makerFilled p fills + stock p (ladder taker after) =
      stock p (ladder taker resting)) :
    (fills.map Fill.vstkAmount).sum = min amount (engine.depth companyId taker) := by
  have total := filled fun _ => true
  rw [drained, stock_drain] at total
  rw [rep.depth_eq]
  simp only [makerFilled, List.filter_true] at total
  omega

end Placements

/-- Orders of one side of a company that can be placed on a book: their ids are new and distinct,
and they accept every order against their side. -/
structure OrderBook.Takers (book : OrderBook) (companyId : ℕ) (taker : Side)
    (takers : List OrderRecord) : Prop where
  nodup : (takers.map OrderRecord.orderId).Nodup
  fresh : ∀ t ∈ takers, book.orders t.orderId = none
  own : ∀ t ∈ takers, t.side = taker ∧ t.companyId = companyId
  accepts : ∀ t ∈ takers, ∀ id r, book.orders id = some r → r.side ≠ taker → crosses t r = true

section
variable {book : OrderBook} {companyId : ℕ} {taker : Side} {takers other : List OrderRecord}

theorem OrderBook.Takers.perm (placed : book.Takers companyId taker takers)
    (perm : other.Perm takers) : book.Takers companyId taker other where
  nodup := (perm.map _).nodup_iff.mpr placed.nodup
  fresh t member := placed.fresh t (perm.mem_iff.mp member)
  own t member := placed.own t (perm.mem_iff.mp member)
  accepts t member := placed.accepts t (perm.mem_iff.mp member)

theorem OrderBook.Takers.placedOn {resting : List OrderRecord} (rep : Represents book resting)
    (positive : ∀ id r, book.orders id = some r → 0 < r.remaining)
    (placed : book.Takers companyId taker takers) : PlacedOn resting companyId taker takers where
  nodup := placed.nodup
  fresh t member r rests same := by
    have found : book.orders t.orderId = some r := (rep.orders.lookup ..).mpr ⟨rests, same⟩
    cases (placed.fresh t member).symm.trans found
  own := placed.own
  accepts t member r rests := placed.accepts t member _ r ((rep.orders.lookup ..).mpr ⟨rests, rfl⟩)
  positive r rests _ := positive _ r ((rep.orders.lookup ..).mpr ⟨rests, rfl⟩)

end

end Engine

/-- In whatever order takers arrive that accept all makers, they leave the same makers, fill each of
them for the same quantity, and trade all that they want or all that there is. -/
theorem taker_order_is_irrelevant {calls : List Call} {verdicts : List Verdict} {engine : MatchEngine}
    (reached : MatchEngine.new.run calls = .ok (verdicts, engine))
    (running : engine.matchingPaused = false) {companyId : ℕ} {taker : Side}
    (positive : ∀ id r, (engine.books companyId).orders id = some r → 0 < r.remaining)
    {takers other : List OrderRecord} (placed : (engine.books companyId).Takers companyId taker takers)
    (perm : other.Perm takers) :
    ∃ (fills fillsOther : List (List Fill)) (next nextOther : MatchEngine),
      engine.run (takers.map .limitOrderPlacement) = .ok (fills.map .ok, next) ∧
      engine.run (other.map .limitOrderPlacement) = .ok (fillsOther.map .ok, nextOther) ∧
      (next.books companyId).SameMakers taker (nextOther.books companyId) ∧
      (∀ id, makerFilled (· == id) fills.flatten = makerFilled (· == id) fillsOther.flatten) ∧
      (fills.flatten.map Fill.vstkAmount).sum =
        min (takers.map OrderRecord.remaining).sum (engine.depth companyId taker) ∧
      (fillsOther.flatten.map Fill.vstkAmount).sum =
        min (takers.map OrderRecord.remaining).sum (engine.depth companyId taker) := by
  have trivially : ∀ call ∈ calls, ∀ record ∈ call.submitted, True := fun _ _ _ _ => trivial
  obtain ⟨_, _, ran, stocked, _⟩ := Stocked.new.run (fun _ _ _ => trivial) trivially
  cases reached.symm.trans ran
  obtain ⟨resting, rep, _⟩ := stocked companyId
  obtain ⟨fills, next, after, runs, repNext, drained, filled⟩ :=
    placements_drain rep running (placed.placedOn rep positive)
  obtain ⟨fillsOther, nextOther, afterOther, runsOther, repOther, drainedOther, filledOther⟩ :=
    placements_drain rep running ((placed.perm perm).placedOn rep positive)
  have sameSum : (other.map OrderRecord.remaining).sum = (takers.map OrderRecord.remaining).sum :=
    (perm.map _).sum_eq
  rw [sameSum] at drainedOther
  have sameLadder := drained.trans drainedOther.symm
  refine ⟨fills, fillsOther, next, nextOther, runs, runsOther, repNext.sameMakers repOther sameLadder,
    fun id => ?_, total_traded rep drained filled, total_traded rep drainedOther filledOther⟩
  have here := filled (· == id)
  have there := filledOther (· == id)
  rw [sameLadder] at here
  omega

/-- Two offers at different prices. -/
def offered : List Call :=
  [.limitOrderPlacement ⟨1, 7, 1, .sell, 10, 5, 0⟩, .limitOrderPlacement ⟨2, 7, 2, .sell, 8, 4, 0⟩]

/-- The engine that holds them. -/
def offering : MatchEngine := (MatchEngine.new.run offered).toOption.elim .new Prod.snd

/-- Two bids that accept both offers and ask for more than there is. -/
def bidders : List OrderRecord := [⟨3, 7, 3, .buy, 12, 6, 0⟩, ⟨4, 7, 4, .buy, 10, 7, 0⟩]

theorem offering_orders {id : ℕ} {r : OrderRecord} (found : (offering.books 7).orders id = some r) :
    id = 1 ∧ r = ⟨1, 7, 1, .sell, 10, 5, 0⟩ ∨ id = 2 ∧ r = ⟨2, 7, 2, .sell, 8, 4, 0⟩ := by
  change Function.update (Function.update (fun _ => none) 1 (some ⟨1, 7, 1, .sell, 10, 5, 0⟩)) 2
    (some ⟨2, 7, 2, .sell, 8, 4, 0⟩) id = some r at found
  by_cases second : id = 2
  · subst second
    cases found
    exact Or.inr ⟨rfl, rfl⟩
  · by_cases first : id = 1
    · subst first
      cases found
      exact Or.inl ⟨rfl, rfl⟩
    · simp [second, first] at found

theorem bidders_in_either_order :
    ∃ (fills fillsOther : List (List Fill)) (next nextOther : MatchEngine),
      offering.run (bidders.map .limitOrderPlacement) = .ok (fills.map .ok, next) ∧
      offering.run (bidders.reverse.map .limitOrderPlacement) = .ok (fillsOther.map .ok, nextOther) ∧
      (next.books 7).SameMakers .buy (nextOther.books 7) ∧
      (∀ id, makerFilled (· == id) fills.flatten = makerFilled (· == id) fillsOther.flatten) ∧
      (fills.flatten.map Fill.vstkAmount).sum =
        min (bidders.map OrderRecord.remaining).sum (offering.depth 7 .buy) ∧
      (fillsOther.flatten.map Fill.vstkAmount).sum =
        min (bidders.map OrderRecord.remaining).sum (offering.depth 7 .buy) := by
  have reached : MatchEngine.new.run offered = .ok ([.ok [], .ok []], offering) := rfl
  refine taker_order_is_irrelevant reached rfl (fun id r found => ?_) ⟨by decide, ?_, by decide, ?_⟩
    (List.reverse_perm bidders)
  · rcases offering_orders found with ⟨_, rfl⟩ | ⟨_, rfl⟩
    · exact Nat.succ_pos 4
    · exact Nat.succ_pos 3
  · intro t member
    simp only [bidders, List.mem_cons, List.not_mem_nil, or_false] at member
    rcases member with rfl | rfl <;> rfl
  · intro t member id r found _
    simp only [bidders, List.mem_cons, List.not_mem_nil, or_false] at member
    rcases offering_orders found with ⟨_, rfl⟩ | ⟨_, rfl⟩
    · rcases member with rfl | rfl <;> decide
    · rcases member with rfl | rfl <;> decide

end Aide
