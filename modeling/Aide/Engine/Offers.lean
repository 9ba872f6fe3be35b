import Aide.Engine.MatchingRefinement
import Mathlib.Data.List.Sort

namespace List
variable {α β : Type*} {r : α → α → Prop} [DecidableRel r] {a : α} {l : List α}

theorem orderedInsert_of_forall_rel (least : ∀ b ∈ l, r a b) : l.orderedInsert r a = a :: l := by
  cases l with
  | nil => rfl
  | cons b l => exact orderedInsert_cons_of_le r l (least b (mem_cons_self ..))

/-- Inserting in order commutes with leaving elements out. -/
theorem filter_orderedInsert [IsTrans α r] (p : α → Bool) (sorted : l.Pairwise r) :
    (l.orderedInsert r a).filter p =
      if p a then (l.filter p).orderedInsert r a else l.filter p := by
  induction l with
  | nil => simp [filter_cons]
  | cons b l ih =>
    have inserted := ih sorted.of_cons
    have above : ∀ c ∈ l, r b c := (pairwise_cons.mp sorted).1
    by_cases first : r a b
    · rw [orderedInsert_cons_of_le r l first, filter_cons]
      split
      · refine (orderedInsert_of_forall_rel fun c member => ?_).symm
        rcases mem_cons.mp (mem_filter.mp member).1 with rfl | later
        · exact first
        · exact IsTrans.trans _ _ _ first (above c later)
      · rfl
    · rw [orderedInsert_of_not_le r l first, filter_cons, inserted, filter_cons]
      by_cases keeps : p a = true
      · by_cases head : p b = true
        · simp [keeps, head, orderedInsert_of_not_le r _ first]
        · simp [keeps, head]
      · simp [keeps]

/-- A stable sort commutes with leaving elements out. -/
theorem insertionSort_filter [IsTrans α r] [Std.Total r] (p : α → Bool) (l : List α) :
    (l.filter p).insertionSort r = (l.insertionSort r).filter p := by
  induction l with
  | nil => rfl
  | cons a l ih =>
    rw [insertionSort_cons, filter_orderedInsert p (pairwise_insertionSort r l), ← ih, filter_cons]
    split
    · rw [insertionSort_cons]
    · rfl

/-- The first of the smallest elements is the head of the sorted list. -/
theorem argmin_eq_head? [LinearOrder β] (f : α → β) (l : List α) :
    l.argmin f = (l.insertionSort fun a b => f a ≤ f b).head? := by
  induction l with
  | nil => rfl
  | cons a l ih =>
    rw [argmin_cons, ih, insertionSort_cons]
    cases l.insertionSort fun a b => f a ≤ f b with
    | nil => rfl
    | cons c rest =>
      by_cases less : f c < f a
      · simp [less, not_le.mpr less]
      · simp [less, not_lt.mp less]

end List

namespace Aide.Engine.NaiveBook

variable {incoming mo : OrderRecord} {resting rest : List OrderRecord}

/-- The price of `a` is at least as good as that of `b` for an incoming order of the side. -/
def AtLeast : Side → OrderRecord → OrderRecord → Prop
  | .buy, a, b => a.priceRay ≤ b.priceRay
  | .sell, a, b => b.priceRay ≤ a.priceRay

instance (side : Side) : DecidableRel (AtLeast side) := fun a b =>
  match side with
  | .buy => inferInstanceAs (Decidable (a.priceRay ≤ b.priceRay))
  | .sell => inferInstanceAs (Decidable (b.priceRay ≤ a.priceRay))

instance (side : Side) : IsTrans OrderRecord (AtLeast side) where
  trans a b c first second := by
    cases side with
    | buy => exact le_trans first second
    | sell => exact le_trans second first

instance (side : Side) : Std.Total (AtLeast side) where
  total a b := by
    cases side with
    | buy => exact le_total ..
    | sell => exact le_total ..

/-- The resting orders that an incoming order accepts, the best price first and the earlier of
two equal prices before the later. -/
def offers (incoming : OrderRecord) (resting : List OrderRecord) : List OrderRecord :=
  (resting.filter (crosses incoming)).insertionSort (AtLeast incoming.side)

/-- An amount is taken from orders in turn, from each as much as remains of it. -/
def takings : ℕ → List OrderRecord → List (OrderRecord × ℕ)
  | _, [] => []
  | amount, mo :: rest =>
    if amount = 0 then [] else
      (mo, min amount mo.remaining) :: takings (amount - min amount mo.remaining) rest

/-- The trades of an incoming order that takes its amount from the offers. -/
def trades (incoming : OrderRecord) (amount : ℕ) (offers : List OrderRecord) : List Fill :=
  (takings amount offers).map fun taking =>
    Matching.fill incoming taking.1 taking.1.orderId taking.1.priceRay taking.2

theorem best_eq_head? (incoming : OrderRecord) (resting : List OrderRecord) :
    best incoming resting = (offers incoming resting).head? := by
  unfold best offers
  cases incoming.side with
  | buy => exact List.argmin_eq_head? ..
  | sell =>
    exact List.argmin_eq_head? (fun o : OrderRecord => OrderDual.toDual o.priceRay) _

theorem takings_zero (offers : List OrderRecord) : takings 0 offers = [] := by
  cases offers <;> rfl

theorem trades_zero (incoming : OrderRecord) (offers : List OrderRecord) :
    trades incoming 0 offers = [] := by
  rw [trades, takings_zero, List.map_nil]

/-- The trade with the first offer. -/
def firstTrade (incoming mo : OrderRecord) (amount : ℕ) : Fill :=
  Matching.fill incoming mo mo.orderId mo.priceRay (min amount mo.remaining)

theorem trades_cons {amount : ℕ} (unfilled : amount ≠ 0) :
    trades incoming amount (mo :: rest) =
      firstTrade incoming mo amount :: trades incoming (amount - min amount mo.remaining) rest := by
  rw [trades, takings, if_neg unfilled]
  rfl

theorem mem_offers : mo ∈ offers incoming resting ↔ mo ∈ resting ∧ crosses incoming mo = true :=
  (List.mem_insertionSort _).trans List.mem_filter

theorem offers_nodup (nodup : (resting.map OrderRecord.orderId).Nodup) :
    ((offers incoming resting).map OrderRecord.orderId).Nodup := by
  have same := List.perm_insertionSort (AtLeast incoming.side) (resting.filter (crosses incoming))
  exact (same.map _).nodup_iff.mpr (nodup.sublist (List.filter_sublist.map _))

/-- Once the first offer is traded in full, the others are left. -/
theorem offers_reduce (nodup : (resting.map OrderRecord.orderId).Nodup)
    (front : offers incoming resting = mo :: rest) (remaining : ℕ) :
    offers { incoming with remaining } (reduce mo mo.remaining resting) = rest := by
  have sorted := @offers_nodup incoming resting nodup
  rw [front] at sorted
  have others : ∀ o ∈ rest, o.orderId ≠ mo.orderId := by
    intro o member same
    exact (List.nodup_cons.mp sorted).1 (same ▸ List.mem_map_of_mem member)
  have kept : rest.filter (·.orderId != mo.orderId) = rest :=
    List.filter_eq_self.mpr fun o member => by simpa using others o member
  have left : offers { incoming with remaining } (reduce mo mo.remaining resting) =
      (offers incoming resting).filter (·.orderId != mo.orderId) := by
    unfold offers
    rw [reduce, if_pos rfl, ← List.insertionSort_filter, List.filter_filter, List.filter_filter]
    congr 1
    refine List.filter_congr fun o _ => ?_
    rw [Bool.and_comm]
    rfl
  rw [left, front, List.filter_cons, kept]
  simp

/-- A sweep takes the amount of the incoming order from the offers. -/
theorem sweep_eq_trades (nodup : (resting.map OrderRecord.orderId).Nodup) :
    (sweep incoming resting).1 = trades incoming incoming.remaining (offers incoming resting) := by
  induction incoming, resting using sweep.induct with
  | case1 incoming resting filled => rw [sweep_of_filled resting filled, filled, trades_zero]
  | case2 incoming resting unfilled none =>
    rw [sweep_of_none none, List.head?_eq_none_iff.mp ((best_eq_head? ..).symm.trans none)]
    rfl
  | case3 incoming resting unfilled mo found qty ih =>
    have head := (best_eq_head? ..).symm.trans found
    obtain ⟨rest, front⟩ := List.head?_eq_some_iff.mp head
    rw [sweep_of_best unfilled found, front, trades_cons unfilled]
    refine congrArg (firstTrade incoming mo incoming.remaining :: ·) ?_
    by_cases all : mo.remaining ≤ incoming.remaining
    · simp only [qty, Nat.min_eq_right all] at ih ⊢
      have fewer : ((reduce mo mo.remaining resting).map OrderRecord.orderId).Nodup := by
        rw [reduce, if_pos rfl]
        exact nodup.sublist (List.filter_sublist.map _)
      rw [ih fewer, offers_reduce nodup front]
      rfl
    · have part : incoming.remaining - min incoming.remaining mo.remaining = 0 := by omega
      rw [sweep_of_filled _ part, part, trades_zero]

end Aide.Engine.NaiveBook

namespace Aide.Engine

/-- The fills that the engine returns for an order are those that it takes from the offers. -/
theorem Represents.fills_eq_trades {engine next : MatchEngine} {incoming : OrderRecord}
    {resting : List OrderRecord} {fills : List Fill}
    (rep : Represents (engine.books incoming.companyId) resting)
    (returned : engine.limitOrderPlacement incoming = .ok (.ok fills, next)) :
    fills = NaiveBook.trades incoming incoming.remaining (NaiveBook.offers incoming resting) := by
  have running : engine.matchingPaused = false := by
    cases paused : engine.matchingPaused with
    | false => rfl
    | true => simp [MatchEngine.limitOrderPlacement, paused] at returned
  obtain ⟨verdict, after, runs, swept⟩ :=
    MatchEngine.limitOrderPlacement_sweeps incoming rep running
  rw [← NaiveBook.sweep_eq_trades rep.orders.nodup]
  cases runs.symm.trans returned
  cases swept <;> rfl

end Aide.Engine
