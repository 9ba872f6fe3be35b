import Aide.Engine.Conservation
import Aide.Engine.Offers

/-!
The orders that an incoming order of one side can trade with, in the order in which it takes them,
and what is left of them when an amount is taken.
-/

namespace Aide.Engine.NaiveBook

variable {incoming mo r : OrderRecord} {resting rest l : List OrderRecord} {taker : Side}
  {amount more : ℕ}

/-- The orders against a side, the best price first and the earlier of two equal prices before the
later. -/
def ladder (taker : Side) (resting : List OrderRecord) : List OrderRecord :=
  (resting.filter fun r => r.side ≠ taker).insertionSort (AtLeast taker)

/-- What is left when an amount is taken from orders in turn. -/
def drain : ℕ → List OrderRecord → List OrderRecord
  | _, [] => []
  | amount, mo :: rest =>
    if mo.remaining ≤ amount then drain (amount - mo.remaining) rest
    else { mo with remaining := mo.remaining - amount } :: rest

/-- What remains of the orders whose ids are in `p`. -/
def stock (p : ℕ → Bool) (l : List OrderRecord) : ℕ :=
  ((l.filter fun r => p r.orderId).map OrderRecord.remaining).sum

/-- What the makers whose ids are in `p` are filled for. -/
def makerFilled (p : ℕ → Bool) (fills : List Fill) : ℕ :=
  ((fills.filter fun f => p f.makerOrderId).map Fill.vstkAmount).sum

theorem mem_ladder : r ∈ ladder taker resting ↔ r ∈ resting ∧ r.side ≠ taker := by
  rw [ladder, List.mem_insertionSort, List.mem_filter]
  simp

theorem ladder_append_own (own : r.side = taker) : ladder taker (resting ++ [r]) = ladder taker resting := by
  simp [ladder, own]

theorem drain_zero (positive : ∀ r ∈ l, 0 < r.remaining) : drain 0 l = l := by
  cases l with
  | nil => rfl
  | cons mo rest =>
    have some := positive mo (List.mem_cons_self ..)
    rw [drain, if_neg (by omega)]
    rfl

/-- Taking two amounts in turn is taking their sum. -/
theorem drain_drain (amount more : ℕ) (l : List OrderRecord) :
    drain more (drain amount l) = drain (amount + more) l := by
  induction l generalizing amount with
  | nil => rfl
  | cons mo rest ih =>
    by_cases all : mo.remaining ≤ amount
    · have sum : amount - mo.remaining + more = amount + more - mo.remaining := by omega
      rw [drain, if_pos all, ih, sum, drain, if_pos (by omega)]
    · rw [drain, if_neg all, drain, drain]
      by_cases rest : mo.remaining ≤ amount + more
      · have sum : more - (mo.remaining - amount) = amount + more - mo.remaining := by omega
        rw [if_pos rest, if_pos (by simp only; omega)]
        exact congrArg (drain · _) sum
      · have sum : mo.remaining - amount - more = mo.remaining - (amount + more) := by omega
        rw [if_neg rest, if_neg (by simp only; omega), sum]

/-- An order that is left was there before, and something of it is left. -/
theorem mem_drain (left : r ∈ drain amount l) :
    ∃ o ∈ l, r = { o with remaining := r.remaining } ∧ (0 < o.remaining → 0 < r.remaining) := by
  induction l generalizing amount with
  | nil => cases left
  | cons mo rest ih =>
    rw [drain] at left
    split at left
    · obtain ⟨o, member, same⟩ := ih left
      exact ⟨o, List.mem_cons_of_mem _ member, same⟩
    · rename_i part
      rcases List.mem_cons.mp left with rfl | later
      · exact ⟨mo, List.mem_cons_self .., rfl, fun _ => by simp only; omega⟩
      · exact ⟨r, List.mem_cons_of_mem _ later, rfl, id⟩

theorem stock_cons (p : ℕ → Bool) :
    stock p (mo :: rest) = (if p mo.orderId then mo.remaining else 0) + stock p rest := by
  unfold stock
  rw [List.filter_cons]
  split <;> simp

/-- What is taken and what is left make up what there was, of any set of orders. -/
theorem takings_add_stock (p : ℕ → Bool) (amount : ℕ) (positive : ∀ r ∈ l, 0 < r.remaining) :
    (((takings amount l).filter fun taking => p taking.1.orderId).map Prod.snd).sum +
      stock p (drain amount l) = stock p l := by
  induction l generalizing amount with
  | nil => rfl
  | cons mo rest ih =>
    by_cases none : amount = 0
    · rw [none, takings_zero, drain_zero positive]
      simp
    · have taken := ih (amount - min amount mo.remaining) fun r member =>
        positive r (List.mem_cons_of_mem _ member)
      rw [takings, if_neg none, drain, stock_cons, List.filter_cons]
      by_cases all : mo.remaining ≤ amount
      · simp only [Nat.min_eq_right all] at taken ⊢
        rw [if_pos all]
        split
        · rw [List.map_cons, List.sum_cons]
          omega
        · omega
      · have part : min amount mo.remaining = amount := by omega
        rw [part, Nat.sub_self, drain_zero fun r member => positive r (List.mem_cons_of_mem _ member)]
          at taken
        rw [part, Nat.sub_self, if_neg all, stock_cons]
        split
        · rw [List.map_cons, List.sum_cons]
          simp only
          omega
        · omega

/-- What is left in all. -/
theorem stock_drain (amount : ℕ) (l : List OrderRecord) :
    stock (fun _ => true) (drain amount l) = stock (fun _ => true) l - amount := by
  induction l generalizing amount with
  | nil => simp [drain, stock]
  | cons mo rest ih =>
    rw [drain, stock_cons]
    split
    · rw [ih, if_pos rfl]
      omega
    · rw [stock_cons, if_pos rfl, if_pos rfl]
      simp only
      omega

theorem makerFilled_append (p : ℕ → Bool) (fills others : List Fill) :
    makerFilled p (fills ++ others) = makerFilled p fills + makerFilled p others := by
  simp [makerFilled]

theorem makerFilled_trades (p : ℕ → Bool) (incoming : OrderRecord) (amount : ℕ) (l : List OrderRecord) :
    makerFilled p (trades incoming amount l) =
      (((takings amount l).filter fun taking => p taking.1.orderId).map Prod.snd).sum := by
  simp [makerFilled, trades, List.filter_map, Function.comp_def, Matching.fill]

/-- An order that accepts every order against its side is offered all of them. -/
theorem offers_eq_ladder (accepts : ∀ r ∈ resting, r.side ≠ incoming.side → crosses incoming r = true) :
    offers incoming resting = ladder incoming.side resting := by
  unfold offers ladder
  congr 1
  refine List.filter_congr fun r member => ?_
  by_cases own : r.side = incoming.side
  · have refused : crosses incoming r = false := by
      by_contra crossing
      exact crosses_side (Bool.not_eq_false _ ▸ crossing) own
    simp [own, refused]
  · simp [own, accepts r member own]

theorem ladder_nodup (nodup : (resting.map OrderRecord.orderId).Nodup) :
    ((ladder taker resting).map OrderRecord.orderId).Nodup := by
  have same := List.perm_insertionSort (AtLeast taker) (resting.filter fun r => r.side ≠ taker)
  exact (same.map _).nodup_iff.mpr (nodup.sublist (List.filter_sublist.map _))

/-- Changing orders but not their sides and prices. -/
theorem ladder_map {change : OrderRecord → OrderRecord} (side : ∀ o, (change o).side = o.side)
    (price : ∀ o, (change o).priceRay = o.priceRay) :
    ladder taker (resting.map change) = (ladder taker resting).map change := by
  unfold ladder
  rw [List.filter_map]
  refine Eq.trans ?_ (List.map_insertionSort (AtLeast taker) (AtLeast taker) _ _ ?_).symm
  · congr 2
    refine List.filter_congr fun o _ => ?_
    rw [Function.comp_apply, side]
  · intro a _ b _
    cases taker with
    | buy =>
      show a.priceRay ≤ b.priceRay ↔ (change a).priceRay ≤ (change b).priceRay
      rw [price, price]
    | sell =>
      show b.priceRay ≤ a.priceRay ↔ (change b).priceRay ≤ (change a).priceRay
      rw [price, price]

/-- A trade in part changes what remains of the first order of the ladder. -/
theorem ladder_reduce_part (nodup : (resting.map OrderRecord.orderId).Nodup)
    (front : ladder taker resting = mo :: rest) (part : mo.remaining ≠ amount) :
    ladder taker (reduce mo amount resting) =
      { mo with remaining := mo.remaining - amount } :: rest := by
  have ids : ((ladder taker resting).map OrderRecord.orderId).Nodup := ladder_nodup nodup
  rw [front] at ids
  have kept : rest.map (fun o =>
      if o.orderId = mo.orderId then { o with remaining := o.remaining - amount } else o) = rest := by
    refine (List.map_congr_left fun o member => ?_).trans (List.map_id rest)
    refine if_neg fun same => (List.nodup_cons.mp ids).1 ?_
    rw [← same]
    exact List.mem_map_of_mem member
  rw [reduce, if_neg part, ladder_map, front, List.map_cons, kept, if_pos rfl]
  · intro o
    split <;> rfl
  · intro o
    split <;> rfl

/-- A trade in full takes the first order off the ladder. -/
theorem ladder_reduce_all (nodup : (resting.map OrderRecord.orderId).Nodup)
    (accepts : ∀ r ∈ resting, r.side ≠ incoming.side → crosses incoming r = true)
    (front : ladder incoming.side resting = mo :: rest) :
    ladder incoming.side (reduce mo mo.remaining resting) = rest := by
  have offered := (offers_eq_ladder accepts).trans front
  rw [← offers_reduce nodup offered incoming.remaining]
  refine (offers_eq_ladder fun r left => ?_).symm
  rw [reduce, if_pos rfl] at left
  exact accepts r (List.mem_of_mem_filter left)

/-- A sweep that accepts every order takes its amount from the ladder, by induction on its trades. -/
theorem ladder_sweep (nodup : (resting.map OrderRecord.orderId).Nodup)
    (accepts : ∀ r ∈ resting, r.side ≠ incoming.side → crosses incoming r = true)
    (positive : ∀ r ∈ resting, r.side ≠ incoming.side → 0 < r.remaining) :
    ladder incoming.side (sweep incoming resting).2.2 =
      drain incoming.remaining (ladder incoming.side resting) := by
  induction incoming, resting using sweep.induct with
  | case1 incoming resting filled =>
    rw [sweep_of_filled resting filled, filled, drain_zero]
    intro r member
    obtain ⟨rests, other⟩ := mem_ladder.mp member
    exact positive r rests other
  | case2 incoming resting unfilled none =>
    rw [sweep_of_none none, ← offers_eq_ladder accepts,
      List.head?_eq_none_iff.mp ((best_eq_head? ..).symm.trans none)]
    rfl
  | case3 incoming resting unfilled mo found qty ih =>
    have head := (best_eq_head? ..).symm.trans found
    rw [offers_eq_ladder accepts] at head
    obtain ⟨rest, front⟩ := List.head?_eq_some_iff.mp head
    rw [sweep_of_best unfilled found, front, drain]
    by_cases all : mo.remaining ≤ incoming.remaining
    · have old : ∀ r ∈ reduce mo mo.remaining resting, r ∈ resting := by
        intro r left
        rw [reduce, if_pos rfl] at left
        exact List.mem_of_mem_filter left
      simp only [qty, Nat.min_eq_right all] at ih ⊢
      have left := ih (nodup.sublist reduce_ids) (fun r rests => accepts r (old r rests))
        fun r rests => positive r (old r rests)
      rw [if_pos all, left, ladder_reduce_all nodup accepts front]
    · have whole : min incoming.remaining mo.remaining = incoming.remaining := by omega
      have done : incoming.remaining - incoming.remaining = 0 := Nat.sub_self _
      rw [if_neg all, whole, sweep_of_filled _ done, ladder_reduce_part nodup front (by omega)]

end Aide.Engine.NaiveBook
