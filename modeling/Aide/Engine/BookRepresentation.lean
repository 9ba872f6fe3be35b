import Aide.Engine.NaiveBook

namespace Aide.Engine

open NaiveBook (reduce)

variable {K : Type} [LinearOrder K]

/-- The ids that rest on one side at one price, in arrival order. -/
def queue (resting : List OrderRecord) (side : Side) (key : ℕ ≃ K) (level : K) : List ℕ :=
  (resting.filter fun r => r.side = side ∧ key r.priceRay = level).map OrderRecord.orderId

/-- A level that is kept in the map: an empty one is not. -/
def levelOf (ids : List ℕ) : Option (List ℕ) := if ids = [] then none else some ids

/-- One side of a book holds the queues of the resting orders of that side. -/
def SideHolds (levels : Levels K) (side : Side) (key : ℕ ≃ K) (resting : List OrderRecord) : Prop :=
  ∀ level : K, levels[level]? = levelOf (queue resting side key level)

/-- The hash map holds the resting orders under their ids, and no id rests twice. -/
structure OrdersHold (orders : ℕ → Option OrderRecord) (resting : List OrderRecord) : Prop where
  nodup : (resting.map OrderRecord.orderId).Nodup
  lookup : ∀ id r, orders id = some r ↔ r ∈ resting ∧ r.orderId = id

/-- A book of sorted maps and a hash map represents a plain list of resting orders. -/
structure Represents (book : OrderBook) (resting : List OrderRecord) : Prop where
  orders : OrdersHold book.orders resting
  asks : SideHolds book.asks .sell askKey resting
  bids : SideHolds book.bids .buy bidKey resting

variable {resting : List OrderRecord} {side : Side} {key : ℕ ≃ K} {level : K}
  {mo r incoming : OrderRecord} {id qty : ℕ} {ids : List ℕ} {orders : ℕ → Option OrderRecord}

theorem mem_queue :
    id ∈ queue resting side key level ↔
      ∃ r ∈ resting, r.side = side ∧ key r.priceRay = level ∧ r.orderId = id := by
  simp [queue, and_assoc]

theorem queue_append (more : List OrderRecord) :
    queue (resting ++ more) side key level =
      queue resting side key level ++ queue more side key level := by
  simp [queue]

/-- Dropping an order takes its id out of every queue. -/
theorem queue_filter_ne :
    queue (resting.filter (·.orderId != id)) side key level =
      (queue resting side key level).filter (· != id) := by
  simp only [queue, List.filter_filter, List.filter_map]
  congr 1
  refine List.filter_congr fun r _ => ?_
  simp [Bool.and_comm]

/-- Changing what remains of an order changes no queue. -/
theorem queue_map_remaining (change : OrderRecord → ℕ) :
    queue (resting.map fun r =>
      if r.orderId = id then { r with remaining := change r } else r) side key level =
      queue resting side key level := by
  induction resting with
  | nil => rfl
  | cons r rest ih =>
    simp only [queue, List.map_cons, List.filter_cons] at ih ⊢
    split <;> split <;> simp_all

theorem queue_reduce :
    queue (reduce mo qty resting) side key level =
      if mo.remaining = qty then (queue resting side key level).filter (· != mo.orderId)
      else queue resting side key level := by
  unfold reduce
  split
  · exact queue_filter_ne
  · exact queue_map_remaining _

namespace OrdersHold
variable (hold : OrdersHold orders resting)
include hold

theorem queue_nodup : (queue resting side key level).Nodup :=
  (hold.nodup.sublist (List.filter_sublist.map _))

theorem eq_of_id (left : r ∈ resting) (right : mo ∈ resting) (same : r.orderId = mo.orderId) :
    r = mo :=
  List.inj_on_of_nodup_map hold.nodup left right same

/-- An id rests in the queue of its own side and price only. -/
theorem mem_queue_iff (member : mo ∈ resting) :
    mo.orderId ∈ queue resting side key level ↔ mo.side = side ∧ key mo.priceRay = level := by
  rw [mem_queue]
  constructor
  · rintro ⟨r, rests, onSide, atLevel, same⟩
    cases hold.eq_of_id rests member same
    exact ⟨onSide, atLevel⟩
  · rintro ⟨onSide, atLevel⟩
    exact ⟨mo, member, onSide, atLevel, rfl⟩

/-- A trade leaves the queues alone that do not hold the traded order. -/
theorem queue_reduce_of_ne (member : mo ∈ resting)
    (elsewhere : ¬ (mo.side = side ∧ key mo.priceRay = level)) :
    queue (reduce mo qty resting) side key level = queue resting side key level := by
  rw [queue_reduce]
  split
  · refine List.filter_eq_self.mpr fun id rests => ?_
    have absent : mo.orderId ∉ queue resting side key level := fun rests =>
      elsewhere ((hold.mem_queue_iff member).mp rests)
    simp only [bne_iff_ne]
    rintro rfl
    exact absent rests
  · rfl

/-- Dropping an order from the list and from the hash map. -/
theorem drop (id : ℕ) :
    OrdersHold (Function.update orders id none) (resting.filter (·.orderId != id)) where
  nodup := hold.nodup.sublist (List.filter_sublist.map _)
  lookup other r := by
    by_cases same : other = id
    · subst same
      simp
    · rw [Function.update_of_ne same, hold.lookup]
      simp only [List.mem_filter, bne_iff_ne]
      constructor
      · rintro ⟨rests, rfl⟩
        exact ⟨⟨rests, same⟩, rfl⟩
      · rintro ⟨⟨rests, _⟩, named⟩
        exact ⟨rests, named⟩

/-- Changing what remains of an order in the list and in the hash map. -/
theorem change (member : mo ∈ resting) (left : OrderRecord → ℕ) :
    OrdersHold (Function.update orders mo.orderId (some { mo with remaining := left mo }))
      (resting.map fun r =>
        if r.orderId = mo.orderId then { r with remaining := left r } else r) where
  nodup := by
    have kept : OrderRecord.orderId ∘ (fun r : OrderRecord =>
        if r.orderId = mo.orderId then { r with remaining := left r } else r) =
        OrderRecord.orderId := by
      funext r
      simp only [Function.comp_apply]
      split <;> rfl
    rw [List.map_map, kept]
    exact hold.nodup
  lookup id r := by
    simp only [List.mem_map]
    by_cases same : id = mo.orderId
    · subst same
      rw [Function.update_self]
      constructor
      · rintro ⟨⟩
        exact ⟨⟨mo, member, if_pos rfl⟩, rfl⟩
      · rintro ⟨⟨o, rests, rfl⟩, named⟩
        have sameId : o.orderId = mo.orderId := by
          split at named
          · assumption
          · exact named
        cases hold.eq_of_id rests member sameId
        rw [if_pos rfl]
    · rw [Function.update_of_ne same, hold.lookup]
      constructor
      · rintro ⟨rests, rfl⟩
        exact ⟨⟨r, rests, if_neg same⟩, rfl⟩
      · rintro ⟨⟨o, rests, rfl⟩, named⟩
        split at named
        · rename_i isMo
          exact absurd (named.symm.trans isMo) same
        · rename_i other
          rw [if_neg other]
          exact ⟨rests, named⟩

/-- Appending an order with a fresh id. -/
theorem append (fresh : ∀ r ∈ resting, r.orderId ≠ incoming.orderId) :
    OrdersHold (Function.update orders incoming.orderId (some incoming)) (resting ++ [incoming]) where
  nodup := NaiveBook.nodup_append_fresh hold.nodup fresh
  lookup id r := by
    by_cases same : id = incoming.orderId
    · subst same
      simp only [Function.update_self, Option.some.injEq, List.mem_append, List.mem_singleton]
      constructor
      · rintro rfl
        exact ⟨Or.inr rfl, rfl⟩
      · rintro ⟨rests | rfl, named⟩
        · exact absurd named (fresh r rests)
        · rfl
    · rw [Function.update_of_ne same, hold.lookup]
      simp only [List.mem_append, List.mem_singleton]
      constructor
      · rintro ⟨rests, named⟩
        exact ⟨Or.inl rests, named⟩
      · rintro ⟨rests | rfl, named⟩
        · exact ⟨rests, named⟩
        · exact absurd named.symm same

/-- A trade leaves the hash map in step with the list. -/
theorem trade (member : mo ∈ resting) (within : qty ≤ mo.remaining) :
    OrdersHold (Function.update orders mo.orderId
      (if mo.remaining - qty = 0 then none else some { mo with remaining := mo.remaining - qty }))
      (reduce mo qty resting) := by
  by_cases all : mo.remaining = qty
  · rw [reduce, if_pos all, if_pos (by omega)]
    exact hold.drop mo.orderId
  · rw [reduce, if_neg all, if_neg (by omega)]
    exact hold.change member fun r => r.remaining - qty

end OrdersHold

section Levels
variable {levels : Levels K}

theorem levelOf_getD : (levelOf ids).getD [] = ids := by
  unfold levelOf
  split
  · rename_i empty
    exact empty.symm
  · rfl

/-- Taking an id out of a level takes it out of the queue. -/
theorem levelOf_erase (nodup : ids.Nodup) (id : ℕ) :
    ((levelOf ids).map (List.erase · id)).filter (¬ ·.isEmpty) = levelOf (ids.filter (· != id)) := by
  rw [← nodup.erase_eq_filter]
  unfold levelOf
  by_cases empty : ids = []
  · simp [empty]
  · rw [if_neg empty, Option.map_some, Option.filter]
    by_cases last : ids.erase id = [] <;> simp [last]

theorem SideHolds.pushBack (holds : SideHolds levels side key resting) (onSide : r.side = side) :
    SideHolds (levels.pushBack (key r.priceRay) r.orderId) side key (resting ++ [r]) := by
  intro level
  rw [Levels.getElem?_pushBack, queue_append, holds, holds, levelOf_getD]
  by_cases same : key r.priceRay = level
  · subst same
    simp [queue, onSide, levelOf]
  · simp [queue, same]

theorem SideHolds.append (holds : SideHolds levels side key resting) (other : r.side ≠ side) :
    SideHolds levels side key (resting ++ [r]) := by
  intro level
  rw [holds, queue_append]
  simp [queue, other]

theorem SideHolds.remove (hold : OrdersHold orders resting)
    (holds : SideHolds levels side key resting) (member : mo ∈ resting) :
    SideHolds (levels.remove (key mo.priceRay) mo.orderId) side key
      (resting.filter (·.orderId != mo.orderId)) := by
  intro level
  rw [Levels.getElem?_remove, queue_filter_ne, holds, holds]
  by_cases same : key mo.priceRay = level
  · subst same
    rw [if_pos rfl, levelOf_erase hold.queue_nodup]
  · rw [if_neg same, List.filter_eq_self.mpr]
    intro id queued
    simp only [bne_iff_ne]
    rintro rfl
    exact same ((hold.mem_queue_iff member).mp queued).2

theorem SideHolds.filter (hold : OrdersHold orders resting)
    (holds : SideHolds levels side key resting) (member : mo ∈ resting) (other : mo.side ≠ side) :
    SideHolds levels side key (resting.filter (·.orderId != mo.orderId)) := by
  intro level
  rw [queue_filter_ne, holds, List.filter_eq_self.mpr]
  intro id queued
  simp only [bne_iff_ne]
  rintro rfl
  exact other ((hold.mem_queue_iff member).mp queued).1

end Levels

namespace Represents
variable {book : OrderBook} (rep : Represents book resting)
include rep

/-- A fresh order is appended. -/
theorem insertLimitOrder (fresh : ∀ r ∈ resting, r.orderId ≠ incoming.orderId) :
    ∃ next, book.insertLimitOrder incoming = .ok next ∧ Represents next (resting ++ [incoming]) := by
  have absent : book.orders incoming.orderId = none := by
    rw [Option.eq_none_iff_forall_ne_some]
    intro r found
    obtain ⟨rests, named⟩ := (rep.orders.lookup ..).mp found
    exact fresh r rests named
  have orders := rep.orders.append fresh
  cases onSide : incoming.side with
  | buy =>
    refine ⟨⟨book.bids.pushBack (bidKey incoming.priceRay) incoming.orderId, book.asks,
      Function.update book.orders incoming.orderId (some incoming)⟩, ?_, orders,
      rep.asks.append (by simp [onSide]), rep.bids.pushBack onSide⟩
    simp [OrderBook.insertLimitOrder, absent, onSide, bidKey]
  | sell =>
    refine ⟨⟨book.bids, book.asks.pushBack (askKey incoming.priceRay) incoming.orderId,
      Function.update book.orders incoming.orderId (some incoming)⟩, ?_, orders,
      rep.asks.pushBack onSide, rep.bids.append (by simp [onSide])⟩
    simp [OrderBook.insertLimitOrder, absent, onSide, askKey]

/-- An order is appended, or refused because its id rests already. -/
theorem insertLimitOrder_cases (incoming : OrderRecord) :
    (∃ r ∈ resting, r.orderId = incoming.orderId) ∧
        book.insertLimitOrder incoming = .error (.duplicateOrderId incoming.orderId) ∨
      ∃ next, book.insertLimitOrder incoming = .ok next ∧ Represents next (resting ++ [incoming]) := by
  by_cases rests : ∃ r ∈ resting, r.orderId = incoming.orderId
  · obtain ⟨r, member, same⟩ := rests
    have found : book.orders incoming.orderId = some r := (rep.orders.lookup ..).mpr ⟨member, same⟩
    refine Or.inl ⟨⟨r, member, same⟩, ?_⟩
    simp [OrderBook.insertLimitOrder, found]
  · exact Or.inr (rep.insertLimitOrder fun r member same => rests ⟨r, member, same⟩)

/-- A resting order is taken out. -/
theorem cancelOrder (member : mo ∈ resting) :
    ∃ next, book.cancelOrder mo.orderId = .ok next ∧
      Represents next (resting.filter (·.orderId != mo.orderId)) := by
  have found : book.orders mo.orderId = some mo := (rep.orders.lookup ..).mpr ⟨member, rfl⟩
  have orders := rep.orders.drop mo.orderId
  cases onSide : mo.side with
  | buy =>
    refine ⟨⟨book.bids.remove (bidKey mo.priceRay) mo.orderId, book.asks,
      Function.update book.orders mo.orderId none⟩, ?_, orders,
      rep.asks.filter rep.orders member (by simp [onSide]), rep.bids.remove rep.orders member⟩
    simp [OrderBook.cancelOrder, found, onSide, bidKey]
  | sell =>
    refine ⟨⟨book.bids, book.asks.remove (askKey mo.priceRay) mo.orderId,
      Function.update book.orders mo.orderId none⟩, ?_, orders,
      rep.asks.remove rep.orders member, rep.bids.filter rep.orders member (by simp [onSide])⟩
    simp [OrderBook.cancelOrder, found, onSide, askKey]

theorem cancelOrder_unknown (absent : ∀ r ∈ resting, r.orderId ≠ id) :
    book.cancelOrder id = .error (.unknownOrder id) := by
  have absent : book.orders id = none := by
    rw [Option.eq_none_iff_forall_ne_some]
    intro r found
    obtain ⟨rests, named⟩ := (rep.orders.lookup ..).mp found
    exact absent r rests named
  rw [OrderBook.cancelOrder, absent]

end Represents

end Aide.Engine
