import Aide.Contracts.InternalMarket
import Aide.Engine.Conservation
import Aide.Engine.Streamer
import Aide.Foundation.Followed

/-!
What the market, the events on their way to the match runner, the books and the fills on their way
back tell about each order, and when these agree.
-/

namespace Aide.Engine

namespace EngineEvent

def placedId : EngineEvent → Option ℕ
  | .orderPlaced _ orderId .. => some orderId
  | _ => none

def cancelledId : EngineEvent → Option ℕ
  | .orderCancelled _ _ orderId => some orderId
  | _ => none

def placedAmount (id : ℕ) : EngineEvent → ℕ
  | .orderPlaced _ orderId _ _ _ _ amount _ => if orderId = id then amount else 0
  | _ => 0

end EngineEvent

/-- The orders whose placement is on its way. -/
def placedIds (queue : List (ℕ × EngineEvent)) : List ℕ :=
  queue.filterMap fun entry => entry.2.placedId

/-- The orders whose cancellation is on its way. -/
def cancelledIds (queue : List (ℕ × EngineEvent)) : List ℕ :=
  queue.filterMap fun entry => entry.2.cancelledId

/-- The amount that is on its way to the book. -/
def awaited (queue : List (ℕ × EngineEvent)) (id : ℕ) : ℕ :=
  (queue.map fun entry => entry.2.placedAmount id).sum

section Queue
variable {entry : ℕ × EngineEvent} {queue more : List (ℕ × EngineEvent)} {id : ℕ}

@[simp] theorem placedIds_nil : placedIds [] = [] := rfl

@[simp] theorem cancelledIds_nil : cancelledIds [] = [] := rfl

@[simp] theorem awaited_nil : awaited [] id = 0 := rfl

theorem placedIds_cons : placedIds (entry :: queue) = entry.2.placedId.toList ++ placedIds queue := by
  obtain ⟨block, ev⟩ := entry
  cases ev <;> rfl

theorem cancelledIds_cons :
    cancelledIds (entry :: queue) = entry.2.cancelledId.toList ++ cancelledIds queue := by
  obtain ⟨block, ev⟩ := entry
  cases ev <;> rfl

theorem awaited_cons : awaited (entry :: queue) id = entry.2.placedAmount id + awaited queue id := by
  simp [awaited]

theorem placedIds_append : placedIds (queue ++ more) = placedIds queue ++ placedIds more :=
  List.filterMap_append ..

theorem cancelledIds_append :
    cancelledIds (queue ++ more) = cancelledIds queue ++ cancelledIds more :=
  List.filterMap_append ..

theorem awaited_append : awaited (queue ++ more) id = awaited queue id + awaited more id := by
  simp [awaited]

theorem awaited_of_absent (absent : id ∉ placedIds queue) : awaited queue id = 0 := by
  refine List.sum_eq_zero_iff_forall_eq_nat.mpr fun n member => ?_
  obtain ⟨⟨block, ev⟩, waits, rfl⟩ := List.mem_map.mp member
  cases ev with
  | orderPlaced _ orderId =>
    exact if_neg fun same => absent (List.mem_filterMap.mpr ⟨_, waits, congrArg some same⟩)
  | orderCancelled => rfl
  | tradeSettled => rfl
  | newBlock => rfl

end Queue

/-- The orders of the market, the locals of the pipeline that concern them, and the books. -/
structure Tally where
  orders : ℕ → Order
  nextOrderId : ℕ
  orderCompany : ℕ → Option ℕ
  queue : List (ℕ × EngineEvent)
  fills : List Fill
  dropped : List ℕ
  books : ℕ → List OrderRecord

namespace Tally

/-- The order has been placed and has reached the books. -/
structure Taken (t : Tally) (id : ℕ) : Prop where
  placed : id < t.nextOrderId
  kept : id ∉ t.dropped
  delivered : id ∉ placedIds t.queue

/-- A resting order is the order of the market but for what remains of it, and a cancelled one is
about to be taken out. -/
structure Rests (t : Tally) (companyId : ℕ) (r : OrderRecord) : Prop where
  taken : t.Taken r.orderId
  positive : 0 < r.remaining
  company : (t.orders r.orderId).companyId = companyId
  maker : (t.orders r.orderId).maker = r.maker
  side : (t.orders r.orderId).side = r.side
  price : (t.orders r.orderId).priceRay = r.priceRay
  live : (t.orders r.orderId).active = true ∨ r.orderId ∈ cancelledIds t.queue

/-- What an event on its way announces is what the market has on its order. -/
def Announces (t : Tally) (entry : ℕ × EngineEvent) (after : List (ℕ × EngineEvent)) : Prop :=
  match entry.2 with
  | .orderPlaced _ orderId companyId maker side priceRay amount _ =>
    orderId < t.nextOrderId ∧ orderId ∉ t.dropped ∧ 0 < amount ∧
      (t.orders orderId).companyId = companyId ∧ (t.orders orderId).maker = maker ∧
      (t.orders orderId).side = side ∧ (t.orders orderId).priceRay = priceRay ∧
      ((t.orders orderId).active = true ∨ orderId ∈ cancelledIds after)
  | .orderCancelled _ companyId orderId =>
    orderId < t.nextOrderId ∧ (t.orders orderId).companyId = companyId ∧
      (t.orders orderId).active = false
  | .tradeSettled .. | .newBlock _ => True

/-- An active order of the market. -/
structure Active (t : Tally) (id : ℕ) : Prop where
  placed : id < t.nextOrderId
  company : (t.orders id).companyId ≠ 0
  positive : 0 < (t.orders id).remaining
  followed : t.orderCompany id = some (t.orders id).companyId

/-- What remains of an active order is on its way to the book, in the book, or in fills. -/
structure Consistent (t : Tally) : Prop where
  active : ∀ id, (t.orders id).active = true → t.Active id
  rests : ∀ companyId, ∀ r ∈ t.books companyId, t.Rests companyId r
  unique : ∀ companyId, ((t.books companyId).map OrderRecord.orderId).Nodup
  filled : ∀ f ∈ t.fills, t.Taken f.makerOrderId ∧ t.Taken f.takerOrderId
  announced : Followed t.Announces t.queue
  nodup : (placedIds t.queue).Nodup
  dropped : ∀ id ∈ t.dropped, id < t.nextOrderId
  conserved : ∀ id, (t.orders id).active = true → id ∉ t.dropped →
    (t.orders id).remaining = NaiveBook.quantity (t.books (t.orders id).companyId) id +
      NaiveBook.filled t.fills id + awaited t.queue id

/-- An order that is placed keeps its company, maker, side and price, and is not revived. -/
structure Extends (t t' : Tally) : Prop where
  placed : t.nextOrderId ≤ t'.nextOrderId
  company : ∀ id < t.nextOrderId, (t'.orders id).companyId = (t.orders id).companyId
  maker : ∀ id < t.nextOrderId, (t'.orders id).maker = (t.orders id).maker
  side : ∀ id < t.nextOrderId, (t'.orders id).side = (t.orders id).side
  price : ∀ id < t.nextOrderId, (t'.orders id).priceRay = (t.orders id).priceRay
  inactive : ∀ id < t.nextOrderId, (t.orders id).active = false → (t'.orders id).active = false

variable {t t' : Tally} {block timestamp : ℕ} {rest more : List (ℕ × EngineEvent)}

theorem Consistent.placed_of_queued (consistent : t.Consistent) {id : ℕ}
    (waits : id ∈ placedIds t.queue) : id < t.nextOrderId ∧ id ∉ t.dropped := by
  obtain ⟨⟨block, ev⟩, member, named⟩ := List.mem_filterMap.mp waits
  obtain ⟨after, announces⟩ := consistent.announced.of_mem member
  cases ev with
  | orderPlaced =>
    cases named
    exact ⟨announces.1, announces.2.1⟩
  | orderCancelled => cases named
  | tradeSettled => cases named
  | newBlock => cases named

/-- What was announced still is, with more events behind it. -/
theorem Consistent.announce (consistent : t.Consistent) (ext : t.Extends t')
    (dropped : t'.dropped = t.dropped)
    (live : ∀ id ∈ placedIds t.queue, (t.orders id).active = true →
      (t'.orders id).active = true ∨ id ∈ cancelledIds more)
    (tail : Followed t'.Announces more) : Followed t'.Announces (t.queue ++ more) := by
  refine consistent.announced.append (fun entry member after announces => ?_) tail
  obtain ⟨block, ev⟩ := entry
  cases ev with
  | orderPlaced _ orderId =>
    obtain ⟨placed, kept, positive, company, maker, side, price, was⟩ := announces
    have waits : orderId ∈ placedIds t.queue := List.mem_filterMap.mpr ⟨_, member, rfl⟩
    refine ⟨placed.trans_le ext.placed, dropped ▸ kept, positive, (ext.company _ placed).trans company,
      (ext.maker _ placed).trans maker, (ext.side _ placed).trans side,
      (ext.price _ placed).trans price, ?_⟩
    rw [cancelledIds_append, List.mem_append]
    rcases was with active | cancelled
    · exact (live orderId waits active).imp_right Or.inr
    · exact Or.inr (Or.inl cancelled)
  | orderCancelled =>
    obtain ⟨placed, company, inactive⟩ := announces
    exact ⟨placed.trans_le ext.placed, (ext.company _ placed).trans company, ext.inactive _ placed inactive⟩
  | tradeSettled => trivial
  | newBlock => trivial

theorem Taken.extend {id : ℕ} (taken : t.Taken id) (ext : t.Extends t')
    (dropped : t'.dropped = t.dropped) (queue : t'.queue = t.queue ++ more)
    (other : id ∉ placedIds more) : t'.Taken id := by
  refine ⟨taken.placed.trans_le ext.placed, dropped ▸ taken.kept, ?_⟩
  rw [queue, placedIds_append, List.mem_append, not_or]
  exact ⟨taken.delivered, other⟩

theorem Rests.extend {companyId : ℕ} {r : OrderRecord} (rests : t.Rests companyId r)
    (ext : t.Extends t') (taken : t'.Taken r.orderId) (queue : t'.queue = t.queue ++ more)
    (live : (t.orders r.orderId).active = true →
      (t'.orders r.orderId).active = true ∨ r.orderId ∈ cancelledIds more) :
    t'.Rests companyId r := by
  have placed := rests.taken.placed
  refine ⟨taken, rests.positive, (ext.company _ placed).trans rests.company,
    (ext.maker _ placed).trans rests.maker, (ext.side _ placed).trans rests.side,
    (ext.price _ placed).trans rests.price, ?_⟩
  rw [queue, cancelledIds_append, List.mem_append]
  rcases rests.live with active | cancelled
  · exact (live active).imp_right Or.inr
  · exact Or.inr (Or.inl cancelled)

section Market

/-- The order is placed on the market and its placement is on its way. -/
def place (t : Tally) (block timestamp : ℕ) (o : Order) : Tally :=
  { t with
    orders := Function.update t.orders t.nextOrderId o
    nextOrderId := t.nextOrderId + 1
    orderCompany := Function.update t.orderCompany t.nextOrderId (some o.companyId)
    queue := t.queue ++ [(block, .orderPlaced block t.nextOrderId o.companyId o.maker o.side
      o.priceRay o.remaining timestamp)] }

theorem Consistent.place (timestamp : ℕ) (consistent : t.Consistent) {o : Order} (isActive : o.active = true)
    (company : o.companyId ≠ 0) (positive : 0 < o.remaining) :
    (t.place block timestamp o).Consistent := by
  have old : ∀ id < t.nextOrderId, (t.place block timestamp o).orders id = t.orders id :=
    fun id before => Function.update_of_ne before.ne ..
  have ext : t.Extends (t.place block timestamp o) := by
    refine ⟨Nat.le_succ _, ?_, ?_, ?_, ?_, ?_⟩ <;> intro id before <;> rw [old id before]
    exact fun inactive => inactive
  have taken : ∀ {id : ℕ}, t.Taken id → (t.place block timestamp o).Taken id := fun was =>
    was.extend ext rfl rfl (by simpa [placedIds_cons, EngineEvent.placedId] using was.placed.ne)
  have notQueued : t.nextOrderId ∉ placedIds t.queue := fun waits =>
    absurd (consistent.placed_of_queued waits).1 (lt_irrefl _)
  refine ⟨fun id live => ?_, fun companyId r rests => ?_, consistent.unique, fun f filled => ?_, ?_, ?_,
    fun id member => Nat.lt_succ_of_lt (consistent.dropped id member), fun id live kept => ?_⟩
  · by_cases new : id = t.nextOrderId
    · subst new
      refine ⟨Nat.lt_succ_self _, ?_, ?_, ?_⟩ <;> simp [Tally.place, company, positive]
    · have same : (t.place block timestamp o).orders id = t.orders id := Function.update_of_ne new ..
      rw [same] at live
      have was := consistent.active id live
      refine ⟨Nat.lt_succ_of_lt was.placed, same ▸ was.company, same ▸ was.positive, ?_⟩
      rw [same]
      exact (Function.update_of_ne new ..).trans was.followed
  · have was := consistent.rests companyId r rests
    exact was.extend ext (taken was.taken) rfl fun live => Or.inl ((old _ was.taken.placed).symm ▸ live)
  · exact (consistent.filled f filled).imp taken taken
  · refine consistent.announce ext rfl (fun id waits live => ?_) ⟨⟨Nat.lt_succ_self _,
      fun member => absurd (consistent.dropped _ member) (lt_irrefl _), positive, ?_⟩, trivial⟩
    · exact Or.inl ((old _ (consistent.placed_of_queued waits).1).symm ▸ live)
    · simp [Tally.place, isActive]
  · change (placedIds (t.queue ++ _)).Nodup
    rw [placedIds_append]
    exact consistent.nodup.append (List.nodup_singleton _) (List.disjoint_singleton.mpr notQueued)
  · by_cases new : id = t.nextOrderId
    · subst new
      have unbooked : NaiveBook.quantity (t.books o.companyId) t.nextOrderId = 0 :=
        NaiveBook.quantity_of_absent fun r rests => (consistent.rests _ r rests).taken.placed.ne
      have unfilled : NaiveBook.filled t.fills t.nextOrderId = 0 :=
        NaiveBook.filled_of_absent fun f member =>
          (consistent.filled f member).imp (·.placed.ne) (·.placed.ne)
      simp [Tally.place, unbooked, unfilled, awaited_append, awaited_of_absent notQueued,
        awaited_cons, EngineEvent.placedAmount]
    · have same : (t.place block timestamp o).orders id = t.orders id := Function.update_of_ne new ..
      rw [same] at live ⊢
      rw [consistent.conserved id live kept]
      simp [Tally.place, awaited_append, awaited_cons, EngineEvent.placedAmount, Ne.symm new]

/-- The order is cancelled on the market and its cancellation is on its way. -/
def cancel (t : Tally) (block id : ℕ) : Tally :=
  { t with
    orders := Function.update t.orders id { t.orders id with active := false }
    orderCompany := Function.update t.orderCompany id none
    queue := t.queue ++ [(block, .orderCancelled block (t.orders id).companyId id)] }

theorem Consistent.cancel (block : ℕ) {id : ℕ} (consistent : t.Consistent)
    (isActive : (t.orders id).active = true) : (t.cancel block id).Consistent := by
  have order : ∀ other, (t.cancel block id).orders other =
      if other = id then { t.orders id with active := false } else t.orders other :=
    fun other => Function.update_apply ..
  have ext : t.Extends (t.cancel block id) := by
    refine ⟨le_rfl, ?_, ?_, ?_, ?_, ?_⟩ <;> intro other _ <;> rw [order] <;> split <;>
      first | rfl | exact fun inactive => inactive | simp_all
  have live : ∀ other, (t.orders other).active = true → ((t.cancel block id).orders other).active =
      true ∨ other ∈ cancelledIds [(block, .orderCancelled block (t.orders id).companyId id)] := by
    intro other was
    by_cases same : other = id
    · exact Or.inr (same ▸ List.mem_singleton_self _)
    · rw [order, if_neg same]
      exact Or.inl was
  have taken : ∀ {other : ℕ}, t.Taken other → (t.cancel block id).Taken other := fun was =>
    was.extend ext rfl rfl List.not_mem_nil
  have still : ∀ {other : ℕ}, ((t.cancel block id).orders other).active = true → other ≠ id := by
    rintro other active rfl
    simp [order] at active
  refine ⟨fun other active => ?_, fun companyId r rests => ?_, consistent.unique,
    fun f filled => (consistent.filled f filled).imp taken taken, ?_, ?_, consistent.dropped,
    fun other active kept => ?_⟩
  · have apart := still active
    rw [order, if_neg apart] at active
    have was := consistent.active other active
    refine ⟨was.placed, ?_, ?_, (Function.update_of_ne apart ..).trans ?_⟩ <;>
      rw [order, if_neg apart]
    · exact was.company
    · exact was.positive
    · exact was.followed
  · have was := consistent.rests companyId r rests
    exact was.extend ext (taken was.taken) rfl (live _)
  · refine consistent.announce ext rfl (fun other _ was => live other was) ⟨⟨?_, ?_, ?_⟩, trivial⟩
    · exact (consistent.active id isActive).placed
    · rw [order, if_pos rfl]
    · rw [order, if_pos rfl]
  · change (placedIds (t.queue ++ _)).Nodup
    rw [placedIds_append]
    exact (List.append_nil _).symm ▸ consistent.nodup
  · have apart := still active
    rw [order, if_neg apart] at active ⊢
    rw [consistent.conserved other active kept]
    simp [Tally.cancel, awaited_append, awaited_cons, EngineEvent.placedAmount]

/-- The market settles a fill, and the log of the trade is on its way. -/
def settle (t : Tally) (f : Fill) (fills : List Fill) (settled : ℕ × EngineEvent) : Tally :=
  { t with
    orders := Function.update (Function.update t.orders f.makerOrderId
      ((t.orders f.makerOrderId).fill f.vstkAmount)) f.takerOrderId
      ((t.orders f.takerOrderId).fill f.vstkAmount)
    fills
    queue := t.queue ++ [settled] }

/-- What a fill takes from an order. -/
def taken (f : Fill) (id : ℕ) : ℕ :=
  (if f.makerOrderId = id then f.vstkAmount else 0) + if f.takerOrderId = id then f.vstkAmount else 0

section Settle
variable {f : Fill} {fills : List Fill} {settled : ℕ × EngineEvent} {id : ℕ}
  (apart : f.makerOrderId ≠ f.takerOrderId)
include apart

theorem settle_order (id : ℕ) :
    (t.settle f fills settled).orders id = if id = f.makerOrderId ∨ id = f.takerOrderId then
      (t.orders id).fill (taken f id) else t.orders id := by
  simp only [settle, Function.update_apply, taken]
  by_cases isTaker : id = f.takerOrderId
  · subst isTaker
    simp [apart]
  · by_cases isMaker : id = f.makerOrderId
    · subst isMaker
      simp [apart, Ne.symm apart]
    · simp [isTaker, isMaker]

theorem settle_untouched (notMaker : id ≠ f.makerOrderId) (notTaker : id ≠ f.takerOrderId) :
    (t.settle f fills settled).orders id = t.orders id := by
  rw [settle_order apart, if_neg (by simp [notMaker, notTaker])]

theorem settle_remaining : ((t.settle f fills settled).orders id).remaining =
    (t.orders id).remaining - taken f id := by
  by_cases named : id = f.makerOrderId ∨ id = f.takerOrderId
  · rw [settle_order apart, if_pos named]
    rfl
  · rw [settle_order apart, if_neg named]
    rw [not_or] at named
    simp [taken, Ne.symm named.1, Ne.symm named.2]

theorem settle_extends : t.Extends (t.settle f fills settled) := by
  refine ⟨le_rfl, ?_, ?_, ?_, ?_, ?_⟩ <;> intro id _ <;> rw [settle_order apart] <;> split <;>
    first | rfl | exact fun inactive => inactive | simp_all [Order.fill]

/-- An order that is still active was active, and the fill has left something of it. -/
theorem Consistent.settle_active (consistent : t.Consistent)
    (live : ((t.settle f fills settled).orders id).active = true) :
    (t.orders id).active = true ∧ 0 < (t.orders id).remaining - taken f id := by
  have remaining : ((t.settle f fills settled).orders id).remaining =
      (t.orders id).remaining - taken f id := settle_remaining apart
  rw [← remaining]
  by_cases named : id = f.makerOrderId ∨ id = f.takerOrderId
  · rw [settle_order apart, if_pos named] at live ⊢
    simp only [Order.fill, Bool.and_eq_true, bne_iff_ne] at live ⊢
    exact ⟨live.1, Nat.pos_of_ne_zero live.2⟩
  · rw [settle_order apart, if_neg named] at live ⊢
    exact ⟨live, (consistent.active id live).positive⟩

/-- A resting order has something left beyond its fills. -/
theorem Consistent.settle_live (consistent : t.Consistent) (first : t.fills = f :: fills)
    {companyId : ℕ} {r : OrderRecord} (rests : r ∈ t.books companyId)
    (live : (t.orders r.orderId).active = true) :
    ((t.settle f fills settled).orders r.orderId).active = true := by
  by_cases named : r.orderId = f.makerOrderId ∨ r.orderId = f.takerOrderId
  · have was := consistent.rests companyId r rests
    have conserved := consistent.conserved r.orderId live was.taken.kept
    rw [was.company, NaiveBook.quantity_of_mem (consistent.unique companyId) rests, first,
      NaiveBook.filled_cons] at conserved
    have positive := was.positive
    rw [settle_order apart, if_pos named]
    simp only [Order.fill, live, Bool.true_and, bne_iff_ne, taken]
    omega
  · rw [settle_order apart, if_neg named]
    exact live

end Settle

theorem Consistent.settle {f : Fill} {fills : List Fill} (companyId : ℕ) (buyer seller : Address)
    (vstkAmount aitNotional : ℕ) (consistent : t.Consistent) (first : t.fills = f :: fills)
    (apart : f.makerOrderId ≠ f.takerOrderId) :
    (t.settle f fills
      (block, .tradeSettled block companyId buyer seller vstkAmount aitNotional)).Consistent := by
  set settled : ℕ × EngineEvent :=
    (block, .tradeSettled block companyId buyer seller vstkAmount aitNotional)
  have ext : t.Extends (t.settle f fills settled) := settle_extends apart
  have takes : ∀ {id : ℕ}, t.Taken id → (t.settle f fills settled).Taken id := fun was =>
    was.extend ext rfl rfl List.not_mem_nil
  obtain ⟨makerTaken, takerTaken⟩ := consistent.filled f (first ▸ List.mem_cons_self ..)
  refine ⟨fun id live => ?_, fun companyId r rests => ?_, consistent.unique, fun other member => ?_,
    ?_, ?_, consistent.dropped, fun id live kept => ?_⟩
  · obtain ⟨was, left⟩ := consistent.settle_active apart live
    have wasActive := consistent.active id was
    have company := ext.company id wasActive.placed
    exact ⟨wasActive.placed, company ▸ wasActive.company, (settle_remaining apart).symm ▸ left,
      company ▸ wasActive.followed⟩
  · have was := consistent.rests companyId r rests
    exact was.extend ext (takes was.taken) rfl fun live =>
      Or.inl (consistent.settle_live apart first rests live)
  · obtain ⟨maker, taker⟩ := consistent.filled other (first ▸ List.mem_cons_of_mem _ member)
    exact ⟨takes maker, takes taker⟩
  · refine consistent.announce ext rfl (fun id waits live => Or.inl ?_) ⟨trivial, trivial⟩
    rw [settle_untouched apart]
    · exact live
    · rintro rfl
      exact makerTaken.delivered waits
    · rintro rfl
      exact takerTaken.delivered waits
  · change (placedIds (t.queue ++ _)).Nodup
    rw [placedIds_append]
    exact (List.append_nil _).symm ▸ consistent.nodup
  · obtain ⟨was, left⟩ := consistent.settle_active apart live
    have conserved := consistent.conserved id was kept
    rw [first, NaiveBook.filled_cons] at conserved
    rw [settle_remaining apart, ext.company id (consistent.active id was).placed]
    simp only [Tally.settle, taken, settled, awaited_append, awaited_cons, awaited_nil,
      EngineEvent.placedAmount]
    omega

end Market

section Runner
variable {entry : ℕ × EngineEvent}

theorem placed_of_first (first : t.queue = entry :: rest) {id : ℕ} (waits : id ∈ placedIds rest) :
    id ∈ placedIds t.queue := by
  rw [first, placedIds_cons]
  exact List.mem_append_right _ waits

/-- An event that does not place the order does not count towards it. -/
theorem awaited_of_first {ev : EngineEvent} (first : t.queue = (block, ev) :: rest) {id : ℕ}
    (apart : ev.placedId ≠ some id) : awaited t.queue id = awaited rest id := by
  have none : ev.placedAmount id = 0 := by
    cases ev with
    | orderPlaced _ orderId => exact if_neg fun same => apart (congrArg some same)
    | orderCancelled => rfl
    | tradeSettled => rfl
    | newBlock => rfl
  rw [first, awaited_cons, none, Nat.zero_add]

/-- The runner moves events, books and fills, and leaves the market alone. -/
structure SameMarket (t t' : Tally) : Prop where
  orders : t'.orders = t.orders
  nextOrderId : t'.nextOrderId = t.nextOrderId
  orderCompany : t'.orderCompany = t.orderCompany

theorem Active.of_same {id : ℕ} (active : t.Active id) (same : t.SameMarket t') : t'.Active id := by
  obtain ⟨placed, company, positive, followed⟩ := active
  constructor
  · rwa [same.nextOrderId]
  · rwa [same.orders]
  · rwa [same.orders]
  · rwa [same.orders, same.orderCompany]

theorem Rests.of_same {companyId : ℕ} {r : OrderRecord} (rests : t.Rests companyId r)
    (same : t.SameMarket t') (taken : t'.Taken r.orderId)
    (cancelled : r.orderId ∈ cancelledIds t.queue → r.orderId ∈ cancelledIds t'.queue) :
    t'.Rests companyId r := by
  obtain ⟨_, positive, company, maker, side, price, live⟩ := rests
  refine ⟨taken, positive, ?_, ?_, ?_, ?_, ?_⟩ <;> rw [same.orders]
  · exact company
  · exact maker
  · exact side
  · exact price
  · exact live.imp_right cancelled

/-- The placement of an order reaches a runner that is paused. -/
def drop (t : Tally) (id : ℕ) (rest : List (ℕ × EngineEvent)) : Tally :=
  { t with queue := rest, dropped := id :: t.dropped }

theorem Consistent.drop {ev : EngineEvent} {id : ℕ} (consistent : t.Consistent)
    (first : t.queue = (block, ev) :: rest) (placed : ev.placedId = some id) :
    (t.drop id rest).Consistent := by
  have waits : id ∈ placedIds t.queue := by rw [first, placedIds_cons, placed]; simp
  have nodup := consistent.nodup
  rw [first, placedIds_cons, placed, Option.toList_some, List.singleton_append, List.nodup_cons] at nodup
  have taken : ∀ {other : ℕ}, t.Taken other → (t.drop id rest).Taken other := fun was =>
    ⟨was.placed, List.not_mem_cons_of_ne_of_not_mem (fun same => was.delivered (same ▸ waits)) was.kept,
      fun member => was.delivered (placed_of_first first member)⟩
  have notCancelled : cancelledIds t.queue = cancelledIds rest := by
    rw [first, cancelledIds_cons]
    cases ev <;> first | rfl | cases placed
  have announced := consistent.announced
  rw [first] at announced
  refine ⟨fun other live => ?_, fun companyId r rests => ?_, consistent.unique,
    fun f filled => (consistent.filled f filled).imp taken taken, ?_, nodup.2, ?_,
    fun other live kept => ?_⟩
  · exact (consistent.active other live).of_same ⟨rfl, rfl, rfl⟩
  · have was := consistent.rests companyId r rests
    exact was.of_same ⟨rfl, rfl, rfl⟩ (taken was.taken) fun member => notCancelled ▸ member
  · refine announced.2.imp fun other member after announces => ?_
    obtain ⟨_, ev'⟩ := other
    cases ev' with
    | orderPlaced _ orderId =>
      have apart : orderId ≠ id := by
        rintro rfl
        exact nodup.1 (List.mem_filterMap.mpr ⟨_, member, rfl⟩)
      exact ⟨announces.1, List.not_mem_cons_of_ne_of_not_mem apart announces.2.1, announces.2.2⟩
    | orderCancelled => exact announces
    | tradeSettled => trivial
    | newBlock => trivial
  · intro other member
    rcases List.mem_cons.mp member with rfl | member
    · exact (consistent.placed_of_queued waits).1
    · exact consistent.dropped other member
  · have apart := List.ne_of_not_mem_cons kept
    have kept := List.not_mem_of_not_mem_cons kept
    have conserved := consistent.conserved other live kept
    rw [awaited_of_first first] at conserved
    · exact conserved
    · rw [placed]
      exact fun same => apart (Option.some.inj same).symm

/-- The log of a trade reaches the runner. -/
theorem Consistent.skip {ev : EngineEvent} (consistent : t.Consistent)
    (first : t.queue = (block, ev) :: rest) (notPlaced : ev.placedId = none)
    (notCancelled : ev.cancelledId = none) : Consistent { t with queue := rest } := by
  have placed : placedIds t.queue = placedIds rest := by rw [first, placedIds_cons, notPlaced]; rfl
  have cancelled : cancelledIds t.queue = cancelledIds rest := by
    rw [first, cancelledIds_cons, notCancelled]
    rfl
  have taken : ∀ {other : ℕ}, t.Taken other → Taken { t with queue := rest } other := fun was =>
    ⟨was.placed, was.kept, placed ▸ was.delivered⟩
  have announced := consistent.announced
  rw [first] at announced
  refine ⟨fun other live => ?_, fun companyId r rests => ?_, consistent.unique,
    fun f filled => (consistent.filled f filled).imp taken taken, announced.2,
    placed ▸ consistent.nodup, consistent.dropped, fun other live kept => ?_⟩
  · exact (consistent.active other live).of_same ⟨rfl, rfl, rfl⟩
  · have was := consistent.rests companyId r rests
    exact was.of_same ⟨rfl, rfl, rfl⟩ (taken was.taken) fun member => cancelled ▸ member
  · have conserved := consistent.conserved other live kept
    rw [awaited_of_first first] at conserved
    · exact conserved
    · rw [notPlaced]
      exact nofun

/-- The cancellation of an order reaches the runner. -/
def withdraw (t : Tally) (companyId id : ℕ) (rest : List (ℕ × EngineEvent)) : Tally :=
  { t with
    queue := rest
    books := Function.update t.books companyId
      ((t.books companyId).filter (·.orderId != id)) }

theorem Consistent.withdraw {announcedAt companyId id : ℕ} (consistent : t.Consistent)
    (first : t.queue = (block, .orderCancelled announcedAt companyId id) :: rest) :
    (t.withdraw companyId id rest).Consistent := by
  have placed : placedIds t.queue = placedIds rest := by rw [first, placedIds_cons]; rfl
  have announced := consistent.announced
  rw [first] at announced
  obtain ⟨_, company, inactive⟩ := announced.1
  have taken : ∀ {other : ℕ}, t.Taken other → (t.withdraw companyId id rest).Taken other :=
    fun was => ⟨was.placed, was.kept, placed ▸ was.delivered⟩
  have kept : ∀ other r, r ∈ (t.withdraw companyId id rest).books other →
      r ∈ t.books other ∧ r.orderId ≠ id := by
    intro other r rests
    by_cases same : other = companyId
    · subst same
      simpa [Tally.withdraw] using rests
    · have before : r ∈ t.books other := by simpa [Tally.withdraw, same] using rests
      refine ⟨before, ?_⟩
      rintro rfl
      exact same ((consistent.rests other r before).company.symm.trans company)
  refine ⟨fun other live => ?_, fun other r rests => ?_, fun other => ?_,
    fun f filled => (consistent.filled f filled).imp taken taken, announced.2,
    placed ▸ consistent.nodup, consistent.dropped, fun other live wanted => ?_⟩
  · exact (consistent.active other live).of_same ⟨rfl, rfl, rfl⟩
  · obtain ⟨before, apart⟩ := kept other r rests
    have was := consistent.rests other r before
    refine was.of_same ⟨rfl, rfl, rfl⟩ (taken was.taken) fun member => ?_
    rw [first, cancelledIds_cons] at member
    exact (List.mem_cons.mp member).resolve_left apart
  · by_cases same : other = companyId
    · subst same
      simpa [Tally.withdraw] using (consistent.unique other).sublist (List.filter_sublist.map _)
    · simpa [Tally.withdraw, same] using consistent.unique other
  · have apart : id ≠ other := by
      rintro rfl
      cases inactive.symm.trans live
    have conserved := consistent.conserved other live wanted
    rw [awaited_of_first first (by simp [EngineEvent.placedId])] at conserved
    by_cases same : (t.orders other).companyId = companyId
    · simpa [Tally.withdraw, same, NaiveBook.quantity_filter_ne apart] using conserved
    · simpa [Tally.withdraw, same] using conserved

/-- The placement of an order reaches a runner that matches it. -/
def trade (t : Tally) (incoming : OrderRecord) (rest : List (ℕ × EngineEvent)) : Tally :=
  let swept := NaiveBook.sweep incoming (t.books incoming.companyId)
  { t with
    queue := rest
    fills := t.fills ++ swept.1
    books := Function.update t.books incoming.companyId
      (if 0 < swept.2.1.remaining then swept.2.2 ++ [swept.2.1] else swept.2.2) }

theorem trade_book {incoming : OrderRecord} : (t.trade incoming rest).books incoming.companyId =
    (NaiveBook.sweep incoming (t.books incoming.companyId)).2.2 ++
      if 0 < (NaiveBook.sweep incoming (t.books incoming.companyId)).2.1.remaining then
        [(NaiveBook.sweep incoming (t.books incoming.companyId)).2.1] else [] := by
  refine (Function.update_self ..).trans ?_
  split <;> simp

theorem trade_books {incoming : OrderRecord} {other : ℕ} (apart : other ≠ incoming.companyId) :
    (t.trade incoming rest).books other = t.books other :=
  Function.update_of_ne apart ..

section Trade
variable {placedAt : ℕ} {incoming : OrderRecord}

theorem Taken.trade {ev : EngineEvent} {other : ℕ} (was : t.Taken other)
    (first : t.queue = (block, ev) :: rest) : (t.trade incoming rest).Taken other :=
  ⟨was.placed, was.kept, fun member => was.delivered (placed_of_first first member)⟩

theorem Rests.trade {ev : EngineEvent} {companyId : ℕ} {r : OrderRecord}
    (was : t.Rests companyId r) (first : t.queue = (block, ev) :: rest)
    (notCancelled : ev.cancelledId = none) : (t.trade incoming rest).Rests companyId r := by
  refine was.of_same ⟨rfl, rfl, rfl⟩ (was.taken.trade first) fun cancelled => ?_
  rw [first, cancelledIds_cons, notCancelled] at cancelled
  exact cancelled

variable (consistent : t.Consistent)
  (first : t.queue = (block, .orderPlaced placedAt incoming.orderId incoming.companyId
    incoming.maker incoming.side incoming.priceRay incoming.remaining timestamp) :: rest)
include consistent first

/-- What the sweep leaves of the book still rests, and none of it is the incoming order. -/
theorem Consistent.trade_swept {r : OrderRecord}
    (left : r ∈ (NaiveBook.sweep incoming (t.books incoming.companyId)).2.2) :
    r.orderId ≠ incoming.orderId ∧ (t.trade incoming rest).Rests incoming.companyId r := by
  obtain ⟨o, rests, same, stillPositive⟩ := NaiveBook.mem_sweep_keeps (consistent.unique _) left
  have was := consistent.rests _ o rests
  have still : (t.trade incoming rest).Rests incoming.companyId o := was.trade first rfl
  obtain ⟨taken, positive, company, maker, side, price, live⟩ := still
  rw [same]
  refine ⟨fun isIncoming => ?_, taken, stillPositive positive, company, maker, side, price, live⟩
  have waits : incoming.orderId ∈ placedIds t.queue := by
    rw [first, placedIds_cons]
    exact List.mem_cons_self ..
  exact was.taken.delivered (isIncoming ▸ waits)

/-- The sweep moves what remains of an order between the books, the fills and the incoming order. -/
theorem Consistent.trade_conserved {other : ℕ} (active : (t.orders other).active = true)
    (kept : other ∉ t.dropped) : (t.orders other).remaining =
      NaiveBook.quantity ((t.trade incoming rest).books (t.orders other).companyId) other +
        NaiveBook.filled (t.trade incoming rest).fills other + awaited rest other := by
  have announced := consistent.announced
  rw [first] at announced
  obtain ⟨_, _, _, company, _⟩ := announced.1
  have conserved := consistent.conserved other active kept
  rw [first, awaited_cons] at conserved
  have fills : (t.trade incoming rest).fills =
      t.fills ++ (NaiveBook.sweep incoming (t.books incoming.companyId)).1 := rfl
  rw [fills, NaiveBook.filled_append, conserved]
  by_cases same : (t.orders other).companyId = incoming.companyId
  · have moved := NaiveBook.sweep_conserves incoming (consistent.unique incoming.companyId) other
    have sameId : (NaiveBook.sweep incoming (t.books incoming.companyId)).2.1.orderId =
        incoming.orderId := by
      obtain ⟨remaining, restIs⟩ := NaiveBook.sweep_incoming incoming (t.books incoming.companyId)
      rw [restIs]
    rw [same, trade_book, NaiveBook.quantity_append, NaiveBook.quantity_rest, sameId]
    simp only [EngineEvent.placedAmount]
    omega
  · have foreign : incoming.orderId ≠ other := by
      rintro rfl
      exact same company
    have unfilled : NaiveBook.filled (NaiveBook.sweep incoming (t.books incoming.companyId)).1
        other = 0 := by
      refine NaiveBook.filled_of_absent fun f new => ?_
      obtain ⟨taker, o, rests, maker⟩ := NaiveBook.sweep_fills new
      refine ⟨?_, taker ▸ foreign⟩
      rintro rfl
      exact same (maker ▸ (consistent.rests _ o rests).company)
    rw [trade_books same, unfilled]
    simp only [EngineEvent.placedAmount, if_neg foreign]
    omega

variable (incoming) in
theorem Consistent.trade : (t.trade incoming rest).Consistent := by
  have announced := consistent.announced
  rw [first] at announced
  obtain ⟨placed, wanted, positive, company, maker, side, price, live⟩ := announced.1
  have nodup := consistent.nodup
  rw [first, placedIds_cons] at nodup
  obtain ⟨onlyOnce, nodupRest⟩ := List.nodup_cons.mp nodup
  have takenIncoming : (t.trade incoming rest).Taken incoming.orderId := ⟨placed, wanted, onlyOnce⟩
  obtain ⟨remaining, restIs⟩ := NaiveBook.sweep_incoming incoming (t.books incoming.companyId)
  refine ⟨fun other active => ?_, fun other r rests => ?_, fun other => ?_, fun f filled => ?_,
    announced.2, nodupRest, consistent.dropped,
    fun other active kept => consistent.trade_conserved first active kept⟩
  · exact (consistent.active other active).of_same ⟨rfl, rfl, rfl⟩
  · by_cases same : other = incoming.companyId
    · subst same
      rw [trade_book] at rests
      rcases List.mem_append.mp rests with left | isRest
      · exact (consistent.trade_swept first left).2
      · split at isRest
        · rename_i unfilled
          cases List.mem_singleton.mp isRest
          rw [restIs] at unfilled ⊢
          exact ⟨takenIncoming, unfilled, company, maker, side, price, live⟩
        · cases isRest
    · rw [trade_books same] at rests
      exact (consistent.rests other r rests).trade first rfl
  · by_cases same : other = incoming.companyId
    · subst same
      rw [trade_book, List.map_append]
      refine ((consistent.unique _).sublist NaiveBook.sweep_ids).append ?_ ?_
      · split <;> simp
      · intro id left isRest
        obtain ⟨r, rests, rfl⟩ := List.mem_map.mp left
        split at isRest
        · rw [restIs] at isRest
          exact (consistent.trade_swept first rests).1 (List.mem_singleton.mp isRest)
        · cases isRest
    · rw [trade_books same]
      exact consistent.unique other
  · rcases List.mem_append.mp filled with before | new
    · exact (consistent.filled f before).imp (·.trade first) (·.trade first)
    · obtain ⟨taker, o, rests, maker⟩ := NaiveBook.sweep_fills new
      exact ⟨maker ▸ (consistent.rests _ o rests).taken.trade first, taker ▸ takenIncoming⟩

end Trade

end Runner

section Rest
variable (consistent : t.Consistent) (noEvent : t.queue = []) (noFill : t.fills = [])
include consistent noEvent noFill

/-- With nothing on its way, a resting order is an active order of the market. -/
theorem Consistent.of_resting {companyId : ℕ} {r : OrderRecord} (rests : r ∈ t.books companyId) :
    (t.orders r.orderId).active = true ∧ (t.orders r.orderId).remaining = r.remaining := by
  have was := consistent.rests companyId r rests
  have live : (t.orders r.orderId).active = true := by
    refine was.live.resolve_right fun cancelled => ?_
    rw [noEvent] at cancelled
    cases cancelled
  have conserved := consistent.conserved _ live was.taken.kept
  rw [was.company, NaiveBook.quantity_of_mem (consistent.unique companyId) rests, noEvent, noFill]
    at conserved
  exact ⟨live, conserved⟩

/-- With nothing on its way, an active order of the market rests unless it was dropped. -/
theorem Consistent.resting_of {id : ℕ} (live : (t.orders id).active = true)
    (kept : id ∉ t.dropped) : ∃ r ∈ t.books (t.orders id).companyId, r.orderId = id := by
  by_contra absent
  simp only [not_exists, not_and] at absent
  have conserved := consistent.conserved id live kept
  have positive := (consistent.active id live).positive
  rw [NaiveBook.quantity_of_absent absent, noEvent, noFill] at conserved
  exact absurd conserved positive.ne'

end Rest

end Tally

end Aide.Engine
