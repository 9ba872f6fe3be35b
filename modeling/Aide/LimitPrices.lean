import Aide.Engine.Stock
import Aide.Contracts.OrderLogs

namespace Aide

open Engine

namespace InternalMarket

/-- The limit of an order on a quantity, rounded up for the buyer and down for the seller. -/
def limitCeil (o : Order) (vstkAmount : ℕ) : ℕ := (o.priceRay * vstkAmount + (one - 1)) / one

def limitFloor (o : Order) (vstkAmount : ℕ) : ℕ := o.priceRay * vstkAmount / one

/-- The one of two orders that is on the given side. -/
def orderOn (side : Side) (makerOrder takerOrder : Order) : Order :=
  if makerOrder.side = side then makerOrder else takerOrder

theorem party_eq (side : Side) (makerOrder takerOrder : Order) :
    party side makerOrder takerOrder = (orderOn side makerOrder takerOrder).maker := by
  unfold party orderOn
  split <;> rfl

end InternalMarket

open InternalMarket

/-- The record is that of an order in the logs, whatever remains of it. -/
def Engine.OrderRecord.Placed (log : List Event) (r : OrderRecord) : Prop :=
  ∃ e ∈ log, e.placement = some (r.orderId, r.companyId, r.maker, r.side, r.priceRay)

instance (log : List Event) (r : OrderRecord) : Decidable (r.Placed log) :=
  inferInstanceAs (Decidable (∃ e ∈ log, _))

theorem placed_lasting (log : List Event) : Lasting (OrderRecord.Placed log) :=
  fun _ _ placed => placed

/-- The orders that two records of the engine stand for have the terms of the records. -/
theorem Engine.OrderRecord.Placed.terms {τ : Type} {w : World τ} {r : OrderRecord}
    (keeps : KeepsTerms w) (placed : r.Placed w.log) :
    (w.market.orders r.orderId).side = r.side ∧ (w.market.orders r.orderId).priceRay = r.priceRay := by
  obtain ⟨e, member, same⟩ := placed
  obtain ⟨_, stored⟩ := keeps e member r.orderId _ same
  simp only [Order.terms, Prod.mk.injEq] at stored
  exact ⟨stored.2.2.1, stored.2.2.2⟩

theorem mulDivRay_le (qty priceRay : ℕ) : mulDivRay qty priceRay ≤ qty * priceRay / one :=
  Nat.div_le_div_right (Nat.mod_le _ _)

theorem mulDivRay_of_fits {qty priceRay : ℕ} (fits : qty * priceRay < 2 ^ 256) :
    mulDivRay qty priceRay = qty * priceRay / one := by
  unfold mulDivRay
  rw [Nat.mod_eq_of_lt fits]
  rfl

/-- A fill stays within the limits of two orders that accept each other. -/
theorem Engine.Fill.Between.within {f : Fill} {maker taker : OrderRecord} {makerOrder takerOrder : Order}
    (between : f.Between maker taker)
    (makerTerms : makerOrder.side = maker.side ∧ makerOrder.priceRay = maker.priceRay)
    (takerTerms : takerOrder.side = taker.side ∧ takerOrder.priceRay = taker.priceRay) :
    f.aitNotional ≤ limitCeil (orderOn .buy makerOrder takerOrder) f.vstkAmount ∧
    (f.vstkAmount * makerOrder.priceRay < 2 ^ 256 →
      limitFloor (orderOn .sell makerOrder takerOrder) f.vstkAmount ≤ f.aitNotional) := by
  obtain ⟨makerSide, makerPrice⟩ := makerTerms
  obtain ⟨takerSide, takerPrice⟩ := takerTerms
  have notional : f.aitNotional = mulDivRay f.vstkAmount maker.priceRay := by
    rw [between.trades]
    rfl
  have ceil : ∀ o : Order, maker.priceRay ≤ o.priceRay →
      f.vstkAmount * maker.priceRay / one ≤ limitCeil o f.vstkAmount := by
    intro o higher
    refine Nat.div_le_div_right ?_
    have product := Nat.mul_le_mul_right f.vstkAmount higher
    rw [Nat.mul_comm f.vstkAmount]
    omega
  have floor : ∀ o : Order, o.priceRay ≤ maker.priceRay →
      limitFloor o f.vstkAmount ≤ f.vstkAmount * maker.priceRay / one := by
    intro o lower
    refine Nat.div_le_div_right ?_
    rw [Nat.mul_comm f.vstkAmount]
    exact Nat.mul_le_mul_right f.vstkAmount lower
  have atMost := mulDivRay_le f.vstkAmount maker.priceRay
  have accepts := between.accepts
  unfold NaiveBook.crosses at accepts
  rw [notional, makerPrice]
  cases onSide : taker.side with
  | buy =>
    simp only [onSide, decide_eq_true_eq] at accepts
    have buyer : orderOn .buy makerOrder takerOrder = takerOrder := by
      simp [orderOn, makerSide, accepts.1]
    have seller : orderOn .sell makerOrder takerOrder = makerOrder := by
      simp [orderOn, makerSide, accepts.1]
    rw [buyer, seller]
    refine ⟨atMost.trans (ceil takerOrder (takerPrice ▸ accepts.2)), fun fits => ?_⟩
    rw [mulDivRay_of_fits fits]
    exact floor makerOrder makerPrice.le
  | sell =>
    simp only [onSide, decide_eq_true_eq] at accepts
    have buyer : orderOn .buy makerOrder takerOrder = makerOrder := by
      simp [orderOn, makerSide, accepts.1]
    have seller : orderOn .sell makerOrder takerOrder = takerOrder := by
      simp [orderOn, makerSide, accepts.1]
    rw [buyer, seller]
    refine ⟨atMost.trans (ceil makerOrder makerPrice.ge), fun fits => ?_⟩
    rw [mulDivRay_of_fits fits]
    exact floor takerOrder (takerPrice ▸ accepts.2)

variable {τ : Type} [AitToken τ] {d : Deployment} {start w next : World τ}

/-- Where the settler passes on a fill that the engine has made of the orders of the market, the
buyer pays the notional of the fill, which is within both limits. The product of the engine is taken not
to wrap for the seller. -/
theorem engine_trades_within_limits {history : List (MarketAction τ)} {calls : List MatchEngine.Call}
    {verdicts : List MatchEngine.Verdict} {engine : MatchEngine} {fills : List Fill} {f : Fill}
    {msg : Msg} {cid taker maker vstk ait fee : ℕ} {buyer seller : Address}
    {settlementId id : Bytes32} {emitted : List Event} (noLog : start.log = [])
    (reached : w = TransitionRun.exec (MarketAction.exec d) start history)
    (fed : ∀ call ∈ calls, ∀ record ∈ call.submitted, record.Placed w.log)
    (ran : MatchEngine.new.run calls = .ok (verdicts, engine)) (returned : .ok fills ∈ verdicts)
    (member : f ∈ fills)
    (settles : settleTrade d msg f.makerOrderId f.takerOrderId f.vstkAmount f.aitNotional settlementId
      w = .ok next)
    (logs : next.log = w.log ++ emitted)
    (emits : .tradeSettled cid taker maker buyer seller vstk ait fee id ∈ emitted) :
    let buyOrder := orderOn .buy (w.market.orders f.makerOrderId) (w.market.orders f.takerOrderId)
    let sellOrder := orderOn .sell (w.market.orders f.makerOrderId) (w.market.orders f.takerOrderId)
    (buyer = buyOrder.maker ∧ seller = sellOrder.maker) ∧
    (vstk = f.vstkAmount ∧ ait = f.aitNotional ∧
      next.market.aitBalance buyer + ait = w.market.aitBalance buyer ∧ ait ≤ limitCeil buyOrder vstk) ∧
    (f.vstkAmount * (w.market.orders f.makerOrderId).priceRay < 2 ^ 256 →
      limitFloor sellOrder vstk ≤ ait) := by
  have keeps : KeepsTerms w := reached ▸ KeepsTerms.run noLog history
  obtain ⟨_, _, runs, _, trades⟩ := Stocked.new.run (placed_lasting w.log) fed
  cases ran.symm.trans runs
  obtain ⟨makerRecord, takerRecord, makerPlaced, takerPlaced, between⟩ := trades fills returned f member
  have makerId : f.makerOrderId = makerRecord.orderId := congrArg Fill.makerOrderId between.trades
  have takerId : f.takerOrderId = takerRecord.orderId := congrArg Fill.takerOrderId between.trades
  have within := between.within (makerPlaced.terms keeps) (takerPlaced.terms keeps)
  rw [← makerId, ← takerId] at within
  obtain ⟨rfl, rfl, settled⟩ := settled_of_emitted settles logs emits
  have funded := settled.funded
  obtain ⟨_, _, _, _, effect⟩ := settled.effect
  refine ⟨⟨settled.buyerIs.trans (party_eq ..), settled.sellerIs.trans (party_eq ..)⟩,
    ⟨rfl, rfl, ?_, within.1⟩, within.2⟩
  rw [effect]
  simp only [Function.update_self]
  omega

namespace Devnet

/-- Alice asks for five tokens a share, and bob bids the given price. -/
def limits (bid : ℕ) : List (MarketAction ERC20) :=
  [.own { sender := alice } (.placeOrder 1 .sell (5 * one) 100 0),
    .own { sender := bob } (.placeOrder 1 .buy bid 100 0)]

/-- The market with both orders. -/
def quoted (bid : ℕ) : World ERC20 :=
  TransitionRun.exec (MarketAction.exec Deployment.devnet) listed (founding ++ limits bid)

/-- The calls that the two orders become in the engine. -/
def fedAt (bid : ℕ) : List MatchEngine.Call :=
  [.limitOrderPlacement ⟨1, 1, alice, .sell, 5 * one, 100, 0⟩,
    .limitOrderPlacement ⟨2, 1, bob, .buy, bid, 100, 0⟩]

/-- What the engine makes of the two orders when bob bids seven. -/
def sevenForFive : Fill := ⟨1, 1, 2, bob, alice, 100, 500⟩

/-- The market after a trade of the two orders. -/
def tradedAt (bid vstkAmount aitNotional : ℕ) : World ERC20 :=
  TransitionRun.after (MarketAction.exec Deployment.devnet) (quoted bid)
    (settle vstkAmount aitNotional 0)

end Devnet

open Devnet in
theorem engine_trades_within_limits_of_seven_for_five :
    (bob = (orderOn .buy ((quoted (7 * one)).market.orders 1)
        ((quoted (7 * one)).market.orders 2)).maker ∧
      alice = (orderOn .sell ((quoted (7 * one)).market.orders 1)
        ((quoted (7 * one)).market.orders 2)).maker) ∧
    (100 = sevenForFive.vstkAmount ∧ 500 = sevenForFive.aitNotional ∧
      (tradedAt (7 * one) 100 500).market.aitBalance bob + 500 =
        (quoted (7 * one)).market.aitBalance bob ∧
      500 ≤ limitCeil (orderOn .buy ((quoted (7 * one)).market.orders 1)
        ((quoted (7 * one)).market.orders 2)) 100) ∧
    (sevenForFive.vstkAmount * ((quoted (7 * one)).market.orders 1).priceRay < 2 ^ 256 →
      limitFloor (orderOn .sell ((quoted (7 * one)).market.orders 1)
        ((quoted (7 * one)).market.orders 2)) 100 ≤ 500) :=
  @engine_trades_within_limits ERC20 _ Deployment.devnet listed (quoted (7 * one))
    (tradedAt (7 * one) 100 500) _ (fedAt (7 * one)) [.ok [], .ok [sevenForFive]] _ [sevenForFive] sevenForFive
    { sender := admin } 1 2 1 100 500 0 bob alice 0 0 _ rfl rfl (by decide) rfl
    (by decide) (by decide) rfl rfl (by decide)

open Devnet in
/-- Alice asks for five a share and bob bids two, but the market settles ten shares for thirty. -/
theorem limits_not_checked_by_market :
    ¬ ∀ (d : Deployment) (admin : Address) (start w next : World ERC20)
      (history : List (MarketAction ERC20)) (msg : Msg)
      (makerOrderId takerOrderId vstkAmount aitNotional cid fee : ℕ) (buyer seller : Address)
      (settlementId : Bytes32) (emitted : List Event),
      start.market = InternalMarket.constructed admin → start.log = [] →
      w = TransitionRun.exec (MarketAction.exec d) start history →
      settleTrade d msg makerOrderId takerOrderId vstkAmount aitNotional settlementId w = .ok next →
      next.log = w.log ++ emitted →
      .tradeSettled cid takerOrderId makerOrderId buyer seller vstkAmount aitNotional fee
        settlementId ∈ emitted →
      w.market.aitBalance buyer ≤ next.market.aitBalance buyer + limitCeil
          (orderOn .buy (w.market.orders makerOrderId) (w.market.orders takerOrderId)) vstkAmount ∧
        limitFloor (orderOn .sell (w.market.orders makerOrderId) (w.market.orders takerOrderId))
          vstkAmount ≤ aitNotional := by
  intro always
  have within := always Deployment.devnet admin listed (quoted (2 * one)) (tradedAt (2 * one) 10 30)
    (founding ++ limits (2 * one)) { sender := admin } 1 2 10 30 1 0 bob alice 0 _ rfl rfl rfl rfl rfl
    (by decide)
  revert within
  decide

end Aide
