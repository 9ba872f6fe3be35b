import Aide.Contracts.Standing
import Aide.Engine.Offers
import Aide.PriceTime

namespace Aide

open Engine InternalMarket

variable {τ : Type} {d : Deployment} {w next : World τ} {msg : Msg} {f : Fill}
  {settlementId : Bytes32}

/-- A fill trades two active orders of the market, and more remains of both. -/
structure Engine.Fill.Fits (f : Fill) (w : World τ) : Prop where
  makerActive : (w.market.orders f.makerOrderId).active = true
  takerActive : (w.market.orders f.takerOrderId).active = true
  makerCompany : (w.market.orders f.makerOrderId).companyId = f.companyId
  takerCompany : (w.market.orders f.takerOrderId).companyId = f.companyId
  opposite : (w.market.orders f.makerOrderId).side ≠ (w.market.orders f.takerOrderId).side
  tradable : AIBank.isTradable w f.companyId = true
  positive : f.vstkAmount ≠ 0
  makerFits : f.vstkAmount ≤ (w.market.orders f.makerOrderId).remaining
  takerFits : f.vstkAmount ≤ (w.market.orders f.takerOrderId).remaining
  buyerIs : party .buy (w.market.orders f.makerOrderId) (w.market.orders f.takerOrderId) = f.buyer
  sellerIs : party .sell (w.market.orders f.makerOrderId) (w.market.orders f.takerOrderId) = f.seller

namespace InternalMarket

theorem settleable_of_fits (fits : f.Fits w) :
    Settleable w f.makerOrderId f.takerOrderId f.vstkAmount f.aitNotional ↔ f.aitNotional ≠ 0 where
  mp checks := checks.aitPositive
  mpr positive := {
    makerActive := fits.makerActive
    takerActive := fits.takerActive
    sameCompany := fits.makerCompany.trans fits.takerCompany.symm
    opposite := fits.opposite
    tradable := by rw [fits.makerCompany]; exact fits.tradable
    vstkPositive := fits.positive
    aitPositive := positive
    makerFits := fits.makerFits
    takerFits := fits.takerFits }

variable [AitToken τ]

/-- The token calls of a settlement: the fee to the treasury and the rest to the seller. -/
def payNotional (d : Deployment) (w : World τ) (token : τ) (f : Fill) : Except Revert τ := do
  let fee := f.aitNotional * w.treasury.taxRateBps / 10000
  let taxed ← Treasury.pullFee d w d.internalMarket fee token
  AitToken.transfer taxed (w.taxRates d) d.internalMarket f.seller (f.aitNotional - fee)

/-- The world after the settlement of a fill that leaves the token at `token`. -/
def afterTrade (d : Deployment) (f : Fill) (settlementId : Bytes32) (token : τ) (w : World τ) :
    World τ :=
  let fee := f.aitNotional * w.treasury.taxRateBps / 10000
  { w with
    token
    market := { w.market with
      orders := Function.update (Function.update w.market.orders f.makerOrderId
        ((w.market.orders f.makerOrderId).fill f.vstkAmount)) f.takerOrderId
        ((w.market.orders f.takerOrderId).fill f.vstkAmount)
      aitBalance := Ledger.spend Fill.buyer Fill.aitNotional w.market.aitBalance f
      vstkBalance := Function.update w.market.vstkBalance f.companyId
        (Ledger.pay Fill.seller Fill.buyer Fill.vstkAmount (w.market.vstkBalance f.companyId) f) }
    log := w.log ++ Treasury.taxLog d.internalMarket d.internalMarket f.aitNotional fee ++
      [.tradeSettled f.companyId f.takerOrderId f.makerOrderId f.buyer f.seller f.vstkAmount
        f.aitNotional fee settlementId] }

/-- What the settlement of a fitting fill needs: the buyer's deposit, the seller's shares and the
tokens of the market. -/
theorem settle_eq_ok (fits : f.Fits w) (rate : w.treasury.taxRateBps ≤ 10000)
    (product : f.aitNotional * w.treasury.taxRateBps ≤ uint256Max)
    (backed : Ledger.Backed (w.market.vstkBalance f.companyId) uint256Max) :
    settle d f.makerOrderId f.takerOrderId f.vstkAmount f.aitNotional settlementId w = .ok next ↔
      f.aitNotional ≤ w.market.aitBalance f.buyer ∧
      f.vstkAmount ≤ w.market.vstkBalance f.companyId f.seller ∧
      ∃ token, payNotional d w w.token f = .ok token ∧
        next = afterTrade d f settlementId token w := by
  have feeLe : f.aitNotional * w.treasury.taxRateBps / 10000 ≤ f.aitNotional := by
    have scaled := Nat.mul_le_mul_left f.aitNotional rate
    omega
  simp only [settle, fits.makerCompany, fits.buyerIs, fits.sellerIs, bind_eq_ok, pure_eq_ok,
    require_eq_ok, exists_const, checkedSub_eq_ok, checkedAdd_eq_ok, World.safeTransfer_eq_ok]
  constructor
  · rintro ⟨funded, ⟨fee, taxed⟩, collect, _, ⟨_, rfl⟩, _, ⟨holds, rfl⟩, _, ⟨_, rfl⟩, _,
      ⟨token, pay, rfl⟩, effect⟩
    obtain ⟨feeIs, pulled, pull, rfl⟩ := (Treasury.collectTax_eq_ok (by exact product)).mp collect
    subst feeIs
    exact ⟨funded, holds, token, bind_eq_ok.mpr ⟨pulled, pull, pay⟩, effect.symm⟩
  · rintro ⟨funded, holds, token, paid, effect⟩
    obtain ⟨pulled, pull, pay⟩ := bind_eq_ok.mp paid
    have room := (backed.pay Fill.seller Fill.buyer Fill.vstkAmount f holds).entry_le f.buyer
    simp only [Ledger.pay, Ledger.spend, Function.update_self] at room
    exact ⟨funded, _, (Treasury.collectTax_eq_ok (by exact product)).mpr ⟨rfl, pulled, pull, rfl⟩, _,
      ⟨feeLe, rfl⟩, _, ⟨holds, rfl⟩, _, ⟨room, rfl⟩, _, ⟨token, pay, rfl⟩, effect.symm⟩

/-- What `settleTrade` needs where the breaker lets the trade pass. -/
theorem settleTrade_eq_ok (settler : w.market.roles .settler msg.sender = true) (fits : f.Fits w)
    (rate : w.treasury.taxRateBps ≤ 10000)
    (product : f.aitNotional * w.treasury.taxRateBps ≤ uint256Max)
    (backed : Ledger.Backed (w.market.vstkBalance f.companyId) uint256Max)
    (allowed : settleFeeAllowed d (f.aitNotional * w.treasury.taxRateBps / 10000) f.aitNotional w =
      .ok (true, w)) :
    settleTrade d msg f.makerOrderId f.takerOrderId f.vstkAmount f.aitNotional settlementId w =
        .ok next ↔
      f.aitNotional ≠ 0 ∧ f.aitNotional ≤ w.market.aitBalance f.buyer ∧
      f.vstkAmount ≤ w.market.vstkBalance f.companyId f.seller ∧
      ∃ token, payNotional d w w.token f = .ok token ∧
        next = afterTrade d f settlementId token w := by
  rw [← settle_eq_ok fits rate product backed, ← settleable_of_fits fits]
  simp only [settleTrade, bind_eq_ok, Roles.only_eq_ok, exists_const, settleable_eq_ok,
    checkedMul_eq_ok, settler, true_and]
  constructor
  · rintro ⟨checks, _, ⟨_, rfl⟩, _, guard, run⟩
    cases allowed.symm.trans guard
    exact ⟨checks, run⟩
  · rintro ⟨checks, run⟩
    exact ⟨checks, _, ⟨product, rfl⟩, _, allowed, run⟩

/-- Each fill is sent in a `settleTrade` of its own, in the given order. -/
def settleAll (d : Deployment) (tx : Fill → Msg × Bytes32) :
    List Fill → World τ → Except Revert (World τ)
  | [], w => .ok w
  | f :: fills, w => do
    let w ← settleTrade d (tx f).1 f.makerOrderId f.takerOrderId f.vstkAmount f.aitNotional (tx f).2 w
    settleAll d tx fills w

end InternalMarket

theorem mulDivRay_taxed {rate : ℕ} (qty priceRay : ℕ) (low : rate ≤ 10000) :
    mulDivRay qty priceRay * rate ≤ uint256Max := by
  have bound : mulDivRay qty priceRay ≤ (2 ^ 256 - 1) / 10 ^ 18 :=
    Nat.div_le_div_right (Nat.le_sub_one_of_lt (Nat.mod_lt _ (Nat.two_pow_pos 256)))
  exact (Nat.mul_le_mul bound low).trans (by decide)

open NaiveBook

variable {incoming mo : OrderRecord} {amount : ℕ} {rest offered : List OrderRecord}

/-- The market stores an incoming order of which `amount` is left, and offers of the other side of
the same company. -/
structure Stands (w : World τ) (incoming : OrderRecord) (amount : ℕ) (offered : List OrderRecord) :
    Prop where
  takerActive : amount ≠ 0 → (w.market.orders incoming.orderId).active = true
  takerTerms : (w.market.orders incoming.orderId).terms =
    (incoming.companyId, incoming.maker, incoming.side, incoming.priceRay)
  takerLeft : (w.market.orders incoming.orderId).remaining = amount
  makers : ∀ mo ∈ offered, (w.market.orders mo.orderId).active = true ∧
    (w.market.orders mo.orderId).terms = (incoming.companyId, mo.maker, mo.side, mo.priceRay) ∧
    (w.market.orders mo.orderId).remaining = mo.remaining ∧ mo.remaining ≠ 0 ∧
    mo.side ≠ incoming.side ∧ mo.orderId ≠ incoming.orderId
  nodup : (offered.map OrderRecord.orderId).Nodup
  tradable : AIBank.isTradable w incoming.companyId = true
  backed : Ledger.Backed (w.market.vstkBalance incoming.companyId) uint256Max

namespace Stands

theorem fits (stands : Stands w incoming amount (mo :: rest)) (unfilled : amount ≠ 0) :
    (firstTrade incoming mo amount).Fits w := by
  obtain ⟨active, terms, left, unspent, opposite, _⟩ := stands.makers mo (List.mem_cons_self ..)
  have takerTerms := stands.takerTerms
  simp only [Order.terms, Prod.mk.injEq] at terms takerTerms
  obtain ⟨company, maker, side, _⟩ := terms
  obtain ⟨takerCompany, taker, takerSide, _⟩ := takerTerms
  constructor
  · exact active
  · exact stands.takerActive unfilled
  · exact company
  · exact takerCompany
  · simpa only [firstTrade, Matching.fill, side, takerSide] using opposite
  · exact stands.tradable
  · simp only [firstTrade, Matching.fill]
    omega
  · simp only [firstTrade, Matching.fill, left]
    exact Nat.min_le_right ..
  · simp only [firstTrade, Matching.fill, stands.takerLeft]
    exact Nat.min_le_left ..
  · simp only [firstTrade, Matching.fill, party, side, maker, taker]
    cases onSide : incoming.side <;> cases makerSide : mo.side <;> simp_all
  · simp only [firstTrade, Matching.fill, party, side, maker, taker]
    cases onSide : incoming.side <;> cases makerSide : mo.side <;> simp_all

/-- The trade with the first offer leaves the others as they were. -/
theorem after (stands : Stands w incoming amount (mo :: rest))
    (holds : (firstTrade incoming mo amount).vstkAmount ≤
      w.market.vstkBalance incoming.companyId (firstTrade incoming mo amount).seller) (token : τ) :
    Stands (afterTrade d (firstTrade incoming mo amount) settlementId token w) incoming
      (amount - min amount mo.remaining) rest := by
  obtain ⟨fresh, nodup⟩ := List.nodup_cons.mp stands.nodup
  constructor
  · intro left
    have active := stands.takerActive (by omega)
    simp [afterTrade, firstTrade, Matching.fill, Order.fill, active, stands.takerLeft, left]
  · simpa [afterTrade, firstTrade, Matching.fill, Order.fill, Order.terms] using stands.takerTerms
  · simp [afterTrade, firstTrade, Matching.fill, Order.fill, stands.takerLeft]
  · intro o member
    have stood := stands.makers o (List.mem_cons_of_mem _ member)
    have apart : o.orderId ≠ mo.orderId := fun same => fresh (same ▸ List.mem_map_of_mem member)
    have same : (afterTrade d (firstTrade incoming mo amount) settlementId token w).market.orders
        o.orderId = w.market.orders o.orderId := by
      simp [afterTrade, firstTrade, Matching.fill, apart, stood.2.2.2.2.2]
    rw [same]
    exact stood
  · exact nodup
  · exact stands.tradable
  · have paid := stands.backed.pay Fill.seller Fill.buyer Fill.vstkAmount
      (firstTrade incoming mo amount) holds
    simpa [afterTrade, firstTrade, Matching.fill] using paid

end Stands

variable [AitToken τ]

/-- Every fill comes to some AIT, and the deposits, the shares and the tokens of the market cover
the fills in turn. -/
def Affordable (d : Deployment) (w : World τ) (aitBalance vstkBalance : Address → ℕ) (token : τ)
    (fills : List Fill) : Prop :=
  (∀ f ∈ fills, f.aitNotional ≠ 0) ∧
  Ledger.Spendable Fill.buyer Fill.aitNotional aitBalance fills ∧
  Ledger.Payable Fill.seller Fill.buyer Fill.vstkAmount vstkBalance fills ∧
  ∃ final, fills.foldlM (payNotional d w) token = .ok final

variable {aitBalance vstkBalance : Address → ℕ} {token : τ} {fills : List Fill}

theorem affordable_nil : Affordable d w aitBalance vstkBalance token [] :=
  ⟨by simp, trivial, trivial, token, rfl⟩

theorem affordable_cons :
    Affordable d w aitBalance vstkBalance token (f :: fills) ↔
      f.aitNotional ≠ 0 ∧ f.aitNotional ≤ aitBalance f.buyer ∧
      f.vstkAmount ≤ vstkBalance f.seller ∧
      ∃ paid, payNotional d w token f = .ok paid ∧
        Affordable d w (Ledger.spend Fill.buyer Fill.aitNotional aitBalance f)
          (Ledger.pay Fill.seller Fill.buyer Fill.vstkAmount vstkBalance f) paid fills := by
  simp only [Affordable, Ledger.Spendable, Ledger.Payable, List.foldlM_cons, bind_eq_ok,
    List.forall_mem_cons]
  constructor
  · rintro ⟨⟨priced, later⟩, ⟨funded, spendable⟩, ⟨holds, payable⟩, final, paid, first, others⟩
    exact ⟨priced, funded, holds, paid, first, later, spendable, payable, final, others⟩
  · rintro ⟨priced, funded, holds, paid, first, later, spendable, payable, final, others⟩
    exact ⟨⟨priced, later⟩, ⟨funded, spendable⟩, ⟨holds, payable⟩, final, paid, first, others⟩

/-- The trades of an order that the market stores can all be settled when they are affordable. -/
theorem settleAll_iff {tx : Fill → Msg × Bytes32} (stands : Stands w incoming amount offered)
    (rate : w.treasury.taxRateBps ≤ 10000)
    (settlers : ∀ f ∈ trades incoming amount offered,
      w.market.roles .settler (tx f).1.sender = true)
    (untripped : ∀ f ∈ trades incoming amount offered, settleFeeAllowed d
      (f.aitNotional * w.treasury.taxRateBps / 10000) f.aitNotional w = .ok (true, w)) :
    (∃ done, settleAll d tx (trades incoming amount offered) w = .ok done) ↔
      Affordable d w w.market.aitBalance (w.market.vstkBalance incoming.companyId) w.token
        (trades incoming amount offered) := by
  induction offered generalizing amount w with
  | nil => exact iff_of_true ⟨w, rfl⟩ affordable_nil
  | cons mo rest ih =>
    by_cases filled : amount = 0
    · subst filled
      rw [trades_zero]
      exact iff_of_true ⟨w, rfl⟩ affordable_nil
    · rw [trades_cons filled] at settlers untripped ⊢
      obtain ⟨settler, settlers⟩ := List.forall_mem_cons.mp settlers
      obtain ⟨allowed, untripped⟩ := List.forall_mem_cons.mp untripped
      let f := firstTrade incoming mo amount
      have first : ∀ next, settleTrade d (tx f).1 f.makerOrderId f.takerOrderId f.vstkAmount
          f.aitNotional (tx f).2 w = .ok next ↔ _ := fun next =>
        settleTrade_eq_ok settler (stands.fits filled) rate (mulDivRay_taxed _ _ rate) stands.backed
          allowed
      have later : ∀ token, f.vstkAmount ≤ w.market.vstkBalance incoming.companyId f.seller →
          ((∃ done, settleAll d tx (trades incoming (amount - min amount mo.remaining) rest)
              (afterTrade d f (tx f).2 token w) = .ok done) ↔
            Affordable d w (Ledger.spend Fill.buyer Fill.aitNotional w.market.aitBalance f)
              (Ledger.pay Fill.seller Fill.buyer Fill.vstkAmount
                (w.market.vstkBalance incoming.companyId) f) token
              (trades incoming (amount - min amount mo.remaining) rest)) := by
        intro token holds
        have balance : (afterTrade d f (tx f).2 token w).market.vstkBalance incoming.companyId =
            Ledger.pay Fill.seller Fill.buyer Fill.vstkAmount
              (w.market.vstkBalance incoming.companyId) f := Function.update_self ..
        rw [← balance]
        exact ih (stands.after holds token) rate settlers fun g member =>
          settleFeeAllowed_congr (w := w) rfl (untripped g member)
      rw [affordable_cons]
      simp only [settleAll, bind_eq_ok]
      constructor
      · rintro ⟨done, mid, settled, others⟩
        obtain ⟨priced, funded, holds, paid, pays, same⟩ := (first mid).mp settled
        subst same
        exact ⟨priced, funded, holds, paid, pays, (later paid holds).mp ⟨done, others⟩⟩
      · rintro ⟨priced, funded, holds, paid, pays, others⟩
        obtain ⟨done, settled⟩ := (later paid holds).mpr others
        exact ⟨done, _, (first _).mpr ⟨priced, funded, holds, paid, pays, rfl⟩, settled⟩

/-- The quantities of the trades stay within the amount of the incoming order. -/
theorem trades_sum_le (incoming : OrderRecord) (amount : ℕ) (offered : List OrderRecord) :
    ((trades incoming amount offered).map Fill.vstkAmount).sum ≤ amount := by
  induction offered generalizing amount with
  | nil => exact Nat.zero_le _
  | cons mo rest ih =>
    by_cases filled : amount = 0
    · rw [filled, trades_zero]
      exact le_rfl
    · rw [trades_cons filled, List.map_cons, List.sum_cons]
      have others := ih (amount - min amount mo.remaining)
      simp only [firstTrade, Matching.fill]
      omega

theorem seller_of_sale {offered : List OrderRecord} (onSide : incoming.side = .sell)
    (member : f ∈ trades incoming amount offered) : f.seller = incoming.maker := by
  obtain ⟨taking, _, rfl⟩ := List.mem_map.mp member
  simp [Matching.fill, onSide]

/-- The shares of an incoming sale are there when its maker holds its amount. -/
theorem payable_of_sale (onSide : incoming.side = .sell)
    (covered : amount ≤ vstkBalance incoming.maker) (offered : List OrderRecord) :
    Ledger.Payable Fill.seller Fill.buyer Fill.vstkAmount vstkBalance
      (trades incoming amount offered) := by
  refine Ledger.payable_iff.mpr fun before f after same => ?_
  have member : f ∈ trades incoming amount offered := by simp [same]
  have bound := trades_sum_le incoming amount offered
  rw [same, List.map_append, List.map_cons, List.sum_append, List.sum_cons] at bound
  have sold := Ledger.total_le Fill.seller Fill.vstkAmount f.seller before
  rw [seller_of_sale onSide member] at sold ⊢
  omega

/-- The book of a company represents resting orders that are exactly the active orders of the market,
each with what remains of it. -/
structure HoldsExactly (book : OrderBook) (w : World τ) (companyId : ℕ)
    (resting : List OrderRecord) : Prop where
  represents : Represents book resting
  sound : ∀ r ∈ resting, (w.market.orders r.orderId).active = true ∧
    (w.market.orders r.orderId).terms = (companyId, r.maker, r.side, r.priceRay) ∧
    (w.market.orders r.orderId).remaining = r.remaining
  complete : ∀ id, (w.market.orders id).active = true → (w.market.orders id).companyId = companyId →
    ∃ r ∈ resting, r.orderId = id

/-- What the accounts need before an order is placed so that all its trades settle: each trade comes
to some AIT, each buyer has deposited what it comes to pay, each seller to a bid holds what it comes
to sell, counting what it buys before, and the market can pass the AIT on. -/
structure Covered (d : Deployment) (w : World τ) (incoming : OrderRecord)
    (resting : List OrderRecord) : Prop where
  priced : ∀ f ∈ trades incoming incoming.remaining (offers incoming resting), f.aitNotional ≠ 0
  buyers : ∀ account, Ledger.total Fill.buyer Fill.aitNotional account
    (trades incoming incoming.remaining (offers incoming resting)) ≤ w.market.aitBalance account
  sellers : incoming.side = .buy → ∀ before f after,
    trades incoming incoming.remaining (offers incoming resting) = before ++ f :: after →
    Ledger.total Fill.seller Fill.vstkAmount f.seller before + f.vstkAmount ≤
      w.market.vstkBalance incoming.companyId f.seller +
        Ledger.total Fill.buyer Fill.vstkAmount f.seller before
  paid : ∃ token, (trades incoming incoming.remaining (offers incoming resting)).foldlM
    (payNotional d w) w.token = .ok token

theorem affordable_iff_covered {resting : List OrderRecord}
    (sale : incoming.side = .sell →
      incoming.remaining ≤ w.market.vstkBalance incoming.companyId incoming.maker) :
    Affordable d w w.market.aitBalance (w.market.vstkBalance incoming.companyId) w.token
      (trades incoming incoming.remaining (offers incoming resting)) ↔
        Covered d w incoming resting := by
  constructor
  · rintro ⟨priced, spendable, payable, paid⟩
    exact ⟨priced, Ledger.spendable_iff.mp spendable, fun _ => Ledger.payable_iff.mp payable, paid⟩
  · intro covered
    refine ⟨covered.priced, Ledger.spendable_iff.mpr covered.buyers, ?_, covered.paid⟩
    cases onSide : incoming.side with
    | buy => exact Ledger.payable_iff.mpr (covered.sellers onSide)
    | sell => exact payable_of_sale onSide (sale onSide) _

/-- The record that the runner makes of the log of a placement. -/
def placedRecord (w : World τ) (msg : Msg) (companyId : ℕ) (side : Side) (priceRay amount : ℕ) :
    OrderRecord where
  orderId := w.market.nextOrderId
  companyId
  maker := msg.sender
  side
  priceRay
  remaining := amount
  timestamp := msg.timestamp

omit [AitToken τ] in
/-- A new order stands in the market before the offers of a book that holds its active orders. -/
theorem stands_of_placed {placed : World τ} {resting : List OrderRecord} {book : OrderBook}
    {companyId priceRay engineHint : ℕ} {side : Side} (once : LogsOnce w) (opens : OpenOrders w)
    (fit : SharesFit w) (holds : HoldsExactly book w companyId resting)
    (place : placeOrder msg companyId side priceRay amount engineHint w = .ok placed) :
    Stands placed (placedRecord w msg companyId side priceRay amount) amount
      (offers (placedRecord w msg companyId side priceRay amount) resting) := by
  obtain ⟨tradable, _⟩ := placeOrder_checks place
  obtain ⟨_, _, rfl⟩ := placeOrder_effect place
  constructor
  · intro _
    simp [placedRecord]
  · simp [placedRecord, Order.terms]
  · simp [placedRecord]
  · intro mo member
    obtain ⟨rests, crossing⟩ := mem_offers.mp member
    obtain ⟨active, terms, left⟩ := holds.sound mo rests
    have known := once.placed mo.orderId active
    refine ⟨?_, ?_, ?_, left ▸ opens mo.orderId active, crosses_side crossing, known.ne⟩
    · simpa [Function.update_of_ne known.ne] using active
    · simpa [placedRecord, Function.update_of_ne known.ne] using terms
    · simpa [Function.update_of_ne known.ne] using left
  · exact offers_nodup holds.represents.orders.nodup
  · exact tradable
  · exact fit.balances companyId

/-- The fills of a new order all settle exactly when the accounts cover them, which nobody looks at
before they are sent. -/
theorem fills_settle_iff_covered {admin : Address} {start placed : World τ}
    {history : List (MarketAction τ)} {engine after : MatchEngine} {resting : List OrderRecord}
    {companyId priceRay engineHint : ℕ} {side : Side} {tx : Fill → Msg × Bytes32}
    (fresh : start.market = InternalMarket.constructed admin) (noLog : start.log = [])
    (reached : w = TransitionRun.exec (MarketAction.exec d) start history)
    (rate : w.treasury.taxRateBps ≤ 10000)
    (holds : HoldsExactly (engine.books companyId) w companyId resting)
    (place : placeOrder msg companyId side priceRay amount engineHint w = .ok placed)
    (returned : engine.limitOrderPlacement (placedRecord w msg companyId side priceRay amount) =
      .ok (.ok fills, after))
    (settlers : ∀ f ∈ fills, placed.market.roles .settler (tx f).1.sender = true)
    (untripped : ∀ f ∈ fills, settleFeeAllowed d (f.aitNotional * placed.treasury.taxRateBps / 10000)
      f.aitNotional placed = .ok (true, placed)) :
    (∃ done, settleAll d tx fills placed = .ok done) ↔
      Covered d w (placedRecord w msg companyId side priceRay amount) resting := by
  have once : LogsOnce w := reached ▸ LogsOnce.run fresh noLog history
  have opens : OpenOrders w := reached ▸ OpenOrders.run fresh history
  have fit : SharesFit w := reached ▸ SharesFit.run fresh history
  have stands := stands_of_placed once opens fit holds place
  have sale := (placeOrder_checks place).2
  cases holds.represents.fills_eq_trades returned
  obtain ⟨_, _, rfl⟩ := placeOrder_effect place
  rw [← affordable_iff_covered sale]
  exact settleAll_iff stands rate settlers untripped

namespace Devnet

/-- Alice asks for one token a share, after bob has paid in a deposit. -/
def askedAfter (deposit : ℕ) : List (MarketAction ERC20) :=
  [.own { sender := admin } (.registerCompany alice),
    .own { sender := admin } (.issueShares 1 alice 100),
    .own { sender := bob } (.depositAit deposit),
    .own { sender := alice } (.placeOrder 1 .sell InternalMarket.one 100 0)]

def asked (deposit : ℕ) : World ERC20 :=
  TransitionRun.exec (MarketAction.exec Deployment.devnet) listed (askedAfter deposit)

/-- Bob bids for all of alice's shares. -/
def wanted (deposit : ℕ) : World ERC20 :=
  TransitionRun.after (MarketAction.exec Deployment.devnet) (asked deposit)
    (.own { sender := bob } (.placeOrder 1 .buy InternalMarket.one 100 0))

def ask : OrderRecord := ⟨1, 1, alice, .sell, InternalMarket.one, 100, 0⟩

/-- The engine with alice's ask in its book. -/
def askEngine : MatchEngine := (MatchEngine.new.ingestChainOrder ask).2

theorem askEngine_represents : Represents (askEngine.books 1) [ask] := by
  have fresh : ∀ r ∈ NaiveEngine.new.books ask.companyId, r.orderId ≠ ask.orderId :=
    fun r rests => absurd rests List.not_mem_nil
  obtain ⟨next, inserted, refines⟩ := Refines.new.ingestChainOrder fresh
  have same : askEngine = next := congrArg Prod.snd (Except.ok.inj inserted)
  rw [same]
  exact refines.books 1

theorem askEngine_holds {w : World ERC20}
    (orders : w.market.orders = Function.update (fun _ => {}) 1
      { id := 1, companyId := 1, maker := alice, side := .sell, priceRay := InternalMarket.one,
        remaining := 100, active := true }) : HoldsExactly (askEngine.books 1) w 1 [ask] where
  represents := askEngine_represents
  sound r rests := by
    cases List.mem_singleton.mp rests
    simp [orders, ask, Order.terms]
  complete id active _ := by
    by_cases same : id = 1
    · exact ⟨ask, List.mem_singleton_self _, same.symm⟩
    · simp [orders, same] at active

/-- The fee of nothing does not trip the breaker. -/
theorem askEngine_untripped {w : World ERC20} (breaker : w.guardrail = listed.guardrail)
    (untaxed : w.treasury.taxRateBps = 0) : ∀ f ∈ [(⟨1, 1, 2, bob, alice, 100, 100⟩ : Fill)],
      settleFeeAllowed Deployment.devnet (f.aitNotional * w.treasury.taxRateBps / 10000) f.aitNotional
        w = .ok (true, w) := by
  intro f member
  cases List.mem_singleton.mp member
  rw [untaxed]
  exact settleFeeAllowed_congr breaker rfl

end Devnet

open Devnet in
theorem fills_settle_of_deposit : Covered Deployment.devnet (asked 5000)
    (placedRecord (asked 5000) { sender := bob } 1 .buy InternalMarket.one 100) [ask] :=
  (@fills_settle_iff_covered ERC20 Deployment.devnet (asked 5000) { sender := bob } 100 _
    [⟨1, 1, 2, bob, alice, 100, 100⟩] admin listed (wanted 5000) (askedAfter 5000) askEngine _ [ask] 1
    InternalMarket.one 0 .buy (fun _ => ({ sender := admin }, 0)) rfl rfl rfl (by decide)
    (askEngine_holds rfl) rfl rfl (by decide) (askEngine_untripped rfl rfl)).mp
    ⟨_, rfl⟩

open Devnet in
/-- Bob has paid in 50 AIT and bids 100 for alice's shares. The engine returns the fill, and the call
that settles it reverts. -/
theorem unfunded_fill_reverts :
    ¬ ∀ (d : Deployment) (admin : Address) (start w placed : World ERC20)
      (history : List (MarketAction ERC20)) (engine after : MatchEngine) (resting : List OrderRecord)
      (msg : Msg) (companyId priceRay amount engineHint : ℕ) (side : Side) (fills : List Fill)
      (tx : Fill → Msg × Bytes32),
      start.market = InternalMarket.constructed admin → start.log = [] →
      w = TransitionRun.exec (MarketAction.exec d) start history →
      w.treasury.taxRateBps ≤ 10000 →
      HoldsExactly (engine.books companyId) w companyId resting →
      placeOrder msg companyId side priceRay amount engineHint w = .ok placed →
      engine.limitOrderPlacement (placedRecord w msg companyId side priceRay amount) =
        .ok (.ok fills, after) →
      (∀ f ∈ fills, placed.market.roles .settler (tx f).1.sender = true) →
      (∀ f ∈ fills, settleFeeAllowed d (f.aitNotional * placed.treasury.taxRateBps / 10000)
        f.aitNotional placed = .ok (true, placed)) →
      ∃ done, settleAll d tx fills placed = .ok done := by
  intro always
  obtain ⟨done, settled⟩ := always Deployment.devnet admin listed (asked 50) (wanted 50)
    (askedAfter 50) askEngine _ [ask] { sender := bob } 1 InternalMarket.one 100 0 .buy
    [⟨1, 1, 2, bob, alice, 100, 100⟩] (fun _ => ({ sender := admin }, 0)) rfl rfl rfl (by decide)
    (askEngine_holds rfl) rfl rfl (by decide) (askEngine_untripped rfl rfl)
  have reverts : settleAll Deployment.devnet (fun _ => ({ sender := admin }, 0))
      [⟨1, 1, 2, bob, alice, 100, 100⟩] (wanted 50) = .error .insufficientAitBalance := rfl
  cases reverts.symm.trans settled

end Aide
