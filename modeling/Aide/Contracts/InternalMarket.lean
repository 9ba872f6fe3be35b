import Aide.Contracts.AIBank
import Aide.Contracts.Treasury

namespace Aide

/-- `remaining -= amount`, and an order with nothing left is no longer active. -/
def Order.fill (o : Order) (amount : ℕ) : Order :=
  { o with remaining := o.remaining - amount, active := o.active && (o.remaining - amount != 0) }

namespace InternalMarket

def one : ℕ := 10 ^ 18

variable {τ : Type} [AitToken τ]

def requireTradable (w : World τ) (companyId : ℕ) : Except Revert Unit :=
  require (AIBank.isTradable w companyId) .notTradable

/-- `companyId == 0 || companyId >= nextCompanyId`, negated. -/
def requireCompany (w : World τ) (companyId : ℕ) : Except Revert Unit :=
  require (companyId ≠ 0 ∧ companyId < w.market.nextCompanyId) .badOrder

/-- The breaker in front of `settleTrade` and `depositProfit`. -/
def settleFeeAllowed (d : Deployment) (fee notional : ℕ) (w : World τ) :
    Except Revert (Bool × World τ) :=
  if d.guardrail = 0 then
    pure (true, w)
  else do
    w.requireNotPaused
    Guardrail.evaluateSettleFee d.internalMarket fee notional w

def registerCompany (msg : Msg) (vault : Address) (w : World τ) : Except Revert (World τ) := do
  w.market.roles.only .companyAdmin msg.sender
  let companyId := w.market.nextCompanyId
  let nextCompanyId ← checkedAdd companyId 1
  pure ({ w with market := { w.market with
    nextCompanyId
    companyVault := Function.update w.market.companyVault companyId vault } }.emit
      (.companyRegistered companyId vault msg.sender))

def issueShares (msg : Msg) (companyId : ℕ) (recipient : Address) (amount : ℕ) (w : World τ) :
    Except Revert (World τ) := do
  w.market.roles.only .companyAdmin msg.sender
  require (recipient ≠ 0) .zeroAddress
  requireCompany w companyId
  let acc := w.market.accAitPerShare companyId
  let balance ← checkedAdd (w.market.vstkBalance companyId recipient) amount
  let total ← checkedAdd (w.market.totalVstk companyId) amount
  let product ← checkedMul amount acc
  let debt ← checkedAdd (w.market.rewardDebt companyId recipient) (product / one)
  pure ({ w with market := { w.market with
    vstkBalance := Function.update w.market.vstkBalance companyId
      (Function.update (w.market.vstkBalance companyId) recipient balance)
    totalVstk := Function.update w.market.totalVstk companyId total
    rewardDebt := Function.update w.market.rewardDebt companyId
      (Function.update (w.market.rewardDebt companyId) recipient debt) } }.emit
      (.sharesIssued companyId recipient amount total))

def depositAit (d : Deployment) (msg : Msg) (amount : ℕ) (w : World τ) :
    Except Revert (World τ) := do
  let w ← w.safeTransferFrom d d.internalMarket msg.sender d.internalMarket amount
  let balance ← checkedAdd (w.market.aitBalance msg.sender) amount
  pure ({ w with market := { w.market with
    aitBalance := Function.update w.market.aitBalance msg.sender balance } }.emit
      (.aitDeposited msg.sender amount))

def withdrawAit (d : Deployment) (msg : Msg) (amount : ℕ) (w : World τ) :
    Except Revert (World τ) := do
  let balance ← checkedSub (w.market.aitBalance msg.sender) amount
  let w : World τ := { w with market := { w.market with
    aitBalance := Function.update w.market.aitBalance msg.sender balance } }
  let w ← w.safeTransfer d d.internalMarket msg.sender amount
  pure (w.emit (.aitWithdrawn msg.sender amount))

def placeOrder (msg : Msg) (companyId : ℕ) (side : Side) (priceRay amount engineHint : ℕ)
    (w : World τ) : Except Revert (World τ) := do
  requireCompany w companyId
  requireTradable w companyId
  require (amount ≠ 0 ∧ priceRay ≠ 0) .badOrder
  require (side = .sell → amount ≤ w.market.vstkBalance companyId msg.sender) .insufficientVstk
  let orderId := w.market.nextOrderId
  let nextOrderId ← checkedAdd orderId 1
  pure ({ w with market := { w.market with
    nextOrderId
    orders := Function.update w.market.orders orderId
      { id := orderId, companyId, maker := msg.sender, side, priceRay, remaining := amount,
        active := true } } }.emit
      (.orderPlaced orderId companyId msg.sender side priceRay amount msg.timestamp engineHint))

def cancelOrder (msg : Msg) (orderId : ℕ) (w : World τ) : Except Revert (World τ) := do
  let o := w.market.orders orderId
  require (o.active = true) .badOrder
  require (o.maker = msg.sender) .badOrder
  pure ({ w with market := { w.market with
    orders := Function.update w.market.orders orderId { o with active := false } } }.emit
      (.orderCancelled orderId msg.sender))

/-- The checks of `settleTrade` that come before its breaker. -/
def settleable (makerOrder takerOrder : Order) (vstkAmount aitNotional : ℕ) (w : World τ) :
    Except Revert Unit := do
  require (makerOrder.active = true ∧ takerOrder.active = true) .badOrder
  require (makerOrder.companyId = takerOrder.companyId) .badOrder
  require (makerOrder.side ≠ takerOrder.side) .badOrder
  requireTradable w makerOrder.companyId
  require (vstkAmount ≠ 0 ∧ aitNotional ≠ 0) .badOrder
  require (vstkAmount ≤ makerOrder.remaining ∧ vstkAmount ≤ takerOrder.remaining) .badOrder

/-- The account on the given side of a trade between two orders. -/
def party (side : Side) (makerOrder takerOrder : Order) : Address :=
  if makerOrder.side = side then makerOrder.maker else takerOrder.maker

/-- The settlement proper: orders, internal balance, tax, shares, payment to the seller. -/
def settle (d : Deployment) (makerOrderId takerOrderId vstkAmount aitNotional : ℕ)
    (settlementId : Bytes32) (w : World τ) : Except Revert (World τ) := do
  let makerOrder := w.market.orders makerOrderId
  let takerOrder := w.market.orders takerOrderId
  let cid := makerOrder.companyId
  let seller := party .sell makerOrder takerOrder
  let buyer := party .buy makerOrder takerOrder
  require (aitNotional ≤ w.market.aitBalance buyer) .insufficientAitBalance
  let w : World τ := { w with market := { w.market with
    orders := Function.update (Function.update w.market.orders makerOrderId
      (makerOrder.fill vstkAmount)) takerOrderId (takerOrder.fill vstkAmount)
    aitBalance := Function.update w.market.aitBalance buyer
      (w.market.aitBalance buyer - aitNotional) } }
  let (fee, w) ← Treasury.collectTax d d.internalMarket d.internalMarket aitNotional w
  let net ← checkedSub aitNotional fee
  let sold ← checkedSub (w.market.vstkBalance cid seller) vstkAmount
  let afterSale := Function.update (w.market.vstkBalance cid) seller sold
  let bought ← checkedAdd (afterSale buyer) vstkAmount
  let w : World τ := { w with market := { w.market with
    vstkBalance := Function.update w.market.vstkBalance cid
      (Function.update afterSale buyer bought) } }
  let w ← w.safeTransfer d d.internalMarket seller net
  pure (w.emit (.tradeSettled cid takerOrderId makerOrderId buyer seller vstkAmount aitNotional fee
    settlementId))

def settleTrade (d : Deployment) (msg : Msg) (makerOrderId takerOrderId vstkAmount aitNotional : ℕ)
    (settlementId : Bytes32) (w : World τ) : Except Revert (World τ) := do
  w.market.roles.only .settler msg.sender
  settleable (w.market.orders makerOrderId) (w.market.orders takerOrderId) vstkAmount aitNotional w
  let product ← checkedMul aitNotional w.treasury.taxRateBps
  let (allowed, w) ← settleFeeAllowed d (product / 10000) aitNotional w
  if allowed then
    settle d makerOrderId takerOrderId vstkAmount aitNotional settlementId w
  else
    pure (w.emit (.tradeSettledBlocked makerOrderId takerOrderId aitNotional settlementId))

/-- `_notifyReward`. -/
def notifyReward (companyId reward : ℕ) (w : World τ) : Except Revert (World τ) :=
  if w.market.totalVstk companyId = 0 then
    pure w
  else do
    let product ← checkedMul reward one
    let acc ← checkedAdd (w.market.accAitPerShare companyId)
      (product / w.market.totalVstk companyId)
    pure { w with market := { w.market with
      accAitPerShare := Function.update w.market.accAitPerShare companyId acc } }

def depositProfit (d : Deployment) (msg : Msg) (companyId grossAmount : ℕ) (w : World τ) :
    Except Revert (World τ) := do
  requireCompany w companyId
  require (grossAmount ≠ 0) .badOrder
  let product ← checkedMul grossAmount w.treasury.taxRateBps
  let (allowed, w) ← settleFeeAllowed d (product / 10000) grossAmount w
  if allowed then do
    let (fee, w) ← Treasury.collectTax d d.internalMarket msg.sender grossAmount w
    let net ← checkedSub grossAmount fee
    let w ← w.safeTransferFrom d d.internalMarket msg.sender d.internalMarket net
    let w ← notifyReward companyId net w
    pure (w.emit (.profitDeposited companyId msg.sender grossAmount fee net))
  else
    pure (w.emit (.profitDepositBlocked companyId grossAmount))

def setDividendPayoutVault (msg : Msg) (companyId : ℕ) (vault : Address) (w : World τ) :
    Except Revert (World τ) := do
  require (w.market.vstkBalance companyId msg.sender ≠ 0) .badOrder
  pure ({ w with market := { w.market with
    dividendPayoutVault := Function.update w.market.dividendPayoutVault companyId
      (Function.update (w.market.dividendPayoutVault companyId) msg.sender vault) } }.emit
      (.payoutVaultSet companyId msg.sender vault))

def pendingDividend (companyId : ℕ) (holder : Address) (w : World τ) : Except Revert ℕ := do
  let product ← checkedMul (w.market.vstkBalance companyId holder)
    (w.market.accAitPerShare companyId)
  checkedSub (product / one) (w.market.rewardDebt companyId holder)

def claimDividend (d : Deployment) (msg : Msg) (companyId : ℕ) (w : World τ) :
    Except Revert (World τ) := do
  let pending ← pendingDividend companyId msg.sender w
  if pending = 0 then
    pure w
  else do
    let accrued := w.market.vstkBalance companyId msg.sender * w.market.accAitPerShare companyId / one
    let vault := w.market.dividendPayoutVault companyId msg.sender
    let recipient := if vault = 0 then msg.sender else vault
    let w : World τ := { w with market := { w.market with
      rewardDebt := Function.update w.market.rewardDebt companyId
        (Function.update (w.market.rewardDebt companyId) msg.sender accrued) } }
    let w ← w.safeTransfer d d.internalMarket recipient pending
    pure (w.emit (.dividendClaimed companyId msg.sender recipient pending))

inductive Call
  | registerCompany (vault : Address)
  | issueShares (companyId : ℕ) (recipient : Address) (amount : ℕ)
  | depositAit (amount : ℕ)
  | withdrawAit (amount : ℕ)
  | placeOrder (companyId : ℕ) (side : Side) (priceRay amount engineHint : ℕ)
  | cancelOrder (orderId : ℕ)
  | settleTrade (makerOrderId takerOrderId vstkAmount aitNotional : ℕ) (settlementId : Bytes32)
  | depositProfit (companyId grossAmount : ℕ)
  | setDividendPayoutVault (companyId : ℕ) (vault : Address)
  | claimDividend (companyId : ℕ)
  | access (call : Roles.Call)

def exec (d : Deployment) (msg : Msg) : Call → World τ → Except Revert (World τ)
  | .registerCompany vault, w => registerCompany msg vault w
  | .issueShares companyId recipient amount, w => issueShares msg companyId recipient amount w
  | .depositAit amount, w => depositAit d msg amount w
  | .withdrawAit amount, w => withdrawAit d msg amount w
  | .placeOrder companyId side priceRay amount engineHint, w =>
    placeOrder msg companyId side priceRay amount engineHint w
  | .cancelOrder orderId, w => cancelOrder msg orderId w
  | .settleTrade makerOrderId takerOrderId vstkAmount aitNotional settlementId, w =>
    settleTrade d msg makerOrderId takerOrderId vstkAmount aitNotional settlementId w
  | .depositProfit companyId grossAmount, w => depositProfit d msg companyId grossAmount w
  | .setDividendPayoutVault companyId vault, w => setDividendPayoutVault msg companyId vault w
  | .claimDividend companyId, w => claimDividend d msg companyId w
  | .access call, w => do
    let roles ← w.market.roles.exec msg.sender call
    pure { w with market := { w.market with roles } }

end InternalMarket

end Aide
