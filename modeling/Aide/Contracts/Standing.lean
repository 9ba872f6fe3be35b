import Aide.Contracts.OrderLogs
import Aide.Foundation.Payments

namespace Aide.InternalMarket
variable {τ : Type} {d : Deployment} {msg : Msg} {w next : World τ}

/-- No company has more shares than its total, and the total is a `uint256`. -/
structure SharesFit (w : World τ) : Prop where
  issued : ∀ companyId, w.market.totalVstk companyId ≤ uint256Max
  backed : ∀ companyId,
    Ledger.Backed (w.market.vstkBalance companyId) (w.market.totalVstk companyId)

/-- Something remains of every active order. -/
def OpenOrders (w : World τ) : Prop :=
  ∀ id, (w.market.orders id).active = true → (w.market.orders id).remaining ≠ 0

/-- Only two calls write shares: an issue, and a trade that its breaker lets pass. -/
theorem exec_shares [AitToken τ] {call : Call} (run : exec d msg call w = .ok next) :
    (∃ companyId recipient amount, issueShares msg companyId recipient amount w = .ok next) ∨
    (∃ makerOrderId takerOrderId vstkAmount aitNotional settlementId cid fee buyer seller,
      Settled d w next makerOrderId takerOrderId vstkAmount aitNotional settlementId cid fee buyer
        seller) ∨
    next.market.vstkBalance = w.market.vstkBalance ∧ next.market.totalVstk = w.market.totalVstk := by
  cases call with
  | registerCompany vault =>
    cases registerCompany_effect run
    exact Or.inr (Or.inr ⟨rfl, rfl⟩)
  | issueShares companyId recipient amount => exact Or.inl ⟨_, _, _, run⟩
  | depositAit amount =>
    obtain ⟨_, _, rfl⟩ := depositAit_effect run
    exact Or.inr (Or.inr ⟨rfl, rfl⟩)
  | withdrawAit amount =>
    obtain ⟨_, _, _, rfl⟩ := withdrawAit_effect run
    exact Or.inr (Or.inr ⟨rfl, rfl⟩)
  | placeOrder companyId side priceRay amount engineHint =>
    obtain ⟨_, _, rfl⟩ := placeOrder_effect run
    exact Or.inr (Or.inr ⟨rfl, rfl⟩)
  | cancelOrder orderId =>
    obtain ⟨_, rfl⟩ := cancelOrder_effect run
    exact Or.inr (Or.inr ⟨rfl, rfl⟩)
  | settleTrade makerOrderId takerOrderId vstkAmount aitNotional settlementId =>
    obtain ⟨_, ⟨cid, fee, buyer, seller, settled⟩ | rfl⟩ := settleTrade_cases run
    · exact Or.inr (Or.inl ⟨_, _, _, _, _, cid, fee, buyer, seller, settled⟩)
    · exact Or.inr (Or.inr ⟨rfl, rfl⟩)
  | depositProfit companyId grossAmount =>
    obtain ⟨_, ⟨_, _, _, _, _, _, _, rfl⟩ | rfl⟩ := depositProfit_cases run
    · exact Or.inr (Or.inr ⟨rfl, rfl⟩)
    · exact Or.inr (Or.inr ⟨rfl, rfl⟩)
  | setDividendPayoutVault companyId vault =>
    cases setDividendPayoutVault_effect run
    exact Or.inr (Or.inr ⟨rfl, rfl⟩)
  | claimDividend companyId =>
    obtain rfl | ⟨_, _, _, _, _, _, rfl⟩ := claimDividend_cases run
    · exact Or.inr (Or.inr ⟨rfl, rfl⟩)
    · exact Or.inr (Or.inr ⟨rfl, rfl⟩)
  | access call =>
    simp only [exec, bind_eq_ok, pure_eq_ok] at run
    obtain ⟨_, _, rfl⟩ := run
    exact Or.inr (Or.inr ⟨rfl, rfl⟩)

namespace SharesFit

theorem balances (fit : SharesFit w) (companyId : ℕ) :
    Ledger.Backed (w.market.vstkBalance companyId) uint256Max :=
  (fit.backed companyId).mono (fit.issued companyId)

theorem issueShares (fit : SharesFit w) {companyId : ℕ} {recipient : Address} {amount : ℕ}
    (run : issueShares msg companyId recipient amount w = .ok next) : SharesFit next := by
  have within : w.market.totalVstk companyId + amount ≤ uint256Max := by
    simp only [InternalMarket.issueShares, bind_eq_ok, checkedAdd_eq_ok] at run
    obtain ⟨_, _, _, _, _, _, _, _, _, ⟨within, _⟩, _⟩ := run
    exact within
  cases issueShares_effect run
  constructor
  · intro other
    by_cases same : other = companyId
    · subst same
      simpa using within
    · simpa [same] using fit.issued other
  · intro other
    by_cases same : other = companyId
    · subst same
      simpa using (fit.backed other).credit recipient amount
    · simpa [same] using fit.backed other

variable [AitToken τ]

theorem settled (fit : SharesFit w) {makerOrderId takerOrderId vstkAmount aitNotional cid fee : ℕ}
    {settlementId : Bytes32} {buyer seller : Address}
    (settled : Settled d w next makerOrderId takerOrderId vstkAmount aitNotional settlementId cid fee
      buyer seller) : SharesFit next := by
  obtain ⟨_, _, _, _, rfl⟩ := settled.effect
  refine ⟨fit.issued, fun other => ?_⟩
  by_cases same : other = cid
  · subst same
    simp only [Function.update_self]
    exact (fit.backed other).pay (fun _ => seller) (fun _ => buyer) (fun _ => vstkAmount) ()
      settled.holds
  · simpa [same] using fit.backed other

theorem exec (fit : SharesFit w) {action : MarketAction τ} (run : action.exec d w = .ok next) :
    SharesFit next := by
  cases action with
  | elsewhere other =>
    cases run
    exact ⟨fit.issued, fit.backed⟩
  | own msg call =>
    rcases exec_shares run with ⟨_, _, _, issue⟩ | ⟨_, _, _, _, _, _, _, _, _, settled⟩ | ⟨held, total⟩
    · exact fit.issueShares issue
    · exact fit.settled settled
    · refine ⟨fun companyId => ?_, fun companyId => ?_⟩
      · rw [total]
        exact fit.issued companyId
      · rw [held, total]
        exact fit.backed companyId

/-- The shares fit in every history of a market that has just been deployed. -/
theorem run {admin : Address} (fresh : w.market = InternalMarket.constructed admin)
    (history : List (MarketAction τ)) :
    SharesFit (TransitionRun.exec (MarketAction.exec d) w history) := by
  have start : SharesFit w := by
    constructor
    · intro companyId
      simp [fresh, InternalMarket.constructed]
    · intro companyId
      rw [fresh]
      exact Ledger.Backed.zero _
  exact TransitionRun.exec_preserves (P := fun _ _ => True) (fun _ _ _ fit _ run => fit.exec run)
    start (TransitionRun.Meets.of_forall fun _ _ _ => trivial)

end SharesFit

namespace OpenOrders

theorem settled [AitToken τ] (opens : OpenOrders w)
    {makerOrderId takerOrderId vstkAmount aitNotional cid fee : ℕ} {settlementId : Bytes32}
    {buyer seller : Address} (settled : Settled d w next makerOrderId takerOrderId vstkAmount
      aitNotional settlementId cid fee buyer seller) : OpenOrders next := by
  obtain ⟨_, _, _, _, rfl⟩ := settled.effect
  have filled : ∀ (o : Order), (o.fill vstkAmount).active = true →
      (o.fill vstkAmount).remaining ≠ 0 := by
    intro o live
    simp only [Order.fill, Bool.and_eq_true, bne_iff_ne] at live
    exact live.2
  intro id live
  by_cases taker : id = takerOrderId
  · subst taker
    simp only [Function.update_self] at live ⊢
    exact filled _ live
  · by_cases maker : id = makerOrderId
    · subst maker
      simp only [Function.update_self, Function.update_of_ne taker] at live ⊢
      exact filled _ live
    · simp only [Function.update_of_ne taker, Function.update_of_ne maker] at live ⊢
      exact opens id live

theorem exec [AitToken τ] (opens : OpenOrders w) {action : MarketAction τ}
    (run : action.exec d w = .ok next) : OpenOrders next := by
  cases action with
  | elsewhere other =>
    cases run
    exact opens
  | own msg call =>
    rcases exec_orders run with ⟨_, _, _, _, _, _, place⟩ | ⟨orderId, _, cancel⟩ |
      ⟨_, _, _, _, _, _, _, _, _, _, settled⟩ | quiet
    · obtain ⟨_, positive, rfl⟩ := placeOrder_effect place
      intro id live
      by_cases isNew : id = w.market.nextOrderId
      · subst isNew
        simpa using positive.1
      · simp only [Function.update_of_ne isNew] at live ⊢
        exact opens id live
    · obtain ⟨_, rfl⟩ := cancelOrder_effect cancel
      intro id live
      by_cases same : id = orderId
      · subst same
        simp at live
      · simp only [Function.update_of_ne same] at live ⊢
        exact opens id live
    · exact opens.settled settled
    · intro id live
      rw [quiet.orders] at live ⊢
      exact opens id live

/-- Something remains of the active orders in every history of a market that has just been
deployed. -/
theorem run [AitToken τ] {admin : Address} (fresh : w.market = InternalMarket.constructed admin)
    (history : List (MarketAction τ)) :
    OpenOrders (TransitionRun.exec (MarketAction.exec d) w history) := by
  have start : OpenOrders w := by
    intro id live
    simp [fresh, InternalMarket.constructed] at live
  exact TransitionRun.exec_preserves (P := fun _ _ => True) (fun _ _ _ opens _ run => opens.exec run)
    start (TransitionRun.Meets.of_forall fun _ _ _ => trivial)

end OpenOrders

end Aide.InternalMarket
