import Aide.Contracts.InternalMarket

namespace Aide.InternalMarket
variable {τ : Type} {d : Deployment} {msg : Msg} {w next : World τ}

theorem registerCompany_effect {vault : Address} (run : registerCompany msg vault w = .ok next) :
    next = { w with
      market := { w.market with
        nextCompanyId := w.market.nextCompanyId + 1
        companyVault := Function.update w.market.companyVault w.market.nextCompanyId vault }
      log := w.log ++ [.companyRegistered w.market.nextCompanyId vault msg.sender] } := by
  simp only [registerCompany, bind_eq_ok, pure_eq_ok, checkedAdd_eq_ok] at run
  obtain ⟨_, _, _, ⟨_, rfl⟩, rfl⟩ := run
  rfl

theorem issueShares_effect {companyId : ℕ} {recipient : Address} {amount : ℕ}
    (run : issueShares msg companyId recipient amount w = .ok next) :
    next = { w with
      market := { w.market with
        vstkBalance := Function.update w.market.vstkBalance companyId
          (Function.update (w.market.vstkBalance companyId) recipient
            (w.market.vstkBalance companyId recipient + amount))
        totalVstk := Function.update w.market.totalVstk companyId
          (w.market.totalVstk companyId + amount)
        rewardDebt := Function.update w.market.rewardDebt companyId
          (Function.update (w.market.rewardDebt companyId) recipient
            (w.market.rewardDebt companyId recipient +
              amount * w.market.accAitPerShare companyId / one)) }
      log := w.log ++ [.sharesIssued companyId recipient amount
        (w.market.totalVstk companyId + amount)] } := by
  simp only [issueShares, bind_eq_ok, pure_eq_ok, checkedAdd_eq_ok, checkedMul_eq_ok] at run
  obtain ⟨_, _, _, _, _, _, _, ⟨_, rfl⟩, _, ⟨_, rfl⟩, _, ⟨_, rfl⟩, _, ⟨_, rfl⟩, rfl⟩ := run
  rfl

theorem placeOrder_effect {companyId : ℕ} {side : Side} {priceRay amount engineHint : ℕ}
    (run : placeOrder msg companyId side priceRay amount engineHint w = .ok next) :
    (companyId ≠ 0 ∧ companyId < w.market.nextCompanyId) ∧ (amount ≠ 0 ∧ priceRay ≠ 0) ∧
    next = { w with
      market := { w.market with
        nextOrderId := w.market.nextOrderId + 1
        orders := Function.update w.market.orders w.market.nextOrderId
          { id := w.market.nextOrderId, companyId, maker := msg.sender, side, priceRay,
            remaining := amount, active := true } }
      log := w.log ++ [.orderPlaced w.market.nextOrderId companyId msg.sender side priceRay amount
        msg.timestamp engineHint] } := by
  simp only [placeOrder, bind_eq_ok, pure_eq_ok, checkedAdd_eq_ok, requireCompany, require_eq_ok,
    exists_const] at run
  obtain ⟨registered, _, _, positive, _, _, ⟨_, rfl⟩, rfl⟩ := run
  exact ⟨registered, positive, rfl⟩

/-- An order is placed in a tradable company, and a sale within the shares of its maker. -/
theorem placeOrder_checks {companyId : ℕ} {side : Side} {priceRay amount engineHint : ℕ}
    (run : placeOrder msg companyId side priceRay amount engineHint w = .ok next) :
    AIBank.isTradable w companyId = true ∧
      (side = .sell → amount ≤ w.market.vstkBalance companyId msg.sender) := by
  simp only [placeOrder, requireCompany, requireTradable, bind_eq_ok, require_eq_ok, exists_const]
    at run
  obtain ⟨_, tradable, _, sale, _⟩ := run
  exact ⟨tradable, sale⟩

theorem cancelOrder_effect {orderId : ℕ} (run : cancelOrder msg orderId w = .ok next) :
    (w.market.orders orderId).active = true ∧
    next = { w with
      market := { w.market with
        orders := Function.update w.market.orders orderId
          { w.market.orders orderId with active := false } }
      log := w.log ++ [.orderCancelled orderId msg.sender] } := by
  simp only [cancelOrder, bind_eq_ok, pure_eq_ok, require_eq_ok, exists_const] at run
  obtain ⟨active, _, rfl⟩ := run
  exact ⟨active, rfl⟩

theorem setDividendPayoutVault_effect {companyId : ℕ} {vault : Address}
    (run : setDividendPayoutVault msg companyId vault w = .ok next) :
    next = { w with
      market := { w.market with
        dividendPayoutVault := Function.update w.market.dividendPayoutVault companyId
          (Function.update (w.market.dividendPayoutVault companyId) msg.sender vault) }
      log := w.log ++ [.payoutVaultSet companyId msg.sender vault] } := by
  simp only [setDividendPayoutVault, bind_eq_ok, pure_eq_ok] at run
  obtain ⟨_, _, rfl⟩ := run
  rfl

/-- The state before a trade and its amounts meet every check that comes before the breaker. -/
structure Settleable (w : World τ) (makerOrderId takerOrderId vstkAmount aitNotional : ℕ) :
    Prop where
  makerActive : (w.market.orders makerOrderId).active = true
  takerActive : (w.market.orders takerOrderId).active = true
  sameCompany : (w.market.orders makerOrderId).companyId = (w.market.orders takerOrderId).companyId
  opposite : (w.market.orders makerOrderId).side ≠ (w.market.orders takerOrderId).side
  tradable : AIBank.isTradable w (w.market.orders makerOrderId).companyId = true
  vstkPositive : vstkAmount ≠ 0
  aitPositive : aitNotional ≠ 0
  makerFits : vstkAmount ≤ (w.market.orders makerOrderId).remaining
  takerFits : vstkAmount ≤ (w.market.orders takerOrderId).remaining

theorem settleable_eq_ok {makerOrderId takerOrderId vstkAmount aitNotional : ℕ} {u : Unit} :
    settleable (w.market.orders makerOrderId) (w.market.orders takerOrderId) vstkAmount aitNotional
      w = .ok u ↔ Settleable w makerOrderId takerOrderId vstkAmount aitNotional := by
  simp only [settleable, requireTradable, bind_eq_ok, require_eq_ok, exists_const]
  constructor
  · rintro ⟨⟨_, _⟩, _, _, _, ⟨_, _⟩, _, _⟩
    constructor <;> assumption
  · rintro ⟨_, _, _, _, _, _, _, _, _⟩
    exact ⟨⟨‹_›, ‹_›⟩, ‹_›, ‹_›, ‹_›, ⟨‹_›, ‹_›⟩, ‹_›, ‹_›⟩

/-- The breaker in front of a settlement either lets it pass and changes nothing, or is left
tripped and nothing else is changed. -/
theorem settleFeeAllowed_cases {fee notional : ℕ} {allowed : Bool}
    (run : settleFeeAllowed d fee notional w = .ok (allowed, next)) :
    (allowed = true ∧ next = w) ∨
    (allowed = false ∧ next = Guardrail.trip w (Guardrail.tripEvents .fee fee w)) := by
  unfold settleFeeAllowed at run
  split at run
  · cases pure_eq_ok.mp run
    exact Or.inl ⟨rfl, rfl⟩
  · simp only [Guardrail.evaluateSettleFee, bind_eq_ok] at run
    obtain ⟨_, _, _, _, evaluated⟩ := run
    obtain ⟨allowed, same, _⟩ | refused := Guardrail.evaluate_cases evaluated
    · exact Or.inl ⟨allowed, same⟩
    · exact Or.inr refused

/-- The breaker looks at nothing but its own storage. -/
theorem settleFeeAllowed_congr {fee notional : ℕ} (same : next.guardrail = w.guardrail)
    (allowed : settleFeeAllowed d fee notional w = .ok (true, w)) :
    settleFeeAllowed d fee notional next = .ok (true, next) := by
  unfold settleFeeAllowed at allowed ⊢
  by_cases unused : d.guardrail = 0
  · rw [if_pos unused]
    rfl
  · simp only [if_neg unused, World.requireNotPaused, Guardrail.evaluateSettleFee, bind_eq_ok,
      require_eq_ok, exists_const, Guardrail.evaluate_eq_ok_true, same] at allowed ⊢
    exact allowed

theorem notifyReward_effect {companyId reward : ℕ}
    (run : notifyReward companyId reward w = .ok next) :
    next = { w with market := { w.market with
      accAitPerShare := Function.update w.market.accAitPerShare companyId
        (w.market.accAitPerShare companyId + reward * one / w.market.totalVstk companyId) } } := by
  unfold notifyReward at run
  split at run
  · rename_i noShares
    cases pure_eq_ok.mp run
    simp [noShares]
  · simp only [bind_eq_ok, pure_eq_ok, checkedMul_eq_ok, checkedAdd_eq_ok] at run
    obtain ⟨_, ⟨_, rfl⟩, _, ⟨_, rfl⟩, rfl⟩ := run
    rfl

variable [AitToken τ]

theorem depositAit_effect {amount : ℕ} (run : depositAit d msg amount w = .ok next) :
    ∃ token, AitToken.transferFrom w.token (w.taxRates d) d.internalMarket msg.sender
        d.internalMarket amount = .ok token ∧
      next = { w with
        token
        market := { w.market with
          aitBalance := Function.update w.market.aitBalance msg.sender
            (w.market.aitBalance msg.sender + amount) }
        log := w.log ++ [.aitDeposited msg.sender amount] } := by
  simp only [depositAit, bind_eq_ok, pure_eq_ok, checkedAdd_eq_ok,
    World.safeTransferFrom_eq_ok] at run
  obtain ⟨_, ⟨token, pull, rfl⟩, _, ⟨_, rfl⟩, rfl⟩ := run
  exact ⟨token, pull, rfl⟩

theorem withdrawAit_effect {amount : ℕ} (run : withdrawAit d msg amount w = .ok next) :
    amount ≤ w.market.aitBalance msg.sender ∧
    ∃ token, AitToken.transfer w.token (w.taxRates d) d.internalMarket msg.sender amount =
        .ok token ∧
      next = { w with
        token
        market := { w.market with
          aitBalance := Function.update w.market.aitBalance msg.sender
            (w.market.aitBalance msg.sender - amount) }
        log := w.log ++ [.aitWithdrawn msg.sender amount] } := by
  simp only [withdrawAit, bind_eq_ok, pure_eq_ok, checkedSub_eq_ok,
    World.safeTransfer_eq_ok] at run
  obtain ⟨_, ⟨covered, rfl⟩, _, ⟨token, push, rfl⟩, rfl⟩ := run
  exact ⟨covered, token, push, rfl⟩

/-- Everything a trade that emits `TradeSettled` has checked and done. -/
structure Settled (d : Deployment) (w next : World τ) (makerOrderId takerOrderId vstkAmount
    aitNotional : ℕ) (settlementId : Bytes32) (cid fee : ℕ) (buyer seller : Address) : Prop where
  checks : Settleable w makerOrderId takerOrderId vstkAmount aitNotional
  allowed : settleFeeAllowed d (aitNotional * w.treasury.taxRateBps / 10000) aitNotional w =
    .ok (true, w)
  company : cid = (w.market.orders makerOrderId).companyId
  buyerIs : buyer = party .buy (w.market.orders makerOrderId) (w.market.orders takerOrderId)
  sellerIs : seller = party .sell (w.market.orders makerOrderId) (w.market.orders takerOrderId)
  funded : aitNotional ≤ w.market.aitBalance buyer
  holds : vstkAmount ≤ w.market.vstkBalance cid seller
  fits : Function.update (w.market.vstkBalance cid) seller
    (w.market.vstkBalance cid seller - vstkAmount) buyer + vstkAmount ≤ uint256Max
  feeIs : fee = aitNotional * w.treasury.taxRateBps / 10000
  feeLe : fee ≤ aitNotional
  effect : ∃ taxed token, Treasury.Collected d w d.internalMarket fee taxed ∧
    AitToken.transfer taxed (w.taxRates d) d.internalMarket seller (aitNotional - fee) = .ok token ∧
    next = { w with
      token
      market := { w.market with
        orders := Function.update (Function.update w.market.orders makerOrderId
          ((w.market.orders makerOrderId).fill vstkAmount)) takerOrderId
          ((w.market.orders takerOrderId).fill vstkAmount)
        aitBalance := Function.update w.market.aitBalance buyer
          (w.market.aitBalance buyer - aitNotional)
        vstkBalance := Function.update w.market.vstkBalance cid
          (Function.update (Function.update (w.market.vstkBalance cid) seller
            (w.market.vstkBalance cid seller - vstkAmount)) buyer
            (Function.update (w.market.vstkBalance cid) seller
              (w.market.vstkBalance cid seller - vstkAmount) buyer + vstkAmount)) }
      log := w.log ++ Treasury.taxLog d.internalMarket d.internalMarket aitNotional fee ++
        [.tradeSettled cid takerOrderId makerOrderId buyer seller vstkAmount aitNotional fee
          settlementId] }

theorem settle_effect {makerOrderId takerOrderId vstkAmount aitNotional : ℕ}
    {settlementId : Bytes32} (checks : Settleable w makerOrderId takerOrderId vstkAmount aitNotional)
    (allowed : settleFeeAllowed d (aitNotional * w.treasury.taxRateBps / 10000) aitNotional w =
      .ok (true, w))
    (run : settle d makerOrderId takerOrderId vstkAmount aitNotional settlementId w = .ok next) :
    ∃ cid fee buyer seller, Settled d w next makerOrderId takerOrderId vstkAmount aitNotional
      settlementId cid fee buyer seller := by
  simp only [settle, bind_eq_ok, pure_eq_ok, require_eq_ok, exists_const, checkedSub_eq_ok,
    checkedAdd_eq_ok, World.safeTransfer_eq_ok] at run
  obtain ⟨funded, ⟨fee, taxed⟩, collect, _, ⟨feeLe, rfl⟩, _, ⟨holds, rfl⟩, _, ⟨fits, rfl⟩, _,
    ⟨token, pay, rfl⟩, rfl⟩ := run
  obtain ⟨feeIs, collected, pull, rfl⟩ := Treasury.collectTax_effect collect
  exact ⟨_, fee, _, _, checks, allowed, rfl, rfl, rfl, funded, holds, fits, feeIs, feeLe, collected,
    token, pull, pay, rfl⟩

/-- A call of `settleTrade` either settles the trade or trips the breaker and does nothing else. -/
theorem settleTrade_cases {makerOrderId takerOrderId vstkAmount aitNotional : ℕ}
    {settlementId : Bytes32}
    (run : settleTrade d msg makerOrderId takerOrderId vstkAmount aitNotional settlementId w =
      .ok next) :
    w.market.roles .settler msg.sender = true ∧
    ((∃ cid fee buyer seller, Settled d w next makerOrderId takerOrderId vstkAmount aitNotional
        settlementId cid fee buyer seller) ∨
      next = (Guardrail.trip w (Guardrail.tripEvents .fee
        (aitNotional * w.treasury.taxRateBps / 10000) w)).emit
          (.tradeSettledBlocked makerOrderId takerOrderId aitNotional settlementId)) := by
  simp only [settleTrade, bind_eq_ok, Roles.only_eq_ok, exists_const, settleable_eq_ok,
    checkedMul_eq_ok] at run
  obtain ⟨settler, checks, _, ⟨_, rfl⟩, ⟨allowed, evaluated⟩, guard, run⟩ := run
  refine ⟨settler, ?_⟩
  obtain ⟨rfl, rfl⟩ | ⟨rfl, rfl⟩ := settleFeeAllowed_cases guard
  · exact Or.inl (settle_effect checks guard run)
  · cases pure_eq_ok.mp run
    exact Or.inr rfl

/-- A log of a trade comes from a settlement, and names its parties and amounts. -/
theorem settled_of_emitted {makerOrderId takerOrderId vstkAmount aitNotional cid taker maker vstk ait
    fee : ℕ} {buyer seller : Address} {settlementId id : Bytes32} {emitted : List Event}
    (run : settleTrade d msg makerOrderId takerOrderId vstkAmount aitNotional settlementId w =
      .ok next)
    (logs : next.log = w.log ++ emitted)
    (emits : .tradeSettled cid taker maker buyer seller vstk ait fee id ∈ emitted) :
    vstk = vstkAmount ∧ ait = aitNotional ∧
      Settled d w next makerOrderId takerOrderId vstkAmount aitNotional settlementId cid fee buyer
        seller := by
  obtain ⟨_, ⟨cid', fee', buyer', seller', settled⟩ | blocked⟩ := settleTrade_cases run
  · obtain ⟨_, _, _, _, effect⟩ := settled.effect
    have same : emitted = Treasury.taxLog d.internalMarket d.internalMarket aitNotional fee' ++
        [.tradeSettled cid' takerOrderId makerOrderId buyer' seller' vstkAmount aitNotional fee'
          settlementId] := by
      rw [effect, List.append_assoc] at logs
      exact (List.append_cancel_left logs).symm
    rw [same, List.mem_append, List.mem_singleton] at emits
    rcases emits with tax | trade
    · cases Treasury.mem_taxLog tax
    · cases trade
      exact ⟨rfl, rfl, settled⟩
  · have same : emitted = Guardrail.tripEvents .fee (aitNotional * w.treasury.taxRateBps / 10000) w ++
        [.tradeSettledBlocked makerOrderId takerOrderId aitNotional settlementId] := by
      rw [blocked] at logs
      simp only [Guardrail.trip, World.emit, List.append_assoc] at logs
      exact (List.append_cancel_left logs).symm
    rw [same, List.mem_append, List.mem_singleton] at emits
    rcases emits with tripped | other
    · cases Guardrail.mem_tripEvents tripped
    · cases other

/-- A call of `depositProfit` either books the profit or trips the breaker and does nothing else. -/
theorem depositProfit_cases {companyId grossAmount : ℕ}
    (run : depositProfit d msg companyId grossAmount w = .ok next) :
    (companyId ≠ 0 ∧ companyId < w.market.nextCompanyId) ∧
    ((∃ fee taxed token, fee = grossAmount * w.treasury.taxRateBps / 10000 ∧ fee ≤ grossAmount ∧
        Treasury.Collected d w msg.sender fee taxed ∧
        AitToken.transferFrom taxed (w.taxRates d) d.internalMarket msg.sender d.internalMarket
          (grossAmount - fee) = .ok token ∧
        next = { w with
          token
          market := { w.market with
            accAitPerShare := Function.update w.market.accAitPerShare companyId
              (w.market.accAitPerShare companyId +
                (grossAmount - fee) * one / w.market.totalVstk companyId) }
          log := w.log ++ Treasury.taxLog d.internalMarket msg.sender grossAmount fee ++
            [.profitDeposited companyId msg.sender grossAmount fee (grossAmount - fee)] }) ∨
      next = (Guardrail.trip w (Guardrail.tripEvents .fee
        (grossAmount * w.treasury.taxRateBps / 10000) w)).emit
          (.profitDepositBlocked companyId grossAmount)) := by
  simp only [depositProfit, requireCompany, bind_eq_ok, require_eq_ok, exists_const,
    checkedMul_eq_ok] at run
  obtain ⟨registered, _, _, ⟨_, rfl⟩, ⟨allowed, evaluated⟩, guard, run⟩ := run
  refine ⟨registered, ?_⟩
  obtain ⟨rfl, rfl⟩ | ⟨rfl, rfl⟩ := settleFeeAllowed_cases guard
  · simp only [if_true, bind_eq_ok, pure_eq_ok, checkedSub_eq_ok,
      World.safeTransferFrom_eq_ok] at run
    obtain ⟨⟨fee, _⟩, collect, _, ⟨feeLe, rfl⟩, _, ⟨token, pull, rfl⟩, _, notified, rfl⟩ := run
    obtain ⟨feeIs, taxed, collected, rfl⟩ := Treasury.collectTax_effect collect
    cases notifyReward_effect notified
    exact Or.inl ⟨fee, taxed, token, feeIs, feeLe, collected, pull, rfl⟩
  · cases pure_eq_ok.mp run
    exact Or.inr rfl

/-- A claim pays nothing and changes nothing, or pays what is pending and raises the debt by it. -/
theorem claimDividend_cases {companyId : ℕ} (run : claimDividend d msg companyId w = .ok next) :
    next = w ∨ ∃ pending recipient token, 0 < pending ∧
      w.market.rewardDebt companyId msg.sender + pending =
        w.market.vstkBalance companyId msg.sender * w.market.accAitPerShare companyId / one ∧
      AitToken.transfer w.token (w.taxRates d) d.internalMarket recipient pending = .ok token ∧
      next = { w with
        token
        market := { w.market with
          rewardDebt := Function.update w.market.rewardDebt companyId
            (Function.update (w.market.rewardDebt companyId) msg.sender
              (w.market.rewardDebt companyId msg.sender + pending)) }
        log := w.log ++ [.dividendClaimed companyId msg.sender recipient pending] } := by
  simp only [claimDividend, pendingDividend, bind_eq_ok, checkedMul_eq_ok, checkedSub_eq_ok] at run
  obtain ⟨_, ⟨_, ⟨_, rfl⟩, owed, rfl⟩, run⟩ := run
  split at run
  · cases pure_eq_ok.mp run
    exact Or.inl rfl
  · rename_i positive
    simp only [bind_eq_ok, pure_eq_ok, World.safeTransfer_eq_ok] at run
    obtain ⟨_, ⟨token, pay, rfl⟩, rfl⟩ := run
    have raised := Nat.add_sub_cancel' owed
    refine Or.inr ⟨_, _, token, Nat.pos_of_ne_zero positive, raised, pay, ?_⟩
    rw [raised]
    rfl

end Aide.InternalMarket
