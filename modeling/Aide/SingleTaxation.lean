import Aide.TaxedLedgers

namespace Aide

/-- The transactions that have a taxable base. -/
inductive TaxedCall
  | settleTrade (makerOrderId takerOrderId vstkAmount aitNotional : ℕ) (settlementId : Bytes32)
  | depositProfit (companyId grossAmount : ℕ)
  | approveTask (taskId : ℕ)

namespace TaxedCall

def exec (d : Deployment) (msg : Msg) : TaxedCall → World AIToken → Except Revert (World AIToken)
  | .settleTrade makerOrderId takerOrderId vstkAmount aitNotional settlementId, w =>
    InternalMarket.settleTrade d msg makerOrderId takerOrderId vstkAmount aitNotional settlementId w
  | .depositProfit companyId grossAmount, w =>
    InternalMarket.depositProfit d msg companyId grossAmount w
  | .approveTask taskId, w => TaskMarket.approveTask d msg taskId w

def base (w : World AIToken) : TaxedCall → ℕ
  | .settleTrade _ _ _ aitNotional _ => aitNotional
  | .depositProfit _ grossAmount => grossAmount
  | .approveTask taskId => (w.tasks.tasks taskId).lockedAmount

/-- The tax on the base at the current rate. -/
def fee (w : World AIToken) (call : TaxedCall) : ℕ := call.base w * w.treasury.taxRateBps / 10000

/-- The seller, the dividend pool of the market, or the recipient of a bounty. -/
def payee (d : Deployment) (w : World AIToken) : TaxedCall → Address
  | .settleTrade makerOrderId takerOrderId _ _ _ =>
    InternalMarket.party .sell (w.market.orders makerOrderId) (w.market.orders takerOrderId)
  | .depositProfit .. => d.internalMarket
  | .approveTask taskId => (w.tasks.tasks taskId).aiPoolRecipient

/-- The users that a transaction moves tokens of or to. -/
def participants (msg : Msg) (w : World AIToken) : TaxedCall → List Address
  | .settleTrade makerOrderId takerOrderId _ _ _ =>
    [(w.market.orders makerOrderId).maker, (w.market.orders takerOrderId).maker]
  | .depositProfit .. => [msg.sender]
  | .approveTask taskId => [(w.tasks.tasks taskId).aiPoolRecipient]

/-- A profit whose net amount is too small to be taxed on its way into the market. -/
def NetUntaxed (w : World AIToken) : TaxedCall → Prop
  | .depositProfit _ grossAmount =>
    (grossAmount - grossAmount * w.treasury.taxRateBps / 10000) * w.treasury.taxRateBps / 10000 = 0
  | _ => True

/-- The user that is paid out of an exempt market or pays into it. -/
def user (msg : Msg) (w : World AIToken) : TaxedCall → Address
  | .settleTrade makerOrderId takerOrderId _ _ _ =>
    InternalMarket.party .sell (w.market.orders makerOrderId) (w.market.orders takerOrderId)
  | .depositProfit .. => msg.sender
  | .approveTask taskId => (w.tasks.tasks taskId).aiPoolRecipient

/-- The treasury is not at the other end of the payment as well, unless nothing is paid. -/
def TreasuryApart (d : Deployment) (msg : Msg) (w : World AIToken) (call : TaxedCall) : Prop :=
  call.user msg w ≠ d.treasury ∨ call.base w = 0

end TaxedCall

/-- The treasury gains the tax on the base, and the payee the rest of it. -/
structure TaxedOnce (d : Deployment) (w next : World AIToken) (call : TaxedCall) : Prop where
  treasury : next.balanceOf d.treasury = w.balanceOf d.treasury + call.fee w
  payee : next.balanceOf (call.payee d w) = w.balanceOf (call.payee d w) + (call.base w - call.fee w)

/-- Wired as deployed, and not in the middle of a taxed transfer. -/
structure TaxReady (d : Deployment) (t : AIToken) : Prop extends TaxWired d t where
  idle : t.processingTax = false

variable {d : Deployment} {msg : Msg} {w next : World AIToken} {token taxed : AIToken}
  {payer contract payee : Address} {amount fee : ℕ}

/-- The collected tax reaches the treasury whole, also where the token taxes the payer on its way. -/
theorem collected_balance (wired : TaxWired d w.token)
    (collected : Treasury.Collected d w payer fee taxed) (a : Address) :
    taxed.balanceOf a + (if a = payer then fee else 0) =
      w.token.balanceOf a + (if a = d.treasury then fee else 0) := by
  obtain ⟨rfl, rfl⟩ | pull := collected
  · simp
  · have moved := AIToken.transferFrom_moved (taxRates_treasury wired) pull
    have balance := moved.balance a
    have feeLe := moved.feeLe
    by_cases atTreasury : a = d.treasury
    · simp only [wired.treasury, atTreasury, if_true] at balance ⊢
      omega
    · simp only [wired.treasury, atTreasury, if_false] at balance ⊢
      omega

theorem collected_ready (ready : TaxReady d w.token)
    (collected : Treasury.Collected d w payer fee taxed) :
    TaxReady d taxed ∧ taxed.taxExemptSender = w.token.taxExemptSender := by
  obtain ⟨_, rfl⟩ | pull := collected
  · exact ⟨ready, rfl⟩
  · have moved := AIToken.transferFrom_moved (taxRates_treasury ready.toTaxWired) pull
    exact ⟨⟨ready.toTaxWired.moved moved, moved.processingTax.trans ready.idle⟩, moved.taxExemptSender⟩

theorem taxRates_of_ready (ready : TaxReady d taxed) :
    w.taxRates d taxed.treasury = .ok w.treasury.taxRateBps := if_pos ready.treasury

/-- A contract that is exempt pays the tax and the rest of an amount, and nothing else is taxed. The
treasury gains the tax alone, and the payee the rest alone, unless they are the same. -/
theorem paid_once_iff (ready : TaxReady d w.token) (exempt : w.token.taxExemptSender contract = true)
    (apart : d.treasury ≠ contract) (taxable : w.token.taxExemptSender payee = false)
    (collected : Treasury.Collected d w contract fee taxed)
    (paid : AitToken.transfer taxed (w.taxRates d) contract payee amount = .ok token) :
    (token.balanceOf d.treasury = w.token.balanceOf d.treasury + fee ∧
      token.balanceOf payee = w.token.balanceOf payee + amount) ↔
      payee ≠ d.treasury ∨ fee + amount = 0 := by
  have other : payee ≠ contract := by
    rintro rfl
    simp [exempt] at taxable
  obtain ⟨readyTaxed, kept⟩ := collected_ready ready collected
  have moved := AIToken.transfer_moved (taxRates_of_ready readyTaxed) paid
  rw [fee_eq_zero_of_exempt (kept ▸ exempt)] at moved
  have treasury : token.balanceOf d.treasury =
      w.token.balanceOf d.treasury + fee + (if payee = d.treasury then amount else 0) := by
    have before := collected_balance ready.toTaxWired collected d.treasury
    have after := moved.balance d.treasury
    simp only [apart, ite_self, if_false, if_true, Nat.sub_zero, eq_comm (b := payee)] at before after ⊢
    omega
  have received : token.balanceOf payee =
      w.token.balanceOf payee + amount + (if payee = d.treasury then fee else 0) := by
    have before := collected_balance ready.toTaxWired collected payee
    have after := moved.balance payee
    simp only [other, ite_self, if_false, if_true] at before after
    omega
  by_cases own : payee = d.treasury
  · simp only [own, if_true, ne_eq, not_true_eq_false, false_or] at treasury received ⊢
    omega
  · simp only [own, if_false] at treasury received
    exact iff_of_true ⟨treasury, received⟩ (Or.inl own)

section
variable {makerOrderId takerOrderId vstkAmount aitNotional companyId grossAmount taskId : ℕ}
  {settlementId : Bytes32}

theorem seller_taxable
    (taxable : ∀ user ∈ [(w.market.orders makerOrderId).maker, (w.market.orders takerOrderId).maker],
      w.token.taxExemptSender user = false) :
    w.token.taxExemptSender (InternalMarket.party .sell (w.market.orders makerOrderId)
      (w.market.orders takerOrderId)) = false := by
  unfold InternalMarket.party
  split
  · exact taxable _ (List.mem_cons_self ..)
  · exact taxable _ (List.mem_cons_of_mem _ (List.mem_singleton_self _))

theorem settleTrade_taxedOnce_iff (ready : TaxReady d w.token)
    (taxable : ∀ user ∈ [(w.market.orders makerOrderId).maker, (w.market.orders takerOrderId).maker],
      w.token.taxExemptSender user = false)
    (run : InternalMarket.settleTrade d msg makerOrderId takerOrderId vstkAmount aitNotional settlementId
      w = .ok next) (running : next.guardrail.paused = false) :
    TaxedOnce d w next (.settleTrade makerOrderId takerOrderId vstkAmount aitNotional settlementId) ↔
      (TaxedCall.settleTrade makerOrderId takerOrderId vstkAmount aitNotional settlementId).TreasuryApart
        d msg w := by
  obtain ⟨_, ⟨_, fee, _, seller, settled⟩ | rfl⟩ := InternalMarket.settleTrade_cases run
  · obtain ⟨_, token, collected, paid, rfl⟩ := settled.effect
    have feeIs := settled.feeIs
    have sellerIs := settled.sellerIs
    have whole : fee + (aitNotional - fee) = aitNotional := Nat.add_sub_cancel' settled.feeLe
    subst feeIs sellerIs
    have once := paid_once_iff ready ready.marketExempt d.treasury_ne_internalMarket
      (seller_taxable taxable) collected paid
    rw [whole] at once
    exact ⟨fun taxed => once.mp ⟨taxed.treasury, taxed.payee⟩, fun apart =>
      ⟨(once.mpr apart).1, (once.mpr apart).2⟩⟩
  · cases running

theorem approveTask_taxedOnce_iff (ready : TaxReady d w.token)
    (taxable : w.token.taxExemptSender (w.tasks.tasks taskId).aiPoolRecipient = false)
    (run : TaskMarket.approveTask d msg taskId w = .ok next) :
    TaxedOnce d w next (.approveTask taskId) ↔
      (TaxedCall.approveTask taskId).TreasuryApart d msg w := by
  obtain ⟨_, _, _, _, fee, _, token, _, rfl, feeLe, collected, paid, rfl⟩ :=
    TaskMarket.approveTask_effect run
  have whole := Nat.add_sub_cancel' feeLe
  have once := paid_once_iff ready ready.taskMarketExempt d.treasury_ne_taskMarket taxable collected paid
  rw [whole] at once
  exact ⟨fun taxed => once.mp ⟨taxed.treasury, taxed.payee⟩, fun apart =>
    ⟨(once.mpr apart).1, (once.mpr apart).2⟩⟩

/-- A profit is taxed once more when its net amount moves from its payer to the market. -/
theorem depositProfit_balances (ready : TaxReady d w.token)
    (taxable : w.token.taxExemptSender msg.sender = false)
    (run : InternalMarket.depositProfit d msg companyId grossAmount w = .ok next)
    (running : next.guardrail.paused = false) :
    ∃ fee second, fee = grossAmount * w.treasury.taxRateBps / 10000 ∧
      second = (grossAmount - fee) * w.treasury.taxRateBps / 10000 ∧ fee + second ≤ grossAmount ∧
      next.balanceOf d.treasury + (if msg.sender = d.treasury then grossAmount else 0) =
        w.balanceOf d.treasury + fee + second ∧
      next.balanceOf d.internalMarket =
        w.balanceOf d.internalMarket + (grossAmount - fee - second) := by
  obtain ⟨_, ⟨fee, taxed, token, feeIs, feeLe, collected, pull, rfl⟩ | rfl⟩ :=
    InternalMarket.depositProfit_cases run
  · obtain ⟨readyTaxed, kept⟩ := collected_ready ready collected
    have moved := AIToken.transferFrom_moved (taxRates_of_ready readyTaxed) pull
    have second : taxed.fee w.treasury.taxRateBps msg.sender (grossAmount - fee) =
        (grossAmount - fee) * w.treasury.taxRateBps / 10000 :=
      if_pos ⟨readyTaxed.idle, kept ▸ taxable⟩
    rw [second] at moved
    have within := moved.feeLe
    have apart : d.internalMarket ≠ msg.sender := by
      intro same
      simp [← same, ready.marketExempt] at taxable
    have treasury : token.balanceOf d.treasury +
        (if msg.sender = d.treasury then grossAmount else 0) = w.token.balanceOf d.treasury + fee +
          (grossAmount - fee) * w.treasury.taxRateBps / 10000 := by
      have before := collected_balance ready.toTaxWired collected d.treasury
      have after := moved.balance d.treasury
      by_cases own : msg.sender = d.treasury
      · simp only [own, d.treasury_ne_internalMarket, readyTaxed.treasury, if_false, if_true] at before after ⊢
        omega
      · simp only [own, Ne.symm own, d.treasury_ne_internalMarket, readyTaxed.treasury, if_false, if_true]
          at before after ⊢
        omega
    have market : token.balanceOf d.internalMarket = w.token.balanceOf d.internalMarket +
        (grossAmount - fee - (grossAmount - fee) * w.treasury.taxRateBps / 10000) := by
      have before := collected_balance ready.toTaxWired collected d.internalMarket
      have after := moved.balance d.internalMarket
      simp only [apart, d.treasury_ne_internalMarket.symm, readyTaxed.treasury, if_false, if_true]
        at before after
      omega
    exact ⟨fee, _, feeIs, rfl, by omega, treasury, market⟩
  · cases running

theorem depositProfit_taxedOnce_iff (ready : TaxReady d w.token)
    (taxable : w.token.taxExemptSender msg.sender = false)
    (run : InternalMarket.depositProfit d msg companyId grossAmount w = .ok next)
    (running : next.guardrail.paused = false) :
    TaxedOnce d w next (.depositProfit companyId grossAmount) ↔
      (TaxedCall.depositProfit companyId grossAmount).NetUntaxed w ∧
        (TaxedCall.depositProfit companyId grossAmount).TreasuryApart d msg w := by
  obtain ⟨fee, second, rfl, secondIs, within, treasury, market⟩ :=
    depositProfit_balances ready taxable run running
  have returned : (if msg.sender = d.treasury then grossAmount else 0) = 0 ↔
      msg.sender ≠ d.treasury ∨ grossAmount = 0 := by
    by_cases own : msg.sender = d.treasury <;> simp [own]
  constructor
  · intro once
    have gained : next.balanceOf d.treasury = w.balanceOf d.treasury +
        grossAmount * w.treasury.taxRateBps / 10000 := once.treasury
    have received : next.balanceOf d.internalMarket = w.balanceOf d.internalMarket +
        (grossAmount - grossAmount * w.treasury.taxRateBps / 10000) := once.payee
    have free : second = 0 := by omega
    exact ⟨secondIs.symm.trans free, returned.mp (by omega)⟩
  · rintro ⟨free, apart⟩
    have untaxed : second = 0 := secondIs.trans free
    rw [untaxed, returned.mpr apart] at treasury
    rw [untaxed] at market
    exact ⟨treasury, market⟩

end

/-- A transaction that succeeds and does not trip the breaker taxes its base once, if and only if it
is no profit whose net amount is large enough to be taxed again, and the treasury is no party to it. -/
theorem taxed_once_iff {call : TaxedCall} (ready : TaxReady d w.token)
    (taxable : ∀ user ∈ call.participants msg w, w.token.taxExemptSender user = false)
    (run : call.exec d msg w = .ok next) (running : next.guardrail.paused = false) :
    TaxedOnce d w next call ↔ call.NetUntaxed w ∧ call.TreasuryApart d msg w := by
  cases call with
  | settleTrade makerOrderId takerOrderId vstkAmount aitNotional settlementId =>
    exact (settleTrade_taxedOnce_iff ready taxable run running).trans (true_and _).symm.to_iff
  | depositProfit companyId grossAmount =>
    exact depositProfit_taxedOnce_iff ready (taxable _ (List.mem_singleton_self _)) run running
  | approveTask taskId =>
    exact (approveTask_taxedOnce_iff ready (taxable _ (List.mem_singleton_self _)) run).trans
      (true_and _).symm.to_iff

namespace Devnet

/-- The taxed token at 5%, a listed company without shares, and alice with tokens to deposit. -/
def earning : World AIToken :=
  { Devnet.taxed with market := { Devnet.taxed.market with nextCompanyId := 2 } }

/-- What a call leaves behind when it succeeds. -/
def deposited (grossAmount : ℕ) : World AIToken :=
  (InternalMarket.depositProfit Deployment.devnet { sender := alice } 1 grossAmount earning).toOption.getD
    earning

theorem earning_ready : TaxReady Deployment.devnet earning.token := ⟨taxed_wired, rfl⟩

theorem alice_is_taxable (grossAmount : ℕ) :
    ∀ user ∈ (TaxedCall.depositProfit 1 grossAmount).participants { sender := alice } earning,
      Deployment.devnet.Outside user ∧ earning.token.taxExemptSender user = false := by
  intro user member
  cases List.mem_singleton.mp member
  decide

end Devnet

open Devnet

theorem small_profit_is_taxed_once_iff :
    TaxedOnce Deployment.devnet earning (deposited 20) (.depositProfit 1 20) ↔
      (TaxedCall.depositProfit 1 20).NetUntaxed earning ∧
        (TaxedCall.depositProfit 1 20).TreasuryApart Deployment.devnet { sender := alice } earning :=
  @taxed_once_iff Deployment.devnet { sender := alice } earning (deposited 20) (.depositProfit 1 20)
    earning_ready (fun user member => (alice_is_taxable 20 user member).2) rfl rfl

/-- Of a profit of 1000 at 5%, the treasury gets 97 instead of 50. -/
theorem profit_is_taxed_twice :
    ¬ ∀ (d : Deployment) (msg : Msg) (w next : World AIToken) (call : TaxedCall), TaxReady d w.token →
      (∀ user ∈ call.participants msg w, d.Outside user) →
      (∀ user ∈ call.participants msg w, w.token.taxExemptSender user = false) →
      call.exec d msg w = .ok next → next.guardrail.paused = false → TaxedOnce d w next call := by
  intro always
  have once := always Deployment.devnet { sender := alice } earning (deposited 1000)
    (.depositProfit 1 1000) earning_ready (fun user member => (alice_is_taxable 1000 user member).1)
    (fun user member => (alice_is_taxable 1000 user member).2) rfl rfl
  exact absurd once.treasury (by decide)

end Aide
