import Aide.Contracts.System
import Aide.Contracts.TaskRun
import Aide.Foundation.TransitionRun

namespace Aide

open ERC20 (Spared)

namespace AIToken
variable {t next : AIToken} {rates : TaxRates} {sender spender src dst a : Address} {value : ℕ}

/-- A transfer of the token spares everyone but the payer, and the payer too when it is empty. -/
theorem transfer_spared (other : a ≠ sender ∨ value = 0)
    (run : t.transfer rates sender dst value = .ok next) : Spared a t.toERC20 next.toERC20 := by
  obtain ⟨⟨fee, delivered⟩, allowed⟩ := transfer_delivered run
  refine ⟨?_, fun spender => by rw [allowed]⟩
  rcases other with other | nothing
  · exact delivered.moved.le_of_ne other
  · simpa [nothing] using delivered.moved.sub_le a

/-- An account that has given the spender no allowance is spared as well. -/
theorem transferFrom_spared (other : a ≠ src ∨ t.allowance src spender = 0)
    (run : t.transferFrom rates spender src dst value = .ok next) :
    Spared a t.toERC20 next.toERC20 := by
  obtain ⟨spent, spend, run⟩ := bind_eq_ok.mp run
  have spared := (ERC20.spendAllowance_spared spend).2 a
  have spares := other.imp_right (ERC20.spendAllowance_none spend)
  exact spared.trans (transfer_spared (t := { t with toERC20 := spent }) spares run)

theorem transferFrom_allowance (run : t.transferFrom rates spender src dst value = .ok next)
    (a other : Address) : next.allowance a other ≤ t.allowance a other := by
  obtain ⟨spent, spend, run⟩ := bind_eq_ok.mp run
  obtain ⟨_, allowed⟩ := transfer_delivered (t := { t with toERC20 := spent }) run
  rw [allowed]
  exact ((ERC20.spendAllowance_spared spend).2 a).allowance other

theorem burn_spared (other : a ≠ sender ∨ value = 0) (run : t.burn sender value = .ok next) :
    Spared a t.toERC20 next.toERC20 := by
  simp only [burn, bind_eq_ok, pure_eq_ok, require_eq_ok, exists_const] at run
  obtain ⟨_, burned, update, rfl⟩ := run
  exact ERC20.update_spared other update

theorem burnFrom_spared (other : a ≠ src ∨ t.allowance src spender = 0)
    (run : t.burnFrom spender src value = .ok next) : Spared a t.toERC20 next.toERC20 := by
  obtain ⟨spent, spend, run⟩ := bind_eq_ok.mp run
  have spared := (ERC20.spendAllowance_spared spend).2 a
  have spares := other.imp_right (ERC20.spendAllowance_none spend)
  exact spared.trans (burn_spared (t := { t with toERC20 := spent }) spares run)

theorem mint_spared (nonzero : a ≠ 0) (run : t.mint sender dst value = .ok next) :
    Spared a t.toERC20 next.toERC20 := by
  simp only [mint, ERC20.mint, bind_eq_ok, pure_eq_ok, require_eq_ok, exists_const] at run
  obtain ⟨_, minted, ⟨_, update⟩, rfl⟩ := run
  exact ERC20.update_spared (Or.inl nonzero) update

theorem approve_spared (other : a ≠ sender) (run : t.approve sender spender value = .ok next) :
    Spared a t.toERC20 next.toERC20 := by
  simp only [approve, bind_eq_ok, pure_eq_ok] at run
  obtain ⟨approved, approval, rfl⟩ := run
  exact ERC20.approve_spared other approval

/-- Nobody but the senders of a list of transfers loses by it. -/
theorem performed_spared {last : AIToken} {made : List Transfer}
    (sends : ∀ transfer ∈ made, transfer.src ≠ a) (performed : Performed rates t made last) :
    Spared a t.toERC20 last.toERC20 := by
  induction performed with
  | none => exact Spared.refl ..
  | transfer run _ ih =>
    obtain ⟨first, others⟩ := List.forall_mem_cons.mp sends
    exact (transfer_spared (Or.inl first.symm) run).trans (ih others)
  | transferFrom run _ ih =>
    obtain ⟨first, others⟩ := List.forall_mem_cons.mp sends
    exact (transferFrom_spared (Or.inl first.symm) run).trans (ih others)

/-- No call of the token by another account without an allowance touches `a`. -/
theorem exec_spared {call : Call} (nonzero : a ≠ 0) (other : a ≠ sender)
    (none : t.allowance a sender = 0) (run : exec rates sender call t = .ok next) :
    Spared a t.toERC20 next.toERC20 := by
  have pulled : ∀ src, a ≠ src ∨ t.allowance src sender = 0 := fun src => by
    by_cases same : a = src
    · exact Or.inr (same ▸ none)
    · exact Or.inl same
  cases call with
  | transfer dst value => exact transfer_spared (Or.inl other) run
  | transferFrom src dst value => exact transferFrom_spared (pulled src) run
  | taxedTransfer dst value => exact transfer_spared (Or.inl other) run
  | taxedTransferFrom src dst value => exact transferFrom_spared (pulled src) run
  | approve spender value => exact approve_spared other run
  | mint account value => exact mint_spared nonzero run
  | burn value => exact burn_spared (Or.inl other) run
  | burnFrom account value => exact burnFrom_spared (pulled account) run
  | setTreasury newTreasury =>
    simp only [exec, setTreasury, bind_eq_ok, pure_eq_ok] at run
    obtain ⟨_, _, _, _, rfl⟩ := run
    exact Spared.refl ..
  | setTaxExemptSender account exempt =>
    simp only [exec, setTaxExemptSender, bind_eq_ok, pure_eq_ok] at run
    obtain ⟨_, _, rfl⟩ := run
    exact Spared.refl ..
  | transferOwnership newOwner =>
    simp only [exec, transferOwnership, bind_eq_ok, pure_eq_ok] at run
    obtain ⟨_, _, _, _, rfl⟩ := run
    exact Spared.refl ..
  | renounceOwnership =>
    simp only [exec, renounceOwnership, bind_eq_ok, pure_eq_ok] at run
    obtain ⟨_, _, rfl⟩ := run
    exact Spared.refl ..

end AIToken

/-- The treasury loses no tokens and gives no allowance. -/
abbrev Spares (d : Deployment) (w next : World AIToken) : Prop :=
  Spared d.treasury w.token.toERC20 next.token.toERC20

variable {d : Deployment} {env : System.Environment} {msg : Msg} {w next : World AIToken}

theorem Deployment.treasury_ne_zero (d : Deployment) : d.treasury ≠ 0 := fun zero =>
  d.deployed (by simp [← zero])

/-- Only the treasury of the deployment answers for a rate. -/
theorem treasury_of_rated {account : Address} {rate : ℕ} (rated : w.taxRates d account = .ok rate) :
    account = d.treasury := by
  unfold World.taxRates at rated
  split at rated
  · assumption
  · cases rated

/-- A tax collected from the treasury itself comes back to it whole. -/
theorem collected_spared {payer : Address} {fee : ℕ} {token : AIToken}
    (collected : Treasury.Collected d w payer fee token) :
    Spared d.treasury w.token.toERC20 token.toERC20 := by
  obtain ⟨_, rfl⟩ | pull := collected
  · exact Spared.refl ..
  · by_cases own : d.treasury = payer
    · subst own
      refine ⟨?_, fun spender => AIToken.transferFrom_allowance pull _ spender⟩
      obtain ⟨tax, delivered⟩ := AIToken.transferFrom_delivered pull
      have balance := delivered.moved.balance d.treasury
      have feeLe := delivered.moved.feeLe
      by_cases untaxed : tax = 0
      · simp only [untaxed, if_true, ite_self] at balance
        omega
      · obtain ⟨rate, rated⟩ := delivered.rated untaxed
        simp only [treasury_of_rated rated, if_true] at balance
        omega
    · exact AIToken.transferFrom_spared (Or.inl own) pull

theorem market_spares {call : InternalMarket.Call} (outside : d.Outside msg.sender)
    (run : InternalMarket.exec d msg call w = .ok next) : Spares d w next := by
  have user := outside.ne_treasury.symm
  have market := d.treasury_ne_internalMarket
  cases call with
  | registerCompany vault =>
    cases InternalMarket.registerCompany_effect run
    exact Spared.refl ..
  | issueShares companyId recipient amount =>
    cases InternalMarket.issueShares_effect run
    exact Spared.refl ..
  | depositAit amount =>
    obtain ⟨token, pull, rfl⟩ := InternalMarket.depositAit_effect run
    exact AIToken.transferFrom_spared (Or.inl user) pull
  | withdrawAit amount =>
    obtain ⟨_, token, push, rfl⟩ := InternalMarket.withdrawAit_effect run
    exact AIToken.transfer_spared (Or.inl market) push
  | placeOrder companyId side priceRay amount engineHint =>
    obtain ⟨_, _, rfl⟩ := InternalMarket.placeOrder_effect run
    exact Spared.refl ..
  | cancelOrder orderId =>
    obtain ⟨_, rfl⟩ := InternalMarket.cancelOrder_effect run
    exact Spared.refl ..
  | settleTrade makerOrderId takerOrderId vstkAmount aitNotional settlementId =>
    obtain ⟨_, ⟨_, _, _, _, settled⟩ | rfl⟩ := InternalMarket.settleTrade_cases run
    · obtain ⟨taxed, token, collected, pay, rfl⟩ := settled.effect
      exact (collected_spared collected).trans (AIToken.transfer_spared (Or.inl market) pay)
    · exact Spared.refl ..
  | depositProfit companyId grossAmount =>
    obtain ⟨_, ⟨_, taxed, token, _, _, collected, pull, rfl⟩ | rfl⟩ :=
      InternalMarket.depositProfit_cases run
    · exact (collected_spared collected).trans (AIToken.transferFrom_spared (Or.inl user) pull)
    · exact Spared.refl ..
  | setDividendPayoutVault companyId vault =>
    cases InternalMarket.setDividendPayoutVault_effect run
    exact Spared.refl ..
  | claimDividend companyId =>
    obtain rfl | ⟨_, _, token, _, _, pay, rfl⟩ := InternalMarket.claimDividend_cases run
    · exact Spared.refl ..
    · exact AIToken.transfer_spared (Or.inl market) pay
  | access call =>
    simp only [InternalMarket.exec, bind_eq_ok, pure_eq_ok] at run
    obtain ⟨_, _, rfl⟩ := run
    exact Spared.refl ..

theorem tasks_spares {call : TaskMarket.Call} (outside : d.Outside msg.sender)
    (run : TaskMarket.exec d msg call w = .ok next) : Spares d w next := by
  obtain ⟨_, _, _, _, _, writes, performed, rfl⟩ := TaskMarket.exec_writes run
  refine AIToken.performed_spared (fun transfer member own => ?_) performed
  rcases TaskMarket.src_of_writes writes member with market | caller
  · exact d.treasury_ne_taskMarket (own.symm.trans market)
  · exact outside.ne_treasury (caller.symm.trans own)

theorem rewarded_spared {user : Address} {token : AIToken}
    (rewarded : StakingPool.Rewarded d w user token) :
    Spared d.treasury w.token.toERC20 token.toERC20 := by
  obtain ⟨_, rfl⟩ | ⟨_, pay⟩ := rewarded
  · exact Spared.refl ..
  · exact AIToken.transfer_spared (Or.inl d.treasury_ne_stakingPool) pay

theorem pool_spares {call : StakingPool.Call} (outside : d.Outside msg.sender)
    (run : StakingPool.exec d msg call w = .ok next) : Spares d w next := by
  have user := outside.ne_treasury.symm
  have pool := d.treasury_ne_stakingPool
  cases call with
  | depositReward amount =>
    obtain ⟨_, token, _, _, pull, rfl⟩ := StakingPool.depositReward_effect run
    exact AIToken.transferFrom_spared (Or.inl user) pull
  | stake amount =>
    obtain ⟨claimed, token, _, _, rewarded, pull, rfl⟩ := StakingPool.stake_effect run
    exact (rewarded_spared rewarded).trans (AIToken.transferFrom_spared (Or.inl user) pull)
  | unstake amount =>
    obtain ⟨_, _, claimed, token, _, _, rewarded, pay, rfl⟩ := StakingPool.unstake_effect run
    exact (rewarded_spared rewarded).trans (AIToken.transfer_spared (Or.inl pool) pay)
  | claim =>
    obtain ⟨token, _, _, rewarded, rfl⟩ := StakingPool.claim_effect run
    exact rewarded_spared rewarded

/-- The calls of the other contracts move no tokens at all. -/
theorem registry_keeps_token {call : AIIdentityRegistry.Call}
    (run : AIIdentityRegistry.exec env.crypto d msg call w = .ok next) : next.token = w.token := by
  obtain ⟨_, _, rfl⟩ := AIIdentityRegistry.exec_frame run
  rfl

theorem bank_keeps_token {call : AIBank.Call} (run : AIBank.exec msg call w = .ok next) :
    next.token = w.token := by
  cases call with
  | approveListing companyId codeAuditHash =>
    simp only [AIBank.exec, AIBank.approveListing, bind_eq_ok, pure_eq_ok] at run
    obtain ⟨_, _, _, _, rfl⟩ := run
    rfl
  | revokeListing companyId =>
    simp only [AIBank.exec, AIBank.revokeListing, bind_eq_ok, pure_eq_ok] at run
    obtain ⟨_, _, rfl⟩ := run
    rfl
  | access call =>
    simp only [AIBank.exec, bind_eq_ok, pure_eq_ok] at run
    obtain ⟨_, _, rfl⟩ := run
    rfl

/-- What the breaker promises of one transaction: tokens leave the treasury within the threshold,
for one whitelisted recipient or the staking pool, and never while the breaker is tripped. -/
structure UnderBreaker (d : Deployment) (w next : World AIToken) : Prop where
  bounded : w.balanceOf d.treasury ≤ next.balanceOf d.treasury +
    w.balanceOf d.treasury * w.guardrail.outflowBpsThreshold / 10000
  recipient : next.balanceOf d.treasury < w.balanceOf d.treasury → ∃ account,
    (w.treasury.operatingExpenseWhitelist account = true ∨ account = d.stakingPool) ∧
    next.balanceOf account =
      w.balanceOf account + (w.balanceOf d.treasury - next.balanceOf d.treasury)
  running : w.guardrail.paused = true → w.balanceOf d.treasury ≤ next.balanceOf d.treasury

theorem UnderBreaker.of_balance (kept : w.balanceOf d.treasury ≤ next.balanceOf d.treasury) :
    UnderBreaker d w next where
  bounded := kept.trans (Nat.le_add_right ..)
  recipient fewer := absurd kept (Nat.not_le_of_lt fewer)
  running _ := kept

/-- A transfer of the treasury within the threshold, to an admitted account. -/
theorem UnderBreaker.of_delivered {t token : AIToken} {account : Address} {amount fee : ℕ}
    (admitted : w.treasury.operatingExpenseWhitelist account = true ∨ account = d.stakingPool)
    (balances : t.balanceOf = w.token.balanceOf)
    (delivered : t.Delivered token (w.taxRates d) d.treasury account amount fee)
    (same : next.token = token) (unpaused : w.guardrail.paused = false)
    (within : 0 < w.balanceOf d.treasury →
      amount ≤ w.balanceOf d.treasury * w.guardrail.outflowBpsThreshold / 10000) :
    UnderBreaker d w next := by
  subst same
  have spent : t.balanceOf d.treasury - amount ≤ next.balanceOf d.treasury :=
    delivered.moved.sub_le d.treasury
  have before : ∀ a, w.balanceOf a = t.balanceOf a := fun a => (congrFun balances a).symm
  refine ⟨?_, fun fewer => ⟨account, admitted, ?_⟩, fun paused => ?_⟩
  · have funds := before d.treasury
    by_cases empty : w.balanceOf d.treasury = 0
    · omega
    · have limit := within (Nat.pos_of_ne_zero empty)
      omega
  · have paid := delivered.moved.balance d.treasury
    have gained := delivered.moved.balance account
    have feeLe := delivered.moved.feeLe
    have home : fee = 0 ∨ t.treasury = d.treasury := by
      by_cases untaxed : fee = 0
      · exact Or.inl untaxed
      · obtain ⟨rate, rated⟩ := delivered.rated untaxed
        exact Or.inr (treasury_of_rated rated)
    simp only [before] at fewer ⊢
    simp only [World.balanceOf, AitToken.balanceOf, if_true] at fewer paid gained ⊢
    by_cases own : account = d.treasury
    · subst own
      rcases home with none | home
      · simp only [none, if_true, ite_self] at paid
        omega
      · simp only [home, if_true] at paid
        omega
    · simp only [own, Ne.symm own, if_false] at paid gained
      rcases home with none | home
      · simp only [none, ite_self] at paid gained
        omega
      · simp only [home, own, if_true, if_false] at paid gained
        omega
  · simp [unpaused] at paused

/-- The treasury has given no allowance to anyone outside the deployment. -/
def NoAllowance (d : Deployment) (w : World AIToken) : Prop :=
  ∀ spender, spender ∉ d.contracts → w.token.allowance d.treasury spender = 0

theorem NoAllowance.of_spared (none : NoAllowance d w) (spared : Spares d w next) :
    NoAllowance d next := fun spender outside =>
  Nat.eq_zero_of_le_zero ((spared.allowance spender).trans (none spender outside).le)

theorem withdrawOperatingExpenses_underBreaker {amount : ℕ} {recipient : Address}
    (guarded : d.guardrail ≠ 0) (none : NoAllowance d w)
    (run : Treasury.withdrawOperatingExpenses d msg amount recipient w = .ok next) :
    UnderBreaker d w next ∧ NoAllowance d next := by
  simp only [Treasury.withdrawOperatingExpenses, bind_eq_ok, require_eq_ok, exists_const] at run
  obtain ⟨_, _, whitelisted, ⟨allowed, evaluated⟩, guard, run⟩ := run
  obtain ⟨rfl, rfl, checked⟩ | ⟨rfl, rfl⟩ := Treasury.outflowAllowed_cases guard
  · obtain ⟨unpaused, within⟩ := checked guarded
    have share : 0 < evaluated.balanceOf d.treasury →
        amount ≤ evaluated.balanceOf d.treasury * evaluated.guardrail.outflowBpsThreshold / 10000 :=
      fun positive => (Nat.le_div_iff_mul_le (by decide)).mpr (within positive)
    simp only [if_true, bind_eq_ok, pure_eq_ok, World.safeTransfer_eq_ok] at run
    obtain ⟨_, ⟨token, pay, rfl⟩, rfl⟩ := run
    obtain ⟨⟨fee, delivered⟩, allowed⟩ := AIToken.transfer_delivered pay
    refine ⟨UnderBreaker.of_delivered (Or.inl whitelisted) rfl delivered rfl unpaused share, ?_⟩
    intro spender outside
    have kept := none spender outside
    rwa [← allowed] at kept
  · cases pure_eq_ok.mp run
    have spared : Spares d w ((Guardrail.trip w (Guardrail.tripEvents .outflow amount w)).emit
        (.operatingExpensesWithdrawBlocked recipient amount)) := Spared.refl ..
    exact ⟨UnderBreaker.of_balance spared.balance, none.of_spared spared⟩

/-- An approval by the treasury moves nothing and changes one allowance. -/
theorem approve_allowance {token : AIToken} {spender : Address} {amount : ℕ}
    (run : w.token.approve d.treasury spender amount = .ok token) :
    token.toERC20.balanceOf = w.token.balanceOf ∧ token.treasury = w.token.treasury ∧
    ∀ other, token.allowance d.treasury other =
      if other = spender then amount else w.token.allowance d.treasury other := by
  simp only [AIToken.approve, ERC20.approve, bind_eq_ok, pure_eq_ok] at run
  obtain ⟨_, ⟨_, _, _, _, rfl⟩, rfl⟩ := run
  exact ⟨rfl, rfl, fun other => by simp [Function.update_apply]⟩

theorem approveStakingPoolPull_underBreaker {stakingPool : Address} {amount : ℕ}
    (none : NoAllowance d w)
    (inside : w.treasury.roles .treasuryOps msg.sender = true →
      stakingPool ∈ d.contracts ∨ amount = 0)
    (run : Treasury.approveStakingPoolPull d msg stakingPool amount w = .ok next) :
    UnderBreaker d w next ∧ NoAllowance d next := by
  simp only [Treasury.approveStakingPoolPull, bind_eq_ok, pure_eq_ok, Roles.only_eq_ok,
    exists_const] at run
  obtain ⟨operator, _, _, token, approval, rfl⟩ := run
  obtain ⟨balances, _, allowance⟩ := approve_allowance approval
  refine ⟨UnderBreaker.of_balance (congrFun balances d.treasury).ge, fun spender outside => ?_⟩
  rw [allowance spender]
  split
  · rename_i same
    exact (inside operator).resolve_left fun member => outside (same ▸ member)
  · exact none spender outside

/-- A reward that the treasury pays into the deployed pool. -/
theorem depositReward_underBreaker {stakingPool : Address} {amount : ℕ} (none : NoAllowance d w)
    (pooled : w.treasury.roles .treasuryOps msg.sender = true → stakingPool ∈ d.contracts ∧
      (stakingPool = d.stakingPool → w.guardrail.paused = false ∧
        amount ≤ w.balanceOf d.treasury * w.guardrail.outflowBpsThreshold / 10000))
    (run : Treasury.depositRewardToStakingPool d env.foreign msg stakingPool amount w = .ok next) :
    UnderBreaker d w next ∧ NoAllowance d next := by
  simp only [Treasury.depositRewardToStakingPool, bind_eq_ok, Roles.only_eq_ok,
    exists_const] at run
  obtain ⟨operator, _, _, _, _, approved, approval, run⟩ := run
  obtain ⟨deployed, bounds⟩ := pooled operator
  split at run
  · rename_i same
    obtain ⟨unpaused, within⟩ := bounds same
    obtain ⟨balances, treasury, allowance⟩ := approve_allowance approval
    obtain ⟨_, token, _, _, pull, rfl⟩ := StakingPool.depositReward_effect run
    obtain ⟨fee, delivered⟩ := AIToken.transferFrom_delivered pull
    refine ⟨UnderBreaker.of_delivered (Or.inr rfl) balances delivered rfl unpaused fun _ => within,
      fun spender outside => ?_⟩
    have apart : spender ≠ stakingPool := by
      rintro rfl
      exact outside deployed
    have lowered := AIToken.transferFrom_allowance pull d.treasury spender
    rw [allowance spender, if_neg apart, none spender outside] at lowered
    exact Nat.eq_zero_of_le_zero lowered
  · cases run

/-- Every call of the treasury but the two that approve the staking pool stays under the breaker. -/
theorem treasury_underBreaker {call : Treasury.Call} (guarded : d.guardrail ≠ 0)
    (none : NoAllowance d w)
    (inside : ∀ stakingPool amount, call = .approveStakingPoolPull stakingPool amount →
      w.treasury.roles .treasuryOps msg.sender = true → stakingPool ∈ d.contracts ∨ amount = 0)
    (pooled : ∀ stakingPool amount, call = .depositRewardToStakingPool stakingPool amount →
      w.treasury.roles .treasuryOps msg.sender = true → stakingPool ∈ d.contracts ∧
        (stakingPool = d.stakingPool → w.guardrail.paused = false ∧
          amount ≤ w.balanceOf d.treasury * w.guardrail.outflowBpsThreshold / 10000))
    (run : Treasury.exec d env.foreign msg call w = .ok next) :
    UnderBreaker d w next ∧ NoAllowance d next := by
  have kept : Spares d w next → UnderBreaker d w next ∧ NoAllowance d next := fun spared =>
    ⟨UnderBreaker.of_balance spared.balance, none.of_spared spared⟩
  cases call with
  | setOperatingExpenseRecipient recipient allowed =>
    simp only [Treasury.exec, Treasury.setOperatingExpenseRecipient, bind_eq_ok, pure_eq_ok] at run
    obtain ⟨_, _, _, _, rfl⟩ := run
    exact kept (Spared.refl ..)
  | withdrawOperatingExpenses amount recipient =>
    exact withdrawOperatingExpenses_underBreaker guarded none run
  | collectTax payer taxableBase =>
    obtain ⟨⟨fee, _⟩, collect, same⟩ := bind_eq_ok.mp run
    cases pure_eq_ok.mp same
    obtain ⟨_, token, collected, rfl⟩ := Treasury.collectTax_effect collect
    exact kept (collected_spared collected)
  | setTaxRate newTaxRateBps =>
    simp only [Treasury.exec, Treasury.setTaxRate, bind_eq_ok, pure_eq_ok] at run
    obtain ⟨_, _, _, _, rfl⟩ := run
    exact kept (Spared.refl ..)
  | setWeeklySalaryCoefficient coefficientS =>
    simp only [Treasury.exec, Treasury.setWeeklySalaryCoefficient, bind_eq_ok, pure_eq_ok] at run
    obtain ⟨_, _, rfl⟩ := run
    exact kept (Spared.refl ..)
  | setCivilServant agent active =>
    simp only [Treasury.exec, Treasury.setCivilServant, bind_eq_ok, pure_eq_ok] at run
    obtain ⟨_, _, _, _, rfl⟩ := run
    exact kept (Spared.refl ..)
  | distributeSalary agent contributionRating =>
    simp only [Treasury.exec, Treasury.distributeSalary, bind_eq_ok, pure_eq_ok, require_eq_ok,
      exists_const] at run
    obtain ⟨_, _, _, _, _, _, _, _, token, minted, rfl⟩ := run
    exact kept (AIToken.mint_spared d.treasury_ne_zero minted)
  | approveStakingPoolPull stakingPool amount =>
    exact approveStakingPoolPull_underBreaker none (inside _ _ rfl) run
  | depositRewardToStakingPool stakingPool amount =>
    exact depositReward_underBreaker none (pooled _ _ rfl) run
  | access call =>
    simp only [Treasury.exec, bind_eq_ok, pure_eq_ok] at run
    obtain ⟨_, _, rfl⟩ := run
    exact kept (Spared.refl ..)

/-- The holders of the operations role approve and reward only contracts of the deployment, and
reward the staking pool only within the threshold and while the breaker is not tripped. -/
def KeepsToPool (d : Deployment) (w : World AIToken) : Msg × System.Call → Prop
  | (msg, .treasury (.approveStakingPoolPull stakingPool amount)) =>
    w.treasury.roles .treasuryOps msg.sender = true → stakingPool ∈ d.contracts ∨ amount = 0
  | (msg, .treasury (.depositRewardToStakingPool stakingPool amount)) =>
    w.treasury.roles .treasuryOps msg.sender = true → stakingPool ∈ d.contracts ∧
      (stakingPool = d.stakingPool → w.guardrail.paused = false ∧
        amount ≤ w.balanceOf d.treasury * w.guardrail.outflowBpsThreshold / 10000)
  | _ => True

instance (w : World AIToken) : ∀ tx, Decidable (KeepsToPool d w tx)
  | (_, .treasury (.approveStakingPoolPull ..)) => inferInstanceAs (Decidable (_ → _))
  | (_, .treasury (.depositRewardToStakingPool ..)) => inferInstanceAs (Decidable (_ → _))
  | (_, .treasury (.setOperatingExpenseRecipient ..)) | (_, .treasury (.collectTax ..))
  | (_, .treasury (.withdrawOperatingExpenses ..)) | (_, .treasury (.setTaxRate ..))
  | (_, .treasury (.setWeeklySalaryCoefficient ..)) | (_, .treasury (.setCivilServant ..))
  | (_, .treasury (.distributeSalary ..)) | (_, .treasury (.access ..))
  | (_, .token _) | (_, .guardrail _) | (_, .registry _) | (_, .bank _) | (_, .market _)
  | (_, .tasks _) | (_, .pool _) => isTrue trivial

/-- One transaction from outside the deployment. -/
theorem transaction_underBreaker {call : System.Call} (guarded : d.guardrail ≠ 0)
    (outside : d.Outside msg.sender) (none : NoAllowance d w) (keeps : KeepsToPool d w (msg, call))
    (run : System.exec env d w (msg, call) = .ok next) :
    UnderBreaker d w next ∧ NoAllowance d next := by
  have kept : Spares d w next → UnderBreaker d w next ∧ NoAllowance d next := fun spared =>
    ⟨UnderBreaker.of_balance spared.balance, none.of_spared spared⟩
  cases call with
  | token call =>
    obtain ⟨token, moved, same⟩ := bind_eq_ok.mp run
    cases pure_eq_ok.mp same
    exact kept (AIToken.exec_spared d.treasury_ne_zero outside.ne_treasury.symm
      (none msg.sender outside.2) moved)
  | guardrail call =>
    obtain ⟨_, _, rfl⟩ := Guardrail.exec_frame run
    exact kept (Spared.refl ..)
  | registry call =>
    have same := registry_keeps_token run
    exact kept (by simp only [Spares, same]; exact Spared.refl ..)
  | bank call =>
    have same := bank_keeps_token run
    exact kept (by simp only [Spares, same]; exact Spared.refl ..)
  | treasury call =>
    refine treasury_underBreaker guarded none ?_ ?_ run
    · rintro stakingPool amount rfl
      exact keeps
    · rintro stakingPool amount rfl
      exact keeps
  | market call => exact kept (market_spares outside run)
  | tasks call => exact kept (tasks_spares outside run)
  | pool call => exact kept (pool_spares outside run)

/-- Every transaction of every run is under the breaker, as long as the operations role approves
and rewards nothing but the staking pool, within the threshold and while it runs. -/
theorem outflow_under_breaker_of_pool_only {run before rest : List (Msg × System.Call)}
    {tx : Msg × System.Call} (guarded : d.guardrail ≠ 0) (none : NoAllowance d w)
    (outsiders : ∀ tx ∈ run, d.Outside tx.1.sender)
    (keeps : TransitionRun.Meets (System.exec env d) (KeepsToPool d) w run)
    (split : run = before ++ tx :: rest)
    (step : System.exec env d (TransitionRun.exec (System.exec env d) w before) tx = .ok next) :
    UnderBreaker d (TransitionRun.exec (System.exec env d) w before) next := by
  subst split
  obtain ⟨keepsBefore, keepsTx, _⟩ := TransitionRun.meets_append.mp keeps
  have outside : TransitionRun.Meets (System.exec env d) (fun _ tx => d.Outside tx.1.sender) w
      before := TransitionRun.Meets.of_forall fun tx member _ =>
    outsiders tx (List.mem_append_left _ member)
  have reached : NoAllowance d (TransitionRun.exec (System.exec env d) w before) :=
    TransitionRun.exec_preserves (fun w tx next none meets step =>
      (transaction_underBreaker guarded meets.1 none meets.2 step).2) none (outside.and keepsBefore)
  exact (transaction_underBreaker guarded (outsiders tx (by simp)) reached keepsTx step).1

/-- After the deployment the treasury has given no allowance. -/
theorem launch_noAllowance (d : Deployment) (admin teeAuthority owner : Address) (taxRateBps : ℕ)
    (balanceOf : Address → ℕ) (totalSupply : ℕ) :
    NoAllowance d (d.launch admin teeAuthority taxRateBps
      (AIToken.launch d owner balanceOf totalSupply)) := fun _ _ =>
  if_neg fun market => market.1.elim d.treasury_ne_internalMarket d.treasury_ne_taskMarket

namespace Devnet

def environment : System.Environment where
  crypto := {
    teeAttestTypehash := 0
    keccakWords := fun _ => 0
    keccakTeeProof := id
    toEthSignedMessageHash := id
    recover := fun _ _ => .error .badTeeSignature }
  foreign _ _ w := .ok w

/-- The treasury owns 1000 and the admin operates it. -/
def treasuryFunded : World AIToken :=
  Deployment.devnet.launch admin teeAuthority 0 (AIToken.launch Deployment.devnet admin
    (fun account => if account = Deployment.devnet.treasury then 1000 else 0) 1000)

theorem treasuryFunded_noAllowance : NoAllowance Deployment.devnet treasuryFunded :=
  launch_noAllowance _ _ _ _ _ _ _

def reward (amount : ℕ) : Msg × System.Call :=
  ({ sender := admin },
    .treasury (.depositRewardToStakingPool Deployment.devnet.stakingPool amount))

end Devnet

open Devnet in
theorem outflow_under_breaker_of_small_reward :
    ∃ next, System.exec environment Deployment.devnet treasuryFunded (reward 300) = .ok next ∧
      UnderBreaker Deployment.devnet treasuryFunded next :=
  ⟨_, rfl, @outflow_under_breaker_of_pool_only Deployment.devnet environment treasuryFunded _
    [reward 300] [] [] _ (by decide) treasuryFunded_noAllowance (by decide) (by decide)
    rfl rfl⟩

open Devnet in
/-- A reward of the whole balance leaves the treasury in one transaction. -/
theorem outflow_unguarded_by_reward :
    ¬ ∀ (env : System.Environment) (d : Deployment) (w next : World AIToken)
      (run before rest : List (Msg × System.Call)) (tx : Msg × System.Call),
      d.guardrail ≠ 0 → w.guardrail.treasury = d.treasury → NoAllowance d w →
      (∀ tx ∈ run, d.Outside tx.1.sender) → run = before ++ tx :: rest →
      System.exec env d (TransitionRun.exec (System.exec env d) w before) tx = .ok next →
      UnderBreaker d (TransitionRun.exec (System.exec env d) w before) next := by
  intro always
  have guarded := always environment Deployment.devnet treasuryFunded _ [reward 1000] [] []
    (reward 1000) (by decide) rfl treasuryFunded_noAllowance (by decide) rfl rfl
  exact absurd guarded.bounded (by decide)

end Aide
