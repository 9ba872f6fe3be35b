import Aide.Contracts.AIBank
import Aide.Contracts.Treasury

namespace Aide
variable {τ : Type} {d : Deployment} {msg : Msg} {w next : World τ}

namespace Guardrail

theorem setPeers_effect {treasury internalMarket : Address} (run : setPeers msg treasury internalMarket w = .ok next) :
    w.guardrail.roles .defaultAdmin msg.sender = true ∧ w.guardrail.treasury = 0 ∧
    (treasury ≠ 0 ∧ internalMarket ≠ 0) ∧
    next = { w with
      guardrail := { w.guardrail with treasury, internalMarket }
      log := w.log ++ [.peersWired treasury internalMarket] } := by
  simp only [setPeers, bind_eq_ok, pure_eq_ok, Roles.only_eq_ok, require_eq_ok, exists_const] at run
  obtain ⟨admin, unwired, peers, rfl⟩ := run
  exact ⟨admin, unwired, peers, rfl⟩

theorem setOutflowBpsThreshold_effect {bps : ℕ} (run : setOutflowBpsThreshold msg bps w = .ok next) :
    w.guardrail.roles .defaultAdmin msg.sender = true ∧ bps ≤ 10000 ∧
    next = { w with
      guardrail := { w.guardrail with outflowBpsThreshold := bps }
      log := w.log ++ [.outflowThresholdUpdated bps] } := by
  simp only [setOutflowBpsThreshold, bind_eq_ok, pure_eq_ok, Roles.only_eq_ok, require_eq_ok, exists_const] at run
  obtain ⟨admin, bounded, rfl⟩ := run
  exact ⟨admin, bounded, rfl⟩

theorem setMaxFeeBpsOfNotional_effect {bps : ℕ} (run : setMaxFeeBpsOfNotional msg bps w = .ok next) :
    w.guardrail.roles .defaultAdmin msg.sender = true ∧ bps ≤ 10000 ∧
    next = { w with
      guardrail := { w.guardrail with maxFeeBpsOfNotional := bps }
      log := w.log ++ [.maxFeeBpsUpdated bps] } := by
  simp only [setMaxFeeBpsOfNotional, bind_eq_ok, pure_eq_ok, Roles.only_eq_ok, require_eq_ok, exists_const] at run
  obtain ⟨admin, bounded, rfl⟩ := run
  exact ⟨admin, bounded, rfl⟩

theorem evaluateOutflow_effect {balanceBefore amount : ℕ}
    (run : exec msg (.evaluateOutflow balanceBefore amount) w = .ok next) :
    next = w ∨ next = trip w (tripEvents .outflow amount w) := by
  simp only [exec, evaluateOutflow, bind_eq_ok, pure_eq_ok] at run
  obtain ⟨⟨_, _⟩, ⟨_, _, evaluated⟩, rfl⟩ := run
  exact (evaluate_cases evaluated).imp (·.2.1) (·.2)

theorem evaluateSettleFee_effect {fee aitNotional : ℕ}
    (run : exec msg (.evaluateSettleFee fee aitNotional) w = .ok next) :
    next = w ∨ next = trip w (tripEvents .fee fee w) := by
  simp only [exec, evaluateSettleFee, bind_eq_ok, pure_eq_ok] at run
  obtain ⟨⟨_, _⟩, ⟨_, _, evaluated⟩, rfl⟩ := run
  exact (evaluate_cases evaluated).imp (·.2.1) (·.2)

theorem unpause_effect (run : unpause msg w = .ok next) :
    next = { w with
      guardrail := { w.guardrail with paused := false }
      log := w.log ++ [.circuitUnpaused msg.sender] } := by
  simp only [unpause, bind_eq_ok, pure_eq_ok] at run
  obtain ⟨_, _, rfl⟩ := run
  rfl

end Guardrail

namespace AIBank

theorem approveListing_effect {companyId : ℕ} {codeAuditHash : Bytes32}
    (run : approveListing msg companyId codeAuditHash w = .ok next) :
    w.bank.roles .auditor msg.sender = true ∧ companyId ≠ 0 ∧
    next = { w with
      bank := { w.bank with
        tradable := Function.update w.bank.tradable companyId true
        codeAuditHash := Function.update w.bank.codeAuditHash companyId codeAuditHash }
      log := w.log ++ [.listingApproved companyId codeAuditHash msg.sender] } := by
  simp only [approveListing, bind_eq_ok, pure_eq_ok, Roles.only_eq_ok, require_eq_ok, exists_const] at run
  obtain ⟨auditor, nonzero, rfl⟩ := run
  exact ⟨auditor, nonzero, rfl⟩

theorem revokeListing_effect {companyId : ℕ} (run : revokeListing msg companyId w = .ok next) :
    w.bank.roles .defaultAdmin msg.sender = true ∧
    next = { w with
      bank := { w.bank with tradable := Function.update w.bank.tradable companyId false }
      log := w.log ++ [.listingRevoked companyId msg.sender] } := by
  simp only [revokeListing, bind_eq_ok, pure_eq_ok, Roles.only_eq_ok, exists_const] at run
  obtain ⟨admin, rfl⟩ := run
  exact ⟨admin, rfl⟩

/-- No call of the bank touches any other contract. -/
theorem exec_frame {call : Call} (run : exec msg call w = .ok next) :
    ∃ bank log, next = { w with bank := bank, log := log } := by
  cases call with
  | approveListing companyId codeAuditHash =>
    obtain ⟨_, _, rfl⟩ := approveListing_effect run
    exact ⟨_, _, rfl⟩
  | revokeListing companyId =>
    obtain ⟨_, rfl⟩ := revokeListing_effect run
    exact ⟨_, _, rfl⟩
  | access call =>
    simp only [exec, bind_eq_ok, pure_eq_ok] at run
    obtain ⟨_, _, rfl⟩ := run
    exact ⟨_, _, rfl⟩

end AIBank

namespace Treasury

theorem setOperatingExpenseRecipient_effect {recipient : Address} {allowed : Bool}
    (run : setOperatingExpenseRecipient msg recipient allowed w = .ok next) :
    w.treasury.roles .defaultAdmin msg.sender = true ∧ recipient ≠ 0 ∧
    next = { w with
      treasury := { w.treasury with
        operatingExpenseWhitelist := Function.update w.treasury.operatingExpenseWhitelist recipient allowed }
      log := w.log ++ [.operatingExpenseRecipientUpdated recipient allowed] } := by
  simp only [setOperatingExpenseRecipient, bind_eq_ok, pure_eq_ok, Roles.only_eq_ok, require_eq_ok,
    exists_const] at run
  obtain ⟨admin, nonzero, rfl⟩ := run
  exact ⟨admin, nonzero, rfl⟩

theorem setTaxRate_effect {newTaxRateBps : ℕ} (run : setTaxRate msg newTaxRateBps w = .ok next) :
    w.treasury.roles .economist msg.sender = true ∧ newTaxRateBps ≤ 10000 ∧
    next = { w with
      treasury := { w.treasury with taxRateBps := newTaxRateBps }
      log := w.log ++ [.taxRateUpdated newTaxRateBps] } := by
  simp only [setTaxRate, bind_eq_ok, pure_eq_ok, Roles.only_eq_ok, require_eq_ok, exists_const] at run
  obtain ⟨economist, bounded, rfl⟩ := run
  exact ⟨economist, bounded, rfl⟩

theorem setWeeklySalaryCoefficient_effect {coefficientS : ℕ}
    (run : setWeeklySalaryCoefficient msg coefficientS w = .ok next) :
    w.treasury.roles .economist msg.sender = true ∧
    next = { w with
      treasury := { w.treasury with weeklySalaryCoefficientS := coefficientS }
      log := w.log ++ [.weeklySalaryCoefficientUpdated coefficientS] } := by
  simp only [setWeeklySalaryCoefficient, bind_eq_ok, pure_eq_ok, Roles.only_eq_ok, exists_const] at run
  obtain ⟨economist, rfl⟩ := run
  exact ⟨economist, rfl⟩

theorem setCivilServant_effect {agent : Address} {active : Bool}
    (run : setCivilServant msg agent active w = .ok next) :
    w.treasury.roles .registry msg.sender = true ∧ agent ≠ 0 ∧
    next = { w with
      treasury := { w.treasury with
        isCivilServant := Function.update w.treasury.isCivilServant agent active }
      log := w.log ++ [.civilServantUpdated agent active] } := by
  simp only [setCivilServant, bind_eq_ok, pure_eq_ok, Roles.only_eq_ok, require_eq_ok, exists_const] at run
  obtain ⟨registry, nonzero, rfl⟩ := run
  exact ⟨registry, nonzero, rfl⟩

variable [AitToken τ]

/-- A withdrawal is paid, or leaves the breaker tripped and is logged as blocked. -/
theorem withdrawOperatingExpenses_effect {amount : ℕ} {recipient : Address}
    (run : withdrawOperatingExpenses d msg amount recipient w = .ok next) :
    w.treasury.roles .treasuryOps msg.sender = true ∧
    w.treasury.operatingExpenseWhitelist recipient = true ∧
    ((d.guardrail ≠ 0 → w.guardrail.paused = false) ∧ (∃ token,
        AitToken.transfer w.token (w.taxRates d) d.treasury recipient amount = .ok token ∧
        next = { w with token, log := w.log ++ [.operatingExpensesWithdrawn recipient amount] }) ∨
      next = (Guardrail.trip w (Guardrail.tripEvents .outflow amount w)).emit
        (.operatingExpensesWithdrawBlocked recipient amount)) := by
  simp only [withdrawOperatingExpenses, bind_eq_ok, Roles.only_eq_ok, require_eq_ok, exists_const] at run
  obtain ⟨ops, whitelisted, ⟨allowed, evaluated⟩, guard, run⟩ := run
  refine ⟨ops, whitelisted, ?_⟩
  obtain ⟨rfl, rfl, checked⟩ | ⟨rfl, rfl⟩ := outflowAllowed_cases guard
  · simp only [if_true, bind_eq_ok, pure_eq_ok, World.safeTransfer_eq_ok] at run
    obtain ⟨_, ⟨token, pay, rfl⟩, rfl⟩ := run
    exact .inl ⟨fun inUse => (checked inUse).1, token, pay, rfl⟩
  · exact .inr (pure_eq_ok.mp run).symm

theorem distributeSalary_effect {agent : Address} {contributionRating : ℕ}
    (run : distributeSalary d msg agent contributionRating w = .ok next) :
    w.treasury.roles .salary msg.sender = true ∧ w.requireRunning d = .ok () ∧
    w.treasury.isCivilServant agent = true ∧ ∃ amount token,
    amount = w.treasury.weeklySalaryCoefficientS * contributionRating / 10 ^ 18 ∧ 0 < amount ∧
    AitToken.mint w.token d.treasury agent amount = .ok token ∧
    next = { w with token, log := w.log ++ [.salaryDistributed agent contributionRating amount] } := by
  simp only [distributeSalary, bind_eq_ok, pure_eq_ok, Roles.only_eq_ok, require_eq_ok, exists_const,
    checkedMul_eq_ok] at run
  obtain ⟨salary, _, running, servant, _, ⟨_, rfl⟩, positive, token, minted, rfl⟩ := run
  exact ⟨salary, running, servant, _, token, rfl, positive, minted, rfl⟩

theorem approveStakingPoolPull_effect {stakingPool : Address} {amount : ℕ}
    (run : approveStakingPoolPull d msg stakingPool amount w = .ok next) :
    w.treasury.roles .treasuryOps msg.sender = true ∧ ∃ token,
    AitToken.approve w.token d.treasury stakingPool amount = .ok token ∧ next = { w with token } := by
  simp only [approveStakingPoolPull, bind_eq_ok, pure_eq_ok, Roles.only_eq_ok, exists_const] at run
  obtain ⟨ops, _, _, token, approval, rfl⟩ := run
  exact ⟨ops, token, approval, rfl⟩

/-- A reward is approved, and then deposited by the pool or by whatever other code has been named. -/
theorem depositRewardToStakingPool_effect {foreign : Address → ℕ → World τ → Except Revert (World τ)}
    {stakingPool : Address} {amount : ℕ}
    (run : depositRewardToStakingPool d foreign msg stakingPool amount w = .ok next) :
    ∃ token, AitToken.approve w.token d.treasury stakingPool amount = .ok token ∧
      (StakingPool.depositReward d d.treasury amount { w with token } = .ok next ∨
        foreign stakingPool amount { w with token } = .ok next) := by
  simp only [depositRewardToStakingPool, bind_eq_ok] at run
  obtain ⟨_, _, _, _, _, _, token, approval, run⟩ := run
  refine ⟨token, approval, ?_⟩
  split at run
  · exact .inl run
  · split at run
    · cases run
    · exact .inr run

end Treasury
end Aide
