import Aide.Contracts.Guardrail
import Aide.Contracts.StakingPool

namespace Aide.Treasury
variable {τ : Type} [AitToken τ]

/-- The body of `withdrawOperatingExpenses` behind its breaker. -/
def outflowAllowed (d : Deployment) (amount : ℕ) (w : World τ) : Except Revert (Bool × World τ) :=
  if d.guardrail = 0 then
    pure (true, w)
  else do
    w.requireNotPaused
    Guardrail.evaluateOutflow d.treasury (w.balanceOf d.treasury) amount w

/-- The breaker in front of a withdrawal either lets it pass and changes nothing, or is left tripped
and nothing else is changed. -/
theorem outflowAllowed_cases {d : Deployment} {amount : ℕ} {w next : World τ} {allowed : Bool}
    (run : outflowAllowed d amount w = .ok (allowed, next)) :
    (allowed = true ∧ next = w ∧ (d.guardrail ≠ 0 → w.guardrail.paused = false ∧
      (0 < w.balanceOf d.treasury →
        amount * 10000 ≤ w.balanceOf d.treasury * w.guardrail.outflowBpsThreshold))) ∨
    (allowed = false ∧ next = Guardrail.trip w (Guardrail.tripEvents .outflow amount w)) := by
  unfold outflowAllowed at run
  split at run
  · rename_i unused
    cases pure_eq_ok.mp run
    exact Or.inl ⟨rfl, rfl, fun inUse => absurd unused inUse⟩
  · simp only [Guardrail.evaluateOutflow, bind_eq_ok] at run
    obtain ⟨_, _, _, _, evaluated⟩ := run
    obtain ⟨passed, same, checked⟩ | refused := Guardrail.evaluate_cases evaluated
    · exact Or.inl ⟨passed, same, fun _ => checked⟩
    · exact Or.inr refused

def setOperatingExpenseRecipient (msg : Msg) (recipient : Address) (allowed : Bool) (w : World τ) :
    Except Revert (World τ) := do
  w.treasury.roles.only .defaultAdmin msg.sender
  require (recipient ≠ 0) (.require "Treasury: zero recipient")
  pure ({ w with treasury := { w.treasury with
    operatingExpenseWhitelist :=
      Function.update w.treasury.operatingExpenseWhitelist recipient allowed } }.emit
    (.operatingExpenseRecipientUpdated recipient allowed))

def withdrawOperatingExpenses (d : Deployment) (msg : Msg) (amount : ℕ) (recipient : Address)
    (w : World τ) : Except Revert (World τ) := do
  w.treasury.roles.only .treasuryOps msg.sender
  require (w.treasury.operatingExpenseWhitelist recipient) (.require "Treasury: not whitelisted")
  let (allowed, w) ← outflowAllowed d amount w
  if allowed then do
    let w ← w.safeTransfer d d.treasury recipient amount
    pure (w.emit (.operatingExpensesWithdrawn recipient amount))
  else
    pure (w.emit (.operatingExpensesWithdrawBlocked recipient amount))

/-- Any account may call this, for any payer that has given the treasury an allowance. -/
def collectTax (d : Deployment) (sender payer : Address) (taxableBase : ℕ) (w : World τ) :
    Except Revert (ℕ × World τ) :=
  if taxableBase = 0 then
    pure (0, w)
  else do
    let product ← checkedMul taxableBase w.treasury.taxRateBps
    let fee := product / 10000
    if fee = 0 then
      pure (0, w)
    else do
      let w ← w.safeTransferFrom d d.treasury payer d.treasury fee
      pure (fee, w.emit (.protocolTaxCollected sender payer taxableBase fee))

/-- How a tax of `fee` reaches the treasury: not at all when it is zero, else by a pull. -/
def Collected (d : Deployment) (w : World τ) (payer : Address) (fee : ℕ) (token : τ) : Prop :=
  (fee = 0 ∧ token = w.token) ∨
    AitToken.transferFrom w.token (w.taxRates d) d.treasury payer d.treasury fee = .ok token

/-- Collecting a tax in an exact token is one exact move. -/
theorem Collected.moved {d : Deployment} {w : World ERC20} {payer : Address} {fee : ℕ}
    {token : ERC20} (collected : Collected d w payer fee token) :
    w.token.Moved token payer d.treasury fee := by
  obtain ⟨rfl, rfl⟩ | pull := collected
  · exact ERC20.Moved.refl ..
  · exact ERC20.transferFrom_moved pull

/-- The log of a tax collection: nothing is emitted when the fee is zero. -/
def taxLog (sender payer : Address) (taxableBase fee : ℕ) : List Event :=
  if fee = 0 then [] else [.protocolTaxCollected sender payer taxableBase fee]

theorem mem_taxLog {sender payer : Address} {taxableBase fee : ℕ} {e : Event}
    (member : e ∈ taxLog sender payer taxableBase fee) :
    e = .protocolTaxCollected sender payer taxableBase fee := by
  unfold taxLog at member
  split at member
  · cases member
  · exact List.mem_singleton.mp member

theorem filterMap_taxLog {α : Type} {sender payer : Address} {taxableBase fee : ℕ}
    (reads : Event → Option α)
    (none : reads (.protocolTaxCollected sender payer taxableBase fee) = none) :
    (taxLog sender payer taxableBase fee).filterMap reads = [] := by
  refine List.filterMap_eq_nil_iff.mpr fun e member => ?_
  rw [mem_taxLog member, none]

theorem collectTax_effect {d : Deployment} {sender payer : Address} {taxableBase fee : ℕ}
    {w next : World τ} (run : collectTax d sender payer taxableBase w = .ok (fee, next)) :
    fee = taxableBase * w.treasury.taxRateBps / 10000 ∧
      ∃ token, Collected d w payer fee token ∧
        next = { w with token, log := w.log ++ taxLog sender payer taxableBase fee } := by
  unfold collectTax at run
  split at run
  · rename_i empty
    cases pure_eq_ok.mp run
    exact ⟨by simp [empty], w.token, Or.inl ⟨rfl, rfl⟩, by simp [taxLog]⟩
  · simp only [bind_eq_ok, checkedMul_eq_ok] at run
    obtain ⟨_, ⟨_, rfl⟩, run⟩ := run
    split at run
    · rename_i untaxed
      cases pure_eq_ok.mp run
      exact ⟨untaxed.symm, w.token, Or.inl ⟨rfl, rfl⟩, by simp [taxLog]⟩
    · rename_i taxed
      simp only [bind_eq_ok, World.safeTransferFrom_eq_ok] at run
      obtain ⟨_, ⟨token, pull, rfl⟩, run⟩ := run
      cases pure_eq_ok.mp run
      exact ⟨rfl, token, Or.inr pull, by simp [taxLog, taxed, World.emit]⟩

/-- The token call of a tax collection. -/
def pullFee (d : Deployment) (w : World τ) (payer : Address) (fee : ℕ) (token : τ) :
    Except Revert τ :=
  if fee = 0 then .ok token
  else AitToken.transferFrom token (w.taxRates d) d.treasury payer d.treasury fee

/-- When a tax whose product does not overflow is collected. -/
theorem collectTax_eq_ok {d : Deployment} {sender payer : Address} {taxableBase fee : ℕ}
    {w next : World τ} (fits : taxableBase * w.treasury.taxRateBps ≤ uint256Max) :
    collectTax d sender payer taxableBase w = .ok (fee, next) ↔
      fee = taxableBase * w.treasury.taxRateBps / 10000 ∧
        ∃ token, pullFee d w payer fee w.token = .ok token ∧
          next = { w with token, log := w.log ++ taxLog sender payer taxableBase fee } := by
  unfold collectTax
  by_cases empty : taxableBase = 0
  · subst empty
    simp only [if_true, pure_eq_ok, Prod.mk.injEq, Nat.zero_mul, Nat.zero_div]
    constructor
    · rintro ⟨free, same⟩
      subst free
      exact ⟨rfl, w.token, rfl, by simp [taxLog, ← same]⟩
    · rintro ⟨free, token, pulled, effect⟩
      subst free
      cases pulled
      exact ⟨rfl, by simp [effect, taxLog]⟩
  · simp only [empty, if_false, bind_eq_ok, checkedMul_eq_ok]
    by_cases untaxed : taxableBase * w.treasury.taxRateBps / 10000 = 0
    · constructor
      · rintro ⟨_, ⟨_, rfl⟩, run⟩
        rw [if_pos untaxed] at run
        cases pure_eq_ok.mp run
        exact ⟨untaxed.symm, w.token, rfl, by simp [taxLog]⟩
      · rintro ⟨feeIs, token, pulled, effect⟩
        rw [untaxed] at feeIs
        subst feeIs
        cases pulled
        refine ⟨_, ⟨fits, rfl⟩, ?_⟩
        rw [if_pos untaxed, pure_eq_ok]
        simp [effect, taxLog]
    · constructor
      · rintro ⟨_, ⟨_, rfl⟩, run⟩
        simp only [untaxed, if_false, bind_eq_ok, World.safeTransferFrom_eq_ok] at run
        obtain ⟨_, ⟨token, pull, rfl⟩, run⟩ := run
        cases pure_eq_ok.mp run
        exact ⟨rfl, token, by simp [pullFee, untaxed, pull], by simp [taxLog, untaxed, World.emit]⟩
      · rintro ⟨feeIs, token, pulled, effect⟩
        subst feeIs
        simp only [pullFee, untaxed, if_false] at pulled
        refine ⟨_, ⟨fits, rfl⟩, ?_⟩
        simp only [untaxed, if_false, bind_eq_ok, World.safeTransferFrom_eq_ok]
        refine ⟨_, ⟨token, pulled, rfl⟩, ?_⟩
        rw [pure_eq_ok]
        simp [effect, taxLog, untaxed, World.emit]

def setTaxRate (msg : Msg) (newTaxRateBps : ℕ) (w : World τ) : Except Revert (World τ) := do
  w.treasury.roles.only .economist msg.sender
  require (newTaxRateBps ≤ 10000) (.require "Treasury: tax bps")
  pure ({ w with treasury := { w.treasury with taxRateBps := newTaxRateBps } }.emit
    (.taxRateUpdated newTaxRateBps))

def setWeeklySalaryCoefficient (msg : Msg) (coefficientS : ℕ) (w : World τ) :
    Except Revert (World τ) := do
  w.treasury.roles.only .economist msg.sender
  pure ({ w with treasury := { w.treasury with weeklySalaryCoefficientS := coefficientS } }.emit
    (.weeklySalaryCoefficientUpdated coefficientS))

def setCivilServant (msg : Msg) (agent : Address) (active : Bool) (w : World τ) :
    Except Revert (World τ) := do
  w.treasury.roles.only .registry msg.sender
  require (agent ≠ 0) (.require "Treasury: zero agent")
  pure ({ w with treasury := { w.treasury with
    isCivilServant := Function.update w.treasury.isCivilServant agent active } }.emit
    (.civilServantUpdated agent active))

def distributeSalary (d : Deployment) (msg : Msg) (agent : Address) (contributionRating : ℕ)
    (w : World τ) : Except Revert (World τ) := do
  w.treasury.roles.only .salary msg.sender
  w.requireRunning d
  require (w.treasury.isCivilServant agent) (.require "Treasury: not civil servant")
  let product ← checkedMul w.treasury.weeklySalaryCoefficientS contributionRating
  let amount := product / 10 ^ 18
  require (0 < amount) (.require "Treasury: zero salary")
  let token ← AitToken.mint w.token d.treasury agent amount
  pure ({ w with token }.emit (.salaryDistributed agent contributionRating amount))

def approveStakingPoolPull (d : Deployment) (msg : Msg) (stakingPool : Address) (amount : ℕ)
    (w : World τ) : Except Revert (World τ) := do
  w.treasury.roles.only .treasuryOps msg.sender
  require (stakingPool ≠ 0) (.require "Treasury: zero staking")
  let token ← AitToken.approve w.token d.treasury stakingPool amount
  pure { w with token }

/-- The callee is whatever contract stands at `stakingPool`: the deployed pool, or code from
outside the deployment, given by `foreign`. -/
def depositRewardToStakingPool (d : Deployment)
    (foreign : Address → ℕ → World τ → Except Revert (World τ)) (msg : Msg) (stakingPool : Address)
    (amount : ℕ) (w : World τ) : Except Revert (World τ) := do
  w.treasury.roles.only .treasuryOps msg.sender
  require (stakingPool ≠ 0) (.require "Treasury: zero staking")
  require (0 < amount) (.require "Treasury: zero reward")
  let token ← AitToken.approve w.token d.treasury stakingPool amount
  if stakingPool = d.stakingPool then
    StakingPool.depositReward d d.treasury amount { w with token }
  else if stakingPool ∈ d.contracts then
    .error .noSuchFunction
  else
    foreign stakingPool amount { w with token }

inductive Call
  | setOperatingExpenseRecipient (recipient : Address) (allowed : Bool)
  | withdrawOperatingExpenses (amount : ℕ) (recipient : Address)
  | collectTax (payer : Address) (taxableBase : ℕ)
  | setTaxRate (newTaxRateBps : ℕ)
  | setWeeklySalaryCoefficient (coefficientS : ℕ)
  | setCivilServant (agent : Address) (active : Bool)
  | distributeSalary (agent : Address) (contributionRating : ℕ)
  | approveStakingPoolPull (stakingPool : Address) (amount : ℕ)
  | depositRewardToStakingPool (stakingPool : Address) (amount : ℕ)
  | access (call : Roles.Call)

def exec (d : Deployment) (foreign : Address → ℕ → World τ → Except Revert (World τ)) (msg : Msg) :
    Call → World τ → Except Revert (World τ)
  | .setOperatingExpenseRecipient recipient allowed, w =>
    setOperatingExpenseRecipient msg recipient allowed w
  | .withdrawOperatingExpenses amount recipient, w =>
    withdrawOperatingExpenses d msg amount recipient w
  | .collectTax payer taxableBase, w => do
    let (_, w) ← collectTax d msg.sender payer taxableBase w
    pure w
  | .setTaxRate newTaxRateBps, w => setTaxRate msg newTaxRateBps w
  | .setWeeklySalaryCoefficient coefficientS, w => setWeeklySalaryCoefficient msg coefficientS w
  | .setCivilServant agent active, w => setCivilServant msg agent active w
  | .distributeSalary agent contributionRating, w =>
    distributeSalary d msg agent contributionRating w
  | .approveStakingPoolPull stakingPool amount, w =>
    approveStakingPoolPull d msg stakingPool amount w
  | .depositRewardToStakingPool stakingPool amount, w =>
    depositRewardToStakingPool d foreign msg stakingPool amount w
  | .access call, w => do
    let roles ← w.treasury.roles.exec msg.sender call
    pure { w with treasury := { w.treasury with roles } }

end Aide.Treasury
