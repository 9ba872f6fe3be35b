import Aide.Contracts.AIToken

namespace Aide

/-- The addresses of one deployment. `guardrail` is the zero address where the circuit breaker
is not in use; the contracts are distinct accounts and none of them is the zero address. -/
structure Deployment where
  aitoken : Address
  treasury : Address
  guardrail : Address
  registry : Address
  bankAudit : Address
  internalMarket : Address
  taskMarket : Address
  stakingPool : Address
  distinct : [aitoken, treasury, guardrail, registry, bankAudit, internalMarket, taskMarket,
    stakingPool].Nodup
  deployed : 0 ∉ [aitoken, treasury, registry, bankAudit, internalMarket, taskMarket, stakingPool]

namespace Deployment

def contracts (d : Deployment) : List Address :=
  [d.aitoken, d.treasury, d.guardrail, d.registry, d.bankAudit, d.internalMarket, d.taskMarket,
    d.stakingPool]

/-- An account outside the deployment. The contracts call each other only from their own code. -/
def Outside (d : Deployment) (account : Address) : Prop :=
  account ≠ 0 ∧ account ∉ d.contracts

instance (d : Deployment) (account : Address) : Decidable (d.Outside account) :=
  inferInstanceAs (Decidable (_ ∧ _))

variable {d : Deployment} {account : Address}

theorem Outside.ne (outside : d.Outside account) {contract : Address}
    (member : contract ∈ d.contracts) : account ≠ contract :=
  fun same => outside.2 (same ▸ member)

theorem Outside.ne_internalMarket (outside : d.Outside account) : account ≠ d.internalMarket :=
  outside.ne (by simp [contracts])

theorem Outside.ne_taskMarket (outside : d.Outside account) : account ≠ d.taskMarket :=
  outside.ne (by simp [contracts])

theorem Outside.ne_stakingPool (outside : d.Outside account) : account ≠ d.stakingPool :=
  outside.ne (by simp [contracts])

theorem Outside.ne_treasury (outside : d.Outside account) : account ≠ d.treasury :=
  outside.ne (by simp [contracts])

/-- Two contracts at different places of the list are different accounts. -/
theorem contracts_ne (d : Deployment) {i j : ℕ} {a b : Address} (apart : i ≠ j)
    (left : d.contracts[i]? = some a) (right : d.contracts[j]? = some b) : a ≠ b := by
  rintro rfl
  have bound := (List.getElem?_eq_some_iff.mp left).1
  exact apart ((List.getElem?_inj bound d.distinct).mp (left.trans right.symm))

theorem treasury_ne_internalMarket (d : Deployment) : d.treasury ≠ d.internalMarket :=
  d.contracts_ne (i := 1) (j := 5) (by decide) rfl rfl

theorem treasury_ne_taskMarket (d : Deployment) : d.treasury ≠ d.taskMarket :=
  d.contracts_ne (i := 1) (j := 6) (by decide) rfl rfl

theorem treasury_ne_stakingPool (d : Deployment) : d.treasury ≠ d.stakingPool :=
  d.contracts_ne (i := 1) (j := 7) (by decide) rfl rfl

theorem internalMarket_ne_taskMarket (d : Deployment) : d.internalMarket ≠ d.taskMarket :=
  d.contracts_ne (i := 5) (j := 6) (by decide) rfl rfl

theorem internalMarket_ne_stakingPool (d : Deployment) : d.internalMarket ≠ d.stakingPool :=
  d.contracts_ne (i := 5) (j := 7) (by decide) rfl rfl

theorem taskMarket_ne_stakingPool (d : Deployment) : d.taskMarket ≠ d.stakingPool :=
  d.contracts_ne (i := 6) (j := 7) (by decide) rfl rfl

end Deployment

structure Guardrail where
  roles : Roles
  treasury : Address
  internalMarket : Address
  paused : Bool
  outflowBpsThreshold : ℕ
  maxFeeBpsOfNotional : ℕ

structure AIIdentityRegistry where
  roles : Roles
  teeAuthority : Address
  verified : Address → Bool
  lastProof : Address → Bytes32

structure AIBank where
  roles : Roles
  tradable : ℕ → Bool
  codeAuditHash : ℕ → Bytes32

structure Treasury where
  roles : Roles
  operatingExpenseWhitelist : Address → Bool
  isCivilServant : Address → Bool
  taxRateBps : ℕ
  weeklySalaryCoefficientS : ℕ

/-- An order of `InternalMarket`. A missing key of the mapping reads as the zero order. -/
structure Order where
  id : ℕ := 0
  companyId : ℕ := 0
  maker : Address := 0
  side : Side := .buy
  priceRay : ℕ := 0
  remaining : ℕ := 0
  active : Bool := false
  deriving DecidableEq

structure InternalMarket where
  roles : Roles
  nextCompanyId : ℕ
  nextOrderId : ℕ
  vstkBalance : ℕ → Address → ℕ
  totalVstk : ℕ → ℕ
  companyVault : ℕ → Address
  accAitPerShare : ℕ → ℕ
  rewardDebt : ℕ → Address → ℕ
  dividendPayoutVault : ℕ → Address → Address
  aitBalance : Address → ℕ
  orders : ℕ → Order

inductive Status
  | open | funded | assigned | submitted | completed | cancelled
  deriving DecidableEq

structure Task where
  publisher : Address := 0
  bounty : ℕ := 0
  lockedAmount : ℕ := 0
  worker : Address := 0
  aiPoolRecipient : Address := 0
  status : Status := .open
  resultHash : Bytes32 := 0
  zkProofCommitment : Bytes32 := 0
  deriving DecidableEq

structure TaskMarket where
  nextTaskId : ℕ
  tasks : ℕ → Task

structure StakingPool where
  totalStaked : ℕ
  accRewardPerShare : ℕ
  staked : Address → ℕ
  rewardDebt : Address → ℕ

inductive CircuitReason
  | outflow
  | fee
  deriving DecidableEq

/-- The logs of all contracts but the token. -/
inductive Event
  | companyRegistered (companyId : ℕ) (vault admin : Address)
  | sharesIssued (companyId : ℕ) (recipient : Address) (amount newTotal : ℕ)
  | aitDeposited (user : Address) (amount : ℕ)
  | aitWithdrawn (user : Address) (amount : ℕ)
  | orderPlaced (orderId companyId : ℕ) (maker : Address) (side : Side)
      (priceRay amount timestamp engineHint : ℕ)
  | orderCancelled (orderId : ℕ) (maker : Address)
  | tradeSettled (companyId takerOrderId makerOrderId : ℕ) (buyer seller : Address)
      (vstkAmount aitNotional fee : ℕ) (settlementId : Bytes32)
  | tradeSettledBlocked (makerOrderId takerOrderId aitNotional : ℕ) (settlementId : Bytes32)
  | profitDepositBlocked (companyId grossAmount : ℕ)
  | profitDeposited (companyId : ℕ) (payer : Address) (gross fee rewardBase : ℕ)
  | dividendClaimed (companyId : ℕ) (holder recipient : Address) (amount : ℕ)
  | payoutVaultSet (companyId : ℕ) (holder vault : Address)
  | taskPosted (taskId : ℕ) (publisher : Address) (bounty : ℕ)
  | taskFunded (taskId lockedAmount : ℕ)
  | workerAssigned (taskId : ℕ) (worker aiPoolRecipient : Address)
  | workSubmitted (taskId : ℕ) (worker : Address) (resultHash : Bytes32)
  | zkProofCommitted (taskId : ℕ) (commitment : Bytes32)
  | taskApproved (taskId : ℕ) (approver : Address)
  | taskSettled (taskId : ℕ) (aiPoolRecipient : Address) (grossAmount fee netToAiPool : ℕ)
  | taskCancelled (taskId : ℕ)
  | peersWired (treasury internalMarket : Address)
  | circuitBroken (reason : CircuitReason) (detail : ℕ)
  | circuitUnpaused (account : Address)
  | outflowThresholdUpdated (bps : ℕ)
  | maxFeeBpsUpdated (bps : ℕ)
  | civilServantUpdated (agent : Address) (active : Bool)
  | taxRateUpdated (taxRateBps : ℕ)
  | weeklySalaryCoefficientUpdated (coefficientS : ℕ)
  | salaryDistributed (agent : Address) (contributionRating amountMinted : ℕ)
  | protocolTaxCollected (caller payer : Address) (taxableBase fee : ℕ)
  | operatingExpenseRecipientUpdated (recipient : Address) (allowed : Bool)
  | operatingExpensesWithdrawn (recipient : Address) (amount : ℕ)
  | operatingExpensesWithdrawBlocked (recipient : Address) (amount : ℕ)
  | staked (user : Address) (amount : ℕ)
  | unstaked (user : Address) (amount : ℕ)
  | rewardDeposited (amount newAccRewardPerShare : ℕ)
  | rewardClaimed (user : Address) (amount : ℕ)
  | machineVerified (agent : Address) (proof : Bytes32)
  | machineRevoked (agent : Address)
  | teeMachineAttested (agent : Address) (deadline : ℕ) (salt digest : Bytes32)
  | listingApproved (companyId : ℕ) (codeAuditHash : Bytes32) (auditor : Address)
  | listingRevoked (companyId : ℕ) (admin : Address)
  deriving DecidableEq

/-- The token behind the immutable `aitoken` of the contracts. -/
class AitToken (τ : Type) where
  balanceOf : τ → Address → ℕ
  allowance : τ → Address → Address → ℕ
  transfer : τ → TaxRates → Address → Address → ℕ → Except Revert τ
  transferFrom : τ → TaxRates → Address → Address → Address → ℕ → Except Revert τ
  approve : τ → Address → Address → ℕ → Except Revert τ
  mint : τ → Address → Address → ℕ → Except Revert τ

instance : AitToken ERC20 where
  balanceOf := ERC20.balanceOf
  allowance := ERC20.allowance
  transfer t _ := t.transfer
  transferFrom t _ := t.transferFrom
  approve := ERC20.approve
  mint t _ := t.mint

instance : AitToken AIToken where
  balanceOf t := t.balanceOf
  allowance t := t.allowance
  transfer := AIToken.transfer
  transferFrom := AIToken.transferFrom
  approve := AIToken.approve
  mint := AIToken.mint

/-- The storage of every contract of a deployment, with the logs emitted so far, oldest first. -/
structure World (τ : Type) where
  token : τ
  guardrail : Guardrail
  registry : AIIdentityRegistry
  bank : AIBank
  treasury : Treasury
  market : InternalMarket
  tasks : TaskMarket
  pool : StakingPool
  log : List Event

namespace World
variable {τ : Type} [AitToken τ]

def balanceOf (w : World τ) (account : Address) : ℕ := AitToken.balanceOf w.token account

def emit (w : World τ) (event : Event) : World τ := { w with log := w.log ++ [event] }

/-- Only `Treasury` answers `getCurrentTaxRate`. -/
def taxRates (w : World τ) (d : Deployment) : TaxRates := fun account =>
  if account = d.treasury then .ok w.treasury.taxRateBps else .error .noSuchFunction

/-- `aitoken.safeTransfer(dst, value)` called by the contract `sender`. -/
def safeTransfer (w : World τ) (d : Deployment) (sender dst : Address) (value : ℕ) :
    Except Revert (World τ) := do
  let token ← AitToken.transfer w.token (w.taxRates d) sender dst value
  pure { w with token }

/-- `aitoken.safeTransferFrom(src, dst, value)` called by the contract `spender`. -/
def safeTransferFrom (w : World τ) (d : Deployment) (spender src dst : Address) (value : ℕ) :
    Except Revert (World τ) := do
  let token ← AitToken.transferFrom w.token (w.taxRates d) spender src dst value
  pure { w with token }

theorem safeTransfer_eq_ok {w next : World τ} {d : Deployment} {sender dst : Address} {value : ℕ} :
    w.safeTransfer d sender dst value = .ok next ↔
      ∃ token, AitToken.transfer w.token (w.taxRates d) sender dst value = .ok token ∧
        { w with token } = next := by
  simp only [safeTransfer, bind_eq_ok, pure_eq_ok]

theorem safeTransferFrom_eq_ok {w next : World τ} {d : Deployment} {spender src dst : Address}
    {value : ℕ} :
    w.safeTransferFrom d spender src dst value = .ok next ↔
      ∃ token, AitToken.transferFrom w.token (w.taxRates d) spender src dst value = .ok token ∧
        { w with token } = next := by
  simp only [safeTransferFrom, bind_eq_ok, pure_eq_ok]

/-- `Guardrail.requireNotPaused`. -/
def requireNotPaused (w : World τ) : Except Revert Unit :=
  require (w.guardrail.paused = false) .systemPaused

/-- `if (address(guardrail) != address(0)) guardrail.requireNotPaused();` -/
def requireRunning (w : World τ) (d : Deployment) : Except Revert Unit :=
  if d.guardrail = 0 then .ok () else w.requireNotPaused

end World

end Aide
