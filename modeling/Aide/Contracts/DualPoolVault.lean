import Aide.Contracts.AIIdentityRegistry
import Aide.Contracts.Deploy

namespace Aide

inductive VaultEvent
  | financingThresholdUpdated (newThreshold : ℕ)
  | revenueRecorded (delta newCumulative : ℕ)
  | dividendTransferred (human : Address) (amount newCumulativeDistributed : ℕ)
  deriving DecidableEq

inductive VaultRevert
  | dividendProfitGate
  | humanMustBeEOA
  | aiPoolInsufficientBalance
  | aiPoolZeroRecipient
  | aiPoolHumanOrUnverifiedRecipient (recipient : Address)
  | reverted (error : Revert)
  deriving DecidableEq

/-- The storage and the logs of `DualPoolVault`, with its immutable recipient. -/
structure DualPoolVault where
  owner : Address
  humanDividendRecipient : Address
  financingThreshold : ℕ
  cumulativeRevenue : ℕ
  cumulativeDividendDistributed : ℕ
  systemSpendWhitelist : Address → Bool
  log : List VaultEvent

/-- The vault beside the deployment whose token and registry it uses. -/
structure Banked (τ : Type) where
  world : World τ
  vault : DualPoolVault

/-- `AiPoolManager.requireAiPoolTransferAllowed`. -/
def requireAiPoolTransferAllowed {τ : Type} (recipient : Address) (w : World τ)
    (systemSpendWhitelist : Address → Bool) : Except VaultRevert Unit :=
  if recipient = 0 then .error .aiPoolZeroRecipient
  else if AIIdentityRegistry.isVerifiedMachine w recipient then .ok ()
  else if systemSpendWhitelist recipient then .ok ()
  else .error (.aiPoolHumanOrUnverifiedRecipient recipient)

namespace DualPoolVault

/-- The constructor. `hasCode` tells the accounts with code. -/
def construct (hasCode : Address → Bool) (aitoken humanDividendRecipient : Address)
    (financingThreshold : ℕ) (initialOwner : Address) : Except VaultRevert DualPoolVault := do
  ensure (initialOwner ≠ 0) (.reverted .ownableInvalidOwner)
  ensure (aitoken ≠ 0) (.reverted (.require "DualPool: zero token"))
  ensure (humanDividendRecipient ≠ 0) (.reverted (.require "DualPool: zero human"))
  ensure (hasCode humanDividendRecipient = false) .humanMustBeEOA
  pure {
    owner := initialOwner
    humanDividendRecipient
    financingThreshold
    cumulativeRevenue := 0
    cumulativeDividendDistributed := 0
    systemSpendWhitelist := fun _ => false
    log := [] }

/-- `sub` of Yul, which wraps. -/
def yulSub (a b : ℕ) : ℕ := (a + 2 ^ 256 - b) % 2 ^ 256

def availableDividendAsm (revenue threshold distributed walletBalance : ℕ) : ℕ :=
  let surplus := if threshold < revenue then yulSub revenue threshold else 0
  let afterPaid := if distributed < surplus then yulSub surplus distributed else 0
  if walletBalance < afterPaid then walletBalance else afterPaid

variable {τ : Type}

def onlyOwner (sender : Address) (s : Banked τ) : Except VaultRevert Unit :=
  ensure (sender = s.vault.owner) (.reverted .ownableUnauthorizedAccount)

def emit (s : Banked τ) (event : VaultEvent) : Banked τ :=
  { s with vault := { s.vault with log := s.vault.log ++ [event] } }

def setFinancingThreshold (msg : Msg) (newThreshold : ℕ) (s : Banked τ) :
    Except VaultRevert (Banked τ) := do
  onlyOwner msg.sender s
  pure (emit { s with vault := { s.vault with financingThreshold := newThreshold } }
    (.financingThresholdUpdated newThreshold))

def recordRevenue (msg : Msg) (delta : ℕ) (s : Banked τ) : Except VaultRevert (Banked τ) := do
  onlyOwner msg.sender s
  let cumulativeRevenue ← (checkedAdd s.vault.cumulativeRevenue delta).mapError .reverted
  pure (emit { s with vault := { s.vault with cumulativeRevenue } }
    (.revenueRecorded delta cumulativeRevenue))

variable [AitToken τ]

/-- `address` is the vault's own, as in all of its calls. -/
def availableDividend (address : Address) (s : Banked τ) : ℕ :=
  availableDividendAsm s.vault.cumulativeRevenue s.vault.financingThreshold
    s.vault.cumulativeDividendDistributed (s.world.balanceOf address)

def transferToDividend (d : Deployment) (address : Address) (msg : Msg) (amount : ℕ) (s : Banked τ) :
    Except VaultRevert (Banked τ) := do
  onlyOwner msg.sender s
  ensure (amount ≠ 0) .dividendProfitGate
  ensure (amount ≤ availableDividend address s) .dividendProfitGate
  let cumulativeDividendDistributed ←
    (checkedAdd s.vault.cumulativeDividendDistributed amount).mapError .reverted
  let world ← (s.world.safeTransfer d address s.vault.humanDividendRecipient amount).mapError .reverted
  pure (emit { world, vault := { s.vault with cumulativeDividendDistributed } }
    (.dividendTransferred s.vault.humanDividendRecipient amount cumulativeDividendDistributed))

def transferAiPoolAIT (d : Deployment) (address : Address) (msg : Msg) (recipient : Address)
    (amount : ℕ) (s : Banked τ) : Except VaultRevert (Banked τ) := do
  onlyOwner msg.sender s
  requireAiPoolTransferAllowed recipient s.world s.vault.systemSpendWhitelist
  ensure (amount ≤ s.world.balanceOf address) .aiPoolInsufficientBalance
  let world ← (s.world.safeTransfer d address recipient amount).mapError .reverted
  pure { s with world }

def transferOwnership (msg : Msg) (newOwner : Address) (s : Banked τ) : Except VaultRevert (Banked τ) := do
  onlyOwner msg.sender s
  ensure (newOwner ≠ 0) (.reverted .ownableInvalidOwner)
  pure { s with vault := { s.vault with owner := newOwner } }

def renounceOwnership (msg : Msg) (s : Banked τ) : Except VaultRevert (Banked τ) := do
  onlyOwner msg.sender s
  pure { s with vault := { s.vault with owner := 0 } }

inductive Call
  | setFinancingThreshold (newThreshold : ℕ)
  | recordRevenue (delta : ℕ)
  | transferToDividend (amount : ℕ)
  | transferAiPoolAIT (recipient : Address) (amount : ℕ)
  | transferOwnership (newOwner : Address)
  | renounceOwnership

def exec (d : Deployment) (address : Address) (msg : Msg) : Call → Banked τ → Except VaultRevert (Banked τ)
  | .setFinancingThreshold newThreshold, s => setFinancingThreshold msg newThreshold s
  | .recordRevenue delta, s => recordRevenue msg delta s
  | .transferToDividend amount, s => transferToDividend d address msg amount s
  | .transferAiPoolAIT recipient amount, s => transferAiPoolAIT d address msg recipient amount s
  | .transferOwnership newOwner, s => transferOwnership msg newOwner s
  | .renounceOwnership, s => renounceOwnership msg s

end DualPoolVault

end Aide
