import Aide.Contracts.Deploy
import Aide.Foundation.Journal

namespace Aide

/-- What the contracts keep, but for their role tables and for the token: the state of the protocol as
somebody knows it who has read nothing but the logs. -/
structure Books where
  peerTreasury : Address
  peerMarket : Address
  paused : Bool
  outflowBpsThreshold : ℕ
  maxFeeBpsOfNotional : ℕ
  verified : Address → Bool
  lastProof : Address → Bytes32
  tradable : ℕ → Bool
  codeAuditHash : ℕ → Bytes32
  operatingExpenseWhitelist : Address → Bool
  isCivilServant : Address → Bool
  taxRateBps : ℕ
  weeklySalaryCoefficientS : ℕ
  nextCompanyId : ℕ
  nextOrderId : ℕ
  vstkBalance : ℕ → Address → ℕ
  totalVstk : ℕ → ℕ
  companyVault : ℕ → Address
  accAitPerShare : ℕ → ℕ
  rewardDebt : ℕ → Address → ℕ
  dividendPayoutVault : ℕ → Address → Address
  aitBalance : Address → ℕ
  orders : ℕ → Order
  tasks : TaskMarket
  pool : StakingPool
  /-- The task that has been approved and is about to be settled. Between two calls there is none. -/
  approved : Option ℕ

def World.books {τ : Type} (w : World τ) : Books where
  peerTreasury := w.guardrail.treasury
  peerMarket := w.guardrail.internalMarket
  paused := w.guardrail.paused
  outflowBpsThreshold := w.guardrail.outflowBpsThreshold
  maxFeeBpsOfNotional := w.guardrail.maxFeeBpsOfNotional
  verified := w.registry.verified
  lastProof := w.registry.lastProof
  tradable := w.bank.tradable
  codeAuditHash := w.bank.codeAuditHash
  operatingExpenseWhitelist := w.treasury.operatingExpenseWhitelist
  isCivilServant := w.treasury.isCivilServant
  taxRateBps := w.treasury.taxRateBps
  weeklySalaryCoefficientS := w.treasury.weeklySalaryCoefficientS
  nextCompanyId := w.market.nextCompanyId
  nextOrderId := w.market.nextOrderId
  vstkBalance := w.market.vstkBalance
  totalVstk := w.market.totalVstk
  companyVault := w.market.companyVault
  accAitPerShare := w.market.accAitPerShare
  rewardDebt := w.market.rewardDebt
  dividendPayoutVault := w.market.dividendPayoutVault
  aitBalance := w.market.aitBalance
  orders := w.market.orders
  tasks := w.tasks
  pool := w.pool
  approved := none

namespace Books
open InternalMarket (one party)

def putTask (b : Books) (taskId : ℕ) (task : Task) : Books :=
  { b with tasks := { b.tasks with tasks := Function.update b.tasks.tasks taskId task } }

/-- The shares of a company once `seller` has given some of them away. -/
def afterSale (b : Books) (companyId : ℕ) (seller : Address) (vstkAmount : ℕ) : Address → ℕ :=
  Function.update (b.vstkBalance companyId) seller (b.vstkBalance companyId seller - vstkAmount)

def putDebt (b : Books) (companyId : ℕ) (holder : Address) (debt : ℕ) : Books :=
  { b with
    rewardDebt := Function.update b.rewardDebt companyId
      (Function.update (b.rewardDebt companyId) holder debt) }

def putAit (b : Books) (user : Address) (amount : ℕ) : Books :=
  { b with aitBalance := Function.update b.aitBalance user amount }

/-- What a stake has earned since the pool was opened. -/
def accumulated (b : Books) (user : Address) : ℕ :=
  b.pool.staked user * b.pool.accRewardPerShare / 10 ^ 18

/-- The stake of a user who has been paid everything up to now. -/
def putStake (b : Books) (user : Address) (staked totalStaked : ℕ) : Books :=
  { b with pool := { b.pool with
      staked := Function.update b.pool.staked user staked
      totalStaked
      rewardDebt := Function.update b.pool.rewardDebt user
        (staked * b.pool.accRewardPerShare / 10 ^ 18) } }

/-- How a log is booked. -/
def read (c : TeeCrypto) (b : Books) : Event → Books
  | .companyRegistered companyId vault _ =>
    { b with nextCompanyId := companyId + 1, companyVault := Function.update b.companyVault companyId vault }
  | .sharesIssued companyId recipient amount newTotal =>
    { b.putDebt companyId recipient
        (b.rewardDebt companyId recipient + amount * b.accAitPerShare companyId / one) with
      vstkBalance := Function.update b.vstkBalance companyId
        (Function.update (b.vstkBalance companyId) recipient (b.vstkBalance companyId recipient + amount))
      totalVstk := Function.update b.totalVstk companyId newTotal }
  | .aitDeposited user amount => b.putAit user (b.aitBalance user + amount)
  | .aitWithdrawn user amount => b.putAit user (b.aitBalance user - amount)
  | .orderPlaced id companyId maker side priceRay amount _ _ =>
    { b with
      nextOrderId := id + 1
      orders := Function.update b.orders id
        { id, companyId, maker, side, priceRay, remaining := amount, active := true } }
  | .orderCancelled id _ =>
    { b with orders := Function.update b.orders id { b.orders id with active := false } }
  | .tradeSettled companyId taker maker buyer seller vstkAmount aitNotional _ _ =>
    { b with
      orders := Function.update (Function.update b.orders maker ((b.orders maker).fill vstkAmount)) taker
        ((b.orders taker).fill vstkAmount)
      aitBalance := Function.update b.aitBalance buyer (b.aitBalance buyer - aitNotional)
      vstkBalance := Function.update b.vstkBalance companyId
        (Function.update (b.afterSale companyId seller vstkAmount) buyer
          (b.afterSale companyId seller vstkAmount buyer + vstkAmount)) }
  | .profitDeposited companyId _ _ _ rewardBase =>
    { b with
      accAitPerShare := Function.update b.accAitPerShare companyId
        (b.accAitPerShare companyId + rewardBase * one / b.totalVstk companyId) }
  | .dividendClaimed companyId holder _ amount =>
    b.putDebt companyId holder (b.rewardDebt companyId holder + amount)
  | .payoutVaultSet companyId holder vault =>
    { b with
      dividendPayoutVault := Function.update b.dividendPayoutVault companyId
        (Function.update (b.dividendPayoutVault companyId) holder vault) }
  | .taskPosted taskId publisher bounty =>
    { b with tasks := {
        nextTaskId := taskId + 1
        tasks := Function.update b.tasks.tasks taskId { publisher, bounty } } }
  | .taskFunded taskId lockedAmount =>
    b.putTask taskId { b.tasks.tasks taskId with lockedAmount, status := .funded }
  | .workerAssigned taskId worker aiPoolRecipient =>
    b.putTask taskId { b.tasks.tasks taskId with worker, aiPoolRecipient, status := .assigned }
  | .workSubmitted taskId _ resultHash =>
    b.putTask taskId { b.tasks.tasks taskId with resultHash, status := .submitted }
  | .zkProofCommitted taskId commitment =>
    b.putTask taskId { b.tasks.tasks taskId with zkProofCommitment := commitment }
  | .taskApproved taskId _ => { b with approved := some taskId }
  | .taskSettled taskId .. =>
    { b.putTask taskId { b.tasks.tasks taskId with lockedAmount := 0, status := .completed } with
      approved := none }
  | .taskCancelled taskId =>
    b.putTask taskId { b.tasks.tasks taskId with lockedAmount := 0, status := .cancelled }
  | .peersWired treasury internalMarket =>
    { b with peerTreasury := treasury, peerMarket := internalMarket }
  | .circuitBroken .. => { b with paused := true }
  | .circuitUnpaused _ => { b with paused := false }
  | .outflowThresholdUpdated bps => { b with outflowBpsThreshold := bps }
  | .maxFeeBpsUpdated bps => { b with maxFeeBpsOfNotional := bps }
  | .civilServantUpdated agent active =>
    { b with isCivilServant := Function.update b.isCivilServant agent active }
  | .taxRateUpdated taxRateBps => { b with taxRateBps }
  | .weeklySalaryCoefficientUpdated coefficientS => { b with weeklySalaryCoefficientS := coefficientS }
  | .operatingExpenseRecipientUpdated recipient allowed =>
    { b with operatingExpenseWhitelist := Function.update b.operatingExpenseWhitelist recipient allowed }
  | .staked user amount =>
    b.putStake user (b.pool.staked user + amount) (b.pool.totalStaked + amount)
  | .unstaked user amount =>
    b.putStake user (b.pool.staked user - amount) (b.pool.totalStaked - amount)
  | .rewardDeposited _ newAccRewardPerShare =>
    { b with pool := { b.pool with accRewardPerShare := newAccRewardPerShare } }
  | .rewardClaimed user _ =>
    { b with pool := { b.pool with
        rewardDebt := Function.update b.pool.rewardDebt user (b.accumulated user) } }
  | .machineVerified agent proof =>
    { b with
      verified := Function.update b.verified agent true
      lastProof := Function.update b.lastProof agent proof }
  | .machineRevoked agent => { b with verified := Function.update b.verified agent false }
  | .teeMachineAttested agent _ _ digest =>
    { b with
      verified := Function.update b.verified agent true
      lastProof := Function.update b.lastProof agent (c.keccakTeeProof digest) }
  | .listingApproved companyId codeAuditHash _ =>
    { b with
      tradable := Function.update b.tradable companyId true
      codeAuditHash := Function.update b.codeAuditHash companyId codeAuditHash }
  | .listingRevoked companyId _ => { b with tradable := Function.update b.tradable companyId false }
  | .tradeSettledBlocked .. | .profitDepositBlocked .. | .salaryDistributed ..
  | .protocolTaxCollected .. | .operatingExpensesWithdrawn .. | .operatingExpensesWithdrawBlocked .. => b

def Registered (b : Books) (companyId : ℕ) : Prop := companyId ≠ 0 ∧ companyId < b.nextCompanyId

def Posted (b : Books) (taskId : ℕ) : Prop := taskId ≠ 0 ∧ taskId < b.tasks.nextTaskId

instance (b : Books) (taskId : ℕ) : Decidable (b.Posted taskId) := inferInstanceAs (Decidable (_ ∧ _))

/-- The breaker lets everything pass where it is not in use. -/
def Running (d : Deployment) (b : Books) : Prop := d.guardrail ≠ 0 → b.paused = false

/-- The breaker lets a fee pass on a trade or on a profit. -/
def FeeAllowed (d : Deployment) (b : Books) (fee notional : ℕ) : Prop :=
  d.guardrail ≠ 0 → b.paused = false ∧ fee * 10000 ≤ notional * b.maxFeeBpsOfNotional

/-- The tax on an amount. -/
def tax (b : Books) (taxableBase : ℕ) : ℕ := taxableBase * b.taxRateBps / 10000

/-- Two orders that can be traded against each other for the given amounts. -/
structure Settleable (b : Books) (maker taker vstkAmount aitNotional : ℕ) : Prop where
  makerActive : (b.orders maker).active = true
  takerActive : (b.orders taker).active = true
  sameCompany : (b.orders maker).companyId = (b.orders taker).companyId
  opposite : (b.orders maker).side ≠ (b.orders taker).side
  tradable : b.tradable (b.orders maker).companyId = true
  vstkPositive : vstkAmount ≠ 0
  aitPositive : aitNotional ≠ 0
  makerFits : vstkAmount ≤ (b.orders maker).remaining
  takerFits : vstkAmount ≤ (b.orders taker).remaining

/-- When a log may be written: the rules of the protocol, as far as they are about what is booked. The
rest of a rule is about who the sender is and about the token. -/
def Admits (c : TeeCrypto) (d : Deployment) (b : Books) : Event → Prop
  | .companyRegistered companyId _ _ => companyId = b.nextCompanyId
  | .sharesIssued companyId recipient amount newTotal =>
    b.Registered companyId ∧ recipient ≠ 0 ∧ newTotal = b.totalVstk companyId + amount
  | .aitDeposited .. => True
  | .aitWithdrawn user amount => amount ≤ b.aitBalance user
  | .orderPlaced id companyId maker side priceRay amount _ _ =>
    id = b.nextOrderId ∧ b.Registered companyId ∧ b.tradable companyId = true ∧ amount ≠ 0 ∧ priceRay ≠ 0 ∧
      (side = .sell → amount ≤ b.vstkBalance companyId maker)
  | .orderCancelled id maker => (b.orders id).active = true ∧ (b.orders id).maker = maker
  | .tradeSettled companyId taker maker buyer seller vstkAmount aitNotional fee _ =>
    b.Settleable maker taker vstkAmount aitNotional ∧ companyId = (b.orders maker).companyId ∧
      buyer = party .buy (b.orders maker) (b.orders taker) ∧
      seller = party .sell (b.orders maker) (b.orders taker) ∧
      aitNotional ≤ b.aitBalance buyer ∧ vstkAmount ≤ b.vstkBalance companyId seller ∧
      fee = b.tax aitNotional ∧ fee ≤ aitNotional ∧ b.FeeAllowed d fee aitNotional
  | .tradeSettledBlocked maker taker aitNotional _ =>
    b.paused = true ∧ ∃ vstkAmount, b.Settleable maker taker vstkAmount aitNotional
  | .profitDepositBlocked companyId grossAmount =>
    b.paused = true ∧ b.Registered companyId ∧ grossAmount ≠ 0
  | .profitDeposited companyId _ gross fee rewardBase =>
    b.Registered companyId ∧ gross ≠ 0 ∧ fee = b.tax gross ∧ rewardBase + fee = gross ∧
      b.FeeAllowed d fee gross
  | .dividendClaimed companyId holder recipient amount =>
    0 < amount ∧ b.rewardDebt companyId holder + amount =
        b.vstkBalance companyId holder * b.accAitPerShare companyId / one ∧
      recipient = if b.dividendPayoutVault companyId holder = 0 then holder
        else b.dividendPayoutVault companyId holder
  | .payoutVaultSet companyId holder _ => b.vstkBalance companyId holder ≠ 0
  | .taskPosted taskId _ _ => b.approved = none ∧ taskId = b.tasks.nextTaskId
  | .taskFunded taskId lockedAmount =>
    b.approved = none ∧ (b.tasks.tasks taskId).status = .open ∧
      lockedAmount = (b.tasks.tasks taskId).bounty ∧ lockedAmount ≠ 0
  | .workerAssigned taskId _ aiPoolRecipient =>
    b.approved = none ∧ (b.tasks.tasks taskId).status = .funded ∧ b.verified aiPoolRecipient = true
  | .workSubmitted taskId worker _ =>
    b.approved = none ∧ (b.tasks.tasks taskId).status = .assigned ∧
      worker = (b.tasks.tasks taskId).worker
  | .zkProofCommitted taskId _ =>
    b.approved = none ∧
      ((b.tasks.tasks taskId).status = .submitted ∨ (b.tasks.tasks taskId).status = .assigned)
  | .taskApproved taskId approver =>
    b.approved = none ∧ (b.tasks.tasks taskId).status = .submitted ∧
      approver = (b.tasks.tasks taskId).publisher
  | .taskSettled taskId aiPoolRecipient grossAmount fee netToAiPool =>
    b.approved = some taskId ∧ (b.tasks.tasks taskId).status = .submitted ∧
      aiPoolRecipient = (b.tasks.tasks taskId).aiPoolRecipient ∧ b.verified aiPoolRecipient = true ∧
      grossAmount = (b.tasks.tasks taskId).lockedAmount ∧ grossAmount ≠ 0 ∧ fee = b.tax grossAmount ∧
      netToAiPool + fee = grossAmount ∧ b.Running d
  | .taskCancelled taskId =>
    b.approved = none ∧ b.Posted taskId ∧ (b.tasks.tasks taskId).status ≠ .completed ∧
      (b.tasks.tasks taskId).status ≠ .cancelled
  | .peersWired treasury internalMarket => b.peerTreasury = 0 ∧ treasury ≠ 0 ∧ internalMarket ≠ 0
  | .circuitBroken .. => b.paused = false
  | .circuitUnpaused _ => True
  | .outflowThresholdUpdated bps | .maxFeeBpsUpdated bps | .taxRateUpdated bps => bps ≤ 10000
  | .civilServantUpdated agent _ => agent ≠ 0
  | .weeklySalaryCoefficientUpdated _ => True
  | .salaryDistributed agent contributionRating amountMinted =>
    b.isCivilServant agent = true ∧ 0 < amountMinted ∧
      amountMinted = b.weeklySalaryCoefficientS * contributionRating / 10 ^ 18 ∧ b.Running d
  | .protocolTaxCollected _ _ taxableBase fee => 0 < fee ∧ fee = b.tax taxableBase
  | .operatingExpenseRecipientUpdated recipient _ => recipient ≠ 0
  | .operatingExpensesWithdrawn recipient _ =>
    b.operatingExpenseWhitelist recipient = true ∧ b.Running d
  | .operatingExpensesWithdrawBlocked recipient _ =>
    b.operatingExpenseWhitelist recipient = true ∧ b.paused = true
  | .staked _ amount => 0 < amount
  | .unstaked user amount => 0 < amount ∧ amount ≤ b.pool.staked user ∧ amount ≤ b.pool.totalStaked
  | .rewardDeposited amount newAccRewardPerShare =>
    0 < amount ∧ b.pool.totalStaked ≠ 0 ∧
      newAccRewardPerShare = b.pool.accRewardPerShare + amount * 10 ^ 18 / b.pool.totalStaked
  | .rewardClaimed user amount => 0 < amount ∧ b.pool.rewardDebt user + amount = b.accumulated user
  | .machineVerified agent proof => agent ≠ 0 ∧ proof ≠ 0
  | .machineRevoked _ => True
  | .teeMachineAttested agent deadline salt digest =>
    agent ≠ 0 ∧ ∃ msg, digest = AIIdentityRegistry.structHash c d msg agent deadline salt
  | .listingApproved companyId _ _ => companyId ≠ 0
  | .listingRevoked .. => True

/-- The logs of a deployment as the journal of its books. -/
def journal (c : TeeCrypto) (d : Deployment) : Journal Books Event := ⟨Admits c d, read c⟩

/-- What every admitted log keeps: nobody has been paid more than was earned, and a number that has not
been given to a task is of none. -/
structure Sound (b : Books) : Prop where
  paid : ∀ user, b.pool.rewardDebt user ≤ b.accumulated user
  numbered : b.tasks.nextTaskId ≠ 0
  unposted : ∀ taskId, ¬ b.Posted taskId → b.tasks.tasks taskId = {}

section
variable {b : Books} {c : TeeCrypto} {d : Deployment} {e : Event}

theorem accumulated_le {richer : Books} (staked : richer.pool.staked = b.pool.staked)
    (more : b.pool.accRewardPerShare ≤ richer.pool.accRewardPerShare) (user : Address) :
    b.accumulated user ≤ richer.accumulated user := by
  unfold accumulated
  rw [staked]
  exact Nat.div_le_div_right (Nat.mul_le_mul_left _ more)

theorem Sound.putStake (sound : b.Sound) (user : Address) (staked totalStaked : ℕ) :
    (b.putStake user staked totalStaked).Sound := by
  refine ⟨fun other => ?_, sound.numbered, sound.unposted⟩
  by_cases same : other = user
  · subst same
    simp [Books.putStake, accumulated]
  · simpa [Books.putStake, accumulated, same] using sound.paid other

theorem Sound.putTask (sound : b.Sound) {taskId : ℕ} (task : Task) (posted : b.Posted taskId) :
    (b.putTask taskId task).Sound := by
  refine ⟨sound.paid, sound.numbered, fun other unposted => ?_⟩
  have apart : other ≠ taskId := fun same => unposted (same ▸ posted)
  simpa [Books.putTask, apart] using sound.unposted other unposted

/-- A task that is not as it was before its number was given away has been posted. -/
theorem Sound.posted (sound : b.Sound) {taskId : ℕ} (written : b.tasks.tasks taskId ≠ {}) :
    b.Posted taskId :=
  not_not.mp fun unposted => written (sound.unposted taskId unposted)

theorem Sound.begun (sound : b.Sound) {taskId : ℕ} {status : Status}
    (reached : (b.tasks.tasks taskId).status = status) (other : status ≠ .open) : b.Posted taskId :=
  sound.posted fun fresh => other (by rw [← reached, fresh])

/-- Every admitted log keeps the books sound. -/
theorem Sound.read (sound : b.Sound) (admits : (journal c d).admits b e) :
    ((journal c d).read b e).Sound := by
  cases e with
  | staked user amount | unstaked user amount => exact sound.putStake ..
  | rewardDeposited amount newAccRewardPerShare =>
    obtain ⟨_, _, raised⟩ := admits
    have more : b.pool.accRewardPerShare ≤ newAccRewardPerShare := raised ▸ Nat.le_add_right ..
    refine ⟨fun user => (sound.paid user).trans (accumulated_le ?_ more user), sound.numbered, sound.unposted⟩
    rfl
  | rewardClaimed user amount =>
    refine ⟨fun other => ?_, sound.numbered, sound.unposted⟩
    by_cases same : other = user
    · subst same
      simp [journal, Books.read, accumulated]
    · simpa [journal, Books.read, accumulated, same] using sound.paid other
  | taskPosted taskId publisher bounty =>
    obtain ⟨_, rfl⟩ := admits
    refine ⟨sound.paid, Nat.succ_ne_zero _, fun other unposted => ?_⟩
    have apart : other ≠ b.tasks.nextTaskId := by
      rintro rfl
      exact unposted ⟨sound.numbered, Nat.lt_succ_self _⟩
    have before : ¬ b.Posted other := fun posted => unposted ⟨posted.1, Nat.lt_succ_of_lt posted.2⟩
    simpa [journal, Books.read, apart] using sound.unposted other before
  | taskFunded taskId lockedAmount =>
    obtain ⟨_, _, rfl, positive⟩ := admits
    exact sound.putTask _ (sound.posted fun fresh => positive (by rw [fresh]))
  | workerAssigned taskId worker aiPoolRecipient => exact sound.putTask _ (sound.begun admits.2.1 (by simp))
  | workSubmitted taskId worker resultHash => exact sound.putTask _ (sound.begun admits.2.1 (by simp))
  | zkProofCommitted taskId commitment =>
    obtain ⟨_, submitted | assigned⟩ := admits
    · exact sound.putTask _ (sound.begun submitted (by simp))
    · exact sound.putTask _ (sound.begun assigned (by simp))
  | taskSettled taskId aiPoolRecipient grossAmount fee netToAiPool =>
    obtain ⟨paid, numbered, unposted⟩ :=
      sound.putTask { b.tasks.tasks taskId with lockedAmount := 0, status := .completed }
        (sound.begun admits.2.1 (by simp))
    exact ⟨paid, numbered, unposted⟩
  | taskCancelled taskId => exact sound.putTask _ admits.2.1
  | _ => exact ⟨sound.paid, sound.numbered, sound.unposted⟩

end

end Books

end Aide
