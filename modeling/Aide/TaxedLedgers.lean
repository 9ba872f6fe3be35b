import Aide.Escrow

namespace Aide

/-- The seven calls of a user that deposit and withdraw AIT, post, fund and cancel a task, and stake and
unstake. -/
inductive LedgerCall
  | depositAit (amount : ℕ)
  | withdrawAit (amount : ℕ)
  | postTask (bounty : ℕ)
  | fundTask (taskId : ℕ)
  | cancelTask (taskId : ℕ)
  | stake (amount : ℕ)
  | unstake (amount : ℕ)

/-- The tax on what `sender` pays in comes to zero. -/
def Untaxed (w : World AIToken) (sender : Address) (amount : ℕ) : Prop :=
  w.token.taxExemptSender sender = true ∨ amount * w.treasury.taxRateBps / 10000 = 0

instance (w : World AIToken) (sender : Address) (amount : ℕ) :
    Decidable (Untaxed w sender amount) := inferInstanceAs (Decidable (_ ∨ _))

namespace LedgerCall

def exec (d : Deployment) (w : World AIToken) : Msg × LedgerCall → Except Revert (World AIToken)
  | (msg, .depositAit amount) => InternalMarket.depositAit d msg amount w
  | (msg, .withdrawAit amount) => InternalMarket.withdrawAit d msg amount w
  | (msg, .postTask bounty) => TaskMarket.postTask msg bounty w
  | (msg, .fundTask taskId) => TaskMarket.fundTask d msg taskId w
  | (msg, .cancelTask taskId) => TaskMarket.cancelTask d msg taskId w
  | (msg, .stake amount) => StakingPool.stake d msg amount w
  | (msg, .unstake amount) => StakingPool.unstake d msg amount w

/-- What a call pays in arrives whole. -/
def ArrivesWhole (w : World AIToken) : Msg × LedgerCall → Prop
  | (msg, .depositAit amount) | (msg, .stake amount) => Untaxed w msg.sender amount
  | (msg, .fundTask taskId) => Untaxed w msg.sender (w.tasks.tasks taskId).bounty
  | _ => True

instance (w : World AIToken) : ∀ tx, Decidable (ArrivesWhole w tx)
  | (msg, .depositAit amount) | (msg, .stake amount) =>
    inferInstanceAs (Decidable (Untaxed w msg.sender amount))
  | (msg, .fundTask taskId) =>
    inferInstanceAs (Decidable (Untaxed w msg.sender (w.tasks.tasks taskId).bounty))
  | (_, .withdrawAit _) | (_, .postTask _) | (_, .cancelTask _) | (_, .unstake _) => isTrue trivial

end LedgerCall

/-- The token knows its treasury and exempts both markets. -/
structure TaxWired (d : Deployment) (t : AIToken) : Prop where
  treasury : t.treasury = d.treasury
  marketExempt : t.taxExemptSender d.internalMarket = true
  taskMarketExempt : t.taxExemptSender d.taskMarket = true

/-- Both markets own what their ledgers have credited, and pay it out untaxed. -/
structure EscrowsHeld (d : Deployment) (w : World AIToken) : Prop where
  escrow : EscrowCovered d w
  wired : TaxWired d w.token

/-- Each of the three contracts owns what its ledger has credited. -/
structure LedgersCovered (d : Deployment) (w : World AIToken) : Prop extends EscrowsHeld d w where
  staked : w.pool.totalStaked ≤ w.balanceOf d.stakingPool
  noRewards : w.pool.accRewardPerShare = 0

variable {d : Deployment} {w next : World AIToken} {msg : Msg} {src dst : Address}
  {value fee : ℕ} {token : AIToken}

theorem TaxWired.moved {t : AIToken} (wired : TaxWired d t)
    (moved : t.Moved token src dst value fee) : TaxWired d token where
  treasury := moved.treasury.trans wired.treasury
  marketExempt := moved.taxExemptSender ▸ wired.marketExempt
  taskMarketExempt := moved.taxExemptSender ▸ wired.taskMarketExempt

theorem taxRates_treasury (wired : TaxWired d w.token) :
    w.taxRates d w.token.treasury = .ok w.treasury.taxRateBps := if_pos wired.treasury

theorem fee_eq_zero_of_exempt {t : AIToken} {rate : ℕ} (exempt : t.taxExemptSender src = true) :
    t.fee rate src value = 0 := if_neg fun taxed => by simp [exempt] at taxed

theorem fee_eq_zero_of_untaxed (untaxed : Untaxed w src value) :
    w.token.fee w.treasury.taxRateBps src value = 0 := by
  obtain exempt | free := untaxed
  · exact fee_eq_zero_of_exempt exempt
  · exact Nat.eq_zero_of_le_zero (free ▸ w.token.fee_le_mul ..)

/-- A payment into a contract by a user for whom the tax comes to zero. -/
theorem pulled_whole {spender : Address} (wired : TaxWired d w.token)
    (untaxed : Untaxed w src value)
    (pull : AitToken.transferFrom w.token (w.taxRates d) spender src dst value = .ok token) :
    w.token.Moved token src dst value 0 := by
  rw [← fee_eq_zero_of_untaxed untaxed]
  exact AIToken.transferFrom_moved (taxRates_treasury wired) pull

/-- A deposit reaches the market whole. -/
theorem depositAit_moved {amount : ℕ} (wired : TaxWired d w.token) (untaxed : Untaxed w msg.sender amount)
    (run : InternalMarket.depositAit d msg amount w = .ok next) :
    w.token.Moved next.token msg.sender d.internalMarket amount 0 := by
  obtain ⟨token, pull, rfl⟩ := InternalMarket.depositAit_effect run
  exact pulled_whole wired untaxed pull

/-- A withdrawal reaches its user whole. -/
theorem withdrawAit_moved {amount : ℕ} (wired : TaxWired d w.token)
    (run : InternalMarket.withdrawAit d msg amount w = .ok next) :
    w.token.Moved next.token d.internalMarket msg.sender amount 0 := by
  obtain ⟨_, token, push, rfl⟩ := InternalMarket.withdrawAit_effect run
  have moved := AIToken.transfer_moved (taxRates_treasury wired) push
  rwa [fee_eq_zero_of_exempt wired.marketExempt] at moved

/-- A bounty reaches the market whole. -/
theorem fundTask_moved {taskId : ℕ} (wired : TaxWired d w.token)
    (untaxed : Untaxed w msg.sender (w.tasks.tasks taskId).bounty)
    (run : TaskMarket.fundTask d msg taskId w = .ok next) :
    w.token.Moved next.token msg.sender d.taskMarket (w.tasks.tasks taskId).bounty 0 := by
  obtain ⟨_, _, _, token, pull, rfl⟩ := TaskMarket.fundTask_effect run
  exact pulled_whole wired untaxed pull

/-- The refund of a cancelled task reaches its publisher whole. -/
theorem cancelTask_moved {taskId : ℕ} (wired : TaxWired d w.token)
    (run : TaskMarket.cancelTask d msg taskId w = .ok next) :
    w.token.Moved next.token d.taskMarket (w.tasks.tasks taskId).publisher
      (w.tasks.tasks taskId).lockedAmount 0 := by
  obtain ⟨_, _, token, payment, rfl⟩ := TaskMarket.cancelTask_effect run
  obtain ⟨nothing, same⟩ | payment := payment
  · rw [nothing, same]
    exact AIToken.Moved.refl ..
  · have moved := AIToken.transfer_moved (taxRates_treasury wired) payment
    rwa [fee_eq_zero_of_exempt wired.taskMarketExempt] at moved

namespace EscrowsHeld

theorem constructed {admin : Address} (market : w.market = InternalMarket.constructed admin)
    (tasks : w.tasks = TaskMarket.constructed) (wired : TaxWired d w.token) : EscrowsHeld d w where
  escrow := by
    constructor
    · rw [market]
      exact Ledger.Backed.zero _
    · rw [tasks]
      exact Ledger.Backed.zero _
  wired

theorem depositAit {amount : ℕ} (held : EscrowsHeld d w) (outside : d.Outside msg.sender)
    (untaxed : Untaxed w msg.sender amount)
    (run : InternalMarket.depositAit d msg amount w = .ok next) : EscrowsHeld d next := by
  have moved := depositAit_moved held.wired untaxed run
  exact ⟨held.escrow.depositAit run (moved.received outside.ne_internalMarket.symm)
    (moved.le_of_ne outside.ne_taskMarket.symm), held.wired.moved moved⟩

theorem withdrawAit {amount : ℕ} (held : EscrowsHeld d w)
    (run : InternalMarket.withdrawAit d msg amount w = .ok next) : EscrowsHeld d next := by
  have moved := withdrawAit_moved held.wired run
  exact ⟨held.escrow.withdrawAit run (moved.sub_le d.internalMarket)
    (moved.le_of_ne d.internalMarket_ne_taskMarket.symm), held.wired.moved moved⟩

theorem postTask {bounty : ℕ} (held : EscrowsHeld d w)
    (run : TaskMarket.postTask msg bounty w = .ok next) : EscrowsHeld d next := by
  have escrow := held.escrow.postTask run
  cases TaskMarket.postTask_effect run
  exact ⟨escrow, held.wired⟩

theorem fundTask {taskId : ℕ} (held : EscrowsHeld d w) (outside : d.Outside msg.sender)
    (untaxed : Untaxed w msg.sender (w.tasks.tasks taskId).bounty)
    (run : TaskMarket.fundTask d msg taskId w = .ok next) : EscrowsHeld d next := by
  have moved := fundTask_moved held.wired untaxed run
  exact ⟨held.escrow.fundTask run (moved.le_of_ne outside.ne_internalMarket.symm)
    (moved.received outside.ne_taskMarket.symm), held.wired.moved moved⟩

theorem cancelTask {taskId : ℕ} (held : EscrowsHeld d w)
    (run : TaskMarket.cancelTask d msg taskId w = .ok next) : EscrowsHeld d next := by
  have moved := cancelTask_moved held.wired run
  exact ⟨held.escrow.cancelTask run (moved.le_of_ne d.internalMarket_ne_taskMarket)
    (moved.sub_le d.taskMarket), held.wired.moved moved⟩

end EscrowsHeld

namespace LedgersCovered

theorem constructed {admin : Address} (market : w.market = InternalMarket.constructed admin)
    (tasks : w.tasks = TaskMarket.constructed) (pool : w.pool = StakingPool.constructed)
    (wired : TaxWired d w.token) : LedgersCovered d w where
  toEscrowsHeld := .constructed market tasks wired
  staked := by simp [pool, StakingPool.constructed]
  noRewards := by simp [pool, StakingPool.constructed]

/-- A call that leaves the pool and takes no token from it. -/
theorem of_held (covered : LedgersCovered d w) (held : EscrowsHeld d next) (pool : next.pool = w.pool)
    (kept : w.balanceOf d.stakingPool ≤ next.balanceOf d.stakingPool) : LedgersCovered d next where
  toEscrowsHeld := held
  staked := pool ▸ covered.staked.trans kept
  noRewards := pool ▸ covered.noRewards

end LedgersCovered

theorem depositAit_ledgers {amount : ℕ} (outside : d.Outside msg.sender)
    (untaxed : Untaxed w msg.sender amount) (covered : LedgersCovered d w)
    (run : InternalMarket.depositAit d msg amount w = .ok next) : LedgersCovered d next := by
  have held := covered.toEscrowsHeld.depositAit outside untaxed run
  have moved := depositAit_moved covered.wired untaxed run
  obtain ⟨token, _, rfl⟩ := InternalMarket.depositAit_effect run
  exact covered.of_held held rfl (moved.le_of_ne outside.ne_stakingPool.symm)

theorem withdrawAit_ledgers {amount : ℕ} (covered : LedgersCovered d w)
    (run : InternalMarket.withdrawAit d msg amount w = .ok next) : LedgersCovered d next := by
  have held := covered.toEscrowsHeld.withdrawAit run
  have moved := withdrawAit_moved covered.wired run
  obtain ⟨_, token, _, rfl⟩ := InternalMarket.withdrawAit_effect run
  exact covered.of_held held rfl (moved.le_of_ne d.internalMarket_ne_stakingPool.symm)

theorem postTask_ledgers {bounty : ℕ} (covered : LedgersCovered d w)
    (run : TaskMarket.postTask msg bounty w = .ok next) : LedgersCovered d next := by
  have held := covered.toEscrowsHeld.postTask run
  cases TaskMarket.postTask_effect run
  exact covered.of_held held rfl le_rfl

theorem fundTask_ledgers {taskId : ℕ} (outside : d.Outside msg.sender)
    (untaxed : Untaxed w msg.sender (w.tasks.tasks taskId).bounty) (covered : LedgersCovered d w)
    (run : TaskMarket.fundTask d msg taskId w = .ok next) : LedgersCovered d next := by
  have held := covered.toEscrowsHeld.fundTask outside untaxed run
  have moved := fundTask_moved covered.wired untaxed run
  obtain ⟨_, _, _, token, _, rfl⟩ := TaskMarket.fundTask_effect run
  exact covered.of_held held rfl (moved.le_of_ne outside.ne_stakingPool.symm)

theorem cancelTask_ledgers {taskId : ℕ} (covered : LedgersCovered d w)
    (run : TaskMarket.cancelTask d msg taskId w = .ok next) : LedgersCovered d next := by
  have held := covered.toEscrowsHeld.cancelTask run
  have moved := cancelTask_moved covered.wired run
  obtain ⟨_, _, token, _, rfl⟩ := TaskMarket.cancelTask_effect run
  exact covered.of_held held rfl (moved.le_of_ne d.taskMarket_ne_stakingPool.symm)

/-- Without rewards there is nothing to claim along with a stake. -/
theorem claimed_nothing {user : Address} {claimed : AIToken} (covered : LedgersCovered d w)
    (rewarded : StakingPool.Rewarded d w user claimed) : claimed = w.token := by
  have none : StakingPool.reward w user = 0 := by simp [StakingPool.reward, covered.noRewards]
  obtain ⟨_, same⟩ | ⟨some, _⟩ := rewarded
  · exact same
  · omega

theorem stake_ledgers {amount : ℕ} (outside : d.Outside msg.sender)
    (untaxed : Untaxed w msg.sender amount) (covered : LedgersCovered d w)
    (run : StakingPool.stake d msg amount w = .ok next) : LedgersCovered d next := by
  obtain ⟨claimed, token, rewardDebt, log, rewarded, pull, rfl⟩ := StakingPool.stake_effect run
  cases claimed_nothing covered rewarded
  have moved := pulled_whole covered.wired untaxed pull
  exact {
    escrow := covered.escrow.of_balances rfl rfl (moved.le_of_ne outside.ne_internalMarket.symm)
      (moved.le_of_ne outside.ne_taskMarket.symm)
    staked := (Nat.add_le_add_right covered.staked amount).trans
      (moved.received outside.ne_stakingPool.symm)
    noRewards := covered.noRewards
    wired := covered.wired.moved moved }

theorem unstake_ledgers {amount : ℕ} (covered : LedgersCovered d w)
    (run : StakingPool.unstake d msg amount w = .ok next) : LedgersCovered d next := by
  obtain ⟨_, _, claimed, token, rewardDebt, log, rewarded, pay, rfl⟩ :=
    StakingPool.unstake_effect run
  cases claimed_nothing covered rewarded
  have moved := AIToken.transfer_moved (taxRates_treasury covered.wired) pay
  exact {
    escrow := covered.escrow.of_balances rfl rfl
      (moved.le_of_ne d.internalMarket_ne_stakingPool) (moved.le_of_ne d.taskMarket_ne_stakingPool)
    staked := (Nat.sub_le_sub_right covered.staked amount).trans (moved.sub_le d.stakingPool)
    noRewards := covered.noRewards
    wired := covered.wired.moved moved }

/-- One call of a user whose payment arrives whole keeps the three ledgers covered. -/
theorem ledgerCall_covered {call : LedgerCall} (outside : d.Outside msg.sender)
    (whole : LedgerCall.ArrivesWhole w (msg, call)) (covered : LedgersCovered d w)
    (run : LedgerCall.exec d w (msg, call) = .ok next) : LedgersCovered d next := by
  cases call with
  | depositAit amount => exact depositAit_ledgers outside whole covered run
  | withdrawAit amount => exact withdrawAit_ledgers covered run
  | postTask bounty => exact postTask_ledgers covered run
  | fundTask taskId => exact fundTask_ledgers outside whole covered run
  | cancelTask taskId => exact cancelTask_ledgers covered run
  | stake amount => exact stake_ledgers outside whole covered run
  | unstake amount => exact unstake_ledgers covered run

/-- The ledgers of a fresh deployment stay covered under the taxed token through every run of
users whose payments come to no tax. -/
theorem ledgers_covered_of_untaxed {admin : Address} {run : List (Msg × LedgerCall)}
    (market : w.market = InternalMarket.constructed admin) (tasks : w.tasks = TaskMarket.constructed)
    (pool : w.pool = StakingPool.constructed) (wired : TaxWired d w.token)
    (users : ∀ tx ∈ run, d.Outside tx.1.sender)
    (whole : TransitionRun.Meets (LedgerCall.exec d) LedgerCall.ArrivesWhole w run) :
    let final := TransitionRun.exec (LedgerCall.exec d) w run
    EscrowCovered d final ∧ final.pool.totalStaked ≤ final.balanceOf d.stakingPool := by
  have fresh := LedgersCovered.constructed market tasks pool wired
  have outside : TransitionRun.Meets (LedgerCall.exec d) (fun _ tx => d.Outside tx.1.sender) w
      run := TransitionRun.Meets.of_forall fun tx member _ => users tx member
  have covered := TransitionRun.exec_preserves
    (fun w tx next covered meets step => ledgerCall_covered meets.1 meets.2 covered step)
    fresh (outside.and whole)
  exact ⟨covered.escrow, covered.staked⟩

namespace Devnet

/-- The taxed token at a rate of 5%, with balances of alice and bob that the contracts may pull. -/
def taxed : World AIToken :=
  Deployment.devnet.launch admin teeAuthority 500
    { AIToken.launch Deployment.devnet admin
        (fun account => if account = alice ∨ account = bob then 1000 else 0) 2000 with
      allowance := fun _ _ => uint256Max }

theorem taxed_wired : TaxWired Deployment.devnet taxed.token := ⟨by decide, by decide, by decide⟩

end Devnet

open Devnet in
theorem ledgers_covered_of_small_deposits :
    let final := TransitionRun.exec (LedgerCall.exec Deployment.devnet) taxed
      [({ sender := alice }, .depositAit 19), ({ sender := bob }, .stake 10),
        ({ sender := bob }, .unstake 10), ({ sender := alice }, .withdrawAit 19)]
    EscrowCovered Deployment.devnet final ∧
      final.pool.totalStaked ≤ final.balanceOf Deployment.devnet.stakingPool :=
  @ledgers_covered_of_untaxed Deployment.devnet taxed admin _ rfl rfl rfl taxed_wired (by decide)
    (by decide)

open Devnet in
/-- A deposit of 100 is credited in full while 95 arrive. -/
theorem ledger_credits_taxed_deposit :
    ¬ ∀ (d : Deployment) (w : World AIToken) (admin : Address) (run : List (Msg × LedgerCall)),
      w.market = InternalMarket.constructed admin → w.tasks = TaskMarket.constructed →
      w.pool = StakingPool.constructed → TaxWired d w.token → w.treasury.taxRateBps ≤ 10000 →
      (∀ account, account ∉ [d.internalMarket, d.taskMarket] →
        w.token.taxExemptSender account = false) →
      (∀ tx ∈ run, d.Outside tx.1.sender) →
      let final := TransitionRun.exec (LedgerCall.exec d) w run
      EscrowCovered d final ∧ final.pool.totalStaked ≤ final.balanceOf d.stakingPool := by
  intro always
  have covered := always Deployment.devnet taxed admin [({ sender := alice }, .depositAit 100)]
    rfl rfl rfl taxed_wired (by decide)
    (fun account other => by simpa [taxed, Deployment.launch, AIToken.launch] using other) (by decide)
  exact absurd (covered.1.market.entry_le alice) (by decide)

end Aide
