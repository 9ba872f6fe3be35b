import Aide.Contracts.Books
import Aide.Contracts.RoleEffects
import Aide.Contracts.System

namespace Aide

/-- A step that logs everything that it books, as the rules of the logs allow. -/
abbrev Booked (c : TeeCrypto) (d : Deployment) {τ : Type} (w next : World τ) : Prop :=
  Journal.Kept (Books.journal c d) World.log World.books w next

variable {τ : Type} {c : TeeCrypto} {d : Deployment} {msg : Msg} {w next : World τ}

namespace Guardrail

theorem trip_booked {reason : CircuitReason} {amount : ℕ} :
    Booked c d w (trip w (tripEvents reason amount w)) := by
  cases paused : w.guardrail.paused with
  | true =>
    refine .silent ?_ ?_
    · simp [trip, tripEvents, paused]
    · simp [trip, World.books, paused]
  | false =>
    refine .single (e := Event.circuitBroken reason amount) ?_ paused rfl
    simp [trip, tripEvents, paused]

theorem exec_booked {call : Call} (run : exec msg call w = .ok next) : Booked c d w next := by
  cases call with
  | setPeers treasury internalMarket =>
    obtain ⟨_, unwired, ⟨treasurySet, marketSet⟩, rfl⟩ := setPeers_effect run
    exact .single rfl ⟨unwired, treasurySet, marketSet⟩ rfl
  | setOutflowBpsThreshold bps =>
    obtain ⟨_, bounded, rfl⟩ := setOutflowBpsThreshold_effect run
    exact .single rfl bounded rfl
  | setMaxFeeBpsOfNotional bps =>
    obtain ⟨_, bounded, rfl⟩ := setMaxFeeBpsOfNotional_effect run
    exact .single rfl bounded rfl
  | evaluateOutflow balanceBefore amount =>
    obtain rfl | rfl := evaluateOutflow_effect run
    · exact .refl _
    · exact trip_booked
  | evaluateSettleFee fee aitNotional =>
    obtain rfl | rfl := evaluateSettleFee_effect run
    · exact .refl _
    · exact trip_booked
  | unpause =>
    cases unpause_effect run
    exact .single rfl trivial rfl
  | access call =>
    simp only [exec, bind_eq_ok, pure_eq_ok] at run
    obtain ⟨_, _, rfl⟩ := run
    exact .silent rfl rfl

end Guardrail

theorem AIIdentityRegistry.exec_booked {call : AIIdentityRegistry.Call}
    (run : AIIdentityRegistry.exec c d msg call w = .ok next) : Booked c d w next := by
  cases call with
  | verifyMachine agent proof =>
    simp only [exec, verifyMachine, bind_eq_ok, pure_eq_ok, require_eq_ok, exists_const] at run
    obtain ⟨_, _, nonzero, proven, rfl⟩ := run
    exact .single rfl ⟨nonzero, proven⟩ rfl
  | verifyZkIdentity => cases run
  | attestMachineWithTeeSignature agent deadline salt signature =>
    simp only [exec, attestMachineWithTeeSignature, bind_eq_ok, pure_eq_ok, require_eq_ok, exists_const] at run
    obtain ⟨nonzero, _, _, _, _, rfl⟩ := run
    exact .single rfl ⟨nonzero, msg, rfl⟩ rfl
  | revokeMachine agent =>
    cases revokeMachine_effect run
    exact .single rfl trivial rfl
  | access call =>
    simp only [exec, bind_eq_ok, pure_eq_ok] at run
    obtain ⟨_, _, rfl⟩ := run
    exact .silent rfl rfl

theorem AIBank.exec_booked {call : AIBank.Call} (run : AIBank.exec msg call w = .ok next) :
    Booked c d w next := by
  cases call with
  | approveListing companyId codeAuditHash =>
    obtain ⟨_, nonzero, rfl⟩ := approveListing_effect run
    exact .single rfl nonzero rfl
  | revokeListing companyId =>
    obtain ⟨_, rfl⟩ := revokeListing_effect run
    exact .single rfl trivial rfl
  | access call =>
    simp only [exec, bind_eq_ok, pure_eq_ok] at run
    obtain ⟨_, _, rfl⟩ := run
    exact .silent rfl rfl

/-- A tax is logged where it is not zero, and is not booked. -/
theorem Treasury.taxLog_tells {b : Books} (sender payer : Address) {taxableBase fee : ℕ}
    (feeIs : fee = b.tax taxableBase) :
    (Books.journal c d).Tells b (taxLog sender payer taxableBase fee) b := by
  unfold taxLog
  split
  · exact .nil
  · rename_i taxed
    exact .single ⟨Nat.pos_of_ne_zero taxed, feeIs⟩ rfl

/-- Nothing is booked about the token. -/
theorem Treasury.taxLog_booked (sender payer : Address) {taxableBase fee : ℕ} (token : τ)
    (feeIs : fee = w.books.tax taxableBase) :
    Booked c d w { w with token, log := w.log ++ taxLog sender payer taxableBase fee } :=
  ⟨_, rfl, taxLog_tells sender payer feeIs⟩

theorem running_of_requireRunning {u : Unit} (run : w.requireRunning d = .ok u) : w.books.Running d := by
  intro inUse
  simp only [World.requireRunning, inUse, if_false, World.requireNotPaused, require_eq_ok] at run
  exact run

namespace InternalMarket

theorem registered_of_requireCompany {companyId : ℕ} {u : Unit}
    (run : requireCompany w companyId = .ok u) : w.books.Registered companyId := by
  simp only [requireCompany, require_eq_ok] at run
  exact run

theorem feeAllowed_of_allowed {fee notional : ℕ} (positive : notional ≠ 0)
    (allowed : settleFeeAllowed d fee notional w = .ok (true, w)) : w.books.FeeAllowed d fee notional := by
  intro inUse
  simp only [settleFeeAllowed, if_neg inUse, Guardrail.evaluateSettleFee, bind_eq_ok,
    Guardrail.evaluate_eq_ok_true] at allowed
  obtain ⟨_, _, _, _, running, limits, _⟩ := allowed
  exact ⟨running, (limits (Nat.pos_of_ne_zero positive)).2.2⟩

theorem Settleable.booked {maker taker vstkAmount aitNotional : ℕ}
    (checks : Settleable w maker taker vstkAmount aitNotional) :
    w.books.Settleable maker taker vstkAmount aitNotional := by
  obtain ⟨_, _, _, _, _, _, _, _, _⟩ := checks
  constructor <;> assumption

end InternalMarket

/-- Nobody but the sender from nowhere is the publisher of a task that has not been posted. -/
theorem TaskMarket.posted_of_publisher {taskId : ℕ} (sound : w.books.Sound) (nonzero : msg.sender ≠ 0)
    (publisher : (w.tasks.tasks taskId).publisher = msg.sender) : w.books.Posted taskId :=
  sound.posted fun fresh => nonzero (publisher.symm.trans (congrArg Task.publisher fresh))

namespace StakingPool

/-- The pool alone stands for what a call of it has booked. -/
theorem books_of_pool (frame : ∃ token pool log, next = { w with token, pool, log }) :
    next.books = { w.books with pool := next.pool } := by
  obtain ⟨_, _, _, rfl⟩ := frame
  rfl

/-- What is booked when `user` is paid. -/
def paid (w : World τ) (user : Address) : Books :=
  if 0 < reward w user then
    { w.books with pool := { w.pool with
        rewardDebt := Function.update w.pool.rewardDebt user (w.books.accumulated user) } }
  else w.books

theorem rewardLog_tells (user : Address) :
    (Books.journal c d).Tells w.books (rewardLog w user) (paid w user) := by
  unfold rewardLog paid
  split
  · rename_i positive
    have raised : w.books.pool.rewardDebt user + reward w user = w.books.accumulated user :=
      Nat.add_sub_cancel' (Nat.lt_of_sub_pos positive).le
    exact .single ⟨positive, raised⟩ rfl
  · exact .nil

theorem paid_putStake (user : Address) (staked totalStaked : ℕ) :
    (paid w user).putStake user staked totalStaked =
      { w.books with pool := settledPool w user staked totalStaked } := by
  unfold paid
  split
  · simp [Books.putStake, settledPool, World.books]
  · rfl

theorem paid_pool (user : Address) : (paid w user).pool.staked = w.pool.staked ∧
    (paid w user).pool.totalStaked = w.pool.totalStaked := by
  unfold paid
  split
  · exact ⟨rfl, rfl⟩
  · exact ⟨rfl, rfl⟩

/-- A user whose debt is no more than what the stake has earned owes all of it once it has been paid. -/
theorem paid_eq {user : Address} (within : w.books.pool.rewardDebt user ≤ w.books.accumulated user) :
    paid w user =
      { w.books with pool := settledPool w user (w.pool.staked user) w.pool.totalStaked } := by
  unfold paid
  split
  · simp [settledPool, Books.accumulated, World.books]
  · rename_i nothing
    have level : w.books.accumulated user = w.pool.rewardDebt user :=
      le_antisymm (Nat.le_of_sub_eq_zero (Nat.eq_zero_of_not_pos nothing)) within
    have same : settledPool w user (w.pool.staked user) w.pool.totalStaked = w.pool := by
      simp only [Books.accumulated, World.books] at level
      simp only [settledPool, level, Function.update_eq_self]
    rw [same]
    rfl

end StakingPool

variable [AitToken τ]

namespace StakingPool

theorem depositReward_booked {sender : Address} {amount : ℕ}
    (run : depositReward d sender amount w = .ok next) : Booked c d w next := by
  simp only [depositReward, bind_eq_ok, require_eq_ok, exists_const, World.safeTransferFrom_eq_ok] at run
  obtain ⟨positive, _, ⟨token, _, rfl⟩, run⟩ := run
  split at run
  · cases pure_eq_ok.mp run
    exact .silent rfl rfl
  · rename_i stakers
    simp only [bind_eq_ok, pure_eq_ok, checkedMul_eq_ok, checkedAdd_eq_ok] at run
    obtain ⟨_, ⟨_, rfl⟩, _, ⟨_, rfl⟩, rfl⟩ := run
    exact .single rfl ⟨positive, stakers, rfl⟩ rfl

theorem stake_booked {amount : ℕ} (run : stake d msg amount w = .ok next) : Booked c d w next := by
  have positive : 0 < amount := by
    simp only [stake, bind_eq_ok, require_eq_ok, exists_const] at run
    exact run.1
  obtain ⟨pool, log⟩ := stake_frame run
  obtain ⟨_, token, _, _, _, _, effect⟩ := stake_effect run
  have books := books_of_pool (w := w) ⟨token, _, _, effect⟩
  obtain ⟨staked, totalStaked⟩ := paid_pool (w := w) msg.sender
  refine ⟨_, log.trans (List.append_assoc ..), (rewardLog_tells msg.sender).append (.single positive ?_)⟩
  rw [books, pool, ← paid_putStake, ← staked, ← totalStaked]
  rfl

theorem unstake_booked {amount : ℕ} (run : unstake d msg amount w = .ok next) : Booked c d w next := by
  have positive : 0 < amount := by
    simp only [unstake, bind_eq_ok, require_eq_ok, exists_const] at run
    exact run.1
  obtain ⟨pool, log⟩ := unstake_frame run
  obtain ⟨held, total, _, token, _, _, _, _, effect⟩ := unstake_effect run
  have books := books_of_pool (w := w) ⟨token, _, _, effect⟩
  obtain ⟨staked, totalStaked⟩ := paid_pool (w := w) msg.sender
  rw [← staked] at held
  rw [← totalStaked] at total
  refine ⟨_, log.trans (List.append_assoc ..),
    (rewardLog_tells msg.sender).append (.single ⟨positive, held, total⟩ ?_)⟩
  rw [books, pool, ← paid_putStake, ← staked, ← totalStaked]
  rfl

theorem claim_booked (within : w.books.pool.rewardDebt msg.sender ≤ w.books.accumulated msg.sender)
    (run : claim d msg w = .ok next) : Booked c d w next := by
  obtain ⟨pool, log⟩ := claim_frame run
  obtain ⟨token, _, _, _, effect⟩ := claim_effect run
  have books := books_of_pool (w := w) ⟨token, _, _, effect⟩
  refine ⟨_, log, ?_⟩
  rw [books, pool, ← paid_eq within]
  exact rewardLog_tells msg.sender

theorem exec_booked {call : Call} (sound : w.books.Sound) (run : exec d msg call w = .ok next) :
    Booked c d w next := by
  cases call with
  | depositReward amount => exact depositReward_booked run
  | stake amount => exact stake_booked run
  | unstake amount => exact unstake_booked run
  | claim => exact claim_booked (sound.paid msg.sender) run

end StakingPool

namespace TaskMarket

theorem approveTask_booked {taskId : ℕ} (run : approveTask d msg taskId w = .ok next) : Booked c d w next := by
  simp only [approveTask, settle, bind_eq_ok, pure_eq_ok, require_eq_ok, exists_const, checkedSub_eq_ok,
    World.safeTransfer_eq_ok] at run
  obtain ⟨publisher, status, locked, verified, _, running, ⟨fee, _⟩, collect, _, ⟨feeLe, rfl⟩, _,
    ⟨token, _, rfl⟩, rfl⟩ := run
  obtain ⟨feeIs, taxed, _, rfl⟩ := Treasury.collectTax_effect collect
  -- The approval is open while the tax is taken, and the settlement closes it.
  let task := w.tasks.tasks taskId
  let approving : Books := { w.books with approved := some taskId }
  have approved : (Books.journal c d).Tells w.books [.taskApproved taskId msg.sender] approving :=
    .single ⟨rfl, status, publisher.symm⟩ rfl
  have taxTold : (Books.journal c d).Tells approving
      (Treasury.taxLog d.taskMarket d.taskMarket task.lockedAmount fee) approving :=
    Treasury.taxLog_tells _ _ feeIs
  have admits : (Books.journal c d).admits approving
      (.taskSettled taskId task.aiPoolRecipient task.lockedAmount fee (task.lockedAmount - fee)) :=
    ⟨rfl, status, rfl, verified, rfl, locked, feeIs, Nat.sub_add_cancel feeLe,
      running_of_requireRunning running⟩
  exact ⟨_, by simp [World.emit, put, task], (approved.append taxTold).append (.single admits rfl)⟩

theorem exec_booked {call : Call} (sound : w.books.Sound) (nonzero : msg.sender ≠ 0)
    (run : exec d msg call w = .ok next) : Booked c d w next := by
  cases call with
  | postTask bounty =>
    cases postTask_effect run
    exact .single rfl ⟨rfl, rfl⟩ rfl
  | fundTask taskId =>
    obtain ⟨_, status, positive, _, _, rfl⟩ := fundTask_effect run
    exact .single rfl ⟨rfl, status, rfl, positive⟩ rfl
  | assignWorker taskId worker aiPoolRecipient =>
    obtain ⟨_, status, verified, rfl⟩ := assignWorker_effect run
    exact .single rfl ⟨rfl, status, verified⟩ rfl
  | submitWork taskId resultHash =>
    obtain ⟨status, worker, rfl⟩ := submitWork_effect run
    exact .single rfl ⟨rfl, status, worker.symm⟩ rfl
  | commitZkProof taskId commitment =>
    have status := commitZkProof_status run
    cases commitZkProof_effect run
    exact .single rfl ⟨rfl, status⟩ rfl
  | approveTask taskId => exact approveTask_booked run
  | cancelTask taskId =>
    obtain ⟨publisher, running, _, _, rfl⟩ := cancelTask_effect run
    exact .single rfl ⟨rfl, posted_of_publisher sound nonzero publisher, running⟩ rfl

end TaskMarket

namespace InternalMarket

theorem settleTrade_booked {maker taker vstkAmount aitNotional : ℕ} {settlementId : Bytes32}
    (run : settleTrade d msg maker taker vstkAmount aitNotional settlementId w = .ok next) :
    Booked c d w next := by
  have checks : Settleable w maker taker vstkAmount aitNotional := by
    simp only [settleTrade, bind_eq_ok, settleable_eq_ok] at run
    obtain ⟨_, _, _, checks, _⟩ := run
    exact checks
  obtain ⟨_, ⟨cid, fee, buyer, seller, settled⟩ | rfl⟩ := settleTrade_cases run
  · have allowed := feeAllowed_of_allowed checks.aitPositive settled.allowed
    rw [← settled.feeIs] at allowed
    obtain ⟨taxed, token, _, _, effect⟩ := settled.effect
    subst effect
    exact (Treasury.taxLog_booked d.internalMarket d.internalMarket taxed
      settled.feeIs).last rfl ⟨checks.booked, settled.company, settled.buyerIs, settled.sellerIs,
        settled.funded, settled.holds, settled.feeIs, settled.feeLe, allowed⟩ rfl
  · exact Guardrail.trip_booked.last rfl ⟨rfl, vstkAmount, { checks.booked with }⟩ rfl

theorem depositProfit_booked {companyId grossAmount : ℕ}
    (run : depositProfit d msg companyId grossAmount w = .ok next) : Booked c d w next := by
  simp only [depositProfit, bind_eq_ok, require_eq_ok, exists_const, checkedMul_eq_ok] at run
  obtain ⟨_, company, positive, _, ⟨_, rfl⟩, ⟨allowed, evaluated⟩, guard, run⟩ := run
  have registered := registered_of_requireCompany company
  obtain ⟨rfl, rfl⟩ | ⟨rfl, rfl⟩ := settleFeeAllowed_cases guard
  · have within := feeAllowed_of_allowed positive guard
    simp only [if_true, bind_eq_ok, pure_eq_ok, checkedSub_eq_ok, World.safeTransferFrom_eq_ok] at run
    obtain ⟨⟨fee, _⟩, collect, _, ⟨feeLe, rfl⟩, _, ⟨token, _, rfl⟩, _, notified, rfl⟩ := run
    obtain ⟨feeIs, taxed, _, rfl⟩ := Treasury.collectTax_effect collect
    cases notifyReward_effect notified
    rw [← feeIs] at within
    exact (Treasury.taxLog_booked d.internalMarket msg.sender taxed feeIs).last rfl
      ⟨registered, positive, feeIs, Nat.sub_add_cancel feeLe, within⟩ rfl
  · cases pure_eq_ok.mp run
    exact Guardrail.trip_booked.last rfl ⟨rfl, registered, positive⟩ rfl

theorem claimDividend_booked {companyId : ℕ} (run : claimDividend d msg companyId w = .ok next) :
    Booked c d w next := by
  simp only [claimDividend, pendingDividend, bind_eq_ok, checkedMul_eq_ok, checkedSub_eq_ok] at run
  obtain ⟨_, ⟨_, ⟨_, rfl⟩, owed, rfl⟩, run⟩ := run
  split at run
  · cases pure_eq_ok.mp run
    exact .refl _
  · rename_i positive
    simp only [bind_eq_ok, pure_eq_ok, World.safeTransfer_eq_ok] at run
    obtain ⟨_, ⟨token, _, rfl⟩, rfl⟩ := run
    have raised := Nat.add_sub_cancel' owed
    exact .single rfl ⟨Nat.pos_of_ne_zero positive, raised, rfl⟩
      (congrArg (w.books.putDebt companyId msg.sender) raised.symm)

theorem exec_booked {call : Call} (run : exec d msg call w = .ok next) : Booked c d w next := by
  cases call with
  | registerCompany vault =>
    cases registerCompany_effect run
    exact .single rfl rfl rfl
  | issueShares companyId recipient amount =>
    have checks : recipient ≠ 0 ∧ w.books.Registered companyId := by
      simp only [exec, issueShares, bind_eq_ok, require_eq_ok, exists_const] at run
      obtain ⟨_, _, nonzero, _, company, _⟩ := run
      exact ⟨nonzero, registered_of_requireCompany company⟩
    cases issueShares_effect run
    exact .single rfl ⟨checks.2, checks.1, rfl⟩ rfl
  | depositAit amount =>
    obtain ⟨_, _, rfl⟩ := depositAit_effect run
    exact .single rfl trivial rfl
  | withdrawAit amount =>
    obtain ⟨covered, _, _, rfl⟩ := withdrawAit_effect run
    exact .single rfl covered rfl
  | placeOrder companyId side priceRay amount engineHint =>
    obtain ⟨tradable, sale⟩ := placeOrder_checks run
    obtain ⟨registered, positive, rfl⟩ := placeOrder_effect run
    exact .single rfl ⟨rfl, registered, tradable, positive.1, positive.2, sale⟩ rfl
  | cancelOrder orderId =>
    simp only [exec, cancelOrder, bind_eq_ok, pure_eq_ok, require_eq_ok, exists_const] at run
    obtain ⟨active, maker, rfl⟩ := run
    exact .single rfl ⟨active, maker⟩ rfl
  | settleTrade makerOrderId takerOrderId vstkAmount aitNotional settlementId => exact settleTrade_booked run
  | depositProfit companyId grossAmount => exact depositProfit_booked run
  | setDividendPayoutVault companyId vault =>
    simp only [exec, setDividendPayoutVault, bind_eq_ok, pure_eq_ok, require_eq_ok, exists_const] at run
    obtain ⟨holds, rfl⟩ := run
    exact .single rfl holds rfl
  | claimDividend companyId => exact claimDividend_booked run
  | access call =>
    simp only [exec, bind_eq_ok, pure_eq_ok] at run
    obtain ⟨_, _, rfl⟩ := run
    exact .silent rfl rfl

end InternalMarket

namespace Treasury

/-- The code that the treasury calls outside the deployment writes what it does into the journal, too. -/
theorem exec_booked {foreign : Address → ℕ → World τ → Except Revert (World τ)} {call : Call}
    (writes : ∀ account amount token, foreign account amount { w with token } = .ok next →
      Booked c d { w with token } next)
    (run : exec d foreign msg call w = .ok next) : Booked c d w next := by
  cases call with
  | setOperatingExpenseRecipient recipient allowed =>
    obtain ⟨_, nonzero, rfl⟩ := setOperatingExpenseRecipient_effect run
    exact .single rfl nonzero rfl
  | withdrawOperatingExpenses amount recipient =>
    obtain ⟨_, whitelisted, ⟨running, token, _, rfl⟩ | rfl⟩ := withdrawOperatingExpenses_effect run
    · exact .single rfl ⟨whitelisted, running⟩ rfl
    · exact Guardrail.trip_booked.last rfl ⟨whitelisted, rfl⟩ rfl
  | collectTax payer taxableBase =>
    obtain ⟨⟨fee, _⟩, collect, same⟩ := bind_eq_ok.mp run
    cases pure_eq_ok.mp same
    obtain ⟨feeIs, token, _, rfl⟩ := collectTax_effect collect
    exact taxLog_booked _ payer token feeIs
  | setTaxRate newTaxRateBps =>
    obtain ⟨_, bounded, rfl⟩ := setTaxRate_effect run
    exact .single rfl bounded rfl
  | setWeeklySalaryCoefficient coefficientS =>
    obtain ⟨_, rfl⟩ := setWeeklySalaryCoefficient_effect run
    exact .single rfl trivial rfl
  | setCivilServant agent active =>
    obtain ⟨_, nonzero, rfl⟩ := setCivilServant_effect run
    exact .single rfl nonzero rfl
  | distributeSalary agent contributionRating =>
    obtain ⟨_, running, servant, _, token, rfl, positive, _, rfl⟩ := distributeSalary_effect run
    exact .single rfl ⟨servant, positive, rfl, running_of_requireRunning running⟩ rfl
  | approveStakingPoolPull stakingPool amount =>
    obtain ⟨_, token, _, rfl⟩ := approveStakingPoolPull_effect run
    exact .silent rfl rfl
  | depositRewardToStakingPool stakingPool amount =>
    obtain ⟨token, _, rewarded | called⟩ := depositRewardToStakingPool_effect run
    · have approved : Booked c d w { w with token } := .silent rfl rfl
      exact approved.trans (StakingPool.depositReward_booked rewarded)
    · have approved : Booked c d w { w with token } := .silent rfl rfl
      exact approved.trans (writes _ _ _ called)
  | access call =>
    simp only [exec, bind_eq_ok, pure_eq_ok] at run
    obtain ⟨_, _, rfl⟩ := run
    exact .silent rfl rfl

end Treasury

end Aide
