import Aide.Dividends

namespace Aide

/-- The amount of a reward that an event notifies, and that it pays out. -/
def Event.rewardNotified : Event → ℕ × ℕ
  | .rewardDeposited amount _ => (0, amount)
  | _ => (0, 0)

def Event.rewardPaid : Event → ℕ × ℕ
  | .rewardClaimed _ amount => (0, amount)
  | _ => (0, 0)

/-- One for each call that changes a stake. -/
def Event.stakeChange : Event → ℕ × ℕ
  | .staked .. | .unstaked .. => (0, 1)
  | _ => (0, 0)

/-- A step in the history of the pool: one of its own calls, or anything else that happens
between two of them. -/
inductive PoolAction
  | own (msg : Msg) (call : StakingPool.Call)
  | elsewhere (other : World ERC20)

namespace PoolAction

/-- Only the pool's own calls write its storage and its logs. -/
def exec (d : Deployment) (w : World ERC20) : PoolAction → Except Revert (World ERC20)
  | .own msg call => StakingPool.exec d msg call w
  | .elsewhere other => .ok { other with pool := w.pool, log := w.log }

/-- The pool does not call itself, and what happens elsewhere takes no tokens from it. -/
def Admissible (d : Deployment) (w : World ERC20) : PoolAction → Prop
  | .own msg _ => msg.sender ≠ d.stakingPool
  | .elsewhere other => w.balanceOf d.stakingPool ≤ other.balanceOf d.stakingPool

instance (d : Deployment) (w : World ERC20) : ∀ action, Decidable (Admissible d w action)
  | .own msg _ => inferInstanceAs (Decidable (msg.sender ≠ d.stakingPool))
  | .elsewhere _ => inferInstanceAs (Decidable (_ ≤ _))

end PoolAction

/-- The staking pool as a pool of rewards per share. -/
def stakingRewards {τ : Type} (w : World τ) : RewardPerShare Address where
  shares := w.pool.staked
  total := w.pool.totalStaked
  perShare := w.pool.accRewardPerShare
  debt := w.pool.rewardDebt
  paid := booked Event.rewardPaid w.log
  notified := booked Event.rewardNotified w.log
  issues := booked Event.stakeChange w.log

open StakingPool (reward Rewarded rewardLog settledPool)

/-- The pool accounts for its rewards, and its tokens cover the stakes once rewards that have been
notified and paid are set off. -/
structure StakesCovered (d : Deployment) (w : World ERC20) : Prop where
  rewards : (stakingRewards w).Accounted (10 ^ 18)
  funds : w.pool.totalStaked + booked Event.rewardNotified w.log ≤
    w.balanceOf d.stakingPool + booked Event.rewardPaid w.log

variable {d : Deployment} {msg : Msg} {w next : World ERC20} {user : Address} {amount : ℕ}

theorem booked_rewardLog (w : World ERC20) (user : Address) :
    booked Event.rewardPaid (rewardLog w user) = reward w user ∧
    booked Event.rewardNotified (rewardLog w user) = 0 ∧
    booked Event.stakeChange (rewardLog w user) = 0 := by
  unfold rewardLog
  split
  · simp [Event.rewardPaid, Event.rewardNotified, Event.stakeChange]
  · rename_i nothing
    have none : reward w user = 0 := by omega
    simp [none]

/-- A reward leaves the pool with exactly its amount. -/
theorem Rewarded.balance {token : ERC20} (apart : user ≠ d.stakingPool)
    (rewarded : Rewarded d w user token) :
    token.balanceOf d.stakingPool + reward w user = w.balanceOf d.stakingPool := by
  rcases rewarded with ⟨none, rfl⟩ | ⟨_, pay⟩
  · rw [none]
    rfl
  · obtain ⟨moved, _⟩ := ERC20.transfer_moved pay
    have paid := moved.paid apart.symm
    have covered := moved.covered
    simp only [World.balanceOf, AitToken.balanceOf]
    omega

namespace StakesCovered

/-- A claim pays what is pending. -/
theorem claimed (covered : StakesCovered d w)
    (pool : next.pool = settledPool w user (w.pool.staked user) w.pool.totalStaked)
    (log : next.log = w.log ++ rewardLog w user) :
    (stakingRewards next).Accounted (10 ^ 18) := by
  obtain ⟨paid, notified, changes⟩ := booked_rewardLog w user
  have settled := covered.rewards.debt_add_pending (by decide) user
  have same : stakingRewards next = (stakingRewards w).pay user (reward w user) := by
    simp only [stakingRewards, RewardPerShare.pending] at settled
    simp only [stakingRewards, RewardPerShare.pay, pool, log, settledPool, booked_append, paid,
      notified, changes, reward, settled, Function.update_eq_self, Nat.add_zero]
  have earned : ((stakingRewards w).debt user + (stakingRewards w).pending (10 ^ 18) user) * 10 ^ 18 ≤
      (stakingRewards w).shares user * (stakingRewards w).perShare := by
    rw [settled]
    exact Nat.div_mul_le_self ..
  rw [same]
  exact covered.rewards.pay earned

/-- A change of a stake pays what is pending and then settles the debt of the new stake. -/
theorem restaked (covered : StakesCovered d w) {held totalStaked : ℕ} {e : Event}
    (pool : next.pool = settledPool w user held totalStaked)
    (log : next.log = w.log ++ rewardLog w user ++ [e])
    (books : e.rewardPaid.2 = 0 ∧ e.rewardNotified.2 = 0 ∧ e.stakeChange.2 = 1)
    (total : totalStaked = w.pool.totalStaked - w.pool.staked user + held) :
    (stakingRewards next).Accounted (10 ^ 18) := by
  let claim : World ERC20 := { w with
    pool := settledPool w user (w.pool.staked user) w.pool.totalStaked
    log := w.log ++ rewardLog w user }
  have claimed : (stakingRewards claim).Accounted (10 ^ 18) := covered.claimed rfl rfl
  have same : stakingRewards next = (stakingRewards claim).resize (10 ^ 18) user held := by
    simp only [stakingRewards, RewardPerShare.resize, claim, pool, log, settledPool, booked_append,
      booked_cons, booked_nil, books, total, Function.update_eq_self, Function.update_idem,
      Nat.add_zero]
  rw [same]
  refine claimed.resize held ?_ (by decide)
  simp [stakingRewards, claim, settledPool]

theorem stake (covered : StakesCovered d w) (apart : msg.sender ≠ d.stakingPool)
    (run : StakingPool.stake d msg amount w = .ok next) : StakesCovered d next := by
  obtain ⟨pool, log⟩ := StakingPool.stake_frame run
  obtain ⟨claimed, token, _, _, rewarded, pull, effect⟩ := StakingPool.stake_effect run
  have owned : w.pool.staked msg.sender ≤ w.pool.totalStaked := covered.rewards.share_le msg.sender
  refine ⟨covered.restaked pool log ⟨rfl, rfl, rfl⟩ (by omega), ?_⟩
  obtain ⟨paid, notified, _⟩ := booked_rewardLog w msg.sender
  have given := Rewarded.balance apart rewarded
  have received := (ERC20.transferFrom_moved pull).received apart.symm
  have balance : next.balanceOf d.stakingPool = token.balanceOf d.stakingPool := by rw [effect]; rfl
  have funds := covered.funds
  simp only [pool, log, settledPool, booked_append, booked_cons, booked_nil, paid, notified,
    Event.rewardPaid, Event.rewardNotified, balance, received]
  omega

theorem unstake (covered : StakesCovered d w) (apart : msg.sender ≠ d.stakingPool)
    (run : StakingPool.unstake d msg amount w = .ok next) : StakesCovered d next := by
  obtain ⟨pool, log⟩ := StakingPool.unstake_frame run
  obtain ⟨held, total, claimed, token, _, _, rewarded, pay, effect⟩ := StakingPool.unstake_effect run
  have owned : w.pool.staked msg.sender ≤ w.pool.totalStaked := covered.rewards.share_le msg.sender
  refine ⟨covered.restaked pool log ⟨rfl, rfl, rfl⟩ (by omega), ?_⟩
  obtain ⟨paid, notified, _⟩ := booked_rewardLog w msg.sender
  obtain ⟨moved, _⟩ := ERC20.transfer_moved pay
  have given := Rewarded.balance apart rewarded
  have left := moved.paid apart.symm
  have enough := moved.covered
  have balance : next.balanceOf d.stakingPool = token.balanceOf d.stakingPool := by rw [effect]; rfl
  have funds := covered.funds
  simp only [pool, log, settledPool, booked_append, booked_cons, booked_nil, paid, notified,
    Event.rewardPaid, Event.rewardNotified, balance, left]
  omega

theorem claim (covered : StakesCovered d w) (apart : msg.sender ≠ d.stakingPool)
    (run : StakingPool.claim d msg w = .ok next) : StakesCovered d next := by
  obtain ⟨pool, log⟩ := StakingPool.claim_frame run
  obtain ⟨token, _, _, rewarded, effect⟩ := StakingPool.claim_effect run
  refine ⟨covered.claimed pool log, ?_⟩
  obtain ⟨paid, notified, _⟩ := booked_rewardLog w msg.sender
  have given := Rewarded.balance apart rewarded
  have balance : next.balanceOf d.stakingPool = token.balanceOf d.stakingPool := by rw [effect]; rfl
  have funds := covered.funds
  simp only [pool, log, settledPool, booked_append, paid, notified, balance]
  omega

theorem depositReward {sender : Address} (covered : StakesCovered d w)
    (apart : sender ≠ d.stakingPool)
    (run : StakingPool.depositReward d sender amount w = .ok next) : StakesCovered d next := by
  obtain ⟨_, token, _, _, pull, effect⟩ := StakingPool.depositReward_effect run
  have received := (ERC20.transferFrom_moved pull).received apart.symm
  have balance : next.balanceOf d.stakingPool = w.balanceOf d.stakingPool + amount := by
    rw [effect]
    exact received
  have funds := covered.funds
  rcases StakingPool.depositReward_frame run with ⟨_, pool, log⟩ | ⟨pool, log⟩
  · have same : stakingRewards next = stakingRewards w := by simp only [stakingRewards, pool, log]
    refine ⟨same ▸ covered.rewards, ?_⟩
    rw [pool, log, balance]
    omega
  · have same : stakingRewards next = (stakingRewards w).notify (10 ^ 18) amount := by
      simp [stakingRewards, RewardPerShare.notify, pool, log, Event.rewardPaid, Event.rewardNotified,
        Event.stakeChange]
    refine ⟨same ▸ covered.rewards.notify amount, ?_⟩
    rw [log, balance]
    simp only [pool, booked_append, booked_cons, booked_nil, Event.rewardPaid, Event.rewardNotified]
    omega

theorem exec (covered : StakesCovered d w) {action : PoolAction} (admissible : action.Admissible d w)
    (run : action.exec d w = .ok next) : StakesCovered d next := by
  cases action with
  | own msg call =>
    cases call with
    | depositReward amount => exact covered.depositReward admissible run
    | stake amount => exact covered.stake admissible run
    | unstake amount => exact covered.unstake admissible run
    | claim => exact covered.claim admissible run
  | elsewhere other =>
    cases run
    exact ⟨covered.rewards, covered.funds.trans (Nat.add_le_add_right admissible _)⟩

theorem constructed (fresh : w.pool = StakingPool.constructed) (noLog : w.log = []) :
    StakesCovered d w where
  rewards := by
    refine ⟨?_, fun k => ?_, ?_⟩ <;>
      simp [stakingRewards, fresh, noLog, StakingPool.constructed]
  funds := by simp [fresh, noLog, StakingPool.constructed]

/-- What is paid and pending exceeds the rewards by less than one unit for each change of a stake. -/
theorem pending_le (covered : StakesCovered d w) :
    booked Event.rewardPaid w.log + ∑ user, reward w user ≤
      booked Event.rewardNotified w.log + booked Event.stakeChange w.log :=
  covered.rewards.pending_le (by decide)

/-- Each change of a stake can leave the pool short by less than one unit. -/
theorem solvent (covered : StakesCovered d w) :
    w.pool.totalStaked + ∑ user, reward w user ≤
      w.balanceOf d.stakingPool + booked Event.stakeChange w.log := by
  have pending := covered.pending_le
  have funds := covered.funds
  omega

end StakesCovered

/-- `user` claims and then takes out its whole stake. -/
def exit (d : Deployment) (w : World ERC20) (user : Address) : Except Revert (World ERC20) := do
  let w ← StakingPool.claim d { sender := user } w
  StakingPool.unstake d { sender := user } (w.pool.staked user) w

/-- The stakes add up, and the tokens of the pool cover all stakes and pending rewards. -/
structure FullyFunded (d : Deployment) (w : World ERC20) : Prop where
  stakes : ∑ user, w.pool.staked user = w.pool.totalStaked
  funds : w.pool.totalStaked + ∑ user, reward w user ≤ w.balanceOf d.stakingPool

/-- An account with a stake whose product with the rewards per share is in range. -/
def CanExit (d : Deployment) (w : World ERC20) (user : Address) : Prop :=
  user ≠ 0 ∧ user ≠ d.stakingPool ∧ 0 < w.pool.staked user ∧
    w.pool.staked user * w.pool.accRewardPerShare ≤ uint256Max

instance (d : Deployment) (w : World ERC20) (user : Address) : Decidable (CanExit d w user) :=
  inferInstanceAs (Decidable (_ ∧ _))

theorem stakingPool_ne_zero (d : Deployment) : d.stakingPool ≠ 0 := fun zero =>
  d.deployed (zero ▸ by simp)

theorem payReward_succeeds (apart : user ≠ 0)
    (fits : w.pool.staked user * w.pool.accRewardPerShare ≤ uint256Max)
    (enough : reward w user ≤ w.balanceOf d.stakingPool) :
    ∃ next, StakingPool.payReward d user w = .ok next := by
  have pending := StakingPool.pendingReward_of_fits fits
  unfold StakingPool.payReward
  rw [pending]
  by_cases positive : 0 < reward w user
  · obtain ⟨token, pay⟩ := ERC20.transfer_succeeds (stakingPool_ne_zero d) apart enough
    refine ⟨{ w with token, log := w.log ++ [.rewardClaimed user (reward w user)] }, ?_⟩
    simp only [bind_eq_ok, pure_eq_ok, World.safeTransfer_eq_ok, Except.ok.injEq, exists_eq_left',
      positive, if_true]
    exact ⟨_, ⟨token, pay, rfl⟩, rfl⟩
  · exact ⟨w, by simp [bind, Except.bind, positive, pure, Except.pure]⟩

theorem claim_succeeds (apart : user ≠ 0)
    (fits : w.pool.staked user * w.pool.accRewardPerShare ≤ uint256Max)
    (enough : reward w user ≤ w.balanceOf d.stakingPool) :
    ∃ next, StakingPool.claim d { sender := user } w = .ok next := by
  obtain ⟨claimed, pay⟩ := payReward_succeeds apart fits enough
  obtain ⟨pool, _⟩ := StakingPool.payReward_frame pay
  rw [← pool] at fits
  refine ⟨{ claimed with
    pool := settledPool claimed user (claimed.pool.staked user) claimed.pool.totalStaked }, ?_⟩
  simp only [StakingPool.claim, StakingPool.settleDebt, bind_eq_ok, pure_eq_ok, checkedMul_eq_ok]
  exact ⟨claimed, pay, _, ⟨fits, rfl⟩, by simp [settledPool]⟩

/-- Without a pending reward a stake is taken out by one transfer. -/
theorem unstake_succeeds (apart : user ≠ 0) (staked : 0 < w.pool.staked user)
    (owned : w.pool.staked user ≤ w.pool.totalStaked)
    (fits : w.pool.staked user * w.pool.accRewardPerShare ≤ uint256Max) (none : reward w user = 0)
    (enough : w.pool.staked user ≤ w.balanceOf d.stakingPool) :
    ∃ next, StakingPool.unstake d { sender := user } (w.pool.staked user) w = .ok next := by
  have pending := StakingPool.pendingReward_of_fits fits
  have pay : StakingPool.payReward d user w = .ok w := by
    simp [StakingPool.payReward, pending, none, bind, Except.bind, pure, Except.pure]
  obtain ⟨token, push⟩ := ERC20.transfer_succeeds (stakingPool_ne_zero d) apart enough
  refine ⟨{ w with
    token
    pool := settledPool w user 0 (w.pool.totalStaked - w.pool.staked user)
    log := w.log ++ [.unstaked user (w.pool.staked user)] }, ?_⟩
  simp only [StakingPool.unstake, StakingPool.settleDebt, bind_eq_ok, pure_eq_ok, checkedMul_eq_ok,
    checkedSub_eq_ok, require_eq_ok, exists_const, World.safeTransfer_eq_ok]
  refine ⟨staked, le_rfl, w, pay, _, ⟨le_rfl, rfl⟩, _, ⟨owned, rfl⟩, _, ⟨_, ⟨?_, rfl⟩, rfl⟩, _,
    ⟨token, push, rfl⟩, ?_⟩
  · simp
  · simp [World.emit, settledPool]

theorem reward_of_settled (pool : next.pool = settledPool w user (w.pool.staked user)
    w.pool.totalStaked) : reward next user = 0 := by
  unfold StakingPool.reward
  rw [pool]
  simp [settledPool]

/-- Leaving takes the reward and the stake of the user out of the pool and nothing else. -/
theorem exit_effect (notPool : user ≠ d.stakingPool) (run : exit d w user = .ok next) :
    next.pool = settledPool w user 0 (w.pool.totalStaked - w.pool.staked user) ∧
      next.balanceOf d.stakingPool + reward w user + w.pool.staked user =
        w.balanceOf d.stakingPool := by
  obtain ⟨claimed, claims, unstakes⟩ := bind_eq_ok.mp run
  have pool : claimed.pool = settledPool w user (w.pool.staked user) w.pool.totalStaked :=
    (StakingPool.claim_frame claims).1
  obtain ⟨token, _, _, rewarded, effect⟩ := StakingPool.claim_effect claims
  have given : token.balanceOf d.stakingPool + reward w user = w.balanceOf d.stakingPool :=
    Rewarded.balance notPool rewarded
  have balance : claimed.balanceOf d.stakingPool = token.balanceOf d.stakingPool := by rw [effect]; rfl
  have staked : claimed.pool.staked user = w.pool.staked user := by rw [pool]; simp [settledPool]
  have nothing : reward claimed user = 0 := reward_of_settled pool
  obtain ⟨poolNext, _⟩ := StakingPool.unstake_frame unstakes
  obtain ⟨_, _, unchanged, paid, _, _, rewardedNext, push, effectNext⟩ :=
    StakingPool.unstake_effect unstakes
  obtain ⟨moved, _⟩ := ERC20.transfer_moved push
  have kept : unchanged.balanceOf d.stakingPool + reward claimed user =
      claimed.balanceOf d.stakingPool := Rewarded.balance notPool rewardedNext
  have enough : claimed.pool.staked user ≤ unchanged.balanceOf d.stakingPool := moved.covered
  have left : paid.balanceOf d.stakingPool =
      unchanged.balanceOf d.stakingPool - claimed.pool.staked user := moved.paid (Ne.symm notPool)
  have balanceNext : next.balanceOf d.stakingPool = paid.balanceOf d.stakingPool := by
    rw [effectNext]
    rfl
  refine ⟨?_, by omega⟩
  rw [poolNext]
  simp [settledPool, pool]

theorem exit_succeeds (able : CanExit d w user) (owned : w.pool.staked user ≤ w.pool.totalStaked)
    (enough : w.pool.staked user + reward w user ≤ w.balanceOf d.stakingPool) :
    ∃ next, exit d w user = .ok next := by
  obtain ⟨notZero, notPool, staked, fits⟩ := able
  obtain ⟨claimed, claims⟩ := claim_succeeds (d := d) notZero fits (by omega)
  have pool : claimed.pool = settledPool w user (w.pool.staked user) w.pool.totalStaked :=
    (StakingPool.claim_frame claims).1
  obtain ⟨token, _, _, rewarded, effect⟩ := StakingPool.claim_effect claims
  have given : token.balanceOf d.stakingPool + reward w user = w.balanceOf d.stakingPool :=
    Rewarded.balance notPool rewarded
  have balance : claimed.balanceOf d.stakingPool = token.balanceOf d.stakingPool := by rw [effect]; rfl
  have stakedIs : claimed.pool.staked user = w.pool.staked user := by rw [pool]; simp [settledPool]
  have totalIs : claimed.pool.totalStaked = w.pool.totalStaked := by rw [pool]; rfl
  have accIs : claimed.pool.accRewardPerShare = w.pool.accRewardPerShare := by rw [pool]; rfl
  obtain ⟨next, unstakes⟩ := unstake_succeeds (d := d) (w := claimed) notZero (by omega) (by omega)
    (by rw [stakedIs, accIs]; exact fits) (reward_of_settled pool) (by omega)
  exact ⟨next, bind_eq_ok.mpr ⟨claimed, claims, unstakes⟩⟩

/-- Whoever leaves a fully funded pool leaves it fully funded for the others. -/
theorem FullyFunded.exit (funded : FullyFunded d w) (able : CanExit d w user) :
    ∃ next, exit d w user = .ok next ∧ FullyFunded d next ∧
      ∀ other, other ≠ user → CanExit d w other → CanExit d next other := by
  have stakes := funded.stakes
  have funds := funded.funds
  have owned : w.pool.staked user ≤ ∑ user, w.pool.staked user :=
    Finset.single_le_sum (f := w.pool.staked) (fun _ _ => Nat.zero_le _) (Finset.mem_univ user)
  have earned : reward w user ≤ ∑ user, reward w user :=
    Finset.single_le_sum (f := reward w) (fun _ _ => Nat.zero_le _) (Finset.mem_univ user)
  obtain ⟨next, leaves⟩ := exit_succeeds able (by omega) (by omega)
  obtain ⟨pool, balance⟩ := exit_effect able.2.1 leaves
  have staked : next.pool.staked = Function.update w.pool.staked user 0 := by rw [pool]; rfl
  have total : next.pool.totalStaked = w.pool.totalStaked - w.pool.staked user := by rw [pool]; rfl
  have rewards : reward next = Function.update (reward w) user 0 := by
    funext other
    by_cases same : other = user
    · subst same
      simp [StakingPool.reward, staked]
    · simp [StakingPool.reward, pool, settledPool, same]
  have stakesMoved := Ledger.sum_update w.pool.staked user 0
  have rewardsMoved := Ledger.sum_update (reward w) user 0
  refine ⟨next, leaves, ⟨?_, ?_⟩, fun other apart able => ?_⟩
  · rw [staked, total]
    omega
  · rw [rewards, total]
    omega
  · unfold CanExit at able ⊢
    rw [pool]
    simpa [settledPool, apart] using able

/-- Everyone can leave a fully funded pool, in any order. -/
theorem FullyFunded.exits (funded : FullyFunded d w) {users : List Address} (nodup : users.Nodup)
    (able : ∀ user ∈ users, CanExit d w user) :
    ∃ next, users.foldlM (Aide.exit d) w = .ok next ∧ FullyFunded d next := by
  induction users generalizing w with
  | nil => exact ⟨w, rfl, funded⟩
  | cons user rest ih =>
    obtain ⟨notLater, nodupRest⟩ := List.nodup_cons.mp nodup
    obtain ⟨left, leaves, fundedLeft, others⟩ := funded.exit (able user (List.mem_cons_self ..))
    obtain ⟨next, leave, fundedNext⟩ := ih fundedLeft nodupRest fun other member =>
      others other (fun same => notLater (same ▸ member)) (able other (List.mem_cons_of_mem _ member))
    exact ⟨next, by rw [List.foldlM_cons, leaves]; exact leave, fundedNext⟩

/-- The books of the pool hold in every run from its constructor. -/
theorem StakesCovered.of_run {run : List PoolAction} (fresh : w.pool = StakingPool.constructed)
    (noLog : w.log = [])
    (admissible : TransitionRun.Meets (PoolAction.exec d) (PoolAction.Admissible d) w run) :
    StakesCovered d (TransitionRun.exec (PoolAction.exec d) w run) :=
  TransitionRun.exec_preserves (fun _ _ _ covered admissible step => covered.exec admissible step)
    (StakesCovered.constructed fresh noLog) admissible

/-- The tokens of the pool and one unit for each change of a stake cover all stakes and pending
rewards, after every run. Where the tokens alone cover them, everyone with a stake whose product with
the rewards per share is in range can claim and then take out the whole stake, in any order. -/
theorem staking_solvent_up_to_rounding {run : List PoolAction}
    (fresh : w.pool = StakingPool.constructed) (noLog : w.log = [])
    (admissible : TransitionRun.Meets (PoolAction.exec d) (PoolAction.Admissible d) w run) :
    let final := TransitionRun.exec (PoolAction.exec d) w run
    final.pool.totalStaked + ∑ user, reward final user ≤
        final.balanceOf d.stakingPool + booked Event.stakeChange final.log ∧
      (final.pool.totalStaked + ∑ user, reward final user ≤ final.balanceOf d.stakingPool →
        ∀ users : List Address, users.Nodup → (∀ user ∈ users, CanExit d final user) →
          ∃ left, users.foldlM (exit d) final = .ok left) := by
  have covered := StakesCovered.of_run fresh noLog admissible
  refine ⟨covered.solvent, fun funds users nodup able => ?_⟩
  have funded : FullyFunded d (TransitionRun.exec (PoolAction.exec d) w run) :=
    ⟨covered.rewards.total, funds⟩
  obtain ⟨left, leave, _⟩ := funded.exits nodup able
  exact ⟨left, leave⟩

namespace Devnet

/-- Everyone but the pool owns tokens, and the pool may pull them. -/
def endowed : World ERC20 :=
  Deployment.devnet.launch admin teeAuthority 0
    { balanceOf := fun account => if account = Deployment.devnet.stakingPool then 0 else 10
      allowance := fun _ _ => uint256Max
      totalSupply := 0 : ERC20 }

def stakers : List Address := [alice, bob, mallory, teeAuthority]

/-- Two stake one unit each before a reward of one unit, and two more after it. Another reward of
two units gives half a unit to each of the four, and the first half of two of them was rounded
away from the debts of the others. -/
def halves : List PoolAction :=
  [.own { sender := alice } (.stake 1), .own { sender := bob } (.stake 1),
    .own { sender := admin } (.depositReward 1), .own { sender := mallory } (.stake 1),
    .own { sender := teeAuthority } (.stake 1), .own { sender := admin } (.depositReward 2)]

def halved : World ERC20 := TransitionRun.exec (PoolAction.exec Deployment.devnet) endowed halves

/-- The admin owns what the rewards below take, and alice and the pool own a little. -/
def wealthy : World ERC20 :=
  Deployment.devnet.launch admin teeAuthority 0
    { balanceOf := fun account =>
        if account = admin then 10 ^ 60
        else if account = alice ∨ account = Deployment.devnet.stakingPool then 100 else 0
      allowance := fun _ _ => uint256Max
      totalSupply := 10 ^ 60 + 200 : ERC20 }

/-- Each of the two rewards raises the rewards per share by `10 ^ 75`. -/
def riches : List PoolAction :=
  [.own { sender := alice } (.stake 100), .own { sender := admin } (.depositReward (10 ^ 59)),
    .own { sender := admin } (.depositReward (10 ^ 59))]

def enriched : World ERC20 := TransitionRun.exec (PoolAction.exec Deployment.devnet) wealthy riches

end Devnet

open Devnet in
theorem staking_solvent_up_to_rounding_of_halves :
    let final := TransitionRun.exec (PoolAction.exec Deployment.devnet) endowed halves
    final.pool.totalStaked + ∑ user, reward final user ≤
        final.balanceOf Deployment.devnet.stakingPool + booked Event.stakeChange final.log ∧
      (final.pool.totalStaked + ∑ user, reward final user ≤
          final.balanceOf Deployment.devnet.stakingPool →
        ∀ users : List Address, users.Nodup →
          (∀ user ∈ users, CanExit Deployment.devnet final user) →
          ∃ left, users.foldlM (exit Deployment.devnet) final = .ok left) :=
  @staking_solvent_up_to_rounding Deployment.devnet endowed halves rfl rfl (by decide)

open Devnet in
/-- Four stakers have one unit pending each, but the pool holds seven units for their four and the
four pending ones, and the last of them cannot leave. -/
theorem staking_short_after_halves :
    ¬ ∀ (d : Deployment) (w : World ERC20) (run : List PoolAction),
      w.pool = StakingPool.constructed → w.log = [] →
      TransitionRun.Meets (PoolAction.exec d) (PoolAction.Admissible d) w run →
      let final := TransitionRun.exec (PoolAction.exec d) w run
      final.pool.totalStaked + ∑ user, reward final user ≤ final.balanceOf d.stakingPool ∨
        ∀ users : List Address, users.Nodup → (∀ user ∈ users, CanExit d final user) →
          ∃ left, users.foldlM (exit d) final = .ok left := by
  intro always
  have same : TransitionRun.exec (PoolAction.exec Deployment.devnet) endowed halves = halved := rfl
  rcases always Deployment.devnet endowed halves rfl rfl (by decide) with covered | leave
  · rw [same] at covered
    have pending : ∑ user ∈ stakers.toFinset, reward halved user ≤ ∑ user, reward halved user :=
      Finset.sum_le_sum_of_subset (Finset.subset_univ _)
    have each : ∑ user ∈ stakers.toFinset, reward halved user = 4 := by decide +kernel
    have staked : halved.pool.totalStaked = 4 := by decide +kernel
    have held : halved.balanceOf Deployment.devnet.stakingPool = 7 := by decide +kernel
    omega
  · rw [same] at leave
    have able : ∀ user ∈ stakers, CanExit Deployment.devnet halved user := by
      have all : (stakers.all fun user => CanExit Deployment.devnet halved user) = true := by
        decide +kernel
      simpa using all
    obtain ⟨left, leaves⟩ := leave stakers (by decide) able
    have stuck : (stakers.foldlM (exit Deployment.devnet) halved).isOk = false := by decide +kernel
    rw [leaves] at stuck
    cases stuck

open Devnet in
/-- The bound on the product of a stake and the rewards per share is needed. The pool holds more than
the stake and the reward of its one staker, whose product leaves the range, and every claim reverts. -/
theorem staking_stuck_after_riches :
    ¬ ∀ (d : Deployment) (w : World ERC20) (run : List PoolAction),
      w.pool = StakingPool.constructed → w.log = [] →
      TransitionRun.Meets (PoolAction.exec d) (PoolAction.Admissible d) w run →
      let final := TransitionRun.exec (PoolAction.exec d) w run
      final.pool.totalStaked + ∑ user, reward final user ≤ final.balanceOf d.stakingPool →
        ∀ users : List Address, users.Nodup →
          (∀ user ∈ users, user ≠ 0 ∧ user ≠ d.stakingPool ∧ 0 < final.pool.staked user) →
          ∃ left, users.foldlM (exit d) final = .ok left := by
  intro always
  have same : TransitionRun.exec (PoolAction.exec Deployment.devnet) wealthy riches = enriched := rfl
  have covered : StakesCovered Deployment.devnet enriched :=
    @StakesCovered.of_run Deployment.devnet wealthy riches rfl rfl (by decide +kernel)
  have pending := covered.pending_le
  have notified : booked Event.rewardNotified enriched.log = 2 * 10 ^ 59 := by decide +kernel
  have changes : booked Event.stakeChange enriched.log = 1 := by decide +kernel
  have staked : enriched.pool.totalStaked = 100 := by decide +kernel
  have held : enriched.balanceOf Deployment.devnet.stakingPool = 2 * 10 ^ 59 + 200 := by decide +kernel
  have stakes : 0 < enriched.pool.staked alice := by decide +kernel
  have apart : alice ≠ 0 ∧ alice ≠ Deployment.devnet.stakingPool := by decide
  obtain ⟨left, leaves⟩ := always Deployment.devnet wealthy riches rfl rfl (by decide +kernel)
    (by rw [same]; omega) [alice] (by decide) (by simpa [same] using ⟨apart.1, apart.2, stakes⟩)
  have stuck : ([alice].foldlM (exit Deployment.devnet) enriched).isOk = false := by decide +kernel
  rw [same] at leaves
  rw [leaves] at stuck
  cases stuck

end Aide
