import Aide.Contracts.World

namespace Aide.StakingPool
variable {τ : Type} [AitToken τ]

def pendingReward (w : World τ) (user : Address) : Except Revert ℕ := do
  let product ← checkedMul (w.pool.staked user) w.pool.accRewardPerShare
  let accumulated := product / 10 ^ 18
  if accumulated < w.pool.rewardDebt user then pure 0
  else pure (accumulated - w.pool.rewardDebt user)

/-- `rewardDebt[user] = (staked[user] * accRewardPerShare) / 1e18`. -/
def settleDebt (user : Address) (w : World τ) : Except Revert (World τ) := do
  let product ← checkedMul (w.pool.staked user) w.pool.accRewardPerShare
  pure { w with pool := { w.pool with
    rewardDebt := Function.update w.pool.rewardDebt user (product / 10 ^ 18) } }

/-- `_claim`. -/
def payReward (d : Deployment) (user : Address) (w : World τ) : Except Revert (World τ) := do
  let reward ← pendingReward w user
  if 0 < reward then do
    let w ← w.safeTransfer d d.stakingPool user reward
    pure (w.emit (.rewardClaimed user reward))
  else
    pure w

def depositReward (d : Deployment) (sender : Address) (amount : ℕ) (w : World τ) :
    Except Revert (World τ) := do
  require (0 < amount) (.require "StakingPool: zero")
  let w ← w.safeTransferFrom d d.stakingPool sender d.stakingPool amount
  if w.pool.totalStaked = 0 then
    pure w
  else do
    let product ← checkedMul amount (10 ^ 18)
    let accRewardPerShare ← checkedAdd w.pool.accRewardPerShare (product / w.pool.totalStaked)
    pure ({ w with pool := { w.pool with accRewardPerShare } }.emit
      (.rewardDeposited amount accRewardPerShare))

def stake (d : Deployment) (msg : Msg) (amount : ℕ) (w : World τ) : Except Revert (World τ) := do
  require (0 < amount) (.require "StakingPool: zero")
  let w ← payReward d msg.sender w
  let w ← w.safeTransferFrom d d.stakingPool msg.sender d.stakingPool amount
  let staked ← checkedAdd (w.pool.staked msg.sender) amount
  let totalStaked ← checkedAdd w.pool.totalStaked amount
  let w ← settleDebt msg.sender { w with pool := { w.pool with
    staked := Function.update w.pool.staked msg.sender staked, totalStaked } }
  pure (w.emit (.staked msg.sender amount))

def unstake (d : Deployment) (msg : Msg) (amount : ℕ) (w : World τ) : Except Revert (World τ) := do
  require (0 < amount) (.require "StakingPool: zero")
  require (amount ≤ w.pool.staked msg.sender) (.require "StakingPool: not enough")
  let w ← payReward d msg.sender w
  let staked ← checkedSub (w.pool.staked msg.sender) amount
  let totalStaked ← checkedSub w.pool.totalStaked amount
  let w ← settleDebt msg.sender { w with pool := { w.pool with
    staked := Function.update w.pool.staked msg.sender staked, totalStaked } }
  let w ← w.safeTransfer d d.stakingPool msg.sender amount
  pure (w.emit (.unstaked msg.sender amount))

def claim (d : Deployment) (msg : Msg) (w : World τ) : Except Revert (World τ) := do
  let w ← payReward d msg.sender w
  settleDebt msg.sender w

inductive Call
  | depositReward (amount : ℕ)
  | stake (amount : ℕ)
  | unstake (amount : ℕ)
  | claim

def exec (d : Deployment) (msg : Msg) : Call → World τ → Except Revert (World τ)
  | .depositReward amount, w => depositReward d msg.sender amount w
  | .stake amount, w => stake d msg amount w
  | .unstake amount, w => unstake d msg amount w
  | .claim, w => claim d msg w

/-- What `user` has earned above its debt. -/
def reward (w : World τ) (user : Address) : ℕ :=
  w.pool.staked user * w.pool.accRewardPerShare / 10 ^ 18 - w.pool.rewardDebt user

/-- How a reward reaches its user: not at all when it is zero, else by a transfer. -/
def Rewarded (d : Deployment) (w : World τ) (user : Address) (token : τ) : Prop :=
  (reward w user = 0 ∧ token = w.token) ∨ (0 < reward w user ∧
    AitToken.transfer w.token (w.taxRates d) d.stakingPool user (reward w user) = .ok token)

variable {d : Deployment} {msg : Msg} {w next : World τ} {amount : ℕ}

omit [AitToken τ] in
theorem pendingReward_eq_ok {user : Address} {pending : ℕ}
    (run : pendingReward w user = .ok pending) : pending = reward w user := by
  simp only [pendingReward, bind_eq_ok, checkedMul_eq_ok] at run
  obtain ⟨_, ⟨_, rfl⟩, run⟩ := run
  split at run
  · rename_i below
    cases pure_eq_ok.mp run
    exact (Nat.sub_eq_zero_of_le below.le).symm
  · exact (pure_eq_ok.mp run).symm

omit [AitToken τ] in
theorem pendingReward_of_fits {user : Address}
    (fits : w.pool.staked user * w.pool.accRewardPerShare ≤ uint256Max) :
    pendingReward w user = .ok (reward w user) := by
  unfold pendingReward checkedMul
  rw [if_pos fits]
  simp only [bind, Except.bind, reward]
  split
  · rename_i below
    rw [Nat.sub_eq_zero_of_le below.le]
    rfl
  · rfl

theorem payReward_effect {user : Address} (run : payReward d user w = .ok next) :
    ∃ token log, Rewarded d w user token ∧ next = { w with token, log } := by
  obtain ⟨pending, pendingIs, run⟩ := bind_eq_ok.mp run
  cases pendingReward_eq_ok pendingIs
  split at run
  · rename_i positive
    simp only [bind_eq_ok, pure_eq_ok, World.safeTransfer_eq_ok] at run
    obtain ⟨_, ⟨token, pay, rfl⟩, rfl⟩ := run
    exact ⟨token, _, Or.inr ⟨positive, pay⟩, rfl⟩
  · rename_i nothing
    cases pure_eq_ok.mp run
    exact ⟨w.token, w.log, Or.inl ⟨by omega, rfl⟩, rfl⟩

theorem depositReward_effect {sender : Address} (run : depositReward d sender amount w = .ok next) :
    0 < amount ∧ ∃ token accRewardPerShare log,
      AitToken.transferFrom w.token (w.taxRates d) d.stakingPool sender d.stakingPool amount =
        .ok token ∧
      next = { w with token, pool := { w.pool with accRewardPerShare }, log } := by
  simp only [depositReward, bind_eq_ok, require_eq_ok, exists_const,
    World.safeTransferFrom_eq_ok] at run
  obtain ⟨positive, _, ⟨token, pull, rfl⟩, run⟩ := run
  refine ⟨positive, token, ?_⟩
  split at run
  · cases pure_eq_ok.mp run
    exact ⟨_, _, pull, rfl⟩
  · simp only [bind_eq_ok, pure_eq_ok] at run
    obtain ⟨_, _, _, _, rfl⟩ := run
    exact ⟨_, _, pull, rfl⟩

theorem stake_effect (run : stake d msg amount w = .ok next) :
    ∃ claimed token rewardDebt log, Rewarded d w msg.sender claimed ∧
      AitToken.transferFrom claimed (w.taxRates d) d.stakingPool msg.sender d.stakingPool amount =
        .ok token ∧
      next = { w with
        token
        pool := { w.pool with
          staked := Function.update w.pool.staked msg.sender (w.pool.staked msg.sender + amount)
          totalStaked := w.pool.totalStaked + amount
          rewardDebt }
        log } := by
  simp only [stake, settleDebt, bind_eq_ok, pure_eq_ok, checkedAdd_eq_ok,
    World.safeTransferFrom_eq_ok] at run
  obtain ⟨_, _, _, claim, _, ⟨token, pull, rfl⟩, _, ⟨_, rfl⟩, _, ⟨_, rfl⟩, _, ⟨_, _, rfl⟩, rfl⟩ := run
  obtain ⟨claimed, _, rewarded, rfl⟩ := payReward_effect claim
  exact ⟨claimed, token, _, _, rewarded, pull, rfl⟩

theorem unstake_effect (run : unstake d msg amount w = .ok next) :
    amount ≤ w.pool.staked msg.sender ∧ amount ≤ w.pool.totalStaked ∧
    ∃ claimed token rewardDebt log, Rewarded d w msg.sender claimed ∧
      AitToken.transfer claimed (w.taxRates d) d.stakingPool msg.sender amount = .ok token ∧
      next = { w with
        token
        pool := { w.pool with
          staked := Function.update w.pool.staked msg.sender (w.pool.staked msg.sender - amount)
          totalStaked := w.pool.totalStaked - amount
          rewardDebt }
        log } := by
  simp only [unstake, settleDebt, bind_eq_ok, pure_eq_ok, checkedSub_eq_ok, require_eq_ok,
    exists_const, World.safeTransfer_eq_ok] at run
  obtain ⟨_, held, _, claim, _, ⟨_, rfl⟩, _, ⟨total, rfl⟩, _, ⟨_, _, rfl⟩, _, ⟨token, pay, rfl⟩,
    rfl⟩ := run
  obtain ⟨claimed, _, rewarded, rfl⟩ := payReward_effect claim
  exact ⟨held, total, claimed, token, _, _, rewarded, pay, rfl⟩

theorem claim_effect (run : claim d msg w = .ok next) :
    ∃ token rewardDebt log, Rewarded d w msg.sender token ∧
      next = { w with token, pool := { w.pool with rewardDebt }, log } := by
  simp only [claim, settleDebt, bind_eq_ok, pure_eq_ok] at run
  obtain ⟨_, pay, _, _, rfl⟩ := run
  obtain ⟨token, log, rewarded, rfl⟩ := payReward_effect pay
  exact ⟨token, _, log, rewarded, rfl⟩

/-- The log of a reward. -/
def rewardLog (w : World τ) (user : Address) : List Event :=
  if 0 < reward w user then [.rewardClaimed user (reward w user)] else []

/-- The storage of the pool once `user`, who has been paid, holds `staked` of `totalStaked`. -/
def settledPool (w : World τ) (user : Address) (staked totalStaked : ℕ) : StakingPool :=
  { w.pool with
    staked := Function.update w.pool.staked user staked
    totalStaked
    rewardDebt := Function.update w.pool.rewardDebt user
      (staked * w.pool.accRewardPerShare / 10 ^ 18) }

theorem payReward_frame {user : Address} (run : payReward d user w = .ok next) :
    next.pool = w.pool ∧ next.log = w.log ++ rewardLog w user := by
  unfold payReward at run
  obtain ⟨pending, pendingIs, run⟩ := bind_eq_ok.mp run
  cases pendingReward_eq_ok pendingIs
  unfold rewardLog
  split at run
  · rename_i positive
    simp only [bind_eq_ok, pure_eq_ok, World.safeTransfer_eq_ok] at run
    obtain ⟨_, ⟨token, pay, rfl⟩, rfl⟩ := run
    rw [if_pos positive]
    exact ⟨rfl, rfl⟩
  · rename_i nothing
    cases pure_eq_ok.mp run
    rw [if_neg nothing, List.append_nil]
    exact ⟨rfl, rfl⟩

/-- Without stakers a deposit is only a transfer. -/
theorem depositReward_frame {sender : Address} (run : depositReward d sender amount w = .ok next) :
    (w.pool.totalStaked = 0 ∧ next.pool = w.pool ∧ next.log = w.log) ∨
    next.pool = { w.pool with
      accRewardPerShare := w.pool.accRewardPerShare + amount * 10 ^ 18 / w.pool.totalStaked } ∧
      next.log = w.log ++ [.rewardDeposited amount
        (w.pool.accRewardPerShare + amount * 10 ^ 18 / w.pool.totalStaked)] := by
  simp only [depositReward, bind_eq_ok, require_eq_ok, exists_const,
    World.safeTransferFrom_eq_ok] at run
  obtain ⟨_, _, ⟨token, _, rfl⟩, run⟩ := run
  split at run
  · rename_i nobody
    cases pure_eq_ok.mp run
    exact Or.inl ⟨nobody, rfl, rfl⟩
  · simp only [bind_eq_ok, pure_eq_ok, checkedMul_eq_ok, checkedAdd_eq_ok] at run
    obtain ⟨_, ⟨_, rfl⟩, _, ⟨_, rfl⟩, rfl⟩ := run
    exact Or.inr ⟨rfl, rfl⟩

theorem stake_frame (run : stake d msg amount w = .ok next) :
    next.pool = settledPool w msg.sender (w.pool.staked msg.sender + amount)
      (w.pool.totalStaked + amount) ∧
    next.log = w.log ++ rewardLog w msg.sender ++ [.staked msg.sender amount] := by
  simp only [stake, settleDebt, bind_eq_ok, pure_eq_ok, checkedAdd_eq_ok, checkedMul_eq_ok,
    World.safeTransferFrom_eq_ok] at run
  obtain ⟨_, _, _, claim, _, ⟨token, _, rfl⟩, _, ⟨_, rfl⟩, _, ⟨_, rfl⟩, _, ⟨_, ⟨_, rfl⟩, rfl⟩, rfl⟩ :=
    run
  obtain ⟨pool, log⟩ := payReward_frame claim
  simp only [World.emit, Function.update_self, pool, log, settledPool, and_self]

theorem unstake_frame (run : unstake d msg amount w = .ok next) :
    next.pool = settledPool w msg.sender (w.pool.staked msg.sender - amount)
      (w.pool.totalStaked - amount) ∧
    next.log = w.log ++ rewardLog w msg.sender ++ [.unstaked msg.sender amount] := by
  simp only [unstake, settleDebt, bind_eq_ok, pure_eq_ok, checkedSub_eq_ok, checkedMul_eq_ok,
    World.safeTransfer_eq_ok] at run
  obtain ⟨_, _, _, _, _, claim, _, ⟨_, rfl⟩, _, ⟨_, rfl⟩, _, ⟨_, ⟨_, rfl⟩, rfl⟩, _, ⟨token, _, rfl⟩,
    rfl⟩ := run
  obtain ⟨pool, log⟩ := payReward_frame claim
  simp only [World.emit, Function.update_self, pool, log, settledPool, and_self]

theorem claim_frame (run : claim d msg w = .ok next) :
    next.pool = settledPool w msg.sender (w.pool.staked msg.sender) w.pool.totalStaked ∧
    next.log = w.log ++ rewardLog w msg.sender := by
  simp only [claim, settleDebt, bind_eq_ok, pure_eq_ok, checkedMul_eq_ok] at run
  obtain ⟨_, pay, _, ⟨_, rfl⟩, rfl⟩ := run
  obtain ⟨pool, log⟩ := payReward_frame pay
  simp only [pool, log, settledPool, Function.update_eq_self, and_self]

end Aide.StakingPool
