import Aide.Foundation.Lockstep
import Aide.Staking

namespace Aide

namespace ERC20
variable {t early next : ERC20} {pool user spender src dst : Address} {lead value : ℕ}

theorem transfer_parties (run : t.transfer src dst value = .ok next) : src ≠ 0 ∧ dst ≠ 0 := by
  simp only [transfer, bind_eq_ok, require_eq_ok, exists_const] at run
  exact ⟨run.1, run.2.1⟩

/-- Two tokens that differ by what the pool has paid the user early. -/
structure Paid (pool user : Address) (lead : ℕ) (t early : ERC20) : Prop where
  moved : t.Moved early pool user lead
  allowance : early.allowance = t.allowance

namespace Paid

theorem refl (pool user : Address) (t : ERC20) : Paid pool user 0 t t :=
  ⟨Moved.refl t pool user, rfl⟩

theorem more (apart : user ≠ pool) (paid : Paid pool user lead t early)
    (run : early.transfer pool user value = .ok next) : Paid pool user (lead + value) t next := by
  obtain ⟨moved, allowance⟩ := transfer_moved run
  have first := paid.moved.paid apart.symm
  have covered := paid.moved.covered
  have enough := moved.covered
  refine ⟨⟨by omega, fun account => ?_, moved.totalSupply.trans paid.moved.totalSupply⟩,
    allowance.trans paid.allowance⟩
  have parts : ∀ (here : Prop) [Decidable here], (if here then lead + value else 0) =
      (if here then lead else 0) + (if here then value else 0) := fun _ _ => by split <;> rfl
  have before := paid.moved.balance account
  have after := moved.balance account
  rw [parts, parts]
  omega

/-- A transfer that the early token covers too keeps the difference. -/
theorem transfer (apart : user ≠ pool) (paid : Paid pool user lead t early) (other : src ≠ user)
    (covered : src = pool → value ≤ early.balanceOf pool) :
    Lockstep (Paid pool user lead) (t.transfer src dst value) (early.transfer src dst value) := by
  have agree : value ≤ early.balanceOf src ↔ value ≤ t.balanceOf src := by
    have balance := paid.moved.balance src
    rw [if_neg other] at balance
    by_cases fromPool : src = pool
    · subst fromPool
      have enough := covered rfl
      rw [if_pos rfl] at balance
      omega
    · rw [if_neg fromPool] at balance
      omega
  refine .of_ok (fun after run => ?_) fun earlyAfter earlyRun => ?_
  · obtain ⟨hsrc, hdst⟩ := transfer_parties run
    obtain ⟨moved, allowance⟩ := transfer_moved run
    obtain ⟨earlyAfter, earlyRun⟩ := transfer_succeeds hsrc hdst (agree.mpr moved.covered)
    obtain ⟨earlyMoved, earlyAllowance⟩ := transfer_moved earlyRun
    have balances : ∀ account, earlyAfter.balanceOf account + (if account = pool then lead else 0) =
        after.balanceOf account + (if account = user then lead else 0) := fun account => by
      have before := paid.moved.balance account
      have base := moved.balance account
      have later := earlyMoved.balance account
      omega
    refine ⟨earlyAfter, earlyRun, ⟨?_, balances, ?_⟩, ?_⟩
    · have atPool := balances pool
      rw [if_pos rfl, if_neg apart.symm] at atPool
      omega
    · rw [earlyMoved.totalSupply, paid.moved.totalSupply, moved.totalSupply]
    · rw [earlyAllowance, paid.allowance, allowance]
  · obtain ⟨hsrc, hdst⟩ := transfer_parties earlyRun
    exact transfer_succeeds hsrc hdst (agree.mp (transfer_moved earlyRun).1.covered)

theorem spendAllowance (paid : Paid pool user lead t early) :
    Lockstep (Paid pool user lead) (t.spendAllowance src spender value)
      (early.spendAllowance src spender value) := by
  unfold ERC20.spendAllowance
  rw [paid.allowance]
  split
  · exact .pure paid
  · exact .bind_same fun _ _ => .bind_same fun _ _ => .bind_same fun _ _ => .pure
      ⟨⟨paid.moved.covered, paid.moved.balance, paid.moved.totalSupply⟩, rfl⟩

theorem transferFrom (apart : user ≠ pool) (paid : Paid pool user lead t early)
    (other : src ≠ user) (notPool : src ≠ pool) :
    Lockstep (Paid pool user lead) (t.transferFrom spender src dst value)
      (early.transferFrom spender src dst value) :=
  .bind paid.spendAllowance fun _ _ paid =>
    paid.transfer apart other fun fromPool => absurd fromPool notPool

end Paid
end ERC20

open StakingPool (reward settledPool)

/-- The worlds of two runs that differ by what `user` has claimed early: the pool has paid that much
more to it, and its debt is that much higher. Nothing that it has earned is lost to a debt above the
earnings. -/
structure Claimed (d : Deployment) (user : Address) (lead : ℕ) (w early : World ERC20) : Prop where
  token : ERC20.Paid d.stakingPool user lead w.token early.token
  pool : early.pool = { w.pool with
    rewardDebt := Function.update w.pool.rewardDebt user (w.pool.rewardDebt user + lead) }
  earned : w.pool.rewardDebt user + lead ≤
    w.pool.staked user * w.pool.accRewardPerShare / 10 ^ 18

namespace Claimed
variable {d : Deployment} {user other sender : Address} {lead amount : ℕ} {msg : Msg}
  {w early next : World ERC20}

theorem staked (claimed : Claimed d user lead w early) : early.pool.staked = w.pool.staked := by
  rw [claimed.pool]

theorem totalStaked (claimed : Claimed d user lead w early) :
    early.pool.totalStaked = w.pool.totalStaked := by
  rw [claimed.pool]

theorem accRewardPerShare (claimed : Claimed d user lead w early) :
    early.pool.accRewardPerShare = w.pool.accRewardPerShare := by
  rw [claimed.pool]

/-- What the user has claimed early is missing from what it has pending. -/
theorem reward_add (claimed : Claimed d user lead w early) :
    reward early user + lead = reward w user := by
  have earned := claimed.earned
  unfold StakingPool.reward
  rw [claimed.pool]
  simp only [Function.update_self]
  omega

theorem pendingReward_of_ne (claimed : Claimed d user lead w early) (apart : other ≠ user) :
    StakingPool.pendingReward early other = StakingPool.pendingReward w other := by
  unfold StakingPool.pendingReward
  rw [claimed.pool]
  simp only [Function.update_of_ne apart]

theorem balances (claimed : Claimed d user lead w early) (apart : user ≠ d.stakingPool) :
    early.balanceOf user = w.balanceOf user + lead ∧
      early.balanceOf d.stakingPool + lead = w.balanceOf d.stakingPool := by
  have moved := claimed.token.moved
  have received : early.balanceOf user = w.balanceOf user + lead := moved.received apart
  have paid : early.balanceOf d.stakingPool = w.balanceOf d.stakingPool - lead :=
    moved.paid apart.symm
  have covered : lead ≤ w.balanceOf d.stakingPool := moved.covered
  exact ⟨received, by omega⟩

/-- The logs of the two worlds may differ. -/
theorem emit (claimed : Claimed d user lead w early) (e later : Event) :
    Claimed d user lead (w.emit e) (early.emit later) :=
  ⟨claimed.token, claimed.pool, claimed.earned⟩

theorem safeTransfer (claimed : Claimed d user lead w early) (apart : user ≠ d.stakingPool)
    (covered : amount ≤ early.balanceOf d.stakingPool) :
    Lockstep (Claimed d user lead) (w.safeTransfer d d.stakingPool other amount)
      (early.safeTransfer d d.stakingPool other amount) :=
  .bind (claimed.token.transfer apart apart.symm fun _ => covered) fun _ _ token =>
    .pure ⟨token, claimed.pool, claimed.earned⟩

theorem safeTransferFrom (claimed : Claimed d user lead w early) (apart : user ≠ d.stakingPool)
    (others : sender ≠ user) (notPool : sender ≠ d.stakingPool) :
    Lockstep (Claimed d user lead) (w.safeTransferFrom d d.stakingPool sender d.stakingPool amount)
      (early.safeTransferFrom d d.stakingPool sender d.stakingPool amount) :=
  .bind (claimed.token.transferFrom apart others notPool) fun _ _ token =>
    .pure ⟨token, claimed.pool, claimed.earned⟩

theorem payReward (claimed : Claimed d user lead w early) (apart : user ≠ d.stakingPool)
    (others : other ≠ user) (covered : reward early other ≤ early.balanceOf d.stakingPool) :
    Lockstep (Claimed d user lead) (StakingPool.payReward d other w)
      (StakingPool.payReward d other early) := by
  unfold StakingPool.payReward
  rw [← claimed.pendingReward_of_ne others]
  refine .bind_same fun pending pendingIs => ?_
  cases StakingPool.pendingReward_eq_ok pendingIs
  split
  · exact .bind (claimed.safeTransfer apart covered) fun _ _ claimed =>
      .pure (claimed.emit _ _)
  · exact .pure claimed

theorem settleDebt (claimed : Claimed d user lead w early) (others : other ≠ user) :
    Lockstep (Claimed d user lead) (StakingPool.settleDebt other w)
      (StakingPool.settleDebt other early) := by
  unfold StakingPool.settleDebt
  rw [claimed.pool]
  refine .bind_same fun product _ => .pure ⟨claimed.token, ?_, ?_⟩
  · simp only [Function.update_comm others, Function.update_of_ne others.symm]
  · simp only [Function.update_of_ne others.symm]
    exact claimed.earned

/-- The stake of someone else may change in both. -/
theorem restake (claimed : Claimed d user lead w early) (others : other ≠ user) (held total : ℕ) :
    Claimed d user lead
      { w with pool := { w.pool with
        staked := Function.update w.pool.staked other held, totalStaked := total } }
      { early with pool := { early.pool with
        staked := Function.update w.pool.staked other held, totalStaked := total } } where
  token := claimed.token
  pool := by rw [claimed.pool]
  earned := by
    simp only [Function.update_of_ne others.symm]
    exact claimed.earned

theorem depositReward (claimed : Claimed d user lead w early) (apart : user ≠ d.stakingPool)
    (others : sender ≠ user) (notPool : sender ≠ d.stakingPool) :
    Lockstep (Claimed d user lead) (StakingPool.depositReward d sender amount w)
      (StakingPool.depositReward d sender amount early) := by
  refine .bind_same fun _ _ => ?_
  refine .bind (claimed.safeTransferFrom apart others notPool) fun w early claimed => ?_
  rw [claimed.pool]
  split
  · exact .pure claimed
  · refine .bind_same fun product _ => .bind_same fun accRewardPerShare grown => ?_
    obtain ⟨_, rfl⟩ := checkedAdd_eq_ok.mp grown
    refine .pure ⟨claimed.token, rfl, claimed.earned.trans ?_⟩
    exact Nat.div_le_div_right (Nat.mul_le_mul_left _ (Nat.le_add_right ..))

theorem stake (claimed : Claimed d user lead w early) (apart : user ≠ d.stakingPool)
    (others : msg.sender ≠ user) (notPool : msg.sender ≠ d.stakingPool)
    (covered : reward early msg.sender ≤ early.balanceOf d.stakingPool) :
    Lockstep (Claimed d user lead) (StakingPool.stake d msg amount w)
      (StakingPool.stake d msg amount early) := by
  refine .bind_same fun _ _ => ?_
  refine .bind (claimed.payReward apart others covered) fun w early claimed => ?_
  refine .bind (claimed.safeTransferFrom apart others notPool) fun w early claimed => ?_
  rw [claimed.staked, claimed.totalStaked]
  refine .bind_same fun held _ => .bind_same fun total _ => ?_
  exact .bind ((claimed.restake others held total).settleDebt others) fun _ _ claimed =>
    .pure (claimed.emit _ _)

theorem unstake (claimed : Claimed d user lead w early) (apart : user ≠ d.stakingPool)
    (others : msg.sender ≠ user) (notPool : msg.sender ≠ d.stakingPool)
    (covered : amount ≤ early.pool.staked msg.sender →
      reward early msg.sender + amount ≤ early.balanceOf d.stakingPool) :
    Lockstep (Claimed d user lead) (StakingPool.unstake d msg amount w)
      (StakingPool.unstake d msg amount early) := by
  unfold StakingPool.unstake
  rw [claimed.staked] at covered ⊢
  refine .bind_same fun _ _ => .bind_same fun _ enough => ?_
  have covered := covered (require_eq_ok.mp enough)
  have paid : ∀ next, StakingPool.payReward d msg.sender early = .ok next →
      amount ≤ next.balanceOf d.stakingPool := fun next run => by
    obtain ⟨token, _, rewarded, rfl⟩ := StakingPool.payReward_effect run
    have given := Rewarded.balance notPool rewarded
    have left : reward early msg.sender + amount ≤ token.balanceOf d.stakingPool +
      reward early msg.sender := covered.trans given.ge
    exact Nat.le_of_add_le_add_left (left.trans (Nat.add_comm ..).le)
  refine .bind ((claimed.payReward apart others (by omega)).and_right paid) fun w early both => ?_
  obtain ⟨claimed, covered⟩ := both
  rw [claimed.staked, claimed.totalStaked]
  refine .bind_same fun held _ => .bind_same fun total _ => ?_
  have settled : ∀ next, StakingPool.settleDebt msg.sender { early with pool := { early.pool with
      staked := Function.update w.pool.staked msg.sender held, totalStaked := total } } = .ok next →
      amount ≤ next.balanceOf d.stakingPool := fun next run => by
    simp only [StakingPool.settleDebt, bind_eq_ok, pure_eq_ok] at run
    obtain ⟨_, _, rfl⟩ := run
    exact covered
  have restaked := (claimed.restake others held total).settleDebt others
  refine .bind (restaked.and_right settled) fun w early both => ?_
  exact .bind (both.1.safeTransfer apart both.2) fun _ _ claimed =>
    .pure (claimed.emit _ _)

theorem claim (claimed : Claimed d user lead w early) (apart : user ≠ d.stakingPool)
    (others : msg.sender ≠ user)
    (covered : reward early msg.sender ≤ early.balanceOf d.stakingPool) :
    Lockstep (Claimed d user lead) (StakingPool.claim d msg w) (StakingPool.claim d msg early) :=
  .bind (claimed.payReward apart others covered) fun _ _ claimed => claimed.settleDebt others

/-- A further claim of the user moves what was pending to what is claimed early. -/
theorem more (claimed : Claimed d user lead w early) (apart : user ≠ d.stakingPool)
    (own : msg.sender = user) (run : StakingPool.claim d msg early = .ok next) :
    Claimed d user (lead + reward early user) w next := by
  subst own
  obtain ⟨pool, _⟩ := StakingPool.claim_frame run
  obtain ⟨token, _, _, rewarded, effect⟩ := StakingPool.claim_effect run
  have tokenIs : next.token = token := by rw [effect]
  have pending := claimed.reward_add
  have earned := claimed.earned
  have settled : w.pool.staked msg.sender * w.pool.accRewardPerShare / 10 ^ 18 =
      w.pool.rewardDebt msg.sender + (lead + reward early msg.sender) := by
    unfold StakingPool.reward at pending ⊢
    omega
  refine ⟨?_, ?_, settled.ge⟩
  · rw [tokenIs]
    rcases rewarded with ⟨none, same⟩ | ⟨_, pay⟩
    · rw [none, same]
      exact claimed.token
    · exact claimed.token.more apart pay
  · rw [pool, ← settled, settledPool, claimed.pool]
    simp only [Function.update_eq_self, Function.update_idem]

end Claimed

/-- A call of the staking pool. -/
structure PoolCall where
  msg : Msg
  call : StakingPool.Call

namespace PoolCall

def exec (d : Deployment) (w : World ERC20) (c : PoolCall) : Except Revert (World ERC20) :=
  StakingPool.exec d c.msg c.call w

/-- The pool holds what a call takes out of it. -/
def Payable (d : Deployment) (w : World ERC20) : PoolCall → Prop
  | ⟨_, .depositReward _⟩ => True
  | ⟨msg, .stake _⟩ | ⟨msg, .claim⟩ => reward w msg.sender ≤ w.balanceOf d.stakingPool
  | ⟨msg, .unstake amount⟩ => amount ≤ w.pool.staked msg.sender →
      reward w msg.sender + amount ≤ w.balanceOf d.stakingPool

instance (d : Deployment) (w : World ERC20) : ∀ c, Decidable (Payable d w c)
  | ⟨_, .depositReward _⟩ => inferInstanceAs (Decidable True)
  | ⟨_, .stake _⟩ | ⟨_, .claim⟩ => inferInstanceAs (Decidable (_ ≤ _))
  | ⟨_, .unstake _⟩ => inferInstanceAs (Decidable (_ → _))

/-- What `user` receives from a call that is a claim of its own. -/
def claims (d : Deployment) (user : Address) (w : World ERC20) : PoolCall → ℕ
  | ⟨msg, .claim⟩ =>
    if msg.sender = user then
      (TransitionRun.after (exec d) w ⟨msg, .claim⟩).balanceOf user - w.balanceOf user
    else 0
  | _ => 0

/-- What `user` receives from its claims in a run. -/
def received (d : Deployment) (user : Address) : World ERC20 → List PoolCall → ℕ
  | _, [] => 0
  | w, c :: rest => claims d user w c + received d user (TransitionRun.after (exec d) w c) rest

variable {d : Deployment} {user : Address} {w : World ERC20} {c : PoolCall}
  {run rest : List PoolCall}

theorem received_append : received d user w (run ++ rest) =
    received d user w run + received d user (TransitionRun.exec (exec d) w run) rest := by
  induction run generalizing w with
  | nil => simp [received]
  | cons c run ih => simp [received, ih, Nat.add_assoc]

theorem claims_claim {msg : Msg} (own : msg.sender = user) : claims d user w ⟨msg, .claim⟩ =
    (TransitionRun.after (exec d) w ⟨msg, .claim⟩).balanceOf user - w.balanceOf user :=
  if_pos own

theorem claims_of_ne (others : c.msg.sender ≠ user) : claims d user w c = 0 := by
  obtain ⟨msg, call⟩ := c
  cases call with
  | claim => exact if_neg others
  | depositReward => rfl
  | stake => rfl
  | unstake => rfl

theorem received_of_ne (others : ∀ c ∈ run, c.msg.sender ≠ user) : received d user w run = 0 := by
  induction run generalizing w with
  | nil => rfl
  | cons c run ih =>
    simp only [received, claims_of_ne (others c (List.mem_cons_self ..)), Nat.zero_add]
    exact ih fun c member => others c (List.mem_cons_of_mem _ member)

end PoolCall

open PoolCall (Payable received)

variable {d : Deployment} {user : Address} {lead : ℕ} {msg : Msg} {w early next : World ERC20}
  {c : PoolCall} {calls : List PoolCall}

theorem Claimed.exec (claimed : Claimed d user lead w early) (apart : user ≠ d.stakingPool)
    (others : c.msg.sender ≠ user) (notPool : c.msg.sender ≠ d.stakingPool)
    (payable : c.Payable d early) :
    Lockstep (Claimed d user lead) (c.exec d w) (c.exec d early) := by
  obtain ⟨msg, call⟩ := c
  cases call with
  | depositReward amount => exact claimed.depositReward apart others notPool
  | stake amount => exact claimed.stake apart others notPool payable
  | unstake amount => exact claimed.unstake apart others notPool payable
  | claim => exact claimed.claim apart others payable

/-- A claim brings exactly what was pending. -/
theorem claim_gains (apart : user ≠ d.stakingPool) (own : msg.sender = user)
    (run : StakingPool.claim d msg w = .ok next) :
    next.balanceOf user = w.balanceOf user + reward w user := by
  subst own
  obtain ⟨token, _, _, rewarded, rfl⟩ := StakingPool.claim_effect run
  rcases rewarded with ⟨none, rfl⟩ | ⟨_, pay⟩
  · rw [none]
    rfl
  · exact (ERC20.transfer_moved pay).1.received apart

theorem PoolCall.claims_of_ok (apart : user ≠ d.stakingPool) (own : msg.sender = user)
    (run : StakingPool.claim d msg w = .ok next) :
    PoolCall.claims d user w ⟨msg, .claim⟩ = reward w user := by
  have gains := claim_gains apart own run
  have ends : TransitionRun.after (PoolCall.exec d) w ⟨msg, .claim⟩ = next :=
    TransitionRun.after_ok run
  rw [PoolCall.claims_claim own, ends]
  omega

/-- A claim of the user, which may fail, adds what it pays to what is claimed early. -/
theorem Claimed.after_claim (claimed : Claimed d user lead w early) (apart : user ≠ d.stakingPool)
    (own : msg.sender = user) :
    Claimed d user (lead + PoolCall.claims d user early ⟨msg, .claim⟩) w
      (TransitionRun.after (PoolCall.exec d) early ⟨msg, .claim⟩) := by
  cases run : PoolCall.exec d early ⟨msg, .claim⟩ with
  | error e =>
    rw [PoolCall.claims_claim own, TransitionRun.after_error run, Nat.sub_self]
    exact claimed
  | ok next =>
    rw [PoolCall.claims_of_ok apart own run, TransitionRun.after_ok run]
    exact claimed.more apart own run

/-- The run lemma: where the user only claims, a run with its claims stays ahead of the run without
them by exactly what the claims paid. -/
theorem Claimed.run (claimed : Claimed d user lead w early) (apart : user ≠ d.stakingPool)
    (claims : ∀ c ∈ calls, c.msg.sender = user → c.call = .claim)
    (notPool : ∀ c ∈ calls, c.msg.sender ≠ d.stakingPool)
    (payable : TransitionRun.Meets (PoolCall.exec d) (Payable d) early calls) :
    Claimed d user (lead + received d user early calls)
      (TransitionRun.exec (PoolCall.exec d) w (calls.filter (·.msg.sender ≠ user)))
      (TransitionRun.exec (PoolCall.exec d) early calls) := by
  induction calls generalizing lead w early with
  | nil => exact claimed
  | cons c calls ih =>
    have claimsRest : ∀ c ∈ calls, c.msg.sender = user → c.call = .claim := fun c member =>
      claims c (List.mem_cons_of_mem _ member)
    have notPoolRest : ∀ c ∈ calls, c.msg.sender ≠ d.stakingPool := fun c member =>
      notPool c (List.mem_cons_of_mem _ member)
    simp only [received, TransitionRun.exec_cons, ← Nat.add_assoc]
    by_cases own : c.msg.sender = user
    · obtain ⟨msg, call⟩ := c
      cases claims _ (List.mem_cons_self ..) own
      rw [List.filter_cons_of_neg (by simpa using own)]
      exact ih (claimed.after_claim apart own) claimsRest notPoolRest payable.2
    · rw [List.filter_cons_of_pos (by simpa using own), PoolCall.claims_of_ne own]
      have step := claimed.exec apart own (notPool c (List.mem_cons_self ..)) payable.1
      exact ih (step.after claimed) claimsRest notPoolRest payable.2

/-- Where the user can claim everything at once, it can claim what is left of it. -/
theorem Claimed.last (claimed : Claimed d user lead w early) (apart : user ≠ d.stakingPool)
    (notZero : user ≠ 0) (own : msg.sender = user) (run : StakingPool.claim d msg w = .ok next) :
    ∃ left, StakingPool.claim d msg early = .ok left := by
  subst own
  obtain ⟨_, _, _, rewarded, _⟩ := StakingPool.claim_effect run
  have paid := Rewarded.balance apart rewarded
  have pending := claimed.reward_add
  have balance := (claimed.balances apart).2
  have fits : w.pool.staked msg.sender * w.pool.accRewardPerShare ≤ uint256Max := by
    simp only [StakingPool.claim, StakingPool.payReward, StakingPool.pendingReward, bind_eq_ok,
      checkedMul_eq_ok] at run
    obtain ⟨_, ⟨_, ⟨_, ⟨fits, _⟩, _⟩, _⟩, _⟩ := run
    exact fits
  rw [← claimed.staked, ← claimed.accRewardPerShare] at fits
  have enough : reward early msg.sender ≤ early.balanceOf d.stakingPool := by omega
  exact claim_succeeds notZero fits enough

/-- Calls of `user` other than a deposit of rewards leave the stakes and the pending rewards of all
others as they are. -/
theorem others_unchanged {call : StakingPool.Call} {other : Address}
    (noDeposit : ∀ amount, call ≠ .depositReward amount)
    (run : StakingPool.exec d msg call w = .ok next) (apart : other ≠ msg.sender) :
    next.pool.staked other = w.pool.staked other ∧
      StakingPool.pendingReward next other = StakingPool.pendingReward w other := by
  have settled : ∃ held total, next.pool = settledPool w msg.sender held total := by
    cases call with
    | depositReward amount => exact absurd rfl (noDeposit amount)
    | stake amount => exact ⟨_, _, (StakingPool.stake_frame run).1⟩
    | unstake amount => exact ⟨_, _, (StakingPool.unstake_frame run).1⟩
    | claim => exact ⟨_, _, (StakingPool.claim_frame run).1⟩
  obtain ⟨held, total, pool⟩ := settled
  unfold StakingPool.pendingReward
  rw [pool]
  simp only [settledPool, Function.update_of_ne apart, and_self]

/-- In a pool that can pay, a user that claims at any times among the calls of others, and at the
end, receives what it receives from the claim at the end alone. Nothing a user does with its own
stake changes the stake or the pending reward of another. -/
theorem claim_timing_neutral {history : List PoolAction} {paid : World ERC20}
    (fresh : w.pool = StakingPool.constructed) (noLog : w.log = [])
    (admissible : TransitionRun.Meets (PoolAction.exec d) (PoolAction.Admissible d) w history)
    (notZero : msg.sender ≠ 0) (apart : msg.sender ≠ d.stakingPool)
    (claims : ∀ c ∈ calls, c.msg.sender = msg.sender → c.call = .claim)
    (notPool : ∀ c ∈ calls, c.msg.sender ≠ d.stakingPool)
    (payable : TransitionRun.Meets (PoolCall.exec d) (Payable d)
      (TransitionRun.exec (PoolAction.exec d) w history) calls)
    (single : StakingPool.claim d msg (TransitionRun.exec (PoolCall.exec d)
      (TransitionRun.exec (PoolAction.exec d) w history)
      (calls.filter (·.msg.sender ≠ msg.sender))) = .ok paid) :
    let start := TransitionRun.exec (PoolAction.exec d) w history
    received d msg.sender start (calls ++ [⟨msg, .claim⟩]) =
        received d msg.sender start (calls.filter (·.msg.sender ≠ msg.sender) ++ [⟨msg, .claim⟩]) ∧
      ∀ (w next : World ERC20) (own : Msg) (call : StakingPool.Call) (other : Address),
        own.sender = msg.sender → (∀ amount, call ≠ .depositReward amount) →
        StakingPool.exec d own call w = .ok next → other ≠ msg.sender →
        next.pool.staked other = w.pool.staked other ∧
          StakingPool.pendingReward next other = StakingPool.pendingReward w other := by
  intro start
  refine ⟨?_, fun w next own call other same noDeposit run apart =>
    others_unchanged noDeposit run (same ▸ apart)⟩
  have covered : StakesCovered d start := StakesCovered.of_run fresh noLog admissible
  have together : Claimed d msg.sender 0 start start := by
    refine ⟨ERC20.Paid.refl .., by simp, ?_⟩
    exact (Nat.le_div_iff_mul_le (by decide)).mpr (covered.rewards.debt msg.sender)
  have ahead := together.run apart claims notPool payable
  have none : received d msg.sender start (calls.filter (·.msg.sender ≠ msg.sender)) = 0 :=
    PoolCall.received_of_ne fun c member => by simpa using (List.mem_filter.mp member).2
  obtain ⟨left, last⟩ := ahead.last apart notZero rfl single
  have atOnce : PoolCall.claims d msg.sender (TransitionRun.exec (PoolCall.exec d) start
      (calls.filter (·.msg.sender ≠ msg.sender))) ⟨msg, .claim⟩ = _ :=
    PoolCall.claims_of_ok apart rfl single
  have pending := ahead.reward_add
  rw [PoolCall.received_append, PoolCall.received_append, none]
  simp only [received, PoolCall.claims_of_ok apart rfl last, atOnce]
  omega

namespace Devnet

/-- A stake of two units by alice and of one by bob. -/
def sharers : List PoolAction :=
  [.own { sender := alice } (.stake 2), .own { sender := bob } (.stake 1)]

/-- Of two rewards of two units each alice earns four thirds twice. It claims one unit after the
first, and bob leaves before it claims again. -/
def thirds : List PoolCall :=
  [⟨{ sender := admin }, .depositReward 2⟩, ⟨{ sender := alice }, .claim⟩,
    ⟨{ sender := admin }, .depositReward 2⟩, ⟨{ sender := bob }, .unstake 1⟩]

end Devnet

open Devnet in
theorem claim_timing_neutral_of_thirds :
    let start := TransitionRun.exec (PoolAction.exec Deployment.devnet) endowed sharers
    received Deployment.devnet alice start (thirds ++ [⟨{ sender := alice }, .claim⟩]) =
        received Deployment.devnet alice start
          (thirds.filter (·.msg.sender ≠ alice) ++ [⟨{ sender := alice }, .claim⟩]) ∧
      ∀ (w next : World ERC20) (own : Msg) (call : StakingPool.Call) (other : Address),
        own.sender = alice → (∀ amount, call ≠ .depositReward amount) →
        StakingPool.exec Deployment.devnet own call w = .ok next → other ≠ alice →
        next.pool.staked other = w.pool.staked other ∧
          StakingPool.pendingReward next other = StakingPool.pendingReward w other := by
  have claims : ∀ c ∈ thirds, c.msg.sender = alice → c.call = .claim := by
    simp [thirds]
    decide
  exact @claim_timing_neutral Deployment.devnet { sender := alice } endowed thirds sharers _ rfl rfl
    (by decide +kernel) (by decide) (by decide) claims (by decide) (by decide +kernel) rfl

end Aide
