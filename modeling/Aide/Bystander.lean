import Aide.Contracts.Asked
import Aide.LogReplay
import Aide.PendingDividends

namespace Aide

open ERC20 (Spared)

variable {d : Deployment} {user : Address}

/-- The account has given nobody an allowance. -/
abbrev Unspendable (user : Address) (t : AIToken) : Prop := ∀ spender, t.allowance user spender = 0

/-- What the token is asked for by others takes nothing from an account that has given no allowance. -/
theorem Asked.spared {callers : Address → Prop} {t next : AIToken} {minted : ℕ} (outside : d.Outside user)
    (others : ∀ account, callers account → user ≠ account) (asked : Asked d callers t minted next)
    (none : Unspendable user t) : Spared user t.toERC20 next.toERC20 := by
  have step {t mid next : AIToken} (none : Unspendable user t) (spared : Spared user t.toERC20 mid.toERC20)
      (ih : Unspendable user mid → Spared user mid.toERC20 next.toERC20) :
      Spared user t.toERC20 next.toERC20 :=
    spared.trans (ih fun spender =>
      Nat.eq_zero_of_le_zero ((spared.allowance spender).trans (none spender).le))
  induction asked with
  | nothing => exact Spared.refl ..
  | transfer own run _ ih => exact step none (AIToken.transfer_spared (Or.inl (outside.ne own)) run) ih
  | @transferFrom _ _ _ _ spender src _ _ _ own run _ ih =>
    refine step none (AIToken.transferFrom_spared ?_ run) ih
    by_cases payer : user = src
    · exact Or.inr (payer ▸ none spender)
    · exact Or.inl payer
  | approve run _ ih => exact step none (AIToken.approve_spared outside.ne_treasury run) ih
  | mint run _ ih => exact step none (AIToken.mint_spared outside.1 run) ih
  | call caller run _ ih => exact step none (AIToken.exec_spared outside.1 (others _ caller) (none _) run) ih

namespace InternalMarket

/-- What the shares that a holder has now would have earned since the company was registered. -/
def earned (m : InternalMarket) (companyId : ℕ) (holder : Address) : ℕ :=
  m.vstkBalance companyId holder * m.accAitPerShare companyId / one

/-- No active order is one of the user. -/
def Closed (user : Address) (m : InternalMarket) : Prop :=
  ∀ id, (m.orders id).active = true → (m.orders id).maker ≠ user

/-- No entry of the market for the user has been lowered. What is earned has grown by no less than the debt
that is set against it. -/
structure Unharmed (user : Address) (m next : InternalMarket) : Prop where
  shares : ∀ companyId, m.vstkBalance companyId user ≤ next.vstkBalance companyId user
  deposit : next.aitBalance user = m.aitBalance user
  dividends : ∀ companyId, m.earned companyId user + next.rewardDebt companyId user ≤
    next.earned companyId user + m.rewardDebt companyId user
  payout : ∀ companyId, next.dividendPayoutVault companyId user = m.dividendPayoutVault companyId user

theorem Unharmed.refl (user : Address) (m : InternalMarket) : m.Unharmed user m :=
  ⟨fun _ => le_rfl, rfl, fun _ => le_rfl, fun _ => rfl⟩

/-- A write under another account leaves what stands under this one. -/
theorem update_of_other {α : Type} {table : ℕ → Address → α} {companyId other : ℕ} {account : Address}
    {value : α} (apart : user ≠ account) :
    Function.update table companyId (Function.update (table companyId) account value) other user =
      table other user := by
  by_cases same : other = companyId
  · subst same
    simp [apart]
  · simp [same]

variable {τ : Type} {msg : Msg} {w next : World τ}

/-- The parties of a trade are makers of active orders. -/
theorem party_ne {maker taker : ℕ} (side : Side) (closed : Closed user w.market)
    (makerActive : (w.market.orders maker).active = true) (takerActive : (w.market.orders taker).active = true) :
    user ≠ party side (w.market.orders maker) (w.market.orders taker) := by
  unfold party
  split
  · exact (closed maker makerActive).symm
  · exact (closed taker takerActive).symm

theorem issueShares_unharmed {companyId : ℕ} {recipient : Address} {amount : ℕ}
    (run : issueShares msg companyId recipient amount w = .ok next) : w.market.Unharmed user next.market := by
  cases issueShares_effect run
  have others {other : ℕ} (apart : ¬ (other = companyId ∧ user = recipient)) {table : ℕ → Address → ℕ} {value : ℕ} :
      Function.update table companyId (Function.update (table companyId) recipient value) other user =
        table other user := by
    by_cases own : user = recipient
    · have away : other ≠ companyId := fun same => apart ⟨same, own⟩
      simp [away]
    · exact update_of_other own
  refine ⟨fun other => ?_, rfl, fun other => ?_, fun _ => rfl⟩
  · by_cases here : other = companyId ∧ user = recipient
    · obtain ⟨rfl, rfl⟩ := here
      simp
    · exact (others here).ge
  · by_cases here : other = companyId ∧ user = recipient
    · obtain ⟨rfl, rfl⟩ := here
      have split := Nat.div_add_div_le_add_div (x := w.market.vstkBalance other user * w.market.accAitPerShare other)
        (y := amount * w.market.accAitPerShare other) (z := one)
      simp only [earned, Function.update_self, Nat.add_mul]
      omega
    · simp only [earned]
      rw [others here, others here]

variable [AitToken τ]

theorem depositProfit_unharmed {d : Deployment} {companyId grossAmount : ℕ}
    (run : depositProfit d msg companyId grossAmount w = .ok next) : w.market.Unharmed user next.market := by
  obtain ⟨_, ⟨_, _, _, _, _, _, _, rfl⟩ | rfl⟩ := depositProfit_cases run
  · refine ⟨fun _ => le_rfl, rfl, fun other => ?_, fun _ => rfl⟩
    refine Nat.add_le_add_right (Nat.div_le_div_right (Nat.mul_le_mul_left _ ?_)) _
    by_cases same : other = companyId
    · subst same
      simp
    · simp [same]
  · exact ⟨fun _ => le_rfl, rfl, fun _ => le_rfl, fun _ => rfl⟩

theorem settled_unharmed {d : Deployment} {maker taker vstkAmount aitNotional cid fee : ℕ} {settlementId : Bytes32}
    {buyer seller : Address} (closed : Closed user w.market)
    (settled : Settled d w next maker taker vstkAmount aitNotional settlementId cid fee buyer seller) :
    w.market.Unharmed user next.market ∧ Closed user next.market := by
  have makerActive := settled.checks.makerActive
  have takerActive := settled.checks.takerActive
  have notBuyer : user ≠ buyer := settled.buyerIs ▸ party_ne .buy closed makerActive takerActive
  have notSeller : user ≠ seller := settled.sellerIs ▸ party_ne .sell closed makerActive takerActive
  obtain ⟨_, _, _, _, rfl⟩ := settled.effect
  have shares (other : ℕ) : Function.update w.market.vstkBalance cid
      (Function.update (Function.update (w.market.vstkBalance cid) seller
        (w.market.vstkBalance cid seller - vstkAmount)) buyer
        (Function.update (w.market.vstkBalance cid) seller
          (w.market.vstkBalance cid seller - vstkAmount) buyer + vstkAmount)) other user =
      w.market.vstkBalance other user := by
    by_cases same : other = cid
    · subst same
      simp [notBuyer, notSeller]
    · simp [same]
  refine ⟨⟨fun other => (shares other).ge, Function.update_of_ne notBuyer .., fun other => ?_, fun _ => rfl⟩,
    fun id active => ?_⟩
  · simp only [earned]
    rw [shares other]
  · by_cases isTaker : id = taker
    · subst isTaker
      simpa [Order.fill] using closed id takerActive
    · by_cases isMaker : id = maker
      · subst isMaker
        simpa [isTaker, Order.fill] using closed id makerActive
      · simp only [Function.update_of_ne isTaker, Function.update_of_ne isMaker] at active ⊢
        exact closed id active

/-- No call of another account lowers what the market has entered for a user without active orders. -/
theorem exec_unharmed {d : Deployment} {call : Call} (other : user ≠ msg.sender) (closed : Closed user w.market)
    (run : exec d msg call w = .ok next) : w.market.Unharmed user next.market ∧ Closed user next.market := by
  cases call with
  | registerCompany vault =>
    cases registerCompany_effect run
    exact ⟨⟨fun _ => le_rfl, rfl, fun _ => le_rfl, fun _ => rfl⟩, closed⟩
  | issueShares companyId recipient amount =>
    refine ⟨issueShares_unharmed run, ?_⟩
    cases issueShares_effect run
    exact closed
  | depositAit amount =>
    obtain ⟨_, _, rfl⟩ := depositAit_effect run
    exact ⟨⟨fun _ => le_rfl, Function.update_of_ne other .., fun _ => le_rfl, fun _ => rfl⟩, closed⟩
  | withdrawAit amount =>
    obtain ⟨_, _, _, rfl⟩ := withdrawAit_effect run
    exact ⟨⟨fun _ => le_rfl, Function.update_of_ne other .., fun _ => le_rfl, fun _ => rfl⟩, closed⟩
  | placeOrder companyId side priceRay amount engineHint =>
    obtain ⟨_, _, rfl⟩ := placeOrder_effect run
    refine ⟨⟨fun _ => le_rfl, rfl, fun _ => le_rfl, fun _ => rfl⟩, fun id active => ?_⟩
    by_cases placed : id = w.market.nextOrderId
    · subst placed
      simpa using other.symm
    · simp only [Function.update_of_ne placed] at active ⊢
      exact closed id active
  | cancelOrder orderId =>
    obtain ⟨_, rfl⟩ := cancelOrder_effect run
    refine ⟨⟨fun _ => le_rfl, rfl, fun _ => le_rfl, fun _ => rfl⟩, fun id active => ?_⟩
    by_cases cancelled : id = orderId
    · subst cancelled
      simp at active
    · simp only [Function.update_of_ne cancelled] at active ⊢
      exact closed id active
  | settleTrade makerOrderId takerOrderId vstkAmount aitNotional settlementId =>
    obtain ⟨_, ⟨_, _, _, _, settled⟩ | rfl⟩ := settleTrade_cases run
    · exact settled_unharmed closed settled
    · exact ⟨⟨fun _ => le_rfl, rfl, fun _ => le_rfl, fun _ => rfl⟩, closed⟩
  | depositProfit companyId grossAmount =>
    refine ⟨depositProfit_unharmed run, ?_⟩
    obtain ⟨_, ⟨_, _, _, _, _, _, _, rfl⟩ | rfl⟩ := depositProfit_cases run
    · exact closed
    · exact closed
  | setDividendPayoutVault companyId vault =>
    cases setDividendPayoutVault_effect run
    exact ⟨⟨fun _ => le_rfl, rfl, fun _ => le_rfl, fun _ => update_of_other other⟩, closed⟩
  | claimDividend companyId =>
    obtain rfl | ⟨_, _, _, _, _, _, rfl⟩ := claimDividend_cases run
    · exact ⟨⟨fun _ => le_rfl, rfl, fun _ => le_rfl, fun _ => rfl⟩, closed⟩
    · refine ⟨⟨fun _ => le_rfl, rfl, fun company => ?_, fun _ => rfl⟩, closed⟩
      simp only [earned]
      rw [update_of_other other]
  | access call =>
    simp only [exec, bind_eq_ok, pure_eq_ok] at run
    obtain ⟨_, _, rfl⟩ := run
    exact ⟨⟨fun _ => le_rfl, rfl, fun _ => le_rfl, fun _ => rfl⟩, closed⟩

end InternalMarket

namespace TaskMarket

/-- Nobody has posted a task of the user without a number. -/
def Numbered (user : Address) (m : TaskMarket) : Prop :=
  ∀ taskId, (m.tasks taskId).publisher = user → taskId < m.nextTaskId

/-- The tasks that the user has published are still its own, and are to hold and to pay what they were. -/
def Unharmed (user : Address) (m next : TaskMarket) : Prop :=
  ∀ taskId, (m.tasks taskId).publisher = user → (next.tasks taskId).publisher = user ∧
    (next.tasks taskId).bounty = (m.tasks taskId).bounty ∧
    (next.tasks taskId).lockedAmount = (m.tasks taskId).lockedAmount ∧
    (next.tasks taskId).aiPoolRecipient = (m.tasks taskId).aiPoolRecipient

variable {msg : Msg} {w next : World AIToken} {call : Call}

theorem Unharmed.refl (user : Address) (m : TaskMarket) : m.Unharmed user m :=
  fun _ own => ⟨own, rfl, rfl, rfl⟩

/-- A call of another account writes no task of the user, but for its result. -/
theorem unharmed_of_writes {taskId : ℕ} {t : Task} {made : List Transfer} (other : user ≠ msg.sender)
    (numbered : Numbered user w.tasks) (writes : Writes d msg w call taskId t made) :
    (t.publisher = user → (w.tasks.tasks taskId).publisher = user) ∧
      ((w.tasks.tasks taskId).publisher = user → t.publisher = user ∧
        t.bounty = (w.tasks.tasks taskId).bounty ∧ t.lockedAmount = (w.tasks.tasks taskId).lockedAmount ∧
        t.aiPoolRecipient = (w.tasks.tasks taskId).aiPoolRecipient) := by
  have foreign {publisher : Address} (sent : publisher = msg.sender) : publisher ≠ user :=
    sent ▸ other.symm
  cases writes with
  | postTask bounty =>
    exact ⟨fun own => absurd own.symm other, fun own => absurd (numbered _ own) (lt_irrefl _)⟩
  | fundTask _ publisher => exact ⟨fun own => absurd own (foreign publisher), fun own => absurd own (foreign publisher)⟩
  | assignWorker _ _ _ publisher =>
    exact ⟨fun own => absurd own (foreign publisher), fun own => absurd own (foreign publisher)⟩
  | submitWork | commitZkProof => exact ⟨id, fun own => ⟨own, rfl, rfl, rfl⟩⟩
  | approveTask _ _ publisher =>
    exact ⟨fun own => absurd own (foreign publisher), fun own => absurd own (foreign publisher)⟩
  | cancelTask _ _ publisher =>
    exact ⟨fun own => absurd own (foreign publisher), fun own => absurd own (foreign publisher)⟩

/-- No call of another account touches what the user has in the tasks. -/
theorem exec_unharmed (other : user ≠ msg.sender) (numbered : Numbered user w.tasks)
    (run : exec d msg call w = .ok next) :
    w.tasks.Unharmed user next.tasks ∧ Numbered user next.tasks := by
  obtain ⟨taskId, t, made, token, log, writes, performed, rfl⟩ := exec_writes run
  obtain ⟨back, forth⟩ := unharmed_of_writes other numbered writes
  refine ⟨fun id own => ?_, fun id own => ?_⟩
  · by_cases written : id = taskId
    · subst written
      simpa using forth own
    · simpa [written] using own
  · have before : (w.tasks.tasks id).publisher = user := by
      by_cases written : id = taskId
      · subst written
        exact back (by simpa using own)
      · simpa [written] using own
    have known := numbered id before
    cases call with
    | postTask bounty => exact Nat.lt_succ_of_lt known
    | _ => exact known

end TaskMarket

namespace StakingPool
variable {msg : Msg} {w next : World AIToken} {call : Call}

/-- The stake of the user is as it was, and its reward is no less. -/
structure Unharmed (user : Address) (w next : World AIToken) : Prop where
  stake : next.pool.staked user = w.pool.staked user
  reward : reward w user ≤ reward next user

theorem unharmed_of_settled {staker : Address} {staked totalStaked : ℕ} (other : user ≠ staker)
    (pool : next.pool = settledPool w staker staked totalStaked) : Unharmed user w next := by
  constructor
  · simp [pool, settledPool, other]
  · simp [reward, pool, settledPool, other]

theorem exec_unharmed (other : user ≠ msg.sender) (run : exec d msg call w = .ok next) :
    Unharmed user w next := by
  cases call with
  | depositReward amount =>
    rcases depositReward_frame run with ⟨_, same, _⟩ | ⟨more, _⟩
    · constructor
      · rw [same]
      · simp only [reward, same, le_refl]
    · constructor
      · rw [more]
      · simp only [reward, more]
        exact Nat.sub_le_sub_right
          (Nat.div_le_div_right (Nat.mul_le_mul_left _ (Nat.le_add_right ..))) _
  | stake amount => exact unharmed_of_settled other (stake_frame run).1
  | unstake amount => exact unharmed_of_settled other (unstake_frame run).1
  | claim => exact unharmed_of_settled other (claim_frame run).1

/-- No call of the pool touches the markets. -/
theorem exec_frame (run : exec d msg call w = .ok next) :
    next.market = w.market ∧ next.tasks = w.tasks := by
  cases call with
  | depositReward amount =>
    obtain ⟨_, token, _, _, _, rfl⟩ := depositReward_effect run
    exact ⟨rfl, rfl⟩
  | stake amount =>
    obtain ⟨_, token, _, _, _, _, rfl⟩ := stake_effect run
    exact ⟨rfl, rfl⟩
  | unstake amount =>
    obtain ⟨_, _, _, token, _, _, _, _, rfl⟩ := unstake_effect run
    exact ⟨rfl, rfl⟩
  | claim =>
    obtain ⟨token, _, _, _, rfl⟩ := claim_effect run
    exact ⟨rfl, rfl⟩

end StakingPool

/-- No call of the market touches the tasks or the pool. -/
theorem InternalMarket.exec_frame {msg : Msg} {call : InternalMarket.Call} {w next : World AIToken}
    (run : InternalMarket.exec d msg call w = .ok next) : next.tasks = w.tasks ∧ next.pool = w.pool := by
  cases call with
  | registerCompany vault =>
    cases registerCompany_effect run
    exact ⟨rfl, rfl⟩
  | issueShares companyId recipient amount =>
    cases issueShares_effect run
    exact ⟨rfl, rfl⟩
  | depositAit amount =>
    obtain ⟨token, _, rfl⟩ := depositAit_effect run
    exact ⟨rfl, rfl⟩
  | withdrawAit amount =>
    obtain ⟨_, token, _, rfl⟩ := withdrawAit_effect run
    exact ⟨rfl, rfl⟩
  | placeOrder companyId side priceRay amount engineHint =>
    obtain ⟨_, _, rfl⟩ := placeOrder_effect run
    exact ⟨rfl, rfl⟩
  | cancelOrder orderId =>
    obtain ⟨_, rfl⟩ := cancelOrder_effect run
    exact ⟨rfl, rfl⟩
  | settleTrade makerOrderId takerOrderId vstkAmount aitNotional settlementId =>
    obtain ⟨_, ⟨_, _, _, _, settled⟩ | rfl⟩ := settleTrade_cases run
    · obtain ⟨taxed, token, _, _, rfl⟩ := settled.effect
      exact ⟨rfl, rfl⟩
    · exact ⟨rfl, rfl⟩
  | depositProfit companyId grossAmount =>
    obtain ⟨_, ⟨_, taxed, token, _, _, _, _, rfl⟩ | rfl⟩ := depositProfit_cases run
    · exact ⟨rfl, rfl⟩
    · exact ⟨rfl, rfl⟩
  | setDividendPayoutVault companyId vault =>
    cases setDividendPayoutVault_effect run
    exact ⟨rfl, rfl⟩
  | claimDividend companyId =>
    obtain rfl | ⟨_, _, token, _, _, _, rfl⟩ := claimDividend_cases run
    · exact ⟨rfl, rfl⟩
    · exact ⟨rfl, rfl⟩
  | access call =>
    simp only [exec, bind_eq_ok, pure_eq_ok] at run
    obtain ⟨_, _, rfl⟩ := run
    exact ⟨rfl, rfl⟩

/-- No entry of the contracts for the user has been lowered. -/
structure Kept (user : Address) (w next : World AIToken) : Prop where
  market : w.market.Unharmed user next.market
  tasks : w.tasks.Unharmed user next.tasks
  pool : StakingPool.Unharmed user w next

/-- The contracts show the user no less dividend and reward, where the products behind them are in range. -/
structure PendsNoLess (user : Address) (w next : World AIToken) : Prop where
  dividends : ∀ companyId pending, InternalMarket.pendingDividend companyId user w = .ok pending →
    next.market.vstkBalance companyId user * next.market.accAitPerShare companyId ≤ uint256Max →
    ∃ more, InternalMarket.pendingDividend companyId user next = .ok more ∧ pending ≤ more
  rewards : ∀ pending, StakingPool.pendingReward w user = .ok pending →
    next.pool.staked user * next.pool.accRewardPerShare ≤ uint256Max →
    ∃ more, StakingPool.pendingReward next user = .ok more ∧ pending ≤ more

theorem Kept.pendsNoLess {w next : World AIToken} (kept : Kept user w next) : PendsNoLess user w next where
  dividends companyId pending shown fits := by
    obtain ⟨⟨_, covered⟩, rfl⟩ := pendingDividend_eq_ok.mp shown
    have grown := kept.market.dividends companyId
    simp only [InternalMarket.earned] at grown
    exact ⟨_, pendingDividend_eq_ok.mpr ⟨⟨fits, by omega⟩, rfl⟩, by omega⟩
  rewards pending shown fits :=
    ⟨_, StakingPool.pendingReward_of_fits fits, StakingPool.pendingReward_eq_ok shown ▸ kept.pool.reward⟩

/-- What leaves a user without active orders without them, and lowers none of its entries. -/
def LetsBe (user : Address) (w next : World AIToken) : Prop :=
  w.market.Closed user ∧ w.tasks.Numbered user →
    (next.market.Closed user ∧ next.tasks.Numbered user) ∧ Kept user w next

namespace LetsBe
variable {w between next : World AIToken}

theorem of_parts
    (market : w.market.Closed user → w.market.Unharmed user next.market ∧ next.market.Closed user)
    (tasks : w.tasks.Numbered user → w.tasks.Unharmed user next.tasks ∧ next.tasks.Numbered user)
    (pool : StakingPool.Unharmed user w next) : LetsBe user w next := by
  intro idle
  obtain ⟨marketUnharmed, closed⟩ := market idle.1
  obtain ⟨tasksUnharmed, numbered⟩ := tasks idle.2
  exact ⟨⟨closed, numbered⟩, ⟨marketUnharmed, tasksUnharmed, pool⟩⟩

theorem market_kept (same : next.market = w.market) (closed : w.market.Closed user) :
    w.market.Unharmed user next.market ∧ next.market.Closed user := by
  rw [same]
  exact ⟨.refl .., closed⟩

theorem tasks_kept (same : next.tasks = w.tasks) (numbered : w.tasks.Numbered user) :
    w.tasks.Unharmed user next.tasks ∧ next.tasks.Numbered user := by
  rw [same]
  exact ⟨TaskMarket.Unharmed.refl user _, numbered⟩

theorem pool_kept (same : next.pool = w.pool) : StakingPool.Unharmed user w next :=
  ⟨by rw [same], by simp only [StakingPool.reward, same, le_refl]⟩

/-- A step that leaves both markets and the pool. -/
theorem of_frame (market : next.market = w.market) (tasks : next.tasks = w.tasks) (pool : next.pool = w.pool) :
    LetsBe user w next :=
  of_parts (market_kept market) (tasks_kept tasks) (pool_kept pool)

theorem refl (user : Address) (w : World AIToken) : LetsBe user w w := of_frame rfl rfl rfl

theorem trans (first : LetsBe user w between) (second : LetsBe user between next) : LetsBe user w next := by
  intro idle
  obtain ⟨stillIdle, kept⟩ := first idle
  obtain ⟨lastIdle, kept'⟩ := second stillIdle
  refine ⟨lastIdle, ⟨fun companyId => ?_, ?_, fun companyId => ?_, fun companyId => ?_⟩, fun taskId own => ?_,
    kept'.pool.stake.trans kept.pool.stake, kept.pool.reward.trans kept'.pool.reward⟩
  · exact (kept.market.shares companyId).trans (kept'.market.shares companyId)
  · exact kept'.market.deposit.trans kept.market.deposit
  · have first := kept.market.dividends companyId
    have second := kept'.market.dividends companyId
    omega
  · exact (kept'.market.payout companyId).trans (kept.market.payout companyId)
  · obtain ⟨still, bounty, locked, recipient⟩ := kept.tasks taskId own
    obtain ⟨last, bounty', locked', recipient'⟩ := kept'.tasks taskId still
    exact ⟨last, bounty'.trans bounty, locked'.trans locked, recipient'.trans recipient⟩

theorem of_market {msg : Msg} {call : InternalMarket.Call} (other : user ≠ msg.sender)
    (run : InternalMarket.exec d msg call w = .ok next) : LetsBe user w next := by
  obtain ⟨tasks, pool⟩ := InternalMarket.exec_frame run
  exact of_parts (fun closed => InternalMarket.exec_unharmed other closed run) (tasks_kept tasks) (pool_kept pool)

theorem of_tasks {msg : Msg} {call : TaskMarket.Call} (other : user ≠ msg.sender)
    (run : TaskMarket.exec d msg call w = .ok next) : LetsBe user w next := by
  have frame : next.market = w.market ∧ next.pool = w.pool := by
    obtain ⟨_, _, _, _, _, _, _, rfl⟩ := TaskMarket.exec_writes run
    exact ⟨rfl, rfl⟩
  exact of_parts (market_kept frame.1) (fun numbered => TaskMarket.exec_unharmed other numbered run)
    (pool_kept frame.2)

theorem of_pool {msg : Msg} {call : StakingPool.Call} (other : user ≠ msg.sender)
    (run : StakingPool.exec d msg call w = .ok next) : LetsBe user w next := by
  obtain ⟨market, tasks⟩ := StakingPool.exec_frame run
  exact of_parts (market_kept market) (tasks_kept tasks) (StakingPool.exec_unharmed other run)

/-- The calls of the treasury lower no entry either, as long as the code outside the deployment that they reach
does not. -/
theorem of_treasury {foreign : Address → ℕ → World AIToken → Except Revert (World AIToken)} {msg : Msg}
    {call : Treasury.Call} (outside : d.Outside user)
    (passes : ∀ account amount w next, foreign account amount w = .ok next → LetsBe user w next)
    (run : Treasury.exec d foreign msg call w = .ok next) : LetsBe user w next := by
  cases call with
  | setOperatingExpenseRecipient recipient allowed =>
    obtain ⟨_, _, rfl⟩ := Treasury.setOperatingExpenseRecipient_effect run
    exact of_frame rfl rfl rfl
  | withdrawOperatingExpenses amount recipient =>
    obtain ⟨_, _, ⟨_, token, _, rfl⟩ | rfl⟩ := Treasury.withdrawOperatingExpenses_effect run
    · exact of_frame rfl rfl rfl
    · exact of_frame rfl rfl rfl
  | collectTax payer taxableBase =>
    obtain ⟨⟨fee, _⟩, collect, same⟩ := bind_eq_ok.mp run
    cases pure_eq_ok.mp same
    obtain ⟨_, token, _, rfl⟩ := Treasury.collectTax_effect collect
    exact of_frame rfl rfl rfl
  | setTaxRate newTaxRateBps =>
    obtain ⟨_, _, rfl⟩ := Treasury.setTaxRate_effect run
    exact of_frame rfl rfl rfl
  | setWeeklySalaryCoefficient coefficientS =>
    obtain ⟨_, rfl⟩ := Treasury.setWeeklySalaryCoefficient_effect run
    exact of_frame rfl rfl rfl
  | setCivilServant agent active =>
    obtain ⟨_, _, rfl⟩ := Treasury.setCivilServant_effect run
    exact of_frame rfl rfl rfl
  | distributeSalary agent contributionRating =>
    obtain ⟨_, _, _, _, token, _, _, _, rfl⟩ := Treasury.distributeSalary_effect run
    exact of_frame rfl rfl rfl
  | approveStakingPoolPull stakingPool amount =>
    obtain ⟨_, token, _, rfl⟩ := Treasury.approveStakingPoolPull_effect run
    exact of_frame rfl rfl rfl
  | depositRewardToStakingPool stakingPool amount =>
    obtain ⟨token, _, deposit⟩ := Treasury.depositRewardToStakingPool_effect run
    have approved : LetsBe user w { w with token } := of_frame rfl rfl rfl
    rcases deposit with reward | called
    · have rewarded : StakingPool.exec d { sender := d.treasury } (.depositReward amount) { w with token } =
          .ok next := reward
      exact approved.trans (of_pool outside.ne_treasury rewarded)
    · exact approved.trans (passes _ _ _ _ called)
  | access call =>
    simp only [Treasury.exec, bind_eq_ok, pure_eq_ok] at run
    obtain ⟨_, _, rfl⟩ := run
    exact of_frame rfl rfl rfl

end LetsBe

/-- One transaction of another account. -/
theorem System.exec_letsBe {crypto : TeeCrypto}
    {foreign : Address → ℕ → World AIToken → Except Revert (World AIToken)} {msg : Msg} {call : System.Call}
    {w next : World AIToken} (outside : d.Outside user) (other : user ≠ msg.sender)
    (passes : ∀ account amount w next, foreign account amount w = .ok next → LetsBe user w next)
    (run : System.exec ⟨crypto, foreign⟩ d w (msg, call) = .ok next) : LetsBe user w next := by
  cases call with
  | token call =>
    obtain ⟨token, _, same⟩ := bind_eq_ok.mp run
    cases pure_eq_ok.mp same
    exact .of_frame rfl rfl rfl
  | guardrail call =>
    obtain ⟨_, _, rfl⟩ := Guardrail.exec_frame run
    exact .of_frame rfl rfl rfl
  | registry call =>
    obtain ⟨_, _, rfl⟩ := AIIdentityRegistry.exec_frame run
    exact .of_frame rfl rfl rfl
  | bank call =>
    obtain ⟨_, _, rfl⟩ := AIBank.exec_frame run
    exact .of_frame rfl rfl rfl
  | treasury call => exact .of_treasury outside passes run
  | market call => exact .of_market other run
  | tasks call => exact .of_tasks other run
  | pool call => exact .of_pool other run

/-- What is recorded for an account that leaves nothing open is not lowered by anybody else. From any state that
a deployment can reach, whatever all other accounts do, the holders of the roles among them, a user who has given no
allowance and has no active order keeps its tokens, and the contracts record no less for it: its shares, its deposit,
its stake and the tasks that it has published, and what they show as its dividend and its reward as long as that can
be computed. Code outside the deployment is taken to act for other accounts, too. This is about the records. Whether
a contract has the tokens to pay what it records is another matter, which the tax on an escrow can spoil. -/
theorem idle_entries_kept {env : System.Environment}
    (acts : System.ActsByCalls env.crypto d (fun account => d.Outside account ∧ user ≠ account) env.foreign)
    (admin teeAuthority : Address) (taxRateBps : ℕ) (token : AIToken) {before rest : List (Msg × System.Call)}
    {w : World AIToken} (outside : d.Outside user) (outsiders : ∀ tx ∈ before, d.Outside tx.1.sender)
    (reached : TransitionRun.exec (System.exec env d) (d.launch admin teeAuthority taxRateBps token) before = w)
    (unspendable : Unspendable user w.token) (closed : w.market.Closed user)
    (others : ∀ tx ∈ rest, d.Outside tx.1.sender ∧ user ≠ tx.1.sender) :
    w.balanceOf user ≤ (TransitionRun.exec (System.exec env d) w rest).balanceOf user ∧
      Kept user w (TransitionRun.exec (System.exec env d) w rest) ∧
      PendsNoLess user w (TransitionRun.exec (System.exec env d) w rest) := by
  have sound : w.books.Sound := by
    rw [← reached]
    exact (System.run_booked (acts.mono fun _ both => both.1) (launch_sound ..) outsiders).sound (launch_sound ..)
  have numbered : w.tasks.Numbered user := fun taskId own =>
    (sound.posted fun fresh => outside.1 (own.symm.trans (congrArg Task.publisher fresh))).2
  obtain ⟨_, asked, _⟩ := System.run_asks (w := w) acts others
  have spared := asked.spared outside (fun _ both => both.2) unspendable
  have passes := System.run_relates (R := LetsBe user) (w := w) (LetsBe.refl user) (fun _ _ _ first => first.trans)
    (fun foreign w tx next passes senders taken => System.exec_letsBe outside senders.2 passes taken) acts others
  have kept := (passes ⟨closed, numbered⟩).2
  exact ⟨spared.balance, kept, kept.pendsNoLess⟩

namespace Devnet

def adminOwns : AIToken :=
  AIToken.launch Deployment.devnet admin (fun account => if account = admin then 1000 else 0) 1000

/-- Alice is given shares of a company and posts a task. -/
def shareholding : List (Msg × System.Call) :=
  [({ sender := admin }, .market (.registerCompany admin)),
    ({ sender := admin }, .market (.issueShares 1 alice 10)),
    ({ sender := alice }, .tasks (.postTask 1000))]

/-- The admin deposits a profit and sets the tax, mallory taxes the escrow of the market, and bob reaches for the
tokens of alice. -/
def business : List (Msg × System.Call) :=
  [({ sender := admin }, .token (.approve Deployment.devnet.internalMarket 100)),
    ({ sender := admin }, .market (.depositProfit 1 100)),
    ({ sender := admin }, .treasury (.setTaxRate 5000)),
    ({ sender := mallory }, .treasury (.collectTax Deployment.devnet.internalMarket 50)),
    ({ sender := bob }, .token (.transferFrom alice bob 1))]

def shareholder : World AIToken :=
  TransitionRun.exec (System.exec environment Deployment.devnet)
    (Deployment.devnet.launch admin teeAuthority 0 adminOwns) shareholding

def afterBusiness : World AIToken :=
  TransitionRun.exec (System.exec environment Deployment.devnet) shareholder business

theorem adminOwns_unspendable : Unspendable alice adminOwns := by
  intro spender
  have foreign : ¬ ((alice = Deployment.devnet.internalMarket ∨ alice = Deployment.devnet.taskMarket) ∧
      spender = Deployment.devnet.treasury) := fun market => absurd market.1 (by decide)
  exact if_neg (t := uint256Max) foreign

/-- In the end the market shows alice a dividend of 100 and holds 75. -/
example : InternalMarket.pendingDividend 1 alice afterBusiness = .ok 100 ∧
    afterBusiness.balanceOf Deployment.devnet.internalMarket = 75 := by decide +kernel

end Devnet

open Devnet in
theorem idle_entries_kept_of_business :
    shareholder.balanceOf alice ≤ afterBusiness.balanceOf alice ∧ Kept alice shareholder afterBusiness ∧
      PendsNoLess alice shareholder afterBusiness :=
  idle_entries_kept (environment_acts _) admin teeAuthority 0 adminOwns (by decide) (by decide) rfl
    adminOwns_unspendable (fun _ active => nomatch active) (by decide)

end Aide
