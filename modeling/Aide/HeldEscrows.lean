import Aide.TaxedLedgers

namespace Aide

open InternalMarket (pendingDividend)

/-- Nothing is taken from the two markets, and the token stays wired. -/
structure EscrowsSpared (d : Deployment) (t next : AIToken) : Prop where
  market : t.balanceOf d.internalMarket ≤ next.balanceOf d.internalMarket
  tasks : t.balanceOf d.taskMarket ≤ next.balanceOf d.taskMarket
  wired : TaxWired d t → TaxWired d next

/-- A step in the history of the two markets: a call of one of them or of the staking pool, or anything else that
happens between two of these. -/
inductive MarketsAction
  | market (msg : Msg) (call : InternalMarket.Call)
  | tasks (msg : Msg) (call : TaskMarket.Call)
  | pool (msg : Msg) (call : StakingPool.Call)
  | elsewhere (other : World AIToken)

instance (d : Deployment) (t : AIToken) : Decidable (TaxWired d t) :=
  decidable_of_iff (t.treasury = d.treasury ∧ t.taxExemptSender d.internalMarket = true ∧
      t.taxExemptSender d.taskMarket = true)
    ⟨fun ⟨treasury, market, tasks⟩ => ⟨treasury, market, tasks⟩,
      fun ⟨treasury, market, tasks⟩ => ⟨treasury, market, tasks⟩⟩

instance (d : Deployment) (t next : AIToken) : Decidable (EscrowsSpared d t next) :=
  decidable_of_iff (t.balanceOf d.internalMarket ≤ next.balanceOf d.internalMarket ∧
      t.balanceOf d.taskMarket ≤ next.balanceOf d.taskMarket ∧ (TaxWired d t → TaxWired d next))
    ⟨fun ⟨market, tasks, wired⟩ => ⟨market, tasks, wired⟩, fun ⟨market, tasks, wired⟩ => ⟨market, tasks, wired⟩⟩

/-- What holds of the value of a computation, if it has one. -/
instance decidableForallOk {ε α : Type} {P : α → Prop} [DecidablePred P] :
    ∀ run : Except ε α, Decidable (∀ a, run = .ok a → P a)
  | .ok a => decidable_of_iff (P a) ⟨fun holds _ same => by cases same; exact holds, fun all => all a rfl⟩
  | .error _ => isTrue nofun

namespace MarketsAction

/-- Only the markets' own calls write what they store. -/
def exec (d : Deployment) (w : World AIToken) : MarketsAction → Except Revert (World AIToken)
  | .market msg call => InternalMarket.exec d msg call w
  | .tasks msg call => TaskMarket.exec d msg call w
  | .pool msg call => StakingPool.exec d msg call w
  | .elsewhere other => .ok { other with market := w.market, tasks := w.tasks }

/-- A deposit arrives whole, and a dividend is claimed only where the market owns it on top of all balances. -/
def MarketSpared (d : Deployment) (w : World AIToken) (msg : Msg) : InternalMarket.Call → Prop
  | .depositAit amount => Untaxed w msg.sender amount
  | .claimDividend companyId => ∀ pending, pendingDividend companyId msg.sender w = .ok pending →
    ∑ user, w.market.aitBalance user + pending ≤ w.balanceOf d.internalMarket
  | _ => True

instance (d : Deployment) (w : World AIToken) (msg : Msg) : ∀ call, Decidable (MarketSpared d w msg call)
  | .depositAit _ => inferInstanceAs (Decidable (Untaxed ..))
  | .claimDividend companyId => decidableForallOk (pendingDividend companyId msg.sender w)
  | .registerCompany .. | .issueShares .. | .withdrawAit .. | .placeOrder .. | .cancelOrder ..
  | .settleTrade .. | .depositProfit .. | .setDividendPayoutVault .. | .access .. => isTrue trivial

/-- A bounty arrives whole. -/
def TasksSpared (w : World AIToken) (msg : Msg) : TaskMarket.Call → Prop
  | .fundTask taskId => Untaxed w msg.sender (w.tasks.tasks taskId).bounty
  | _ => True

instance (w : World AIToken) (msg : Msg) : ∀ call, Decidable (TasksSpared w msg call)
  | .fundTask _ => inferInstanceAs (Decidable (Untaxed ..))
  | .postTask .. | .assignWorker .. | .submitWork .. | .commitZkProof .. | .approveTask .. | .cancelTask .. =>
    isTrue trivial

/-- The caller is outside the deployment and spares the market that it calls, and what happens elsewhere takes
nothing from the markets. -/
def Sparing (d : Deployment) (w : World AIToken) : MarketsAction → Prop
  | .market msg call => d.Outside msg.sender ∧ MarketSpared d w msg call
  | .tasks msg call => d.Outside msg.sender ∧ TasksSpared w msg call
  | .pool msg _ => d.Outside msg.sender
  | .elsewhere other => EscrowsSpared d w.token other.token

instance (d : Deployment) (w : World AIToken) : ∀ action, Decidable (Sparing d w action)
  | .market .. => inferInstanceAs (Decidable (_ ∧ MarketSpared ..))
  | .tasks .. => inferInstanceAs (Decidable (_ ∧ TasksSpared ..))
  | .pool .. => inferInstanceAs (Decidable (Deployment.Outside ..))
  | .elsewhere _ => inferInstanceAs (Decidable (EscrowsSpared ..))

end MarketsAction

variable {d : Deployment} {w next : World AIToken} {msg : Msg}

namespace EscrowsSpared
variable {t mid last : AIToken} {spender src dst : Address} {value fee : ℕ}

theorem refl (d : Deployment) (t : AIToken) : EscrowsSpared d t t := ⟨le_rfl, le_rfl, id⟩

theorem trans (first : EscrowsSpared d t mid) (second : EscrowsSpared d mid last) : EscrowsSpared d t last :=
  ⟨first.market.trans second.market, first.tasks.trans second.tasks, second.wired ∘ first.wired⟩

/-- What anybody else pays. -/
theorem of_moved (moved : t.Moved last src dst value fee) (notMarket : src ≠ d.internalMarket)
    (notTasks : src ≠ d.taskMarket) : EscrowsSpared d t last :=
  ⟨moved.le_of_ne notMarket.symm, moved.le_of_ne notTasks.symm, fun wired => wired.moved moved⟩

theorem of_transfer {rates : TaxRates} (run : AitToken.transfer t rates src dst value = .ok last)
    (notMarket : src ≠ d.internalMarket) (notTasks : src ≠ d.taskMarket) : EscrowsSpared d t last := by
  obtain ⟨⟨_, delivered⟩, _⟩ := AIToken.transfer_delivered run
  exact of_moved delivered.moved notMarket notTasks

theorem of_transferFrom {rates : TaxRates} (run : AitToken.transferFrom t rates spender src dst value = .ok last)
    (notMarket : src ≠ d.internalMarket) (notTasks : src ≠ d.taskMarket) : EscrowsSpared d t last := by
  obtain ⟨_, delivered⟩ := AIToken.transferFrom_delivered run
  exact of_moved delivered.moved notMarket notTasks

end EscrowsSpared

/-- A tax and the rest of an amount are taken from the contract that pays them and from nobody else. -/
theorem paid_in_two {payer dst : Address} {gross fee : ℕ} {taxed token : AIToken} (feeLe : fee ≤ gross)
    (collected : Treasury.Collected d w payer fee taxed)
    (paid : AitToken.transfer taxed (w.taxRates d) payer dst (gross - fee) = .ok token) :
    w.balanceOf payer - gross ≤ token.balanceOf payer ∧
      (∀ other, other ≠ payer → w.balanceOf other ≤ token.balanceOf other) ∧
      (TaxWired d w.token → TaxWired d token) := by
  obtain ⟨tax, first⟩ : ∃ tax, w.token.Moved taxed payer d.treasury fee tax := by
    obtain ⟨rfl, rfl⟩ | pull := collected
    · exact ⟨0, AIToken.Moved.refl ..⟩
    · obtain ⟨tax, delivered⟩ := AIToken.transferFrom_delivered pull
      exact ⟨tax, delivered.moved⟩
  obtain ⟨⟨_, delivered⟩, _⟩ := AIToken.transfer_delivered paid
  have second := delivered.moved
  refine ⟨?_, fun other apart => (first.le_of_ne apart).trans (second.le_of_ne apart),
    fun wired => (wired.moved first).moved second⟩
  have before : w.balanceOf payer - fee ≤ taxed.balanceOf payer := first.sub_le payer
  have after := second.sub_le payer
  omega

namespace EscrowsHeld

/-- A step that leaves both ledgers and takes nothing from the markets. -/
theorem of_spared (held : EscrowsHeld d w) (ledger : next.market.aitBalance = w.market.aitBalance)
    (tasks : next.tasks = w.tasks) (spared : EscrowsSpared d w.token next.token) : EscrowsHeld d next :=
  ⟨held.escrow.of_balances ledger tasks spared.market spared.tasks, spared.wired held.wired⟩

/-- A trade takes its notional out of the market and off the balance of its buyer. -/
theorem settled {maker taker vstkAmount aitNotional cid fee : ℕ} {settlementId : Bytes32} {buyer seller : Address}
    (held : EscrowsHeld d w)
    (settled : InternalMarket.Settled d w next maker taker vstkAmount aitNotional settlementId cid fee buyer seller) :
    EscrowsHeld d next := by
  obtain ⟨taxed, token, collected, paid, rfl⟩ := settled.effect
  obtain ⟨left, kept, wired⟩ := paid_in_two settled.feeLe collected paid
  exact ⟨⟨(held.escrow.market.debit settled.funded).mono left,
    held.escrow.tasks.mono (kept _ d.internalMarket_ne_taskMarket.symm)⟩, wired held.wired⟩

theorem depositProfit {companyId grossAmount : ℕ} (held : EscrowsHeld d w) (outside : d.Outside msg.sender)
    (run : InternalMarket.depositProfit d msg companyId grossAmount w = .ok next) : EscrowsHeld d next := by
  obtain ⟨_, ⟨fee, taxed, token, _, _, collected, pull, rfl⟩ | rfl⟩ := InternalMarket.depositProfit_cases run
  · have first : EscrowsSpared d w.token taxed := by
      obtain ⟨_, rfl⟩ | pull := collected
      · exact .refl ..
      · exact .of_transferFrom pull outside.ne_internalMarket outside.ne_taskMarket
    exact held.of_spared rfl rfl
      (first.trans (.of_transferFrom pull outside.ne_internalMarket outside.ne_taskMarket))
  · exact held.of_spared rfl rfl (.refl ..)

/-- A dividend that the market owns on top of all balances leaves them covered. -/
theorem claimDividend {companyId : ℕ} (held : EscrowsHeld d w)
    (surplus : ∀ pending, pendingDividend companyId msg.sender w = .ok pending →
      ∑ user, w.market.aitBalance user + pending ≤ w.balanceOf d.internalMarket)
    (run : InternalMarket.claimDividend d msg companyId w = .ok next) : EscrowsHeld d next := by
  simp only [InternalMarket.claimDividend, bind_eq_ok] at run
  obtain ⟨pending, shown, run⟩ := run
  split at run
  · cases pure_eq_ok.mp run
    exact held
  · simp only [bind_eq_ok, pure_eq_ok, World.safeTransfer_eq_ok] at run
    obtain ⟨_, ⟨token, paid, rfl⟩, rfl⟩ := run
    obtain ⟨⟨_, delivered⟩, _⟩ := AIToken.transfer_delivered paid
    have moved := delivered.moved
    have owned := surplus pending shown
    have left : w.balanceOf d.internalMarket - pending ≤ token.balanceOf d.internalMarket :=
      moved.sub_le d.internalMarket
    exact ⟨⟨Ledger.backed_iff_sum_le.mpr (Nat.le_trans (Nat.le_sub_of_add_le owned) left),
      held.escrow.tasks.mono (moved.le_of_ne d.internalMarket_ne_taskMarket.symm)⟩, held.wired.moved moved⟩

theorem market {call : InternalMarket.Call} (held : EscrowsHeld d w) (outside : d.Outside msg.sender)
    (spared : MarketsAction.MarketSpared d w msg call)
    (run : InternalMarket.exec d msg call w = .ok next) : EscrowsHeld d next := by
  cases call with
  | registerCompany vault =>
    cases InternalMarket.registerCompany_effect run
    exact held.of_spared rfl rfl (.refl ..)
  | issueShares companyId recipient amount =>
    cases InternalMarket.issueShares_effect run
    exact held.of_spared rfl rfl (.refl ..)
  | depositAit amount => exact held.depositAit outside spared run
  | withdrawAit amount => exact held.withdrawAit run
  | placeOrder companyId side priceRay amount engineHint =>
    obtain ⟨_, _, rfl⟩ := InternalMarket.placeOrder_effect run
    exact held.of_spared rfl rfl (.refl ..)
  | cancelOrder orderId =>
    obtain ⟨_, rfl⟩ := InternalMarket.cancelOrder_effect run
    exact held.of_spared rfl rfl (.refl ..)
  | settleTrade makerOrderId takerOrderId vstkAmount aitNotional settlementId =>
    obtain ⟨_, ⟨_, _, _, _, settled⟩ | rfl⟩ := InternalMarket.settleTrade_cases run
    · exact held.settled settled
    · exact held.of_spared rfl rfl (.refl ..)
  | depositProfit companyId grossAmount => exact held.depositProfit outside run
  | setDividendPayoutVault companyId vault =>
    cases InternalMarket.setDividendPayoutVault_effect run
    exact held.of_spared rfl rfl (.refl ..)
  | claimDividend companyId => exact held.claimDividend spared run
  | access call =>
    simp only [InternalMarket.exec, bind_eq_ok, pure_eq_ok] at run
    obtain ⟨_, _, rfl⟩ := run
    exact held.of_spared rfl rfl (.refl ..)

/-- Writing a task that still locks what it did. -/
theorem put {taskId : ℕ} {t : Task} {event : Event} (held : EscrowsHeld d w)
    (locked : t.lockedAmount = (w.tasks.tasks taskId).lockedAmount) :
    EscrowsHeld d ((TaskMarket.put w taskId t).emit event) :=
  ⟨held.escrow.put locked.le, held.wired⟩

/-- A settlement takes what was locked out of the market. -/
theorem approveTask {taskId : ℕ} (held : EscrowsHeld d w)
    (run : TaskMarket.approveTask d msg taskId w = .ok next) : EscrowsHeld d next := by
  obtain ⟨_, _, _, _, fee, taxed, token, log, _, feeLe, collected, paid, rfl⟩ := TaskMarket.approveTask_effect run
  obtain ⟨left, kept, wired⟩ := paid_in_two feeLe collected paid
  exact ⟨held.escrow.paid (t := { w.tasks.tasks taskId with lockedAmount := 0, status := .completed }) rfl
    (kept _ d.internalMarket_ne_taskMarket) left, wired held.wired⟩

theorem tasks {call : TaskMarket.Call} (held : EscrowsHeld d w) (outside : d.Outside msg.sender)
    (spared : MarketsAction.TasksSpared w msg call) (run : TaskMarket.exec d msg call w = .ok next) : EscrowsHeld d next := by
  cases call with
  | postTask bounty => exact held.postTask run
  | fundTask taskId => exact held.fundTask outside spared run
  | assignWorker taskId worker aiPoolRecipient =>
    obtain ⟨_, _, _, rfl⟩ := TaskMarket.assignWorker_effect run
    exact held.put rfl
  | submitWork taskId resultHash =>
    obtain ⟨_, _, rfl⟩ := TaskMarket.submitWork_effect run
    exact held.put rfl
  | commitZkProof taskId commitment =>
    cases TaskMarket.commitZkProof_effect run
    exact held.put rfl
  | approveTask taskId => exact held.approveTask run
  | cancelTask taskId => exact held.cancelTask run

/-- The pool moves tokens of its own and of its callers. -/
theorem pool {call : StakingPool.Call} (held : EscrowsHeld d w) (outside : d.Outside msg.sender)
    (run : StakingPool.exec d msg call w = .ok next) : EscrowsHeld d next := by
  have ofPool {dst : Address} {value : ℕ} {t sent : AIToken}
      (push : AitToken.transfer t (w.taxRates d) d.stakingPool dst value = .ok sent) : EscrowsSpared d t sent :=
    .of_transfer push d.internalMarket_ne_stakingPool.symm d.taskMarket_ne_stakingPool.symm
  have ofCaller {value : ℕ} {t sent : AIToken}
      (pull : AitToken.transferFrom t (w.taxRates d) d.stakingPool msg.sender d.stakingPool value = .ok sent) :
      EscrowsSpared d t sent := .of_transferFrom pull outside.ne_internalMarket outside.ne_taskMarket
  have ofReward {claimed : AIToken} (rewarded : StakingPool.Rewarded d w msg.sender claimed) :
      EscrowsSpared d w.token claimed := by
    obtain ⟨_, rfl⟩ | ⟨_, push⟩ := rewarded
    · exact .refl ..
    · exact ofPool push
  cases call with
  | depositReward amount =>
    obtain ⟨_, token, _, _, pull, rfl⟩ := StakingPool.depositReward_effect run
    exact held.of_spared rfl rfl (ofCaller pull)
  | stake amount =>
    obtain ⟨claimed, token, _, _, rewarded, pull, rfl⟩ := StakingPool.stake_effect run
    exact held.of_spared rfl rfl ((ofReward rewarded).trans (ofCaller pull))
  | unstake amount =>
    obtain ⟨_, _, claimed, token, _, _, rewarded, push, rfl⟩ := StakingPool.unstake_effect run
    exact held.of_spared rfl rfl ((ofReward rewarded).trans (ofPool push))
  | claim =>
    obtain ⟨token, _, _, rewarded, rfl⟩ := StakingPool.claim_effect run
    exact held.of_spared rfl rfl (ofReward rewarded)

/-- One step that spares the markets. -/
theorem exec {action : MarketsAction} (held : EscrowsHeld d w) (spares : action.Sparing d w)
    (run : action.exec d w = .ok next) : EscrowsHeld d next := by
  cases action with
  | market msg call => exact held.market spares.1 spares.2 run
  | tasks msg call => exact held.tasks spares.1 spares.2 run
  | pool msg call => exact held.pool spares run
  | elsewhere other =>
    cases run
    exact held.of_spared rfl rfl spares

end EscrowsHeld

/-- Both markets hold what they have credited after every run that spares them. -/
theorem EscrowsHeld.run {run : List MarketsAction} (held : EscrowsHeld d w)
    (spares : TransitionRun.Meets (MarketsAction.exec d) (MarketsAction.Sparing d) w run) :
    EscrowsHeld d (TransitionRun.exec (MarketsAction.exec d) w run) :=
  TransitionRun.exec_preserves (fun _ _ _ held spares taken => held.exec spares taken) held spares

end Aide
