import Aide.Contracts.TaskRun

namespace Aide

/-- The balances of both escrows cover what their ledgers owe. -/
structure EscrowCovered {τ : Type} [AitToken τ] (d : Deployment) (w : World τ) : Prop where
  market : Ledger.Backed w.market.aitBalance (w.balanceOf d.internalMarket)
  tasks : Ledger.Backed (fun taskId => (w.tasks.tasks taskId).lockedAmount)
    (w.balanceOf d.taskMarket)

/-- The calls that need no role. -/
inductive OutsiderCall
  | depositAit (amount : ℕ)
  | withdrawAit (amount : ℕ)
  | placeOrder (companyId : ℕ) (side : Side) (priceRay amount engineHint : ℕ)
  | cancelOrder (orderId : ℕ)
  | postTask (bounty : ℕ)
  | fundTask (taskId : ℕ)
  | assignWorker (taskId : ℕ) (worker aiPoolRecipient : Address)
  | submitWork (taskId : ℕ) (resultHash : Bytes32)
  | approveTask (taskId : ℕ)
  | cancelTask (taskId : ℕ)
  | collectTax (payer : Address) (taxableBase : ℕ)

namespace OutsiderCall

def exec (d : Deployment) (w : World ERC20) : Msg × OutsiderCall → Except Revert (World ERC20)
  | (msg, .depositAit amount) => InternalMarket.depositAit d msg amount w
  | (msg, .withdrawAit amount) => InternalMarket.withdrawAit d msg amount w
  | (msg, .placeOrder companyId side priceRay amount engineHint) =>
    InternalMarket.placeOrder msg companyId side priceRay amount engineHint w
  | (msg, .cancelOrder orderId) => InternalMarket.cancelOrder msg orderId w
  | (msg, .postTask bounty) => TaskMarket.postTask msg bounty w
  | (msg, .fundTask taskId) => TaskMarket.fundTask d msg taskId w
  | (msg, .assignWorker taskId worker aiPoolRecipient) =>
    TaskMarket.assignWorker msg taskId worker aiPoolRecipient w
  | (msg, .submitWork taskId resultHash) => TaskMarket.submitWork msg taskId resultHash w
  | (msg, .approveTask taskId) => TaskMarket.approveTask d msg taskId w
  | (msg, .cancelTask taskId) => TaskMarket.cancelTask d msg taskId w
  | (msg, .collectTax payer taxableBase) => do
    let (_, w) ← Treasury.collectTax d msg.sender payer taxableBase w
    pure w

/-- A tax that is collected from one of the escrows comes to zero. -/
def SparesEscrows (d : Deployment) (w : World ERC20) : Msg × OutsiderCall → Prop
  | (_, .collectTax payer taxableBase) =>
    payer = d.internalMarket ∨ payer = d.taskMarket →
      taxableBase * w.treasury.taxRateBps / 10000 = 0
  | _ => True

end OutsiderCall

/-- The amounts locked after one task is written. -/
theorem lockedAmount_update (tasks : ℕ → Task) (taskId : ℕ) (t : Task) :
    (fun i => (Function.update tasks taskId t i).lockedAmount) =
      Function.update (fun i => (tasks i).lockedAmount) taskId t.lockedAmount := by
  funext i
  by_cases same : i = taskId
  · subst same
    simp
  · simp [same]

namespace EscrowCovered
variable {τ : Type} [AitToken τ] {d : Deployment} {w next : World τ} {msg : Msg}

/-- The balances of all users together are covered. -/
theorem sum_aitBalance_le (covered : EscrowCovered d w) :
    ∑ user, w.market.aitBalance user ≤ w.balanceOf d.internalMarket :=
  Ledger.backed_iff_sum_le.mp covered.market

/-- A step that leaves both ledgers alone and takes nothing from an escrow. -/
theorem of_balances (covered : EscrowCovered d w)
    (ledger : next.market.aitBalance = w.market.aitBalance) (tasks : next.tasks = w.tasks)
    (market : w.balanceOf d.internalMarket ≤ next.balanceOf d.internalMarket)
    (taskMarket : w.balanceOf d.taskMarket ≤ next.balanceOf d.taskMarket) :
    EscrowCovered d next where
  market := ledger ▸ covered.market.mono market
  tasks := tasks ▸ covered.tasks.mono taskMarket

/-- Writing a task that owes no more than the one it replaces. -/
theorem put {taskId : ℕ} {t : Task} {event : Event} (covered : EscrowCovered d w)
    (smaller : t.lockedAmount ≤ (w.tasks.tasks taskId).lockedAmount) :
    EscrowCovered d ((TaskMarket.put w taskId t).emit event) where
  market := covered.market
  tasks := by
    have lowered := covered.tasks.lower (k := taskId) smaller
    rwa [← lockedAmount_update] at lowered

/-- A payment of the locked amount, in one move or in several, and an emptied task. -/
theorem paid {taskId : ℕ} {t : Task} {token : τ} {log : List Event} (covered : EscrowCovered d w)
    (empty : t.lockedAmount = 0)
    (market : w.balanceOf d.internalMarket ≤ AitToken.balanceOf token d.internalMarket)
    (taskMarket : w.balanceOf d.taskMarket - (w.tasks.tasks taskId).lockedAmount ≤
      AitToken.balanceOf token d.taskMarket) :
    EscrowCovered d { TaskMarket.put { w with token } taskId t with log } where
  market := covered.market.mono market
  tasks := by
    have debited := (covered.tasks.debit (k := taskId) le_rfl).mono taskMarket
    rwa [Nat.sub_self, ← empty, ← lockedAmount_update] at debited

/-- The four calls that move tokens of one user, for every token: what is left to show about the
token is how the balances of the escrows move. -/
theorem depositAit {amount : ℕ} (covered : EscrowCovered d w)
    (run : InternalMarket.depositAit d msg amount w = .ok next)
    (market : w.balanceOf d.internalMarket + amount ≤ next.balanceOf d.internalMarket)
    (taskMarket : w.balanceOf d.taskMarket ≤ next.balanceOf d.taskMarket) :
    EscrowCovered d next := by
  obtain ⟨token, _, rfl⟩ := InternalMarket.depositAit_effect run
  exact ⟨(covered.market.credit msg.sender amount).mono market, covered.tasks.mono taskMarket⟩

theorem withdrawAit {amount : ℕ} (covered : EscrowCovered d w)
    (run : InternalMarket.withdrawAit d msg amount w = .ok next)
    (market : w.balanceOf d.internalMarket - amount ≤ next.balanceOf d.internalMarket)
    (taskMarket : w.balanceOf d.taskMarket ≤ next.balanceOf d.taskMarket) :
    EscrowCovered d next := by
  obtain ⟨owned, token, _, rfl⟩ := InternalMarket.withdrawAit_effect run
  exact ⟨(covered.market.debit owned).mono market, covered.tasks.mono taskMarket⟩

theorem fundTask {taskId : ℕ} (covered : EscrowCovered d w)
    (run : TaskMarket.fundTask d msg taskId w = .ok next)
    (market : w.balanceOf d.internalMarket ≤ next.balanceOf d.internalMarket)
    (taskMarket : w.balanceOf d.taskMarket + (w.tasks.tasks taskId).bounty ≤
      next.balanceOf d.taskMarket) : EscrowCovered d next := by
  obtain ⟨_, _, _, token, _, rfl⟩ := TaskMarket.fundTask_effect run
  refine ⟨covered.market.mono market, ?_⟩
  have funded := (covered.tasks.overwrite taskId (w.tasks.tasks taskId).bounty).mono taskMarket
  rwa [← lockedAmount_update w.tasks.tasks taskId { w.tasks.tasks taskId with
    lockedAmount := (w.tasks.tasks taskId).bounty, status := .funded }] at funded

theorem cancelTask {taskId : ℕ} (covered : EscrowCovered d w)
    (run : TaskMarket.cancelTask d msg taskId w = .ok next)
    (market : w.balanceOf d.internalMarket ≤ next.balanceOf d.internalMarket)
    (taskMarket : w.balanceOf d.taskMarket - (w.tasks.tasks taskId).lockedAmount ≤
      next.balanceOf d.taskMarket) : EscrowCovered d next := by
  obtain ⟨_, _, token, _, rfl⟩ := TaskMarket.cancelTask_effect run
  exact covered.paid (t := { w.tasks.tasks taskId with lockedAmount := 0, status := .cancelled })
    rfl market taskMarket

theorem postTask {bounty : ℕ} (covered : EscrowCovered d w)
    (run : TaskMarket.postTask msg bounty w = .ok next) : EscrowCovered d next := by
  cases TaskMarket.postTask_effect run
  have posted : EscrowCovered d ((TaskMarket.put w w.tasks.nextTaskId
      { publisher := msg.sender, bounty }).emit
        (.taskPosted w.tasks.nextTaskId msg.sender bounty)) := covered.put (Nat.zero_le _)
  exact ⟨posted.market, posted.tasks⟩

end EscrowCovered

variable {d : Deployment} {w next : World ERC20} {msg : Msg}

theorem depositAit_covered {amount : ℕ} (outside : d.Outside msg.sender)
    (covered : EscrowCovered d w) (run : InternalMarket.depositAit d msg amount w = .ok next) :
    EscrowCovered d next := by
  obtain ⟨token, pull, rfl⟩ := InternalMarket.depositAit_effect run
  have moved := ERC20.transferFrom_moved pull
  exact covered.depositAit run (moved.received outside.ne_internalMarket.symm).ge
    (moved.le_of_ne outside.ne_taskMarket.symm)

theorem withdrawAit_covered {amount : ℕ} (covered : EscrowCovered d w)
    (run : InternalMarket.withdrawAit d msg amount w = .ok next) : EscrowCovered d next := by
  obtain ⟨_, token, push, rfl⟩ := InternalMarket.withdrawAit_effect run
  obtain ⟨moved, _⟩ := ERC20.transfer_moved push
  exact covered.withdrawAit run (moved.sub_le d.internalMarket)
    (moved.le_of_ne d.internalMarket_ne_taskMarket.symm)

theorem placeOrder_covered {companyId : ℕ} {side : Side} {priceRay amount engineHint : ℕ}
    (covered : EscrowCovered d w)
    (run : InternalMarket.placeOrder msg companyId side priceRay amount engineHint w = .ok next) :
    EscrowCovered d next := by
  obtain ⟨_, _, rfl⟩ := InternalMarket.placeOrder_effect run
  exact covered.of_balances rfl rfl le_rfl le_rfl

theorem cancelOrder_covered {orderId : ℕ} (covered : EscrowCovered d w)
    (run : InternalMarket.cancelOrder msg orderId w = .ok next) : EscrowCovered d next := by
  obtain ⟨_, rfl⟩ := InternalMarket.cancelOrder_effect run
  exact covered.of_balances rfl rfl le_rfl le_rfl

/-- A call on a task moves no token of the other market, and what it takes out of escrow was locked. -/
theorem taskCall_covered (call : TaskMarket.Call) (outside : d.Outside msg.sender)
    (covered : EscrowCovered d w) (run : TaskMarket.exec d msg call w = .ok next) :
    EscrowCovered d next := by
  obtain ⟨taskId, t, made, token, log, writes, performed, rfl⟩ := TaskMarket.exec_writes run
  have sends : ∀ transfer ∈ made, transfer.src ≠ d.internalMarket := by
    intro transfer member byMarket
    rcases TaskMarket.src_of_writes writes member with own | caller
    · exact d.internalMarket_ne_taskMarket (byMarket.symm.trans own)
    · exact outside.ne_internalMarket (caller.symm.trans byMarket)
  have settled := covered.tasks.settle (TaskMarket.locked_of_writes outside writes)
    (performed.balance d.taskMarket)
  rw [← lockedAmount_update] at settled
  exact ⟨covered.market.mono (performed.kept sends), settled⟩

theorem collectTax_covered {sender payer : Address} {taxableBase fee : ℕ}
    (covered : EscrowCovered d w)
    (spares : payer = d.internalMarket ∨ payer = d.taskMarket →
      taxableBase * w.treasury.taxRateBps / 10000 = 0)
    (run : Treasury.collectTax d sender payer taxableBase w = .ok (fee, next)) :
    EscrowCovered d next := by
  obtain ⟨feeIs, token, collected, rfl⟩ := Treasury.collectTax_effect run
  have moved := collected.moved
  have kept : ∀ escrow, escrow = d.internalMarket ∨ escrow = d.taskMarket →
      w.token.balanceOf escrow ≤ token.balanceOf escrow := by
    intro escrow which
    by_cases payerIs : payer = escrow
    · have balance := moved.sub_le escrow
      rw [feeIs, spares (payerIs ▸ which)] at balance
      exact balance
    · exact moved.le_of_ne (Ne.symm payerIs)
  exact covered.of_balances rfl rfl (kept _ (Or.inl rfl)) (kept _ (Or.inr rfl))

/-- One call of an outsider that spares the escrows keeps both of them covered. -/
theorem outsiderCall_covered {call : OutsiderCall} (outside : d.Outside msg.sender)
    (covered : EscrowCovered d w) (spares : OutsiderCall.SparesEscrows d w (msg, call))
    (run : OutsiderCall.exec d w (msg, call) = .ok next) : EscrowCovered d next := by
  cases call with
  | depositAit amount => exact depositAit_covered outside covered run
  | withdrawAit amount => exact withdrawAit_covered covered run
  | placeOrder companyId side priceRay amount engineHint => exact placeOrder_covered covered run
  | cancelOrder orderId => exact cancelOrder_covered covered run
  | postTask bounty => exact taskCall_covered (.postTask bounty) outside covered run
  | fundTask taskId => exact taskCall_covered (.fundTask taskId) outside covered run
  | assignWorker taskId worker aiPoolRecipient =>
    exact taskCall_covered (.assignWorker taskId worker aiPoolRecipient) outside covered run
  | submitWork taskId resultHash => exact taskCall_covered (.submitWork taskId resultHash) outside covered run
  | approveTask taskId => exact taskCall_covered (.approveTask taskId) outside covered run
  | cancelTask taskId => exact taskCall_covered (.cancelTask taskId) outside covered run
  | collectTax payer taxableBase =>
    obtain ⟨⟨fee, taxed⟩, collect, same⟩ := bind_eq_ok.mp run
    cases pure_eq_ok.mp same
    exact collectTax_covered covered spares collect

/-- The escrows stay covered through every run of outsiders in which no tax is collected from
an escrow itself. -/
theorem escrow_covered_of_spared {run : List (Msg × OutsiderCall)}
    (outsiders : ∀ tx ∈ run, d.Outside tx.1.sender) (covered : EscrowCovered d w)
    (spares : TransitionRun.Meets (OutsiderCall.exec d) (OutsiderCall.SparesEscrows d) w run) :
    EscrowCovered d (TransitionRun.exec (OutsiderCall.exec d) w run) := by
  have outside : TransitionRun.Meets (OutsiderCall.exec d) (fun _ tx => d.Outside tx.1.sender) w
      run := TransitionRun.Meets.of_forall fun tx member _ => outsiders tx member
  refine TransitionRun.exec_preserves (fun w tx next covered meets step => ?_) covered
    (outside.and spares)
  exact outsiderCall_covered meets.1 covered meets.2 step

namespace Devnet

/-- A deployment with a tax rate of 5% in which alice owns 1000 and has approved the market. -/
def funded : World ERC20 :=
  Deployment.devnet.launch admin teeAuthority 500
    { ERC20.launch Deployment.devnet (Function.update (fun _ => 0) alice 1000) 1000 with
      allowance := fun owner spender =>
        if owner = alice ∧ spender = Deployment.devnet.internalMarket then 1000
        else (ERC20.launch Deployment.devnet (fun _ => 0) 0).allowance owner spender }

theorem funded_covered : EscrowCovered Deployment.devnet funded :=
  ⟨Ledger.Backed.zero _, Ledger.Backed.zero _⟩

end Devnet

open Devnet in
theorem escrow_covered_of_deposit :
    EscrowCovered Deployment.devnet (TransitionRun.exec (OutsiderCall.exec Deployment.devnet) funded
      [({ sender := alice }, .depositAit 100), ({ sender := mallory }, .collectTax alice 100),
        ({ sender := alice }, .withdrawAit 40)]) :=
  escrow_covered_of_spared (by decide) funded_covered
    ⟨trivial, fun escrow => absurd escrow (by decide), trivial, trivial⟩

open Devnet in
/-- Any account can have the tax of an escrow collected: the approval is already there. -/
theorem escrow_drained_by_collectTax :
    ¬ ∀ (d : Deployment) (w : World ERC20) (run : List (Msg × OutsiderCall)),
      w.treasury.taxRateBps ≤ 10000 → EscrowCovered d w → (∀ tx ∈ run, d.Outside tx.1.sender) →
      EscrowCovered d (TransitionRun.exec (OutsiderCall.exec d) w run) := by
  intro always
  have covered := always Deployment.devnet funded
    [({ sender := alice }, .depositAit 100),
      ({ sender := mallory }, .collectTax Deployment.devnet.internalMarket 100)]
    (by decide) funded_covered (by decide)
  exact absurd (covered.market.entry_le alice) (by decide)

end Aide
