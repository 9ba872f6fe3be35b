import Aide.HeldEscrows

namespace Aide

/-- What the two markets keep for a user: a balance, or the bounty that is locked in a task. -/
inductive Redemption
  | balance (user : Address)
  | bounty (taskId : ℕ)
  deriving DecidableEq

namespace Redemption

/-- Who may redeem, and is paid. -/
def payee (w : World AIToken) : Redemption → Address
  | balance user => user
  | bounty taskId => (w.tasks.tasks taskId).publisher

def owed (w : World AIToken) : Redemption → ℕ
  | balance user => w.market.aitBalance user
  | bounty taskId => (w.tasks.tasks taskId).lockedAmount

/-- A user takes out the whole balance, a publisher cancels the task. -/
def exec (d : Deployment) (w : World AIToken) (r : Redemption) : Except Revert (World AIToken) :=
  match r with
  | balance user => InternalMarket.withdrawAit d { sender := user } (r.owed w) w
  | bounty taskId => TaskMarket.cancelTask d { sender := r.payee w } taskId w

/-- The task has not been completed and not been cancelled. -/
def Unfinished (w : World AIToken) : Redemption → Prop
  | balance _ => True
  | bounty taskId => (w.tasks.tasks taskId).status ≠ .completed ∧ (w.tasks.tasks taskId).status ≠ .cancelled

instance (w : World AIToken) : ∀ r, Decidable (Unfinished w r)
  | balance _ => isTrue trivial
  | bounty _ => inferInstanceAs (Decidable (_ ∧ _))

def Redeemable (d : Deployment) (w : World AIToken) (r : Redemption) : Prop :=
  d.Outside (r.payee w) ∧ r.Unfinished w

instance (d : Deployment) (w : World AIToken) (r : Redemption) : Decidable (Redeemable d w r) :=
  inferInstanceAs (Decidable (_ ∧ _))

/-- What `account` gets of all `redemptions`. -/
def due (w : World AIToken) (account : Address) (redemptions : List Redemption) : ℕ :=
  (redemptions.map fun r => if r.payee w = account then r.owed w else 0).sum

end Redemption

variable {d : Deployment} {w next : World AIToken} {r : Redemption}

/-- A transfer of an exempt account needs enough balance and nothing else. -/
theorem AIToken.exempt_transfer_succeeds {t : AIToken} (rates : TaxRates) {sender dst : Address} {value : ℕ}
    (exempt : t.taxExemptSender sender = true) (hsender : sender ≠ 0) (hdst : dst ≠ 0)
    (covered : value ≤ t.balanceOf sender) : ∃ sent, t.transfer rates sender dst value = .ok sent := by
  obtain ⟨delivered, moves⟩ := ERC20.transfer_succeeds hsender hdst covered
  simp only [ERC20.transfer, bind_eq_ok, require_eq_ok, exists_const] at moves
  refine ⟨{ t with toERC20 := delivered }, ?_⟩
  simp only [AIToken.transfer, AIToken.update, bind_eq_ok, require_eq_ok, exists_const, exempt]
  exact ⟨hsender, hdst, by simp [moves.2.2, bind, Except.bind, pure, Except.pure]⟩

/-- What an exempt account pays reaches the recipient whole, and nobody else is touched. -/
theorem AIToken.Moved.exempt_balance {t sent : AIToken} {sender dst account : Address} {value : ℕ}
    (moved : t.Moved sent sender dst value 0) (other : account ≠ sender) :
    sent.balanceOf account = t.balanceOf account + if dst = account then value else 0 := by
  have balance := moved.balance account
  simp only [other, if_false, ite_self, Nat.add_zero, Nat.sub_zero] at balance
  rw [balance]
  simp only [eq_comm]

theorem Deployment.internalMarket_ne_zero (d : Deployment) : d.internalMarket ≠ 0 :=
  fun zero => d.deployed (zero ▸ by simp)

theorem Deployment.taskMarket_ne_zero (d : Deployment) : d.taskMarket ≠ 0 :=
  fun zero => d.deployed (zero ▸ by simp)

/-- What one redemption does: it pays its own user, in full, and leaves the claims of all others as they
were, in markets that go on holding them. -/
structure Redeemed (d : Deployment) (w next : World AIToken) (r : Redemption) : Prop where
  held : EscrowsHeld d next
  paid : ∀ account, d.Outside account →
    next.balanceOf account = w.balanceOf account + if r.payee w = account then r.owed w else 0
  settled : r.owed next = 0
  payee : ∀ other : Redemption, other.payee next = other.payee w
  owed : ∀ other, other ≠ r → other.owed next = other.owed w
  unfinished : ∀ other, other ≠ r → other.Unfinished w → other.Unfinished next

theorem balance_redeemed {user : Address} (held : EscrowsHeld d w) (outside : d.Outside user) :
    ∃ next, (Redemption.balance user).exec d w = .ok next ∧ Redeemed d w next (.balance user) := by
  have enough : w.market.aitBalance user ≤ w.balanceOf d.internalMarket := held.escrow.market.entry_le user
  obtain ⟨token, push⟩ := AIToken.exempt_transfer_succeeds (w.taxRates d)
    held.wired.marketExempt d.internalMarket_ne_zero outside.1 enough
  have run : (Redemption.balance user).exec d w = .ok { w with
      token
      market := { w.market with aitBalance := Function.update w.market.aitBalance user 0 }
      log := w.log ++ [.aitWithdrawn user (w.market.aitBalance user)] } := by
    simp only [Redemption.exec, Redemption.owed, InternalMarket.withdrawAit, bind_eq_ok, pure_eq_ok,
      checkedSub_eq_ok, World.safeTransfer_eq_ok]
    exact ⟨_, ⟨le_rfl, (Nat.sub_self _).symm⟩, _, ⟨token, push, rfl⟩, rfl⟩
  have moved := withdrawAit_moved held.wired run
  refine ⟨_, run, ?_⟩
  exact {
    held := held.withdrawAit run
    paid := fun account other => moved.exempt_balance other.ne_internalMarket
    settled := Function.update_self ..
    payee := fun other => by cases other <;> rfl
    owed := fun other apart => by
      cases other with
      | balance another => exact Function.update_of_ne (fun same => apart (congrArg _ same)) ..
      | bounty taskId => rfl
    unfinished := fun other _ unfinished => by cases other <;> exact unfinished }

/-- A publisher can cancel its unfinished task while the market holds what is locked. -/
theorem cancel_succeeds {taskId : ℕ} (held : EscrowsHeld d w)
    (redeemable : (Redemption.bounty taskId).Redeemable d w) :
    ∃ next, (Redemption.bounty taskId).exec d w = .ok next := by
  obtain ⟨outside, running⟩ := redeemable
  have enough : (w.tasks.tasks taskId).lockedAmount ≤ w.balanceOf d.taskMarket :=
    held.escrow.tasks.entry_le taskId
  obtain ⟨token, push⟩ := AIToken.exempt_transfer_succeeds (w.taxRates d)
    held.wired.taskMarketExempt d.taskMarket_ne_zero outside.1 enough
  by_cases locked : 0 < (w.tasks.tasks taskId).lockedAmount
  · refine ⟨(TaskMarket.put { w with token } taskId { w.tasks.tasks taskId with
      lockedAmount := 0, status := .cancelled }).emit (.taskCancelled taskId), ?_⟩
    simp only [Redemption.exec, TaskMarket.cancelTask, bind_eq_ok, require_eq_ok, exists_const, if_pos locked,
      pure_eq_ok, World.safeTransfer_eq_ok]
    exact ⟨rfl, running, _, ⟨token, push, rfl⟩, rfl⟩
  · refine ⟨(TaskMarket.put w taskId { w.tasks.tasks taskId with
      lockedAmount := 0, status := .cancelled }).emit (.taskCancelled taskId), ?_⟩
    simp only [Redemption.exec, TaskMarket.cancelTask, bind_eq_ok, require_eq_ok, exists_const, if_neg locked,
      pure_eq_ok]
    exact ⟨rfl, running, trivial⟩

theorem bounty_redeemed {taskId : ℕ} (held : EscrowsHeld d w)
    (run : (Redemption.bounty taskId).exec d w = .ok next) : Redeemed d w next (.bounty taskId) := by
  have left := held.cancelTask run
  have moved := cancelTask_moved held.wired run
  obtain ⟨_, _, token, _, rfl⟩ := TaskMarket.cancelTask_effect run
  have elsewhere : ∀ other, Redemption.bounty other ≠ .bounty taskId → other ≠ taskId :=
    fun other apart same => apart (congrArg _ same)
  exact {
    held := left
    paid := fun account other => moved.exempt_balance other.ne_taskMarket
    settled := by simp [Redemption.owed, TaskMarket.put, World.emit]
    payee := fun other => by
      cases other with
      | balance user => rfl
      | bounty other =>
        by_cases same : other = taskId
        · subst same
          simp [Redemption.payee, TaskMarket.put, World.emit]
        · simp [Redemption.payee, TaskMarket.put, World.emit, same]
    owed := fun other apart => by
      cases other with
      | balance user => rfl
      | bounty other => simp [Redemption.owed, TaskMarket.put, World.emit, elsewhere other apart]
    unfinished := fun other apart unfinished => by
      cases other with
      | balance user => trivial
      | bounty other =>
        simpa [Redemption.Unfinished, TaskMarket.put, World.emit, elsewhere other apart] using unfinished }

/-- One redemption of what the markets hold. -/
theorem EscrowsHeld.redeems (held : EscrowsHeld d w) (redeemable : r.Redeemable d w) :
    ∃ next, r.exec d w = .ok next ∧ Redeemed d w next r := by
  cases r with
  | balance user => exact balance_redeemed held redeemable.1
  | bounty taskId =>
    obtain ⟨next, run⟩ := cancel_succeeds held redeemable
    exact ⟨next, run, bounty_redeemed held run⟩

namespace Redeemed
variable (redeemed : Redeemed d w next r)
include redeemed

theorem redeemable {other : Redemption} (apart : other ≠ r) (able : other.Redeemable d w) :
    other.Redeemable d next :=
  ⟨(redeemed.payee other).symm ▸ able.1, redeemed.unfinished other apart able.2⟩

theorem due {redemptions : List Redemption} (notLater : r ∉ redemptions) (account : Address) :
    Redemption.due next account redemptions = Redemption.due w account redemptions := by
  unfold Redemption.due
  congr 1
  refine List.map_congr_left fun other member => ?_
  rw [redeemed.payee other, redeemed.owed other fun same => notLater (same ▸ member)]

end Redeemed

/-- What the markets hold is redeemed in any order. -/
theorem EscrowsHeld.redeemed {redemptions : List Redemption} (held : EscrowsHeld d w)
    (nodup : redemptions.Nodup) (able : ∀ r ∈ redemptions, r.Redeemable d w) :
    ∃ left, redemptions.foldlM (Redemption.exec d) w = .ok left ∧
      (∀ account, d.Outside account →
        left.balanceOf account = w.balanceOf account + Redemption.due w account redemptions) ∧
      (∀ r ∈ redemptions, r.owed left = 0) ∧
      ∀ r, r ∉ redemptions → r.owed left = r.owed w := by
  induction redemptions generalizing w with
  | nil => exact ⟨w, rfl, fun _ _ => rfl, fun _ member => absurd member List.not_mem_nil, fun _ _ => rfl⟩
  | cons r rest ih =>
    obtain ⟨notLater, nodupRest⟩ := List.nodup_cons.mp nodup
    obtain ⟨next, run, redeemed⟩ := held.redeems (able r List.mem_cons_self)
    have ableRest : ∀ other ∈ rest, other.Redeemable d next := fun other member =>
      redeemed.redeemable (fun same => notLater (same ▸ member)) (able other (List.mem_cons_of_mem _ member))
    obtain ⟨left, runRest, paid, settled, untouched⟩ := ih redeemed.held nodupRest ableRest
    refine ⟨left, ?_, fun account outside => ?_, fun other member => ?_, fun other absent => ?_⟩
    · rw [List.foldlM_cons, run]
      exact runRest
    · have first := redeemed.paid account outside
      have later := paid account outside
      rw [redeemed.due notLater account] at later
      simp only [Redemption.due, List.map_cons, List.sum_cons] at later ⊢
      omega
    · obtain rfl | member := List.mem_cons.mp member
      · exact (untouched other notLater).trans redeemed.settled
      · exact settled other member
    · obtain ⟨apart, later⟩ := List.ne_and_not_mem_of_not_mem_cons absent
      exact (untouched other later).trans (redeemed.owed other apart)

/-- A run on the markets. After every run of calls of both markets and of the staking pool, and of whatever happens
between them, that keeps to `MarketsAction.Sparing`, any of the balances and locked bounties can be taken out in any
order: no withdrawal reverts, each account gets exactly what it is owed, and nothing of it stays owed. -/
theorem escrows_redeemable {admin : Address} {run : List MarketsAction}
    (market : w.market = InternalMarket.constructed admin) (tasks : w.tasks = TaskMarket.constructed)
    (wired : TaxWired d w.token)
    (spares : TransitionRun.Meets (MarketsAction.exec d) (MarketsAction.Sparing d) w run)
    {redemptions : List Redemption} (nodup : redemptions.Nodup)
    (able : ∀ r ∈ redemptions, r.Redeemable d (TransitionRun.exec (MarketsAction.exec d) w run)) :
    let final := TransitionRun.exec (MarketsAction.exec d) w run
    ∃ left, redemptions.foldlM (Redemption.exec d) final = .ok left ∧
      (∀ account, d.Outside account →
        left.balanceOf account = final.balanceOf account + Redemption.due final account redemptions) ∧
      ∀ r ∈ redemptions, r.owed left = 0 := by
  have held := (EscrowsHeld.constructed market tasks wired).run spares
  obtain ⟨left, leave, paid, settled, _⟩ := held.redeemed nodup able
  exact ⟨left, leave, paid, settled⟩

namespace Devnet

/-- The machine of bob is verified, and the first company is listed. -/
def certified : World AIToken :=
  { taxed with
    registry := { taxed.registry with verified := fun account => account = bob }
    bank := { taxed.bank with tradable := fun companyId => companyId = 1 } }

/-- Alice buys shares of bob out of her balance, and of two tasks of bob one is being worked on while the other has
been settled. -/
def trading : List MarketsAction :=
  [.elsewhere certified,
    .market { sender := admin } (.registerCompany admin),
    .market { sender := admin } (.issueShares 1 bob 10),
    .market { sender := alice } (.depositAit 19),
    .market { sender := bob } (.placeOrder 1 .sell 1 10 0),
    .market { sender := alice } (.placeOrder 1 .buy 1 10 0),
    .market { sender := admin } (.settleTrade 1 2 10 4 0),
    .tasks { sender := bob } (.postTask 15),
    .tasks { sender := bob } (.fundTask 1),
    .tasks { sender := bob } (.assignWorker 1 mallory bob),
    .tasks { sender := bob } (.postTask 12),
    .tasks { sender := bob } (.fundTask 2),
    .tasks { sender := bob } (.assignWorker 2 mallory bob),
    .tasks { sender := mallory } (.submitWork 2 7),
    .tasks { sender := bob } (.approveTask 2),
    .pool { sender := alice } (.stake 5),
    .market { sender := alice } (.withdrawAit 4)]

def afterTrading : World AIToken := TransitionRun.exec (MarketsAction.exec Deployment.devnet) taxed trading

end Devnet

open Devnet in
theorem escrows_redeemable_of_trading :
    ∃ left, [Redemption.bounty 1, .balance alice].foldlM (Redemption.exec Deployment.devnet) afterTrading = .ok left ∧
      (∀ account, Deployment.devnet.Outside account → left.balanceOf account =
        afterTrading.balanceOf account + Redemption.due afterTrading account [.bounty 1, .balance alice]) ∧
      ∀ r ∈ [Redemption.bounty 1, .balance alice], r.owed left = 0 :=
  @escrows_redeemable Deployment.devnet taxed admin trading rfl rfl taxed_wired (by decide +kernel)
    [.bounty 1, .balance alice] (by decide) (by decide +kernel)

open Devnet in
example : Redemption.due afterTrading alice [.bounty 1, .balance alice] = 11 ∧
    Redemption.due afterTrading bob [.bounty 1, .balance alice] = 15 := by decide +kernel

end Aide
