import Aide.Contracts.DualPoolVault
import Aide.Contracts.Traced
import Aide.Revocation

namespace Aide

/-- A step in the history of the vault: a call of its own or of the registry, or anything else that
happens between two of them. The vault approves nobody, so only its own calls move its tokens. -/
inductive VaultAction
  | own (msg : Msg) (call : DualPoolVault.Call)
  | registry (msg : Msg) (call : AIIdentityRegistry.Call)
  | elsewhere (other : World (Traced ERC20))

/-- The vault with what an observer of the token has seen move from it to the human. -/
structure VaultBooks extends Banked (Traced ERC20) where
  toHuman : ℕ

namespace VaultBooks

def opened (w : World (Traced ERC20)) (vault : DualPoolVault) : VaultBooks := ⟨⟨w, vault⟩, 0⟩

/-- The transfers from the vault to its human. -/
def dividends (address : Address) (vault : DualPoolVault) (transfers : List Transfer) : ℕ :=
  Ledger.total Transfer.dst Transfer.value vault.humanDividendRecipient
    (transfers.filter fun transfer => transfer.src = address)

/-- The books after a call of the vault. -/
def afterCall (address : Address) (books : VaultBooks) (s : Banked (Traced ERC20)) : VaultBooks :=
  ⟨s, books.toHuman + dividends address books.vault (books.world.made s.world)⟩

def exec (c : TeeCrypto) (d : Deployment) (address : Address) (books : VaultBooks) :
    VaultAction → Except VaultRevert VaultBooks
  | .own msg call => do
    let s ← DualPoolVault.exec d address msg call books.toBanked
    pure (afterCall address books s)
  | .registry msg call => do
    let world ← (AIIdentityRegistry.exec c d msg call books.world).mapError .reverted
    pure { books with world }
  | .elsewhere other => .ok { books with world := other }

/-- A call of the owner that pays the human from the pool of the AI, past the profit gate. The registry
has the human as a machine. -/
structure Shortcut (address : Address) (books : VaultBooks) (msg : Msg) (amount : ℕ) : Prop where
  owner : msg.sender = books.vault.owner
  verified : AIIdentityRegistry.isVerifiedMachine books.world books.vault.humanDividendRecipient = true
  positive : amount ≠ 0
  covered : amount ≤ books.world.balanceOf address

/-- The step is no shortcut. -/
def Gated (address : Address) (books : VaultBooks) (action : VaultAction) : Prop :=
  ∀ msg amount, action = .own msg (.transferAiPoolAIT books.vault.humanDividendRecipient amount) →
    ¬ Shortcut address books msg amount

/-- What is true of the books while no shortcut is taken. -/
structure Kept (books : VaultBooks) : Prop where
  counted : books.toHuman = books.vault.cumulativeDividendDistributed
  bounded : books.vault.cumulativeRevenue ≤ uint256Max
  unlisted : ∀ target, books.vault.systemSpendWhitelist target = false

/-- The total is within the surplus. -/
def WithinSurplus (books : VaultBooks) : Prop :=
  books.vault.financingThreshold < books.vault.cumulativeRevenue ∧
    books.toHuman ≤ books.vault.cumulativeRevenue - books.vault.financingThreshold

end VaultBooks

namespace DualPoolVault

/-- Behind its comparison the Yul subtraction does not wrap. -/
theorem yulSub_eq {a b : ℕ} (below : b < a) (bounded : a ≤ uint256Max) : yulSub a b = a - b := by
  unfold yulSub
  unfold uint256Max at bounded
  rw [show a + 2 ^ 256 - b = a - b + 2 ^ 256 by omega, Nat.add_mod_right, Nat.mod_eq_of_lt (by omega)]

/-- The Yul block computes what its comment says, with subtractions that stop at zero. -/
theorem availableDividendAsm_eq {revenue threshold distributed balance : ℕ}
    (bounded : revenue ≤ uint256Max) :
    availableDividendAsm revenue threshold distributed balance =
      min balance (revenue - threshold - distributed) := by
  have surplus : (if threshold < revenue then yulSub revenue threshold else 0) = revenue - threshold := by
    split
    · exact yulSub_eq ‹_› bounded
    · omega
  have fits : revenue - threshold ≤ uint256Max := (Nat.sub_le ..).trans bounded
  have afterPaid : (if distributed < revenue - threshold then yulSub (revenue - threshold) distributed else 0) =
      revenue - threshold - distributed := by
    split
    · exact yulSub_eq ‹_› fits
    · omega
  simp only [availableDividendAsm, surplus, afterPaid]
  split
  · omega
  · omega

end DualPoolVault

namespace VaultBooks

variable {c : TeeCrypto} {d : Deployment} {address : Address} {msg : Msg} {books after : VaultBooks}
  {s : Banked (Traced ERC20)}

@[simp] theorem dividends_nil {vault : DualPoolVault} : dividends address vault [] = 0 := rfl

@[simp] theorem made_self (w : World (Traced ERC20)) : w.made w = [] := by
  simp [World.made]

theorem dividends_one {vault : DualPoolVault} {dst : Address} {value : ℕ} :
    dividends address vault [⟨address, dst, value⟩] =
      if dst = vault.humanDividendRecipient then value else 0 := by
  simp [dividends]

/-- What a transfer of the vault adds to the trace. -/
theorem made_of_transfer {dst : Address} {value : ℕ} {w next : World (Traced ERC20)}
    (run : w.safeTransfer d address dst value = .ok next) :
    w.made next = [⟨address, dst, value⟩] := by
  obtain ⟨token, move, rfl⟩ := World.safeTransfer_eq_ok.mp run
  exact Performed.made (.transfer move (.none _))

/-- A payment from the pool of the AI does not reach the human unless it is a shortcut. -/
theorem aiPool_spares (kept : Kept books) {recipient : Address} {amount : ℕ}
    (gated : Gated address books (.own msg (.transferAiPoolAIT recipient amount)))
    (run : DualPoolVault.transferAiPoolAIT d address msg recipient amount books.toBanked = .ok s) :
    s.vault = books.vault ∧ dividends address books.vault (books.world.made s.world) = 0 := by
  simp only [DualPoolVault.transferAiPoolAIT, DualPoolVault.onlyOwner, bind_eq_ok, ensure_eq_ok,
    exists_const, mapError_eq_ok, pure_eq_ok] at run
  obtain ⟨owner, _, allowed, covered, world, pay, rfl⟩ := run
  refine ⟨rfl, ?_⟩
  rw [made_of_transfer pay, dividends_one]
  split
  · rename_i human
    subst human
    by_contra positive
    refine gated msg amount rfl ⟨owner, ?_, positive, covered⟩
    unfold requireAiPoolTransferAllowed at allowed
    split at allowed
    · cases allowed
    · split at allowed
      · assumption
      · rw [kept.unlisted, if_neg Bool.false_ne_true] at allowed
        cases allowed
  · rfl

/-- A payment of dividends is within the surplus, with all that was paid before. -/
theorem dividend_within (kept : Kept books) {amount : ℕ}
    (run : DualPoolVault.transferToDividend d address msg amount books.toBanked = .ok s) :
    (∃ log, s.vault = { books.vault with
      cumulativeDividendDistributed := books.vault.cumulativeDividendDistributed + amount, log }) ∧
    dividends address books.vault (books.world.made s.world) = amount ∧
    books.vault.financingThreshold < books.vault.cumulativeRevenue ∧
    books.toHuman + amount ≤ books.vault.cumulativeRevenue - books.vault.financingThreshold := by
  simp only [DualPoolVault.transferToDividend, DualPoolVault.onlyOwner, bind_eq_ok, ensure_eq_ok,
    exists_const, mapError_eq_ok, pure_eq_ok, checkedAdd_eq_ok] at run
  obtain ⟨_, positive, available, _, ⟨_, rfl⟩, world, pay, rfl⟩ := run
  rw [DualPoolVault.availableDividend, DualPoolVault.availableDividendAsm_eq kept.bounded] at available
  have counted := kept.counted
  refine ⟨⟨_, rfl⟩, ?_, ?_, ?_⟩
  · rw [show (DualPoolVault.emit _ _ : Banked (Traced ERC20)).world = world from rfl, made_of_transfer pay,
      dividends_one, if_pos rfl]
  · omega
  · omega

@[simp] theorem afterCall_vault : (afterCall address books s).vault = s.vault := rfl

@[simp] theorem afterCall_toHuman : (afterCall address books s).toHuman =
    books.toHuman + dividends address books.vault (books.world.made s.world) := rfl

theorem not_paid (unpaid : dividends address books.vault (books.world.made s.world) = 0) :
    ¬ books.toHuman < (afterCall address books s).toHuman := by
  simp [unpaid]

/-- A call that moves no token and leaves what has been distributed. -/
theorem Kept.unmoved (kept : Kept books) (world : s.world = books.world)
    (distributed : s.vault.cumulativeDividendDistributed = books.vault.cumulativeDividendDistributed)
    (bounded : s.vault.cumulativeRevenue ≤ uint256Max)
    (listed : s.vault.systemSpendWhitelist = books.vault.systemSpendWhitelist) :
    Kept (afterCall address books s) ∧
      (books.toHuman < (afterCall address books s).toHuman → (afterCall address books s).WithinSurplus) := by
  have unpaid : dividends address books.vault (books.world.made s.world) = 0 := by
    rw [world, made_self, dividends_nil]
  refine ⟨⟨?_, bounded, listed ▸ kept.unlisted⟩, fun paid => absurd paid (not_paid unpaid)⟩
  show books.toHuman + _ = s.vault.cumulativeDividendDistributed
  rw [unpaid]
  exact kept.counted.trans distributed.symm

/-- One step that is no shortcut keeps the books, and if it pays the human, it pays within the
surplus. -/
theorem Kept.exec {action : VaultAction} (kept : Kept books) (gated : Gated address books action)
    (run : VaultBooks.exec c d address books action = .ok after) :
    Kept after ∧ (books.toHuman < after.toHuman → after.WithinSurplus) := by
  cases action with
  | own msg call =>
    simp only [VaultBooks.exec, bind_eq_ok, pure_eq_ok] at run
    obtain ⟨s, taken, rfl⟩ := run
    cases call with
    | setFinancingThreshold newThreshold =>
      simp only [DualPoolVault.exec, DualPoolVault.setFinancingThreshold, bind_eq_ok, pure_eq_ok] at taken
      obtain ⟨_, _, rfl⟩ := taken
      exact kept.unmoved rfl rfl kept.bounded rfl
    | recordRevenue delta =>
      simp only [DualPoolVault.exec, DualPoolVault.recordRevenue, bind_eq_ok, pure_eq_ok, mapError_eq_ok,
        checkedAdd_eq_ok] at taken
      obtain ⟨_, _, _, ⟨bounded, rfl⟩, rfl⟩ := taken
      exact kept.unmoved rfl rfl bounded rfl
    | transferToDividend amount =>
      obtain ⟨⟨_, vault⟩, paid, profit, within⟩ := dividend_within kept taken
      refine ⟨⟨?_, ?_, ?_⟩, fun _ => ⟨?_, ?_⟩⟩
      · rw [afterCall_toHuman, afterCall_vault, paid, vault, kept.counted]
      · rw [afterCall_vault, vault]
        exact kept.bounded
      · rw [afterCall_vault, vault]
        exact kept.unlisted
      · rw [afterCall_vault, vault]
        exact profit
      · rw [afterCall_toHuman, afterCall_vault, paid, vault]
        exact within
    | transferAiPoolAIT recipient amount =>
      obtain ⟨vault, unpaid⟩ := aiPool_spares kept gated taken
      refine ⟨⟨?_, ?_, ?_⟩, fun paid => absurd paid (not_paid unpaid)⟩
      · rw [afterCall_toHuman, afterCall_vault, unpaid, vault]
        exact kept.counted
      · rw [afterCall_vault, vault]
        exact kept.bounded
      · rw [afterCall_vault, vault]
        exact kept.unlisted
    | transferOwnership newOwner =>
      simp only [DualPoolVault.exec, DualPoolVault.transferOwnership, bind_eq_ok, pure_eq_ok] at taken
      obtain ⟨_, _, _, _, rfl⟩ := taken
      exact kept.unmoved rfl rfl kept.bounded rfl
    | renounceOwnership =>
      simp only [DualPoolVault.exec, DualPoolVault.renounceOwnership, bind_eq_ok, pure_eq_ok] at taken
      obtain ⟨_, _, rfl⟩ := taken
      exact kept.unmoved rfl rfl kept.bounded rfl
  | registry msg call =>
    simp only [VaultBooks.exec, bind_eq_ok, pure_eq_ok] at run
    obtain ⟨_, _, rfl⟩ := run
    exact ⟨⟨kept.counted, kept.bounded, kept.unlisted⟩, fun paid => absurd paid (Nat.lt_irrefl _)⟩
  | elsewhere other =>
    cases run
    exact ⟨⟨kept.counted, kept.bounded, kept.unlisted⟩, fun paid => absurd paid (Nat.lt_irrefl _)⟩

theorem opened_kept {hasCode : Address → Bool} {aitoken human owner : Address} {threshold : ℕ}
    {vault : DualPoolVault} {w : World (Traced ERC20)}
    (built : DualPoolVault.construct hasCode aitoken human threshold owner = .ok vault) :
    Kept (opened w vault) := by
  simp only [DualPoolVault.construct, bind_eq_ok, pure_eq_ok] at built
  obtain ⟨_, _, _, _, _, _, _, _, rfl⟩ := built
  exact ⟨rfl, Nat.zero_le _, fun _ => rfl⟩

end VaultBooks

open VaultBooks

/-- In a run without a shortcut, a step that pays the human finds a profit, and the total that the
human has been paid with it is within the surplus. -/
theorem dividends_within_surplus {c : TeeCrypto} {d : Deployment} {hasCode : Address → Bool}
    {address human owner : Address} {threshold : ℕ} {vault : DualPoolVault} {w : World (Traced ERC20)}
    {run : List VaultAction}
    (built : DualPoolVault.construct hasCode d.aitoken human threshold owner = .ok vault)
    (gated : TransitionRun.Meets (VaultBooks.exec c d address) (Gated address) (opened w vault) run) :
    ∀ before action rest, run = before ++ action :: rest →
      let books := TransitionRun.exec (VaultBooks.exec c d address) (opened w vault) before
      let after := TransitionRun.after (VaultBooks.exec c d address) books action
      books.toHuman < after.toHuman → after.WithinSurplus := by
  rintro before action rest rfl books after paid
  obtain ⟨gatedBefore, gatedHere, _⟩ := TransitionRun.meets_append.mp gated
  have kept : Kept books := TransitionRun.exec_preserves
    (fun _ _ _ kept gated taken => (kept.exec gated taken).1) (opened_kept built) gatedBefore
  cases taken : VaultBooks.exec c d address books action with
  | ok next =>
    have same : after = next := TransitionRun.after_ok taken
    rw [same] at paid ⊢
    exact (kept.exec gatedHere taken).2 paid
  | error revert =>
    have same : after = books := TransitionRun.after_error taken
    rw [same] at paid
    exact absurd paid (Nat.lt_irrefl _)

namespace Devnet

def vaultAddress : Address := 106

/-- The admin owns a vault with 5000, whose human is alice and whose threshold is 1000. -/
def vault : DualPoolVault :=
  (DualPoolVault.construct (fun _ => false) Deployment.devnet.aitoken alice 1000 admin).toOption.getD
    ⟨0, 0, 0, 0, 0, fun _ => false, []⟩

def banking : World (Traced ERC20) :=
  Deployment.devnet.launch admin teeAuthority 0
    { token := ERC20.launch Deployment.devnet
        (fun account => if account = vaultAddress then 5000 else 0) 5000
      transfers := [] }

def ownerCalls (call : DualPoolVault.Call) : VaultAction := .own { sender := admin } call

def vaultRun (run : List VaultAction) : VaultBooks :=
  TransitionRun.exec (VaultBooks.exec teeCrypto Deployment.devnet vaultAddress) (opened banking vault) run

end Devnet

open Devnet in
theorem dividend_of_profit_within_surplus :
    (vaultRun [ownerCalls (.recordRevenue 1700), ownerCalls (.transferToDividend 700)]).WithinSurplus := by
  have built : DualPoolVault.construct (fun _ => false) Deployment.devnet.aitoken alice 1000 admin =
      .ok vault := rfl
  have gated : TransitionRun.Meets (VaultBooks.exec teeCrypto Deployment.devnet vaultAddress)
      (Gated vaultAddress) (opened banking vault)
      [ownerCalls (.recordRevenue 1700), ownerCalls (.transferToDividend 700)] :=
    ⟨by rintro _ _ ⟨⟩, by rintro _ _ ⟨⟩, trivial⟩
  exact dividends_within_surplus built gated [ownerCalls (.recordRevenue 1700)]
    (ownerCalls (.transferToDividend 700)) [] rfl (by decide)

open Devnet in
/-- The registry has the human as a machine, and the human is paid from the pool of the AI while there
is no revenue. -/
theorem verified_human_is_paid_without_profit :
    ¬ ∀ (c : TeeCrypto) (d : Deployment) (hasCode : Address → Bool) (address human owner : Address)
      (threshold : ℕ) (vault : DualPoolVault) (w : World (Traced ERC20)) (before : List VaultAction)
      (action : VaultAction),
      DualPoolVault.construct hasCode d.aitoken human threshold owner = .ok vault →
      let books := TransitionRun.exec (VaultBooks.exec c d address) (opened w vault) before
      let after := TransitionRun.after (VaultBooks.exec c d address) books action
      books.toHuman < after.toHuman → after.WithinSurplus := by
  intro always
  have within := always teeCrypto Deployment.devnet (fun _ => false) vaultAddress alice admin 1000 vault
    banking [.registry { sender := admin } (.verifyMachine alice 1)]
    (ownerCalls (.transferAiPoolAIT alice 100)) rfl (by decide)
  exact absurd within.1 (by decide)

end Aide
