import Aide.Contracts.Deploy
import Aide.Foundation.TransitionRun
import Mathlib.Algebra.BigOperators.Group.Finset.Piecewise

namespace Aide

namespace AIToken
variable {t next : AIToken} {rates : TaxRates} {sender src dst : Address} {value rate : ℕ}

/-- A call of the token by an account, with the rates that stand at the time. -/
structure Request where
  rates : TaxRates
  sender : Address
  call : Call

/-- The token after a request. -/
def step (t : AIToken) (request : Request) : Except Revert AIToken :=
  exec request.rates request.sender request.call t

theorem update_idle (idle : t.processingTax = false) (run : t.update rates src dst value = .ok next) :
    next.processingTax = false := by
  unfold update at run
  split at run
  · simp only [bind_eq_ok] at run
    obtain ⟨_, _, _, _, _, _, _, _, run⟩ := run
    split at run
    · simp only [bind_eq_ok, pure_eq_ok] at run
      obtain ⟨_, _, _, _, _, _, rfl⟩ := run
      rfl
    · simp only [bind_eq_ok, pure_eq_ok] at run
      obtain ⟨_, _, rfl⟩ := run
      exact idle
  · simp only [bind_eq_ok, pure_eq_ok] at run
    obtain ⟨_, _, rfl⟩ := run
    exact idle

theorem transfer_idle (idle : t.processingTax = false)
    (run : t.transfer rates sender dst value = .ok next) : next.processingTax = false := by
  simp only [transfer, bind_eq_ok] at run
  obtain ⟨_, _, _, _, run⟩ := run
  exact update_idle idle run

/-- Between two calls of the token no tax is being processed. -/
theorem step_idle {request : Request} (idle : t.processingTax = false)
    (run : t.step request = .ok next) : next.processingTax = false := by
  obtain ⟨rates, sender, call⟩ := request
  unfold step at run
  cases call with
  | transfer dst value => exact transfer_idle idle run
  | taxedTransfer dst value => exact transfer_idle idle run
  | transferFrom src dst value | taxedTransferFrom src dst value =>
    obtain ⟨spent, _, run⟩ := bind_eq_ok.mp run
    exact transfer_idle (t := { t with toERC20 := spent }) idle run
  | burnFrom account value =>
    simp only [exec, burnFrom, burn, bind_eq_ok, pure_eq_ok] at run
    obtain ⟨_, _, _, _, _, _, rfl⟩ := run
    exact idle
  | setTreasury newTreasury | transferOwnership newOwner | mint account value | burn value =>
    simp only [exec, setTreasury, transferOwnership, mint, burn, bind_eq_ok, pure_eq_ok] at run
    obtain ⟨_, _, _, _, rfl⟩ := run
    exact idle
  | approve spender value | setTaxExemptSender account exempt | renounceOwnership =>
    simp only [exec, approve, setTaxExemptSender, renounceOwnership, bind_eq_ok, pure_eq_ok] at run
    obtain ⟨_, _, rfl⟩ := run
    exact idle

theorem run_idle {requests : List Request} (idle : t.processingTax = false) :
    (TransitionRun.exec step t requests).processingTax = false :=
  TransitionRun.exec_preserves (I := fun t : AIToken => t.processingTax = false) (P := fun _ _ => True)
    (fun _ _ _ idle _ run => step_idle idle run) idle (TransitionRun.Meets.of_forall fun _ _ _ => trivial)

/-- Each of the two moves of a taxed transfer is within what the payer had before the first. -/
theorem update_moves_covered (hsrc : src ≠ 0) (hdst : dst ≠ 0) (current : rates t.treasury = .ok rate)
    (run : t.update rates src dst value = .ok next) :
    max (t.fee rate src value) (value - t.fee rate src value) ≤ t.balanceOf src := by
  by_cases taxed : t.processingTax = false ∧ t.taxExemptSender src = false
  · have feeIs : t.fee rate src value = value * rate / bpsDenominator := if_pos taxed
    rw [update, if_pos ⟨hsrc, hdst, taxed⟩] at run
    simp only [bind_eq_ok, require_eq_ok, exists_const, checkedMul_eq_ok] at run
    obtain ⟨treasurySet, rate', same, _, _, ⟨_, rfl⟩, run⟩ := run
    cases current.symm.trans same
    rw [← feeIs] at run
    split at run
    · simp only [bind_eq_ok, checkedSub_eq_ok, pure_eq_ok] at run
      obtain ⟨collected, first, _, ⟨_, rfl⟩, delivered, second, rfl⟩ := run
      obtain ⟨taxMoved, _⟩ := ERC20.update_moved hsrc treasurySet first
      obtain ⟨netMoved, _⟩ := ERC20.update_moved hsrc hdst second
      have feeCovered := taxMoved.covered
      have left := taxMoved.balance src
      have netCovered := netMoved.covered
      simp only [if_true] at left
      split at left <;> omega
    · rename_i free
      simp only [bind_eq_ok, pure_eq_ok] at run
      obtain ⟨delivered, move, rfl⟩ := run
      obtain ⟨moved, _⟩ := ERC20.update_moved hsrc hdst move
      have covered := moved.covered
      omega
  · have none : t.fee rate src value = 0 := if_neg taxed
    rw [update, if_neg fun guard => taxed guard.2.2] at run
    simp only [bind_eq_ok, pure_eq_ok] at run
    obtain ⟨delivered, move, rfl⟩ := run
    obtain ⟨moved, _⟩ := ERC20.update_moved hsrc hdst move
    have covered := moved.covered
    omega

/-- What a transfer moves: the fee to the treasury and the rest to the recipient. -/
structure Accounts (t next : AIToken) (src dst : Address) (value fee : ℕ) : Prop where
  feeLe : fee ≤ value
  balance : ∀ a, next.balanceOf a + (if a = src then value else 0) =
    t.balanceOf a + (if a = t.treasury then fee else 0) + (if a = dst then value - fee else 0)
  total : ∑ a, next.balanceOf a = ∑ a, t.balanceOf a
  idle : next.processingTax = false

/-- The moves of a transfer add up to nothing. -/
theorem Moved.total {fee : ℕ} (moved : t.Moved next src dst value fee) :
    ∑ a, next.balanceOf a = ∑ a, t.balanceOf a := by
  have sums := Finset.sum_congr rfl fun a (_ : a ∈ Finset.univ) => moved.balance a
  simp only [Finset.sum_add_distrib, Finset.sum_ite_eq', Finset.mem_univ, if_true] at sums
  have feeLe := moved.feeLe
  omega

/-- The tax on a transfer when no other tax is being processed. -/
def taxDue (t : AIToken) (rate : ℕ) (src : Address) (value : ℕ) : ℕ :=
  if t.taxExemptSender src then 0 else value * rate / bpsDenominator

theorem fee_of_idle (idle : t.processingTax = false) : t.fee rate src value = t.taxDue rate src value := by
  unfold fee taxDue
  cases t.taxExemptSender src <;> simp [idle]

end AIToken

open AIToken

variable {launched t next : AIToken} {requests : List AIToken.Request} {rates : TaxRates}
  {src dst : Address} {value rate : ℕ}

/-- A transfer needs its value, but for one of the treasury where that is taxed itself, which needs no more
than the larger of its two parts. It moves the tax to the treasury and the rest to the recipient. -/
theorem transfer_accounting (idle : launched.processingTax = false)
    (reached : TransitionRun.exec step launched requests = t) (hsrc : src ≠ 0) (hdst : dst ≠ 0)
    (current : rates t.treasury = .ok rate) (run : t.update rates src dst value = .ok next) :
    (value ≤ t.balanceOf src ∨ src = t.treasury ∧ t.taxExemptSender src = false ∧
      0 < t.taxDue rate src value ∧
      max (t.taxDue rate src value) (value - t.taxDue rate src value) ≤ t.balanceOf src) ∧
    t.Accounts next src dst value (t.taxDue rate src value) := by
  have idleNow : t.processingTax = false := reached ▸ run_idle idle
  obtain ⟨⟨fee, delivered⟩, _⟩ := update_delivered hsrc hdst run
  have parts := update_moves_covered hsrc hdst current run
  have moved := delivered.moved
  rw [delivered.feeIs rate current] at moved
  rw [fee_of_idle idleNow] at parts moved
  refine ⟨?_, moved.feeLe, moved.balance, moved.total, update_idle idleNow run⟩
  by_cases apart : src ≠ t.treasury ∨ t.taxDue rate src value = 0
  · exact Or.inl (moved.covered apart)
  · rw [not_or, not_not] at apart
    obtain ⟨own, taxed⟩ := apart
    refine Or.inr ⟨own, ?_, Nat.pos_of_ne_zero taxed, parts⟩
    cases exempt : t.taxExemptSender src with
    | false => rfl
    | true => exact absurd (if_pos exempt) taxed

namespace Devnet

/-- The token as it is deployed, before anything is minted. -/
def launchedToken : AIToken := AIToken.launch Deployment.devnet admin (fun _ => 0) 0

/-- The treasury mints ninety-five units for itself. -/
def minting : List AIToken.Request :=
  [⟨fun _ => .ok 500, Deployment.devnet.treasury, .mint Deployment.devnet.treasury 95⟩]

/-- The token of which the treasury has ninety-five units. -/
def mintedToken : AIToken := TransitionRun.exec step launchedToken minting

/-- The token after the treasury has sent alice a hundred units at a tax of five percent. -/
def spentToken : AIToken :=
  (mintedToken.update (fun _ => .ok 500) Deployment.devnet.treasury alice 100).toOption.getD mintedToken

end Devnet

open Devnet

theorem transfer_accounting_of_treasury :
    (100 ≤ mintedToken.balanceOf Deployment.devnet.treasury ∨
      Deployment.devnet.treasury = mintedToken.treasury ∧
      mintedToken.taxExemptSender Deployment.devnet.treasury = false ∧
      0 < mintedToken.taxDue 500 Deployment.devnet.treasury 100 ∧
      max (mintedToken.taxDue 500 Deployment.devnet.treasury 100)
        (100 - mintedToken.taxDue 500 Deployment.devnet.treasury 100) ≤
          mintedToken.balanceOf Deployment.devnet.treasury) ∧
    mintedToken.Accounts spentToken Deployment.devnet.treasury alice 100
      (mintedToken.taxDue 500 Deployment.devnet.treasury 100) :=
  @transfer_accounting launchedToken mintedToken spentToken minting (fun _ => .ok 500) _ _ _ _ rfl rfl
    (by decide) (by decide) rfl rfl

/-- It had ninety-five. -/
theorem treasury_transfers_more_than_it_has :
    ¬ ∀ (launched t next : AIToken) (requests : List AIToken.Request) (rates : TaxRates) (src dst : Address)
      (value rate : ℕ), launched.processingTax = false →
      TransitionRun.exec step launched requests = t → src ≠ 0 → dst ≠ 0 →
      rates t.treasury = .ok rate → rate ≤ 10000 → t.update rates src dst value = .ok next →
      value ≤ t.balanceOf src := by
  intro always
  have covered := always launchedToken mintedToken spentToken minting (fun _ => .ok 500)
    Deployment.devnet.treasury alice 100 500 rfl rfl (by decide) (by decide) rfl (by decide) rfl
  exact absurd covered (by decide)

end Aide
