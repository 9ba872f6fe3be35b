import Aide.Contracts.Asked
import Aide.LogReplay
import Aide.TransferAccounting

namespace Aide

variable {d : Deployment} {owner : Address} {w : World AIToken}

namespace AIToken
variable {t next : AIToken} {rates : TaxRates} {sender spender src dst : Address} {value : ℕ}

/-- Every token there is belongs to somebody, their number fits a word, and the token is still under its first
owner and its treasury. -/
structure Covered (d : Deployment) (owner : Address) (t : AIToken) : Prop where
  total : ∑ a, t.balanceOf a = t.totalSupply
  fits : t.totalSupply ≤ uint256Max
  owner : t.owner = owner
  treasury : t.treasury = d.treasury

/-- A step that makes no tokens. -/
abbrev Neutral (d : Deployment) (owner : Address) (t next : AIToken) : Prop :=
  t.Covered d owner → next.Covered d owner ∧ next.totalSupply ≤ t.totalSupply

theorem Moved.neutral {fee : ℕ} (moved : t.Moved next src dst value fee) : Neutral d owner t next := by
  intro covered
  refine ⟨⟨?_, ?_, moved.owner.trans covered.owner, moved.treasury.trans covered.treasury⟩, moved.totalSupply.le⟩
  · rw [moved.total, moved.totalSupply, covered.total]
  · rw [moved.totalSupply]
    exact covered.fits

theorem transfer_neutral (run : t.transfer rates sender dst value = .ok next) : Neutral d owner t next := by
  obtain ⟨⟨fee, delivered⟩, _⟩ := transfer_delivered run
  exact delivered.moved.neutral

theorem transferFrom_neutral (run : t.transferFrom rates spender src dst value = .ok next) :
    Neutral d owner t next := by
  obtain ⟨fee, delivered⟩ := transferFrom_delivered run
  exact delivered.moved.neutral

theorem approve_neutral (run : t.approve sender spender value = .ok next) : Neutral d owner t next := by
  simp only [approve, ERC20.approve, bind_eq_ok, pure_eq_ok] at run
  obtain ⟨_, ⟨_, _, _, _, rfl⟩, rfl⟩ := run
  exact fun covered => ⟨{ covered with }, le_rfl⟩

/-- A mint adds its value to one account and to the supply. -/
theorem mint_covered (covered : t.Covered d owner) (run : t.mint sender dst value = .ok next) :
    next.Covered d owner ∧ next.totalSupply = t.totalSupply + value := by
  simp only [mint, ERC20.mint, ERC20.update, ERC20.debit, if_true, bind_eq_ok, pure_eq_ok, require_eq_ok,
    exists_const, checkedAdd_eq_ok] at run
  obtain ⟨_, minted, ⟨nonzero, _, ⟨_, ⟨fits, rfl⟩, rfl⟩, rfl⟩, rfl⟩ := run
  have balance : ∀ a, Function.update t.balanceOf dst (t.balanceOf dst + value) a =
      t.balanceOf a + if a = dst then value else 0 := fun a => by
    by_cases same : a = dst
    · subst same
      simp
    · simp [same]
  have total := covered.total
  refine ⟨⟨?_, ?_, covered.owner, covered.treasury⟩, ?_⟩
  · simp only [ERC20.credit, nonzero, if_false, balance, Finset.sum_add_distrib, Finset.sum_ite_eq',
      Finset.mem_univ, if_true, total]
  · simpa only [ERC20.credit, nonzero, if_false] using fits
  · simp only [ERC20.credit, nonzero, if_false]

theorem burn_neutral (run : t.burn sender value = .ok next) : Neutral d owner t next := by
  intro covered
  simp only [burn, ERC20.update, ERC20.debit, bind_eq_ok, pure_eq_ok, require_eq_ok, exists_const] at run
  obtain ⟨nonzero, _, ⟨_, debited, rfl⟩, rfl⟩ := run
  simp only [nonzero, if_false, bind_eq_ok, pure_eq_ok, require_eq_ok, exists_const] at debited
  obtain ⟨within, rfl⟩ := debited
  have balance : ∀ a, Function.update t.balanceOf sender (t.balanceOf sender - value) a +
      (if a = sender then value else 0) = t.balanceOf a := fun a => by
    by_cases same : a = sender
    · subst same
      simpa using Nat.sub_add_cancel within
    · simp [same]
  have sums := Finset.sum_congr rfl fun a (_ : a ∈ Finset.univ) => balance a
  simp only [Finset.sum_add_distrib, Finset.sum_ite_eq', Finset.mem_univ, if_true,
    covered.total] at sums
  have fits := covered.fits
  refine ⟨⟨?_, ?_, covered.owner, covered.treasury⟩, ?_⟩
  · simp only [ERC20.credit, if_true]
    omega
  · simp only [ERC20.credit, if_true]
    omega
  · simp only [ERC20.credit, if_true]
    omega

theorem spent_neutral {spent : ERC20} {account : Address}
    (run : t.toERC20.spendAllowance account spender value = .ok spent) :
    Neutral d owner t { t with toERC20 := spent } := by
  obtain ⟨balances, supply⟩ := ERC20.spendAllowance_balances run
  intro covered
  refine ⟨⟨?_, ?_, covered.owner, covered.treasury⟩, supply.le⟩
  · rw [balances, supply, covered.total]
  · rw [supply]
    exact covered.fits

/-- Nobody but the owner and the treasury can make tokens or change who makes them. -/
theorem exec_neutral {call : Call} (notTreasury : sender ≠ d.treasury) (notOwner : sender ≠ owner)
    (run : exec rates sender call t = .ok next) : Neutral d owner t next := by
  cases call with
  | transfer dst value | taxedTransfer dst value => exact transfer_neutral run
  | transferFrom src dst value | taxedTransferFrom src dst value => exact transferFrom_neutral run
  | approve spender value => exact approve_neutral run
  | mint account value =>
    intro covered
    simp only [exec, mint, bind_eq_ok, require_eq_ok, exists_const] at run
    exact absurd (run.1.trans covered.treasury) notTreasury
  | burn value => exact burn_neutral run
  | burnFrom account value =>
    intro covered
    obtain ⟨spent, spend, run⟩ := bind_eq_ok.mp run
    obtain ⟨between, less⟩ := spent_neutral spend covered
    obtain ⟨last, lesser⟩ := burn_neutral (t := { t with toERC20 := spent }) run between
    exact ⟨last, lesser.trans less⟩
  | setTreasury newTreasury | setTaxExemptSender account exempt | transferOwnership newOwner | renounceOwnership =>
    intro covered
    simp only [exec, setTreasury, setTaxExemptSender, transferOwnership, renounceOwnership, onlyOwner, bind_eq_ok,
      require_eq_ok, exists_const] at run
    exact absurd (run.1.trans covered.owner) notOwner

end AIToken

/-- The supply is what is asked for with mints, at most. -/
theorem Asked.covered {t next : AIToken} {minted : ℕ}
    (asked : Asked d (fun account => d.Outside account ∧ account ≠ owner) t minted next)
    (covered : t.Covered d owner) : next.Covered d owner ∧ next.totalSupply ≤ t.totalSupply + minted := by
  have neutral {t mid next : AIToken} {minted : ℕ} (step : AIToken.Neutral d owner t mid)
      (ih : mid.Covered d owner → next.Covered d owner ∧ next.totalSupply ≤ mid.totalSupply + minted)
      (covered : t.Covered d owner) : next.Covered d owner ∧ next.totalSupply ≤ t.totalSupply + minted := by
    obtain ⟨between, less⟩ := step covered
    obtain ⟨last, bound⟩ := ih between
    exact ⟨last, by omega⟩
  induction asked with
  | nothing => exact ⟨covered, by omega⟩
  | transfer _ run _ ih => exact neutral (AIToken.transfer_neutral run) ih covered
  | transferFrom _ run _ ih => exact neutral (AIToken.transferFrom_neutral run) ih covered
  | approve run _ ih => exact neutral (AIToken.approve_neutral run) ih covered
  | mint run _ ih =>
    obtain ⟨between, more⟩ := AIToken.mint_covered covered run
    obtain ⟨last, bound⟩ := ih between
    exact ⟨last, by omega⟩
  | call caller run _ ih =>
    exact neutral (AIToken.exec_neutral caller.1.ne_treasury caller.2 run) ih covered

/-- Money comes from salaries only. After every run of a deployment in which the owner of the token takes no part,
the balances of all accounts add up to the supply, no balance can leave the range of its type, and the supply has
grown by no more than the salaries that the treasury has logged. -/
theorem money_supply {env : System.Environment}
    (acts : System.ActsByCalls env.crypto d (fun account => d.Outside account ∧ account ≠ owner) env.foreign)
    (admin teeAuthority : Address) (taxRateBps : ℕ) {balanceOf : Address → ℕ} {totalSupply : ℕ}
    {run : List (Msg × System.Call)} (total : ∑ a, balanceOf a = totalSupply) (fits : totalSupply ≤ uint256Max)
    (senders : ∀ tx ∈ run, d.Outside tx.1.sender ∧ tx.1.sender ≠ owner)
    (reached : TransitionRun.exec (System.exec env d) (d.launch admin teeAuthority taxRateBps
      (AIToken.launch d owner balanceOf totalSupply)) run = w) :
    ∑ a, w.balanceOf a = w.token.totalSupply ∧ (∀ a, w.balanceOf a ≤ uint256Max) ∧
      w.token.totalSupply ≤ totalSupply + salaries w.log := by
  obtain ⟨minted, asked, log⟩ := System.run_asks (w := d.launch admin teeAuthority taxRateBps
    (AIToken.launch d owner balanceOf totalSupply)) acts senders
  rw [reached] at asked log
  obtain ⟨covered, bound⟩ := asked.covered ⟨total, fits, rfl, rfl⟩
  have noSalary : salaries (d.launch admin teeAuthority taxRateBps
      (AIToken.launch d owner balanceOf totalSupply)).log = 0 := rfl
  rw [noSalary, Nat.zero_add] at log
  refine ⟨covered.total, fun a => ?_, log ▸ bound⟩
  have part : w.balanceOf a ≤ ∑ a, w.balanceOf a := Finset.single_le_sum (fun _ _ => Nat.zero_le _) (Finset.mem_univ a)
  exact part.trans (covered.total.le.trans covered.fits)

namespace Devnet

/-- Bob becomes a civil servant and gets a salary. -/
def employment : List (Msg × System.Call) :=
  [({ sender := admin }, .treasury (.setCivilServant bob true)),
    ({ sender := admin }, .treasury (.setWeeklySalaryCoefficient (10 ^ 18))),
    ({ sender := admin }, .treasury (.distributeSalary bob 5))]

/-- The deployment after it, of which nobody owned anything before. -/
def employed : World AIToken :=
  TransitionRun.exec (System.exec environment Deployment.devnet) (Deployment.devnet.launch admin teeAuthority 0
    (AIToken.launch Deployment.devnet mallory (fun _ => 0) 0)) employment

example : employed.balanceOf bob = 5 := by decide

end Devnet

open Devnet in
theorem money_supply_of_employment :
    ∑ a, employed.balanceOf a = employed.token.totalSupply ∧ (∀ a, employed.balanceOf a ≤ uint256Max) ∧
      employed.token.totalSupply ≤ 0 + salaries employed.log :=
  money_supply (environment_acts _) admin teeAuthority 0 (by simp) (by decide) (by decide) rfl

end Aide
