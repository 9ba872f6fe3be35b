import Aide.Foundation.Ledger
import Mathlib.Algebra.BigOperators.Ring.Finset

/-- A pool that pays rewards in proportion to shares through one growing reward per share,
in units of `1 / one`, and a debt for each holder. -/
structure RewardPerShare (κ : Type*) where
  shares : κ → ℕ
  total : ℕ
  perShare : ℕ
  debt : κ → ℕ
  paid : ℕ
  notified : ℕ
  issues : ℕ

namespace RewardPerShare
variable {κ : Type*} [DecidableEq κ] {one : ℕ}

def issue (one : ℕ) (p : RewardPerShare κ) (k : κ) (amount : ℕ) : RewardPerShare κ :=
  { p with
    shares := Function.update p.shares k (p.shares k + amount)
    total := p.total + amount
    debt := Function.update p.debt k (p.debt k + amount * p.perShare / one)
    issues := p.issues + 1 }

def notify (one : ℕ) (p : RewardPerShare κ) (reward : ℕ) : RewardPerShare κ :=
  { p with
    perShare := p.perShare + reward * one / p.total
    notified := p.notified + reward }

def pay (p : RewardPerShare κ) (k : κ) (pending : ℕ) : RewardPerShare κ :=
  { p with
    debt := Function.update p.debt k (p.debt k + pending)
    paid := p.paid + pending }

/-- The shares move and no debt moves with them. -/
def move (p : RewardPerShare κ) (src dst : κ) (amount : ℕ) : RewardPerShare κ :=
  let sold := Function.update p.shares src (p.shares src - amount)
  { p with shares := Function.update sold dst (sold dst + amount) }

/-- A holder that has been paid holds another number of shares, and what these have earned so far
becomes its debt. -/
def resize (one : ℕ) (p : RewardPerShare κ) (k : κ) (held : ℕ) : RewardPerShare κ :=
  { p with
    shares := Function.update p.shares k held
    total := p.total - p.shares k + held
    debt := Function.update p.debt k (held * p.perShare / one)
    issues := p.issues + 1 }

/-- What the shares of a holder have earned above its debt. -/
def pending (one : ℕ) (p : RewardPerShare κ) (k : κ) : ℕ :=
  p.shares k * p.perShare / one - p.debt k

/-- No holder owes more than its shares have earned, and what has been paid together with all
that the shares have earned is covered by the rewards, the debts and one unit for each issue. -/
structure Accounted [Fintype κ] (one : ℕ) (p : RewardPerShare κ) : Prop where
  total : ∑ k, p.shares k = p.total
  debt : ∀ k, p.debt k * one ≤ p.shares k * p.perShare
  funds : p.paid * one + p.total * p.perShare ≤ (p.notified + p.issues + ∑ k, p.debt k) * one

namespace Accounted
variable [Fintype κ] {p : RewardPerShare κ} (accounted : p.Accounted one)
include accounted

omit [DecidableEq κ] in
theorem share_le (k : κ) : p.shares k ≤ p.total :=
  accounted.total ▸ Finset.single_le_sum (f := p.shares) (fun _ _ => Nat.zero_le _) (Finset.mem_univ k)

omit [DecidableEq κ] in
theorem debt_add_pending (scaled : 0 < one) (k : κ) :
    p.debt k + p.pending one k = p.shares k * p.perShare / one :=
  Nat.add_sub_cancel' ((Nat.le_div_iff_mul_le scaled).mpr (accounted.debt k))

omit [DecidableEq κ] in
/-- Whatever is paid or pending has been notified, up to one unit for each issue. -/
theorem pending_le (scaled : 0 < one) :
    p.paid + ∑ k, p.pending one k ≤ p.notified + p.issues := by
  have each : ∀ k, (p.pending one k + p.debt k) * one ≤ p.shares k * p.perShare := fun k => by
    rw [Nat.add_comm, accounted.debt_add_pending scaled]
    exact Nat.div_mul_le_self ..
  have owed : (∑ k, p.pending one k + ∑ k, p.debt k) * one ≤ p.total * p.perShare := by
    rw [← accounted.total, ← Finset.sum_add_distrib, Finset.sum_mul, Finset.sum_mul]
    exact Finset.sum_le_sum fun k _ => each k
  have funds := accounted.funds
  have bound : (p.paid + ∑ k, p.pending one k) * one ≤ (p.notified + p.issues) * one := by
    simp only [Nat.add_mul] at owed funds ⊢
    omega
  exact Nat.le_of_mul_le_mul_right bound scaled

omit [DecidableEq κ] in
/-- Whatever is paid has been notified, up to one unit for each issue. -/
theorem paid_le (scaled : 0 < one) : p.paid ≤ p.notified + p.issues :=
  (Nat.le_add_right ..).trans (accounted.pending_le scaled)

theorem issue (k : κ) (amount : ℕ) (scaled : 0 < one) : (p.issue one k amount).Accounted one := by
  have below := Nat.div_mul_le_self (amount * p.perShare) one
  have above := Nat.lt_div_mul_add (a := amount * p.perShare) scaled
  refine ⟨?_, fun j => ?_, ?_⟩
  · have moved := Ledger.sum_update p.shares k (p.shares k + amount)
    have total := accounted.total
    simp only [RewardPerShare.issue]
    omega
  · have debt := accounted.debt j
    by_cases same : j = k
    · subst same
      simp only [RewardPerShare.issue, Function.update_self, Nat.add_mul]
      omega
    · simpa [RewardPerShare.issue, same] using debt
  · have moved := Ledger.sum_update p.debt k (p.debt k + amount * p.perShare / one)
    have debts : ∑ j, Function.update p.debt k (p.debt k + amount * p.perShare / one) j =
        ∑ j, p.debt j + amount * p.perShare / one := by omega
    have funds := accounted.funds
    simp only [RewardPerShare.issue, debts, Nat.add_mul] at funds ⊢
    omega

omit [DecidableEq κ] in
theorem notify (reward : ℕ) : (p.notify one reward).Accounted one := by
  refine ⟨accounted.total, fun j => ?_, ?_⟩
  · exact (accounted.debt j).trans (Nat.mul_le_mul_left _ (Nat.le_add_right ..))
  · have shared := Nat.mul_div_le (reward * one) p.total
    have funds := accounted.funds
    simp only [RewardPerShare.notify, Nat.add_mul, Nat.mul_add] at funds ⊢
    omega

theorem pay {k : κ} {pending : ℕ} (earned : (p.debt k + pending) * one ≤ p.shares k * p.perShare) :
    (p.pay k pending).Accounted one := by
  refine ⟨accounted.total, fun j => ?_, ?_⟩
  · by_cases same : j = k
    · subst same
      simpa [RewardPerShare.pay] using earned
    · simpa [RewardPerShare.pay, same] using accounted.debt j
  · have moved := Ledger.sum_update p.debt k (p.debt k + pending)
    have debts : ∑ j, Function.update p.debt k (p.debt k + pending) j = ∑ j, p.debt j + pending := by
      omega
    have funds := accounted.funds
    simp only [RewardPerShare.pay, debts, Nat.add_mul] at funds ⊢
    omega

/-- The debt that a holder gives up covers what its shares earned, and its new debt covers what
the new shares have earned but for less than one unit. -/
theorem resize {k : κ} (held : ℕ) (settled : p.debt k = p.shares k * p.perShare / one)
    (scaled : 0 < one) : (p.resize one k held).Accounted one := by
  have owned := accounted.share_le k
  refine ⟨?_, fun j => ?_, ?_⟩
  · have moved := Ledger.sum_update p.shares k held
    have total := accounted.total
    simp only [RewardPerShare.resize]
    omega
  · by_cases same : j = k
    · subst same
      simpa [RewardPerShare.resize] using Nat.div_mul_le_self (held * p.perShare) one
    · simpa [RewardPerShare.resize, same] using accounted.debt j
  · have moved := Ledger.sum_update p.debt k (held * p.perShare / one)
    have scaledMoved := congrArg (· * one) moved
    have given := Nat.div_mul_le_self (p.shares k * p.perShare) one
    have above := Nat.lt_div_mul_add (a := held * p.perShare) scaled
    have within := Nat.mul_le_mul_right p.perShare owned
    have funds := accounted.funds
    rw [← settled] at given
    simp only [RewardPerShare.resize, Nat.add_mul, Nat.sub_mul] at funds scaledMoved ⊢
    omega

/-- Moving shares is safe where the payer keeps enough of them to have earned its debt. -/
theorem move {src dst : κ} {amount : ℕ} (held : amount ≤ p.shares src)
    (kept : dst ≠ src → p.debt src * one ≤ (p.shares src - amount) * p.perShare) :
    (p.move src dst amount).Accounted one := by
  refine ⟨?_, fun j => ?_, accounted.funds⟩
  · have sold := Ledger.sum_update p.shares src (p.shares src - amount)
    have bought := Ledger.sum_update (Function.update p.shares src (p.shares src - amount)) dst
      (Function.update p.shares src (p.shares src - amount) dst + amount)
    have total := accounted.total
    simp only [RewardPerShare.move]
    omega
  · have debt := accounted.debt j
    by_cases atDst : j = dst
    · refine debt.trans (Nat.mul_le_mul_right _ ?_)
      subst atDst
      by_cases atSrc : j = src
      · subst atSrc
        simp only [RewardPerShare.move, Function.update_self]
        omega
      · simp [RewardPerShare.move, atSrc]
    · by_cases atSrc : j = src
      · subst atSrc
        simpa [RewardPerShare.move, atDst] using kept (Ne.symm atDst)
      · simpa [RewardPerShare.move, atDst, atSrc] using debt

end Accounted

end RewardPerShare
