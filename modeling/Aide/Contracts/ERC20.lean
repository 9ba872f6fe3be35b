import Aide.Contracts.Basic

namespace Aide

/-- The storage of a plain ERC-20 token, which delivers exactly the amount it is asked to move. -/
structure ERC20 where
  balanceOf : Address → ℕ
  allowance : Address → Address → ℕ
  totalSupply : ℕ

namespace ERC20

/-- The first half of `_update`: a mint from the zero address, a debit of any other. -/
def debit (t : ERC20) (src : Address) (value : ℕ) : Except Revert ERC20 :=
  if src = 0 then do
    let totalSupply ← checkedAdd t.totalSupply value
    pure { t with totalSupply }
  else do
    require (value ≤ t.balanceOf src) .erc20InsufficientBalance
    pure { t with balanceOf := Function.update t.balanceOf src (t.balanceOf src - value) }

/-- The second half of `_update`: a burn to the zero address, a credit of any other. -/
def credit (t : ERC20) (dst : Address) (value : ℕ) : ERC20 :=
  if dst = 0 then
    { t with totalSupply := t.totalSupply - value }
  else
    { t with balanceOf := Function.update t.balanceOf dst (t.balanceOf dst + value) }

/-- `_update`. -/
def update (t : ERC20) (src dst : Address) (value : ℕ) : Except Revert ERC20 := do
  let debited ← t.debit src value
  pure (debited.credit dst value)

/-- `_spendAllowance`: an allowance of `type(uint256).max` is unlimited and is not counted down. -/
def spendAllowance (t : ERC20) (owner spender : Address) (value : ℕ) : Except Revert ERC20 :=
  if t.allowance owner spender = uint256Max then
    pure t
  else do
    require (value ≤ t.allowance owner spender) .erc20InsufficientAllowance
    require (owner ≠ 0) .erc20InvalidApprover
    require (spender ≠ 0) .erc20InvalidSpender
    pure { t with
      allowance := Function.update t.allowance owner
        (Function.update (t.allowance owner) spender (t.allowance owner spender - value)) }

def approve (t : ERC20) (owner spender : Address) (value : ℕ) : Except Revert ERC20 := do
  require (owner ≠ 0) .erc20InvalidApprover
  require (spender ≠ 0) .erc20InvalidSpender
  pure { t with
    allowance := Function.update t.allowance owner (Function.update (t.allowance owner) spender value) }

def transfer (t : ERC20) (sender dst : Address) (value : ℕ) : Except Revert ERC20 := do
  require (sender ≠ 0) .erc20InvalidSender
  require (dst ≠ 0) .erc20InvalidReceiver
  t.update sender dst value

def transferFrom (t : ERC20) (spender src dst : Address) (value : ℕ) : Except Revert ERC20 := do
  let spent ← t.spendAllowance src spender value
  spent.transfer src dst value

def mint (t : ERC20) (account : Address) (value : ℕ) : Except Revert ERC20 := do
  require (account ≠ 0) .erc20InvalidReceiver
  t.update 0 account value

/-- What a move of `value` from `src` to `dst` does to every balance. Stated additively, so that
it also covers `src = dst`. -/
structure Moved (t next : ERC20) (src dst : Address) (value : ℕ) : Prop where
  covered : value ≤ t.balanceOf src
  balance : ∀ a, next.balanceOf a + (if a = src then value else 0) =
    t.balanceOf a + (if a = dst then value else 0)
  totalSupply : next.totalSupply = t.totalSupply

namespace Moved
variable {t next : ERC20} {src dst a : Address} {value : ℕ} (moved : t.Moved next src dst value)
include moved

theorem received (apart : dst ≠ src) : next.balanceOf dst = t.balanceOf dst + value := by
  simpa [apart] using moved.balance dst

theorem paid (apart : src ≠ dst) : next.balanceOf src = t.balanceOf src - value := by
  have balance := moved.balance src
  simp only [if_true, apart, if_false] at balance
  omega

/-- Only the payer can end with less. -/
theorem le_of_ne (other : a ≠ src) : t.balanceOf a ≤ next.balanceOf a := by
  have balance := moved.balance a
  simp only [other, if_false] at balance
  omega

theorem sub_le (a : Address) : t.balanceOf a - value ≤ next.balanceOf a := by
  have balance := moved.balance a
  split at balance <;> omega

end Moved

theorem Moved.refl (t : ERC20) (src dst : Address) : t.Moved t src dst 0 :=
  ⟨Nat.zero_le _, fun _ => by simp, rfl⟩

theorem update_moved {t next : ERC20} {src dst : Address} {value : ℕ} (hsrc : src ≠ 0)
    (hdst : dst ≠ 0) (run : t.update src dst value = .ok next) :
    t.Moved next src dst value ∧ next.allowance = t.allowance := by
  simp only [update, debit, credit, hsrc, hdst, if_false, bind_eq_ok, pure_eq_ok, require_eq_ok, exists_const] at run
  obtain ⟨_, ⟨covered, rfl⟩, rfl⟩ := run
  refine ⟨⟨covered, fun a => ?_, rfl⟩, rfl⟩
  by_cases atDst : a = dst <;> by_cases atSrc : a = src <;>
    simp_all [Function.update_apply]

theorem transfer_moved {t next : ERC20} {sender dst : Address} {value : ℕ}
    (run : t.transfer sender dst value = .ok next) :
    t.Moved next sender dst value ∧ next.allowance = t.allowance := by
  simp only [transfer, bind_eq_ok, require_eq_ok, exists_const] at run
  obtain ⟨hsrc, hdst, run⟩ := run
  exact update_moved hsrc hdst run

/-- A transfer between accounts needs enough balance and nothing else. -/
theorem transfer_succeeds {t : ERC20} {sender dst : Address} {value : ℕ} (hsender : sender ≠ 0)
    (hdst : dst ≠ 0) (covered : value ≤ t.balanceOf sender) :
    ∃ next, t.transfer sender dst value = .ok next := by
  refine ⟨{ t with balanceOf := Function.update t.balanceOf sender (t.balanceOf sender - value) }.credit
    dst value, ?_⟩
  simp only [transfer, update, debit, bind_eq_ok, pure_eq_ok, require_eq_ok, exists_const, hsender,
    if_false]
  exact ⟨hsender, hdst, _, ⟨covered, rfl⟩, rfl⟩

theorem spendAllowance_balances {t next : ERC20} {owner spender : Address} {value : ℕ}
    (run : t.spendAllowance owner spender value = .ok next) :
    next.balanceOf = t.balanceOf ∧ next.totalSupply = t.totalSupply := by
  unfold spendAllowance at run
  split at run
  · cases pure_eq_ok.mp run
    exact ⟨rfl, rfl⟩
  · simp only [bind_eq_ok, require_eq_ok, pure_eq_ok, exists_const] at run
    obtain ⟨_, _, _, rfl⟩ := run
    exact ⟨rfl, rfl⟩

theorem transferFrom_moved {t next : ERC20} {spender src dst : Address} {value : ℕ}
    (run : t.transferFrom spender src dst value = .ok next) : t.Moved next src dst value := by
  obtain ⟨spent, spend, run⟩ := bind_eq_ok.mp run
  obtain ⟨balances, supply⟩ := spendAllowance_balances spend
  obtain ⟨moved, _⟩ := transfer_moved run
  exact ⟨balances ▸ moved.covered, balances ▸ moved.balance, moved.totalSupply.trans supply⟩

/-- The account `a` has lost no tokens and given no allowance. -/
structure Spared (a : Address) (t next : ERC20) : Prop where
  balance : t.balanceOf a ≤ next.balanceOf a
  allowance : ∀ spender, next.allowance a spender ≤ t.allowance a spender

theorem Spared.refl (a : Address) (t : ERC20) : Spared a t t := ⟨le_rfl, fun _ => le_rfl⟩

theorem Spared.trans {a : Address} {t mid next : ERC20} (first : Spared a t mid)
    (second : Spared a mid next) : Spared a t next where
  balance := first.balance.trans second.balance
  allowance spender := (second.allowance spender).trans (first.allowance spender)

variable {t next : ERC20} {src dst owner spender a : Address} {value : ℕ}

theorem credit_le (t : ERC20) (dst : Address) (value : ℕ) (a : Address) :
    t.balanceOf a ≤ (t.credit dst value).balanceOf a ∧
      (t.credit dst value).allowance = t.allowance := by
  unfold credit
  split
  · exact ⟨le_rfl, rfl⟩
  · refine ⟨?_, rfl⟩
    by_cases same : a = dst
    · subst same
      simp
    · simp [same]

/-- An update takes its value from the payer and nothing from anyone else. -/
theorem update_sub_le (run : t.update src dst value = .ok next) (a : Address) :
    t.balanceOf a - (if a = src then value else 0) ≤ next.balanceOf a ∧
      next.allowance = t.allowance := by
  obtain ⟨debited, debit, run⟩ := bind_eq_ok.mp run
  cases pure_eq_ok.mp run
  have first : t.balanceOf a - (if a = src then value else 0) ≤ debited.balanceOf a ∧
      debited.allowance = t.allowance := by
    unfold ERC20.debit at debit
    split at debit
    · simp only [bind_eq_ok, pure_eq_ok] at debit
      obtain ⟨_, _, rfl⟩ := debit
      exact ⟨Nat.sub_le .., rfl⟩
    · simp only [bind_eq_ok, pure_eq_ok] at debit
      obtain ⟨_, _, rfl⟩ := debit
      refine ⟨?_, rfl⟩
      by_cases same : a = src
      · subst same
        simp
      · simp [same]
  obtain ⟨credited, allowed⟩ := credit_le debited dst value a
  exact ⟨first.1.trans credited, allowed.trans first.2⟩

theorem update_spared (other : a ≠ src ∨ value = 0) (run : t.update src dst value = .ok next) :
    Spared a t next := by
  obtain ⟨balance, allowed⟩ := update_sub_le run a
  refine ⟨?_, fun spender => by rw [allowed]⟩
  rcases other with other | nothing
  · simpa [other] using balance
  · simpa [nothing] using balance

/-- Spending an allowance moves no tokens, needs enough allowance and gives none. -/
theorem spendAllowance_spared (run : t.spendAllowance owner spender value = .ok next) :
    (t.allowance owner spender = uint256Max ∨ value ≤ t.allowance owner spender) ∧
      ∀ a, Spared a t next := by
  unfold spendAllowance at run
  split at run
  · rename_i unlimited
    cases pure_eq_ok.mp run
    exact ⟨Or.inl unlimited, fun a => Spared.refl a t⟩
  · simp only [bind_eq_ok, require_eq_ok, pure_eq_ok, exists_const] at run
    obtain ⟨enough, _, _, rfl⟩ := run
    refine ⟨Or.inr enough, fun a => ⟨le_rfl, fun other => ?_⟩⟩
    by_cases sameOwner : a = owner
    · subst sameOwner
      by_cases sameSpender : other = spender
      · subst sameSpender
        simp
      · simp [sameSpender]
    · simp [sameOwner]

theorem spendAllowance_none (run : t.spendAllowance owner spender value = .ok next)
    (none : t.allowance owner spender = 0) : value = 0 := by
  obtain ⟨enough, _⟩ := spendAllowance_spared run
  rw [none] at enough
  rcases enough with unlimited | within
  · exact absurd unlimited (by decide)
  · exact Nat.eq_zero_of_le_zero within

theorem approve_spared (other : a ≠ owner) (run : t.approve owner spender value = .ok next) :
    Spared a t next := by
  simp only [approve, bind_eq_ok, pure_eq_ok] at run
  obtain ⟨_, _, _, _, rfl⟩ := run
  exact ⟨le_rfl, fun spender => by simp [other]⟩

end ERC20

end Aide
