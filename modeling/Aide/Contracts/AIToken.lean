import Aide.Contracts.ERC20

namespace Aide

/-- `ITreasury(treasury).getCurrentTaxRate()` at every address. -/
abbrev TaxRates := Address → Except Revert ℕ

/-- The storage of `AIToken`, which taxes the transfers of senders that are not exempt. -/
structure AIToken extends ERC20 where
  owner : Address
  treasury : Address
  taxExemptSender : Address → Bool
  processingTax : Bool

namespace AIToken

def bpsDenominator : ℕ := 10000

/-- `_update`: the fee goes to the treasury and the rest to the recipient. -/
def update (t : AIToken) (rates : TaxRates) (src dst : Address) (value : ℕ) :
    Except Revert AIToken :=
  if src ≠ 0 ∧ dst ≠ 0 ∧ t.processingTax = false ∧ t.taxExemptSender src = false then do
    require (t.treasury ≠ 0) (.require "AIT: treasury unset")
    let rate ← rates t.treasury
    require (rate ≤ bpsDenominator) (.require "AIT: tax rate")
    let product ← checkedMul value rate
    let fee := product / bpsDenominator
    if 0 < fee then do
      let taxed ← t.toERC20.update src t.treasury fee
      let net ← checkedSub value fee
      let delivered ← taxed.update src dst net
      pure { t with toERC20 := delivered, processingTax := false }
    else do
      let delivered ← t.toERC20.update src dst value
      pure { t with toERC20 := delivered }
  else do
    let delivered ← t.toERC20.update src dst value
    pure { t with toERC20 := delivered }

def transfer (t : AIToken) (rates : TaxRates) (sender dst : Address) (value : ℕ) :
    Except Revert AIToken := do
  require (sender ≠ 0) .erc20InvalidSender
  require (dst ≠ 0) .erc20InvalidReceiver
  t.update rates sender dst value

def transferFrom (t : AIToken) (rates : TaxRates) (spender src dst : Address) (value : ℕ) :
    Except Revert AIToken := do
  let spent ← t.toERC20.spendAllowance src spender value
  ({ t with toERC20 := spent } : AIToken).transfer rates src dst value

def approve (t : AIToken) (owner spender : Address) (value : ℕ) : Except Revert AIToken := do
  let approved ← t.toERC20.approve owner spender value
  pure { t with toERC20 := approved }

/-- `mint`, behind `onlyTreasury`. -/
def mint (t : AIToken) (sender account : Address) (value : ℕ) : Except Revert AIToken := do
  require (sender = t.treasury) (.require "AIT: only treasury")
  let minted ← t.toERC20.mint account value
  pure { t with toERC20 := minted }

def burn (t : AIToken) (sender : Address) (value : ℕ) : Except Revert AIToken := do
  require (sender ≠ 0) .erc20InvalidSender
  let burned ← t.toERC20.update sender 0 value
  pure { t with toERC20 := burned }

def burnFrom (t : AIToken) (sender account : Address) (value : ℕ) : Except Revert AIToken := do
  let spent ← t.toERC20.spendAllowance account sender value
  ({ t with toERC20 := spent } : AIToken).burn account value

def onlyOwner (t : AIToken) (sender : Address) : Except Revert Unit :=
  require (sender = t.owner) .ownableUnauthorizedAccount

def setTreasury (t : AIToken) (sender newTreasury : Address) : Except Revert AIToken := do
  t.onlyOwner sender
  require (newTreasury ≠ 0) (.require "AIT: zero treasury")
  pure { t with treasury := newTreasury }

def setTaxExemptSender (t : AIToken) (sender account : Address) (exempt : Bool) :
    Except Revert AIToken := do
  t.onlyOwner sender
  pure { t with taxExemptSender := Function.update t.taxExemptSender account exempt }

def transferOwnership (t : AIToken) (sender newOwner : Address) : Except Revert AIToken := do
  t.onlyOwner sender
  require (newOwner ≠ 0) .ownableInvalidOwner
  pure { t with owner := newOwner }

def renounceOwnership (t : AIToken) (sender : Address) : Except Revert AIToken := do
  t.onlyOwner sender
  pure { t with owner := 0 }

/-- The external calls of the token. `taxedTransfer` and `taxedTransferFrom` call the transfers. -/
inductive Call
  | transfer (dst : Address) (value : ℕ)
  | transferFrom (src dst : Address) (value : ℕ)
  | taxedTransfer (dst : Address) (value : ℕ)
  | taxedTransferFrom (src dst : Address) (value : ℕ)
  | approve (spender : Address) (value : ℕ)
  | mint (account : Address) (value : ℕ)
  | burn (value : ℕ)
  | burnFrom (account : Address) (value : ℕ)
  | setTreasury (newTreasury : Address)
  | setTaxExemptSender (account : Address) (exempt : Bool)
  | transferOwnership (newOwner : Address)
  | renounceOwnership

def exec (rates : TaxRates) (sender : Address) : Call → AIToken → Except Revert AIToken
  | .transfer dst value, t | .taxedTransfer dst value, t => t.transfer rates sender dst value
  | .transferFrom src dst value, t | .taxedTransferFrom src dst value, t =>
    t.transferFrom rates sender src dst value
  | .approve spender value, t => t.approve sender spender value
  | .mint account value, t => t.mint sender account value
  | .burn value, t => t.burn sender value
  | .burnFrom account value, t => t.burnFrom sender account value
  | .setTreasury newTreasury, t => t.setTreasury sender newTreasury
  | .setTaxExemptSender account exempt, t => t.setTaxExemptSender sender account exempt
  | .transferOwnership newOwner, t => t.transferOwnership sender newOwner
  | .renounceOwnership, t => t.renounceOwnership sender

/-- The tax on a transfer between two accounts at a given rate. -/
def fee (t : AIToken) (rate : ℕ) (src : Address) (value : ℕ) : ℕ :=
  if t.processingTax = false ∧ t.taxExemptSender src = false then
    value * rate / bpsDenominator
  else 0

theorem fee_le_mul (t : AIToken) (rate : ℕ) (src : Address) (value : ℕ) :
    t.fee rate src value ≤ value * rate / bpsDenominator := by
  unfold fee
  split
  · rfl
  · exact Nat.zero_le _

/-- What a taxed transfer does to every balance. Stated additively, so that it covers every
coincidence among the payer, the recipient and the treasury. -/
structure Moved (t next : AIToken) (src dst : Address) (value fee : ℕ) : Prop where
  feeLe : fee ≤ value
  covered : src ≠ t.treasury ∨ fee = 0 → value ≤ t.balanceOf src
  balance : ∀ a, next.balanceOf a + (if a = src then value else 0) =
    t.balanceOf a + (if a = t.treasury then fee else 0) + (if a = dst then value - fee else 0)
  totalSupply : next.totalSupply = t.totalSupply
  owner : next.owner = t.owner
  treasury : next.treasury = t.treasury
  taxExemptSender : next.taxExemptSender = t.taxExemptSender
  processingTax : next.processingTax = t.processingTax

namespace Moved
variable {t next : AIToken} {src dst a : Address} {value fee : ℕ}
  (moved : t.Moved next src dst value fee)
include moved

/-- Only the payer can end with less. -/
theorem le_of_ne (other : a ≠ src) : t.balanceOf a ≤ next.balanceOf a := by
  have balance := moved.balance a
  simp only [other, if_false] at balance
  omega

theorem sub_le (a : Address) : t.balanceOf a - value ≤ next.balanceOf a := by
  have balance := moved.balance a
  split at balance <;> omega

/-- What the recipient gets is short of the value by the fee. -/
theorem received (apart : dst ≠ src) : t.balanceOf dst + (value - fee) ≤ next.balanceOf dst := by
  have balance := moved.balance dst
  simp only [apart, if_true, if_false] at balance
  omega

end Moved

theorem moved_untaxed {t : AIToken} {delivered : ERC20} {src dst : Address} {value : ℕ}
    (moved : t.toERC20.Moved delivered src dst value) :
    t.Moved { t with toERC20 := delivered } src dst value 0 where
  feeLe := Nat.zero_le _
  covered _ := moved.covered
  balance a := by simpa using moved.balance a
  totalSupply := moved.totalSupply
  owner := rfl
  treasury := rfl
  taxExemptSender := rfl
  processingTax := rfl

theorem Moved.refl (t : AIToken) (src dst : Address) : t.Moved t src dst 0 0 :=
  moved_untaxed (ERC20.Moved.refl t.toERC20 src dst)

theorem moved_taxed {t : AIToken} {taxed delivered : ERC20} {src dst : Address} {value fee : ℕ}
    (collecting : t.processingTax = false) (feeLe : fee ≤ value)
    (first : t.toERC20.Moved taxed src t.treasury fee)
    (second : taxed.Moved delivered src dst (value - fee)) :
    t.Moved { t with toERC20 := delivered, processingTax := false } src dst value fee where
  feeLe := feeLe
  covered apart := by
    have before := first.balance src
    have after := second.covered
    rcases apart with apart | none
    · simp only [if_true, apart, if_false] at before
      omega
    · subst none
      simp only [ite_self, Nat.add_zero] at before
      omega
  balance a := by
    have before := first.balance a
    have after := second.balance a
    by_cases atSrc : a = src
    · simp only [atSrc, if_true] at before after ⊢
      omega
    · simp only [atSrc, if_false, Nat.add_zero] at before after ⊢
      omega
  totalSupply := second.totalSupply.trans first.totalSupply
  owner := rfl
  treasury := rfl
  taxExemptSender := rfl
  processingTax := collecting.symm

/-- What a transfer between two accounts does. The fee is the one at the rate of the treasury of
the token; a treasury that gives no rate lets only untaxed transfers pass. -/
structure Delivered (t next : AIToken) (rates : TaxRates) (src dst : Address) (value fee : ℕ) :
    Prop where
  moved : t.Moved next src dst value fee
  feeIs : ∀ rate, rates t.treasury = .ok rate → fee = t.fee rate src value
  rated : fee ≠ 0 → ∃ rate, rates t.treasury = .ok rate

theorem update_delivered {t next : AIToken} {rates : TaxRates} {src dst : Address} {value : ℕ}
    (hsrc : src ≠ 0) (hdst : dst ≠ 0) (run : t.update rates src dst value = .ok next) :
    (∃ fee, t.Delivered next rates src dst value fee) ∧ next.allowance = t.allowance := by
  by_cases taxed : t.processingTax = false ∧ t.taxExemptSender src = false
  · rw [update, if_pos ⟨hsrc, hdst, taxed⟩] at run
    simp only [bind_eq_ok, require_eq_ok, exists_const, checkedMul_eq_ok] at run
    obtain ⟨treasurySet, rate, current, rateLe, _, ⟨_, rfl⟩, run⟩ := run
    have feeIs : ∀ r, rates t.treasury = .ok r → value * rate / bpsDenominator = t.fee r src value :=
      fun r same => by
        cases current.symm.trans same
        exact (if_pos taxed).symm
    split at run
    · simp only [bind_eq_ok, checkedSub_eq_ok, pure_eq_ok] at run
      obtain ⟨collected, first, _, ⟨feeLe, rfl⟩, delivered, second, rfl⟩ := run
      obtain ⟨moved, allowed⟩ := ERC20.update_moved hsrc treasurySet first
      obtain ⟨moved', allowed'⟩ := ERC20.update_moved hsrc hdst second
      exact ⟨⟨_, moved_taxed taxed.1 feeLe moved moved', feeIs, fun _ => ⟨rate, current⟩⟩,
        allowed'.trans allowed⟩
    · rename_i free
      simp only [bind_eq_ok, pure_eq_ok] at run
      obtain ⟨delivered, move, rfl⟩ := run
      obtain ⟨moved, allowed⟩ := ERC20.update_moved hsrc hdst move
      rw [Nat.eq_zero_of_not_pos free] at feeIs
      exact ⟨⟨0, moved_untaxed moved, feeIs, fun positive => absurd rfl positive⟩, allowed⟩
  · have feeIs : ∀ rate, rates t.treasury = .ok rate → 0 = t.fee rate src value :=
      fun rate _ => (if_neg taxed).symm
    rw [update, if_neg fun guard => taxed guard.2.2] at run
    simp only [bind_eq_ok, pure_eq_ok] at run
    obtain ⟨delivered, move, rfl⟩ := run
    obtain ⟨moved, allowed⟩ := ERC20.update_moved hsrc hdst move
    exact ⟨⟨0, moved_untaxed moved, feeIs, fun positive => absurd rfl positive⟩, allowed⟩

theorem transfer_delivered {t next : AIToken} {rates : TaxRates} {sender dst : Address} {value : ℕ}
    (run : t.transfer rates sender dst value = .ok next) :
    (∃ fee, t.Delivered next rates sender dst value fee) ∧ next.allowance = t.allowance := by
  simp only [transfer, bind_eq_ok, require_eq_ok, exists_const] at run
  obtain ⟨hsrc, hdst, run⟩ := run
  exact update_delivered hsrc hdst run

theorem transferFrom_delivered {t next : AIToken} {rates : TaxRates} {spender src dst : Address}
    {value : ℕ} (run : t.transferFrom rates spender src dst value = .ok next) :
    ∃ fee, t.Delivered next rates src dst value fee := by
  obtain ⟨spent, spend, run⟩ := bind_eq_ok.mp run
  obtain ⟨balances, supply⟩ := ERC20.spendAllowance_balances spend
  obtain ⟨⟨fee, delivered⟩, _⟩ := transfer_delivered (t := { t with toERC20 := spent }) run
  have moved := delivered.moved
  exact ⟨fee, { moved with
    covered := balances ▸ moved.covered
    balance := balances ▸ moved.balance
    totalSupply := moved.totalSupply.trans supply }, delivered.feeIs, delivered.rated⟩

theorem transfer_moved {t next : AIToken} {rates : TaxRates} {rate : ℕ} {sender dst : Address}
    {value : ℕ} (current : rates t.treasury = .ok rate)
    (run : t.transfer rates sender dst value = .ok next) :
    t.Moved next sender dst value (t.fee rate sender value) := by
  obtain ⟨⟨fee, delivered⟩, _⟩ := transfer_delivered run
  exact delivered.feeIs rate current ▸ delivered.moved

theorem transferFrom_moved {t next : AIToken} {rates : TaxRates} {rate : ℕ}
    {spender src dst : Address} {value : ℕ} (current : rates t.treasury = .ok rate)
    (run : t.transferFrom rates spender src dst value = .ok next) :
    t.Moved next src dst value (t.fee rate src value) := by
  obtain ⟨fee, delivered⟩ := transferFrom_delivered run
  exact delivered.feeIs rate current ▸ delivered.moved

end AIToken

end Aide
