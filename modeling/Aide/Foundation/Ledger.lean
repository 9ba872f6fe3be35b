import Mathlib.Algebra.BigOperators.Group.Finset.Piecewise
import Mathlib.Algebra.Order.BigOperators.Group.Finset
import Mathlib.Algebra.GroupWithZero.Nat
import Mathlib.Tactic.Common

namespace Ledger
variable {κ : Type*} [DecidableEq κ] {ledger : κ → ℕ} {funds amount : ℕ} {k : κ}

/-- The funds cover the sum of the ledger over all keys, that is over every finite set of keys. -/
def Backed (ledger : κ → ℕ) (funds : ℕ) : Prop :=
  ∀ keys : Finset κ, ∑ k ∈ keys, ledger k ≤ funds

omit [DecidableEq κ] in
theorem backed_iff_sum_le [Fintype κ] : Backed ledger funds ↔ ∑ k, ledger k ≤ funds :=
  ⟨fun backed => backed Finset.univ, fun total keys =>
    (Finset.sum_le_sum_of_subset (Finset.subset_univ keys)).trans total⟩

namespace Backed

omit [DecidableEq κ] in
theorem entry_le (backed : Backed ledger funds) (k : κ) : ledger k ≤ funds := by
  simpa using backed {k}

omit [DecidableEq κ] in
theorem mono {more : ℕ} (backed : Backed ledger funds) (grown : funds ≤ more) : Backed ledger more :=
  fun keys => (backed keys).trans grown

omit [DecidableEq κ] in
theorem zero (funds : ℕ) : Backed (fun _ : κ => 0) funds := fun _ => by simp

/-- An entry that is overwritten while payments go in and out, where the entry is covered by what it
was and by what came in over what went out. -/
theorem settle {value received spent left : ℕ} (backed : Backed ledger funds)
    (covered : value + spent ≤ ledger k + received) (moved : left + spent = funds + received) :
    Backed (Function.update ledger k value) left := by
  intro keys
  by_cases member : k ∈ keys
  · have split := Finset.add_sum_erase keys ledger member
    rw [Finset.sum_update_of_mem member, ← Finset.erase_eq]
    have total := backed keys
    omega
  · rw [Finset.sum_update_of_notMem member]
    have total := backed (insert k keys)
    rw [Finset.sum_insert member] at total
    omega

/-- A credit and an equal payment in keep a ledger backed. -/
theorem credit (backed : Backed ledger funds) (k : κ) (amount : ℕ) :
    Backed (Function.update ledger k (ledger k + amount)) (funds + amount) := by
  have covered : ledger k + amount + 0 ≤ ledger k + amount := le_rfl
  exact backed.settle covered rfl

/-- A debit and an equal payment out keep a ledger backed. -/
theorem debit (backed : Backed ledger funds) (covered : amount ≤ ledger k) :
    Backed (Function.update ledger k (ledger k - amount)) (funds - amount) := by
  have afforded : amount ≤ funds := covered.trans (backed.entry_le k)
  have debited : ledger k - amount + amount ≤ ledger k + 0 := by omega
  have paid : funds - amount + amount = funds + 0 := by omega
  exact backed.settle debited paid

/-- Lowering one entry needs no payment. -/
theorem lower {value : ℕ} (backed : Backed ledger funds) (smaller : value ≤ ledger k) :
    Backed (Function.update ledger k value) funds := by
  have lowered : value + 0 ≤ ledger k + 0 := smaller
  exact backed.settle lowered rfl

/-- An entry that is overwritten with an amount paid in. -/
theorem overwrite (backed : Backed ledger funds) (k : κ) (amount : ℕ) :
    Backed (Function.update ledger k amount) (funds + amount) := by
  have covered : amount + 0 ≤ ledger k + amount := Nat.le_add_left ..
  exact backed.settle covered rfl

end Backed

/-- Writing one entry moves the total by the difference of the two values. -/
theorem sum_update [Fintype κ] (ledger : κ → ℕ) (k : κ) (value : ℕ) :
    ∑ j, Function.update ledger k value j + ledger k = ∑ j, ledger j + value := by
  have split := Finset.add_sum_erase Finset.univ ledger (Finset.mem_univ k)
  rw [Finset.sum_update_of_mem (Finset.mem_univ k), ← Finset.erase_eq]
  omega

end Ledger
