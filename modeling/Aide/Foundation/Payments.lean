import Aide.Foundation.Ledger

/-!
Lists of payments that a ledger has to cover one after the other, told by what each account owes.
-/

namespace Ledger
variable {α κ : Type*} [DecidableEq κ] {src dst : α → κ} {amount : α → ℕ} {ledger : κ → ℕ}
  {entries : List α} {e : α} {k : κ} {funds : ℕ}

/-- What the entries say about one account. -/
def total (account : α → κ) (amount : α → ℕ) (k : κ) (entries : List α) : ℕ :=
  (entries.map fun e => if account e = k then amount e else 0).sum

@[simp] theorem total_nil {account : α → κ} : total account amount k [] = 0 := rfl

@[simp] theorem total_cons {account : α → κ} :
    total account amount k (e :: entries) =
      (if account e = k then amount e else 0) + total account amount k entries := rfl

theorem total_append (account : α → κ) (amount : α → ℕ) (k : κ) (entries more : List α) :
    total account amount k (entries ++ more) =
      total account amount k entries + total account amount k more := by
  simp [total]

theorem total_eq_zero {account : α → κ} (none : ∀ e ∈ entries, account e ≠ k) :
    total account amount k entries = 0 := by
  induction entries with
  | nil => rfl
  | cons e entries ih =>
    rw [total_cons, if_neg (none e (List.mem_cons_self ..)),
      ih fun other member => none other (List.mem_cons_of_mem _ member)]

theorem total_le (account : α → κ) (amount : α → ℕ) (k : κ) (entries : List α) :
    total account amount k entries ≤ (entries.map amount).sum := by
  induction entries with
  | nil => exact le_rfl
  | cons e entries ih =>
    rw [total_cons, List.map_cons, List.sum_cons]
    have here : (if account e = k then amount e else 0) ≤ amount e := by
      split
      · exact le_rfl
      · exact Nat.zero_le _
    omega

/-- A debit of one account. -/
def spend (src : α → κ) (amount : α → ℕ) (ledger : κ → ℕ) (e : α) : κ → ℕ :=
  Function.update ledger (src e) (ledger (src e) - amount e)

/-- A payment between two accounts of the ledger. -/
def pay (src dst : α → κ) (amount : α → ℕ) (ledger : κ → ℕ) (e : α) : κ → ℕ :=
  Function.update (spend src amount ledger e) (dst e) (spend src amount ledger e (dst e) + amount e)

/-- Every debit is covered when its turn comes. -/
def Spendable (src : α → κ) (amount : α → ℕ) : (κ → ℕ) → List α → Prop
  | _, [] => True
  | ledger, e :: rest =>
    amount e ≤ ledger (src e) ∧ Spendable src amount (spend src amount ledger e) rest

/-- Every payment is covered when its turn comes. -/
def Payable (src dst : α → κ) (amount : α → ℕ) : (κ → ℕ) → List α → Prop
  | _, [] => True
  | ledger, e :: rest =>
    amount e ≤ ledger (src e) ∧ Payable src dst amount (pay src dst amount ledger e) rest

theorem spend_apply (covered : amount e ≤ ledger (src e)) (k : κ) :
    spend src amount ledger e k + (if src e = k then amount e else 0) = ledger k := by
  by_cases same : src e = k
  · subst same
    simp only [spend, Function.update_self, if_true]
    omega
  · simp [spend, same, Function.update_of_ne (Ne.symm same)]

theorem pay_apply (dst : α → κ) (covered : amount e ≤ ledger (src e)) (k : κ) :
    pay src dst amount ledger e k + (if src e = k then amount e else 0) =
      ledger k + (if dst e = k then amount e else 0) := by
  have debited := spend_apply covered k
  by_cases same : dst e = k
  · subst same
    simp only [pay, Function.update_self, if_true] at debited ⊢
    omega
  · rw [pay, Function.update_of_ne (Ne.symm same), debited, if_neg same, Nat.add_zero]

/-- Debits are covered in turn when their totals are. -/
theorem spendable_iff :
    Spendable src amount ledger entries ↔ ∀ k, total src amount k entries ≤ ledger k := by
  induction entries generalizing ledger with
  | nil => simp [Spendable]
  | cons e rest ih =>
    simp only [Spendable, ih, total_cons]
    constructor
    · rintro ⟨covered, later⟩ k
      have debited := spend_apply covered k
      have owed := later k
      omega
    · intro totals
      have covered : amount e ≤ ledger (src e) := by
        have owed := totals (src e)
        rw [if_pos rfl] at owed
        omega
      refine ⟨covered, fun k => ?_⟩
      have debited := spend_apply covered k
      have owed := totals k
      omega

/-- Payments are covered in turn when each account has, with what it has received before, as much
as it has to pay by then. -/
theorem payable_iff :
    Payable src dst amount ledger entries ↔ ∀ before e after, entries = before ++ e :: after →
      total src amount (src e) before + amount e ≤
        ledger (src e) + total dst amount (src e) before := by
  induction entries generalizing ledger with
  | nil => simp [Payable]
  | cons first rest ih =>
    simp only [Payable, ih]
    constructor
    · rintro ⟨covered, later⟩ before e after same
      cases before with
      | nil =>
        cases same
        simpa using covered
      | cons head before =>
        cases same
        have owed := later before e after rfl
        have paid := pay_apply dst covered (src e)
        rw [total_cons, total_cons]
        omega
    · intro owes
      have covered : amount first ≤ ledger (src first) := by simpa using owes [] first rest rfl
      refine ⟨covered, fun before e after same => ?_⟩
      have owed := owes (first :: before) e after (congrArg (first :: ·) same)
      have paid := pay_apply dst covered (src e)
      rw [total_cons, total_cons] at owed
      omega

/-- A payment within the ledger needs no funds. -/
theorem Backed.pay (backed : Backed ledger funds) (src dst : α → κ) (amount : α → ℕ) (e : α)
    (covered : amount e ≤ ledger (src e)) : Backed (pay src dst amount ledger e) funds := by
  have debited := backed.debit covered
  have within := covered.trans (backed.entry_le (src e))
  have credited := debited.credit (dst e) (amount e)
  rwa [Nat.sub_add_cancel within] at credited

/-- A payment within the ledger keeps the total. -/
theorem sum_pay [Fintype κ] (src dst : α → κ) (amount : α → ℕ) (e : α)
    (covered : amount e ≤ ledger (src e)) :
    ∑ k, pay src dst amount ledger e k = ∑ k, ledger k := by
  have debited := sum_update ledger (src e) (ledger (src e) - amount e)
  have credited := sum_update (spend src amount ledger e) (dst e)
    (spend src amount ledger e (dst e) + amount e)
  simp only [spend] at credited
  simp only [pay, spend]
  omega

end Ledger
