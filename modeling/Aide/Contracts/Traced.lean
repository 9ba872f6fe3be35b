import Aide.Contracts.Deploy
import Aide.Foundation.Payments
import Aide.Foundation.TransitionRun

namespace Aide

/-- A `transfer` or `transferFrom` as the token is asked for it. -/
structure Transfer where
  src : Address
  dst : Address
  value : ℕ
  deriving DecidableEq

/-- A token with the transfers that it has made, oldest first. -/
structure Traced (τ : Type) where
  token : τ
  transfers : List Transfer

instance {τ : Type} [AitToken τ] : AitToken (Traced τ) where
  balanceOf t := AitToken.balanceOf t.token
  allowance t := AitToken.allowance t.token
  transfer t rates sender dst value := do
    let token ← AitToken.transfer t.token rates sender dst value
    pure { token, transfers := t.transfers ++ [⟨sender, dst, value⟩] }
  transferFrom t rates spender src dst value := do
    let token ← AitToken.transferFrom t.token rates spender src dst value
    pure { token, transfers := t.transfers ++ [⟨src, dst, value⟩] }
  approve t owner spender value := do
    let token ← AitToken.approve t.token owner spender value
    pure { t with token }
  mint t sender account value := do
    let token ← AitToken.mint t.token sender account value
    pure { t with token }

namespace Traced
variable {τ : Type} [AitToken τ] {rates : TaxRates} {t next : Traced τ} {src dst : Address} {value : ℕ}

theorem transfer_eq_ok : AitToken.transfer t rates src dst value = .ok next ↔
    ∃ token, AitToken.transfer t.token rates src dst value = .ok token ∧
      { token, transfers := t.transfers ++ [⟨src, dst, value⟩] } = next :=
  bind_eq_ok.trans (by simp only [pure_eq_ok])

theorem transferFrom_eq_ok {spender : Address} :
    AitToken.transferFrom t rates spender src dst value = .ok next ↔
      ∃ token, AitToken.transferFrom t.token rates spender src dst value = .ok token ∧
        { token, transfers := t.transfers ++ [⟨src, dst, value⟩] } = next :=
  bind_eq_ok.trans (by simp only [pure_eq_ok])

end Traced

/-- A list of transfers that one contract after another has asked the token for. -/
inductive Performed {τ : Type} [AitToken τ] (rates : TaxRates) : τ → List Transfer → τ → Prop
  | none (token : τ) : Performed rates token [] token
  | transfer {token between last : τ} {src dst : Address} {value : ℕ} {rest : List Transfer}
      (run : AitToken.transfer token rates src dst value = .ok between)
      (others : Performed rates between rest last) :
      Performed rates token (⟨src, dst, value⟩ :: rest) last
  | transferFrom {token between last : τ} {spender src dst : Address} {value : ℕ} {rest : List Transfer}
      (run : AitToken.transferFrom token rates spender src dst value = .ok between)
      (others : Performed rates between rest last) :
      Performed rates token (⟨src, dst, value⟩ :: rest) last

theorem Performed.traced {τ : Type} [AitToken τ] {rates : TaxRates} {token last : Traced τ}
    {made : List Transfer} (performed : Performed rates token made last) :
    last.transfers = token.transfers ++ made := by
  induction performed with
  | none => simp
  | transfer run _ ih =>
    obtain ⟨_, _, rfl⟩ := Traced.transfer_eq_ok.mp run
    simp [ih]
  | transferFrom run _ ih =>
    obtain ⟨_, _, rfl⟩ := Traced.transferFrom_eq_ok.mp run
    simp [ih]

/-- The token under a trace performs the same transfers. -/
theorem Performed.untraced {τ : Type} [AitToken τ] {rates : TaxRates} {token last : Traced τ}
    {made : List Transfer} (performed : Performed rates token made last) :
    Performed rates token.token made last.token := by
  induction performed with
  | none => exact .none _
  | transfer run _ ih =>
    obtain ⟨_, move, rfl⟩ := Traced.transfer_eq_ok.mp run
    exact .transfer move ih
  | transferFrom run _ ih =>
    obtain ⟨_, move, rfl⟩ := Traced.transferFrom_eq_ok.mp run
    exact .transferFrom move ih

/-- In an exact token the balances move by what the transfers say. -/
theorem Performed.balance {rates : TaxRates} {token last : ERC20} {made : List Transfer}
    (performed : Performed rates token made last) (account : Address) :
    last.balanceOf account + Ledger.total Transfer.src Transfer.value account made =
      token.balanceOf account + Ledger.total Transfer.dst Transfer.value account made := by
  induction performed with
  | none => simp
  | transfer run _ ih =>
    have moved := (ERC20.transfer_moved run).1.balance account
    simp only [Ledger.total_cons, eq_comm (a := account)] at moved ih ⊢
    omega
  | transferFrom run _ ih =>
    have moved := (ERC20.transferFrom_moved run).balance account
    simp only [Ledger.total_cons, eq_comm (a := account)] at moved ih ⊢
    omega

/-- An account that sends nothing keeps what it has. -/
theorem Performed.kept {rates : TaxRates} {token last : ERC20} {made : List Transfer} {account : Address}
    (performed : Performed rates token made last) (sends : ∀ transfer ∈ made, transfer.src ≠ account) :
    token.balanceOf account ≤ last.balanceOf account := by
  have balance := performed.balance account
  rw [Ledger.total_eq_zero sends] at balance
  omega

/-- The transfers that a step adds. -/
def World.made {τ : Type} (w next : World (Traced τ)) : List Transfer :=
  next.token.transfers.drop w.token.transfers.length

theorem Performed.made {τ : Type} [AitToken τ] {rates : TaxRates} {w next : World (Traced τ)}
    {made : List Transfer} (performed : Performed rates w.token made next.token) : w.made next = made := by
  rw [World.made, performed.traced, List.drop_left]

end Aide
