import Aide.Contracts.MarketRun

namespace Aide

variable {τ : Type} {d : Deployment} {msg : Msg} {w next : World τ}

/-- An amount over the limit of a running breaker trips it, and the evaluation succeeds. The products
fit: the greater of them does. -/
theorem Guardrail.evaluate_trips {reason : CircuitReason} {base amount bps : ℕ}
    (running : w.guardrail.paused = false) (positive : 0 < base) (fits : amount * 10000 ≤ uint256Max)
    (excess : base * bps < amount * 10000) :
    evaluate reason base amount bps w = .ok (false, trip w [.circuitBroken reason amount]) := by
  have limit : checkedMul base bps = .ok (base * bps) :=
    checkedMul_eq_ok.mpr ⟨excess.le.trans fits, rfl⟩
  have demanded : checkedMul amount 10000 = .ok (amount * 10000) := checkedMul_eq_ok.mpr ⟨fits, rfl⟩
  unfold evaluate
  rw [running, demanded, limit]
  simp only [Bool.false_eq_true, if_false, positive, if_true, bind_eq_ok]
  exact ⟨_, rfl, _, rfl, by rw [if_pos excess]; rfl⟩

/-- The breaker is in use, runs, and knows the contracts that it guards. -/
structure Guarded (d : Deployment) (w : World τ) : Prop where
  inUse : d.guardrail ≠ 0
  running : w.guardrail.paused = false
  treasury : w.guardrail.treasury = d.treasury
  internalMarket : w.guardrail.internalMarket = d.internalMarket

/-- The transactions that consult the breaker on an amount. -/
inductive GuardedCall
  | withdrawOperatingExpenses (amount : ℕ) (recipient : Address)
  | settleTrade (makerOrderId takerOrderId vstkAmount aitNotional : ℕ) (settlementId : Bytes32)
  | depositProfit (companyId grossAmount : ℕ)

namespace GuardedCall
variable [AitToken τ]

def exec (d : Deployment) (msg : Msg) : GuardedCall → World τ → Except Revert (World τ)
  | .withdrawOperatingExpenses amount recipient, w =>
    Treasury.withdrawOperatingExpenses d msg amount recipient w
  | .settleTrade makerOrderId takerOrderId vstkAmount aitNotional settlementId, w =>
    InternalMarket.settleTrade d msg makerOrderId takerOrderId vstkAmount aitNotional settlementId w
  | .depositProfit companyId grossAmount, w =>
    InternalMarket.depositProfit d msg companyId grossAmount w

/-- The checks that come before the breaker. -/
def Checked (msg : Msg) (w : World τ) : GuardedCall → Prop
  | .withdrawOperatingExpenses _ recipient => w.treasury.roles .treasuryOps msg.sender = true ∧
      w.treasury.operatingExpenseWhitelist recipient = true
  | .settleTrade makerOrderId takerOrderId vstkAmount aitNotional _ =>
    w.market.roles .settler msg.sender = true ∧
      InternalMarket.Settleable w makerOrderId takerOrderId vstkAmount aitNotional ∧
      aitNotional * w.treasury.taxRateBps ≤ uint256Max
  | .depositProfit companyId grossAmount =>
    (companyId ≠ 0 ∧ companyId < w.market.nextCompanyId) ∧ grossAmount ≠ 0 ∧
      grossAmount * w.treasury.taxRateBps ≤ uint256Max

/-- The amount that is evaluated, and the base and the share of it that the breaker allows. -/
def evaluated (d : Deployment) (w : World τ) : GuardedCall → ℕ × ℕ × ℕ
  | .withdrawOperatingExpenses amount _ =>
    (amount, w.balanceOf d.treasury, w.guardrail.outflowBpsThreshold)
  | .settleTrade _ _ _ aitNotional _ =>
    (aitNotional * w.treasury.taxRateBps / 10000, aitNotional, w.guardrail.maxFeeBpsOfNotional)
  | .depositProfit _ grossAmount =>
    (grossAmount * w.treasury.taxRateBps / 10000, grossAmount, w.guardrail.maxFeeBpsOfNotional)

/-- The evaluated amount is over the limit. -/
def Excessive (d : Deployment) (w : World τ) (call : GuardedCall) : Prop :=
  (call.evaluated d w).2.1 * (call.evaluated d w).2.2 < (call.evaluated d w).1 * 10000

instance (d : Deployment) (w : World τ) (call : GuardedCall) : Decidable (call.Excessive d w) :=
  inferInstanceAs (Decidable (_ < _))

/-- The withdrawals whose comparison the breaker carries out: the treasury is not empty, and the
product fits a word. -/
def Comparable (d : Deployment) (w : World τ) : GuardedCall → Prop
  | .withdrawOperatingExpenses amount _ => 0 < w.balanceOf d.treasury ∧ amount * 10000 ≤ uint256Max
  | _ => True

def reason : GuardedCall → CircuitReason
  | .withdrawOperatingExpenses .. => .outflow
  | _ => .fee

/-- The log of a blocked transaction. -/
def blocked : GuardedCall → Event
  | .withdrawOperatingExpenses amount recipient => .operatingExpensesWithdrawBlocked recipient amount
  | .settleTrade makerOrderId takerOrderId _ aitNotional settlementId =>
    .tradeSettledBlocked makerOrderId takerOrderId aitNotional settlementId
  | .depositProfit companyId grossAmount => .profitDepositBlocked companyId grossAmount

end GuardedCall

/-- The world with the breaker tripped by a call, two logs, and nothing else changed. -/
def tripped [AitToken τ] (d : Deployment) (w : World τ) (call : GuardedCall) : World τ :=
  Guardrail.trip w [.circuitBroken call.reason (call.evaluated d w).1, call.blocked]

theorem settleFeeAllowed_trips {fee notional : ℕ} (guarded : Guarded d w) (positive : 0 < notional)
    (fits : fee * 10000 ≤ uint256Max) (excess : notional * w.guardrail.maxFeeBpsOfNotional < fee * 10000) :
    InternalMarket.settleFeeAllowed d fee notional w =
      .ok (false, Guardrail.trip w [.circuitBroken .fee fee]) := by
  unfold InternalMarket.settleFeeAllowed
  rw [if_neg guarded.inUse]
  simp only [World.requireNotPaused, Guardrail.evaluateSettleFee, bind_eq_ok, require_eq_ok,
    exists_const]
  exact ⟨guarded.running, guarded.internalMarket.symm,
    Guardrail.evaluate_trips guarded.running positive fits excess⟩

section
variable [AitToken τ]

theorem withdraw_trips {amount : ℕ} {recipient : Address} (guarded : Guarded d w)
    (checked : (GuardedCall.withdrawOperatingExpenses amount recipient).Checked msg w)
    (comparable : (GuardedCall.withdrawOperatingExpenses amount recipient).Comparable d w)
    (excess : (GuardedCall.withdrawOperatingExpenses amount recipient).Excessive d w) :
    Treasury.withdrawOperatingExpenses d msg amount recipient w =
      .ok (tripped d w (.withdrawOperatingExpenses amount recipient)) := by
  have evaluated : Treasury.outflowAllowed d amount w =
      .ok (false, Guardrail.trip w [.circuitBroken .outflow amount]) := by
    unfold Treasury.outflowAllowed
    rw [if_neg guarded.inUse]
    simp only [World.requireNotPaused, Guardrail.evaluateOutflow, bind_eq_ok, require_eq_ok,
      exists_const]
    exact ⟨guarded.running, guarded.treasury.symm,
      Guardrail.evaluate_trips guarded.running comparable.1 comparable.2 excess⟩
  simp only [Treasury.withdrawOperatingExpenses, bind_eq_ok, Roles.only_eq_ok, require_eq_ok,
    exists_const]
  refine ⟨checked.1, checked.2, _, evaluated, ?_⟩
  simp [pure_eq_ok, tripped, Guardrail.trip, World.emit, GuardedCall.reason, GuardedCall.blocked,
    GuardedCall.evaluated]

theorem settleTrade_trips {makerOrderId takerOrderId vstkAmount aitNotional : ℕ}
    {settlementId : Bytes32} (guarded : Guarded d w)
    (checked : (GuardedCall.settleTrade makerOrderId takerOrderId vstkAmount aitNotional
      settlementId).Checked msg w)
    (excess : (GuardedCall.settleTrade makerOrderId takerOrderId vstkAmount aitNotional
      settlementId).Excessive d w) :
    InternalMarket.settleTrade d msg makerOrderId takerOrderId vstkAmount aitNotional settlementId w =
      .ok (tripped d w (.settleTrade makerOrderId takerOrderId vstkAmount aitNotional settlementId)) := by
  obtain ⟨settler, settleable, fits⟩ := checked
  have feeFits : aitNotional * w.treasury.taxRateBps / 10000 * 10000 ≤ uint256Max :=
    (Nat.div_mul_le_self ..).trans fits
  have evaluated := settleFeeAllowed_trips guarded (Nat.pos_of_ne_zero settleable.aitPositive) feeFits excess
  simp only [InternalMarket.settleTrade, bind_eq_ok, Roles.only_eq_ok, exists_const,
    InternalMarket.settleable_eq_ok, checkedMul_eq_ok]
  refine ⟨settler, settleable, _, ⟨fits, rfl⟩, _, evaluated, ?_⟩
  simp [pure_eq_ok, tripped, Guardrail.trip, World.emit, GuardedCall.reason, GuardedCall.blocked,
    GuardedCall.evaluated]

theorem depositProfit_trips {companyId grossAmount : ℕ} (guarded : Guarded d w)
    (checked : (GuardedCall.depositProfit companyId grossAmount).Checked msg w)
    (excess : (GuardedCall.depositProfit companyId grossAmount).Excessive d w) :
    InternalMarket.depositProfit d msg companyId grossAmount w =
      .ok (tripped d w (.depositProfit companyId grossAmount)) := by
  obtain ⟨registered, positive, fits⟩ := checked
  have feeFits : grossAmount * w.treasury.taxRateBps / 10000 * 10000 ≤ uint256Max :=
    (Nat.div_mul_le_self ..).trans fits
  have evaluated := settleFeeAllowed_trips guarded (Nat.pos_of_ne_zero positive) feeFits excess
  simp only [InternalMarket.depositProfit, InternalMarket.requireCompany, bind_eq_ok, require_eq_ok,
    exists_const, checkedMul_eq_ok]
  refine ⟨registered, positive, _, ⟨fits, rfl⟩, _, evaluated, ?_⟩
  simp [pure_eq_ok, tripped, Guardrail.trip, World.emit, GuardedCall.reason, GuardedCall.blocked,
    GuardedCall.evaluated]

/-- A transaction that passes its other checks and is over the limit succeeds, leaves the breaker
tripped, logs it, and changes nothing else. -/
theorem breaker_trips (guarded : Guarded d w) {call : GuardedCall} (checked : call.Checked msg w)
    (comparable : call.Comparable d w) (excess : call.Excessive d w) :
    call.exec d msg w = .ok (tripped d w call) := by
  cases call with
  | withdrawOperatingExpenses amount recipient => exact withdraw_trips guarded checked comparable excess
  | settleTrade makerOrderId takerOrderId vstkAmount aitNotional settlementId =>
    exact settleTrade_trips guarded checked excess
  | depositProfit companyId grossAmount => exact depositProfit_trips guarded checked excess

end

namespace Devnet

/-- The admin may withdraw to alice from a treasury with some balance. -/
def spending (balance : ℕ) : World ERC20 :=
  (Treasury.setOperatingExpenseRecipient { sender := admin } alice true
    (Deployment.devnet.launch admin teeAuthority 0
      (ERC20.launch Deployment.devnet
        (fun account => if account = Deployment.devnet.treasury then balance else 0) balance))).toOption.getD
    listed

theorem spending_guarded (balance : ℕ) : Guarded Deployment.devnet (spending balance) :=
  ⟨by decide, rfl, rfl, rfl⟩

end Devnet

open Devnet

theorem large_withdrawal_trips :
    (GuardedCall.withdrawOperatingExpenses 301 alice).exec Deployment.devnet { sender := admin }
      (spending 1000) = .ok (tripped Deployment.devnet (spending 1000) (.withdrawOperatingExpenses 301 alice)) :=
  breaker_trips (spending_guarded 1000) ⟨by decide, by decide⟩ ⟨by decide, by decide⟩ (by decide)

/-- From an empty treasury, and of an amount whose product overflows, a withdrawal over the limit
reverts instead. -/
theorem withdrawals_over_the_limit_revert :
    (¬ ∀ call : GuardedCall, call.Checked { sender := admin } (spending 0) →
      call.Excessive Deployment.devnet (spending 0) →
      ∃ next, call.exec Deployment.devnet { sender := admin } (spending 0) = .ok next ∧
        next.guardrail.paused = true) ∧
    ¬ ∀ call : GuardedCall, call.Checked { sender := admin } (spending 1000) →
      call.Excessive Deployment.devnet (spending 1000) →
      ∃ next, call.exec Deployment.devnet { sender := admin } (spending 1000) = .ok next ∧
        next.guardrail.paused = true := by
  constructor
  · intro always
    obtain ⟨next, run, _⟩ := always (.withdrawOperatingExpenses 1 alice) ⟨by decide, by decide⟩ (by decide)
    cases run
  · intro always
    obtain ⟨next, run, _⟩ :=
      always (.withdrawOperatingExpenses (2 ^ 255) alice) ⟨by decide, by decide⟩ (by decide)
    cases run

end Aide
