import Aide.Contracts.AIEconomistController
import Aide.Contracts.MarketRun
import Aide.Foundation.Cooldown

namespace Aide

open AIEconomistController

variable {τ : Type} [AitToken τ] {d : Deployment} {address : Address} {msg : Msg}
  {foreign : Address → ℕ → World τ → Except Revert (World τ)} {w next : World τ} {e after : Economy τ}

/-- The two parameters of the treasury that the economist adjusts. -/
def Treasury.parameters {τ : Type} (w : World τ) : ℕ × ℕ :=
  (w.treasury.taxRateBps, w.treasury.weeklySalaryCoefficientS)

/-- The calls that set a parameter. -/
def Treasury.Call.Sets : Treasury.Call → Prop
  | .setTaxRate _ | .setWeeklySalaryCoefficient _ => True
  | _ => False

def AIEconomistController.Call.Sets : AIEconomistController.Call → Prop
  | .proposeNewTaxRate _ | .updateSalaryCoefficient _ => True
  | _ => False

/-- Code from outside the deployment does not write the parameters of the treasury. What it calls in
turn is an action of its own. -/
def KeepsParameters (foreign : Address → ℕ → World τ → Except Revert (World τ)) : Prop :=
  ∀ stakingPool amount w next, foreign stakingPool amount w = .ok next →
    Treasury.parameters next = Treasury.parameters w

theorem Treasury.withdrawOperatingExpenses_treasury {amount : ℕ} {recipient : Address}
    (run : withdrawOperatingExpenses d msg amount recipient w = .ok next) : next.treasury = w.treasury := by
  simp only [withdrawOperatingExpenses, bind_eq_ok] at run
  obtain ⟨_, _, _, _, ⟨allowed, guarded⟩, evaluated, run⟩ := run
  have kept : guarded.treasury = w.treasury := by
    obtain ⟨_, rfl, _⟩ | ⟨_, rfl⟩ := outflowAllowed_cases evaluated
    · rfl
    · rfl
  cases allowed with
  | true =>
    simp only [if_true, bind_eq_ok, pure_eq_ok, World.safeTransfer_eq_ok] at run
    obtain ⟨_, ⟨_, _, rfl⟩, rfl⟩ := run
    exact kept
  | false =>
    cases pure_eq_ok.mp run
    exact kept

theorem Treasury.depositReward_parameters (keeps : KeepsParameters foreign) {stakingPool : Address}
    {amount : ℕ} (run : depositRewardToStakingPool d foreign msg stakingPool amount w = .ok next) :
    parameters next = parameters w := by
  simp only [depositRewardToStakingPool, bind_eq_ok] at run
  obtain ⟨_, _, _, _, _, _, _, _, run⟩ := run
  split at run
  · obtain ⟨_, _, _, _, _, rfl⟩ := StakingPool.depositReward_effect run
    rfl
  · split at run
    · cases run
    · exact (keeps _ _ _ _ run).trans rfl

/-- A setter of the treasury is for the economist, and no other call writes a parameter. -/
theorem Treasury.exec_parameters (keeps : KeepsParameters foreign) {call : Treasury.Call}
    (run : Treasury.exec d foreign msg call w = .ok next) :
    (call.Sets ∧ w.treasury.roles .economist msg.sender = true) ∨
      ¬ call.Sets ∧ Treasury.parameters next = Treasury.parameters w := by
  cases call with
  | setOperatingExpenseRecipient recipient allowed =>
    simp only [exec, setOperatingExpenseRecipient, bind_eq_ok, pure_eq_ok] at run
    obtain ⟨_, _, _, _, rfl⟩ := run
    exact Or.inr ⟨id, rfl⟩
  | withdrawOperatingExpenses amount recipient =>
    exact Or.inr ⟨id, congrArg (fun t : Treasury => (t.taxRateBps, t.weeklySalaryCoefficientS))
      (withdrawOperatingExpenses_treasury run)⟩
  | collectTax payer taxableBase =>
    simp only [exec, bind_eq_ok, pure_eq_ok] at run
    obtain ⟨⟨_, _⟩, collect, rfl⟩ := run
    obtain ⟨_, _, _, rfl⟩ := collectTax_effect collect
    exact Or.inr ⟨id, rfl⟩
  | setTaxRate newTaxRateBps =>
    simp only [exec, setTaxRate, bind_eq_ok, Roles.only_eq_ok, exists_const] at run
    exact Or.inl ⟨trivial, run.1⟩
  | setWeeklySalaryCoefficient coefficientS =>
    simp only [exec, setWeeklySalaryCoefficient, bind_eq_ok, Roles.only_eq_ok, exists_const] at run
    exact Or.inl ⟨trivial, run.1⟩
  | setCivilServant agent active =>
    simp only [exec, setCivilServant, bind_eq_ok, pure_eq_ok] at run
    obtain ⟨_, _, _, _, rfl⟩ := run
    exact Or.inr ⟨id, rfl⟩
  | distributeSalary agent contributionRating =>
    simp only [exec, distributeSalary, bind_eq_ok, pure_eq_ok] at run
    obtain ⟨_, _, _, _, _, _, _, _, _, _, _, _, rfl⟩ := run
    exact Or.inr ⟨id, rfl⟩
  | approveStakingPoolPull stakingPool amount =>
    simp only [exec, approveStakingPoolPull, bind_eq_ok, pure_eq_ok] at run
    obtain ⟨_, _, _, _, _, _, rfl⟩ := run
    exact Or.inr ⟨id, rfl⟩
  | depositRewardToStakingPool stakingPool amount =>
    exact Or.inr ⟨id, depositReward_parameters keeps run⟩
  | access call =>
    simp only [exec, bind_eq_ok, pure_eq_ok] at run
    obtain ⟨_, _, rfl⟩ := run
    exact Or.inr ⟨id, rfl⟩

/-- What happens in one block: a call of the controller or of the treasury, or anything else. -/
inductive EconomyAction (τ : Type)
  | economist (sender : Address) (call : AIEconomistController.Call)
  | treasury (sender : Address) (call : Treasury.Call)
  | elsewhere (other : World τ)

namespace EconomyAction

/-- Only the treasury's own calls write its storage. The first component is the block's timestamp. -/
def exec (d : Deployment) (foreign : Address → ℕ → World τ → Except Revert (World τ))
    (address : Address) (e : Economy τ) : ℕ × EconomyAction τ → Except EconomistRevert (Economy τ)
  | (timestamp, .economist sender call) => AIEconomistController.exec address { sender, timestamp } call e
  | (timestamp, .treasury sender call) => do
    let world ← (Treasury.exec d foreign { sender, timestamp } call e.world).mapError .reverted
    pure { e with world }
  | (_, .elsewhere other) => .ok { e with world := { other with treasury := e.world.treasury } }

def lastAction (e : Economy τ) : ℕ := e.controller.lastEconomistActionAt

/-- Only the controller holds the role of the economist, and it calls the treasury only from its
own code. -/
structure Restricted (address : Address) (e : Economy τ) (action : ℕ × EconomyAction τ) : Prop where
  holder : ∀ account, e.world.treasury.roles .economist account = true → account = address
  caller : ∀ sender call, action.2 = .treasury sender call → sender ≠ address

/-- The action is a call that sets a parameter. -/
def Sets : EconomyAction τ → Prop
  | .economist _ call => call.Sets
  | .treasury _ call => call.Sets
  | .elsewhere _ => False

end EconomyAction

/-- A step that succeeds and sets a parameter or leaves it with another value. -/
def Adjusts (d : Deployment) (foreign : Address → ℕ → World τ → Except Revert (World τ))
    (address : Address) (e : Economy τ) (action : ℕ × EconomyAction τ) : Prop :=
  ∃ after, EconomyAction.exec d foreign address e action = .ok after ∧
    (action.2.Sets ∨ Treasury.parameters after.world ≠ Treasury.parameters e.world)

/-- Any two adjustments of a run are 168 hours apart. -/
def AdjustmentsApart (d : Deployment) (foreign : Address → ℕ → World τ → Except Revert (World τ))
    (address : Address) (e : Economy τ) (run : List (ℕ × EconomyAction τ)) : Prop :=
  ∀ before first between second rest, run = before ++ first :: between ++ second :: rest →
    Adjusts d foreign address
      (TransitionRun.exec (EconomyAction.exec d foreign address) e before) first →
    Adjusts d foreign address
      (TransitionRun.exec (EconomyAction.exec d foreign address) e (before ++ first :: between)) second →
    first.1 + 168 * 60 * 60 ≤ second.1

omit [AitToken τ] in
/-- An adjustment waits until the interval is open, and starts it anew. -/
theorem economist_cases {call : AIEconomistController.Call}
    (run : AIEconomistController.exec address msg call e = .ok after) :
    (call.Sets ∧
      economistIntervalOpen e.controller.lastEconomistActionAt msg.timestamp minAdjustInterval = true ∧
      after.controller.lastEconomistActionAt = msg.timestamp ∧
      (after.world.treasury.taxRateBps = e.world.treasury.taxRateBps ∨
        minTaxBps ≤ after.world.treasury.taxRateBps ∧ after.world.treasury.taxRateBps ≤ maxTaxBps)) ∨
    ¬ call.Sets ∧ after.world = e.world ∧
      after.controller.lastEconomistActionAt = e.controller.lastEconomistActionAt := by
  cases call with
  | proposeNewTaxRate newRateBps =>
    simp only [AIEconomistController.exec, proposeNewTaxRate, onlyOwner, requireEconomistInterval,
      Treasury.setTaxRate, bind_eq_ok, ensure_eq_ok, exists_const, mapError_eq_ok, pure_eq_ok] at run
    obtain ⟨_, inRange, waited, _, ⟨_, _, _, _, rfl⟩, rfl⟩ := run
    exact Or.inl ⟨trivial, waited, rfl, Or.inr inRange⟩
  | updateSalaryCoefficient newS =>
    simp only [AIEconomistController.exec, updateSalaryCoefficient, onlyOwner, requireEconomistInterval,
      Treasury.setWeeklySalaryCoefficient, bind_eq_ok, ensure_eq_ok, exists_const, mapError_eq_ok,
      pure_eq_ok] at run
    obtain ⟨_, waited, _, ⟨_, _, rfl⟩, rfl⟩ := run
    exact Or.inl ⟨trivial, waited, rfl, Or.inl rfl⟩
  | transferOwnership newOwner =>
    simp only [AIEconomistController.exec, transferOwnership, onlyOwner, bind_eq_ok, ensure_eq_ok,
      exists_const, pure_eq_ok] at run
    obtain ⟨_, _, rfl⟩ := run
    exact Or.inr ⟨id, rfl, rfl⟩
  | renounceOwnership =>
    simp only [AIEconomistController.exec, renounceOwnership, onlyOwner, bind_eq_ok, ensure_eq_ok,
      exists_const, pure_eq_ok] at run
    obtain ⟨_, rfl⟩ := run
    exact Or.inr ⟨id, rfl, rfl⟩

/-- While the role is held as assumed, a step that succeeds is an adjustment of the controller, or it
sets no parameter and leaves both as they were. -/
theorem economy_cases (keeps : KeepsParameters foreign) {action : ℕ × EconomyAction τ}
    (restricted : EconomyAction.Restricted address e action)
    (run : EconomyAction.exec d foreign address e action = .ok after) :
    (action.2.Sets ∧
      economistIntervalOpen e.controller.lastEconomistActionAt action.1 minAdjustInterval = true ∧
      after.controller.lastEconomistActionAt = action.1 ∧
      (after.world.treasury.taxRateBps = e.world.treasury.taxRateBps ∨
        minTaxBps ≤ after.world.treasury.taxRateBps ∧ after.world.treasury.taxRateBps ≤ maxTaxBps)) ∨
    ¬ action.2.Sets ∧ Treasury.parameters after.world = Treasury.parameters e.world ∧
      after.controller.lastEconomistActionAt = e.controller.lastEconomistActionAt := by
  obtain ⟨timestamp, action⟩ := action
  cases action with
  | economist sender call =>
    rcases economist_cases run with adjusted | ⟨other, same, last⟩
    · exact Or.inl adjusted
    · exact Or.inr ⟨other, by rw [same], last⟩
  | treasury sender call =>
    simp only [EconomyAction.exec, bind_eq_ok, mapError_eq_ok, pure_eq_ok] at run
    obtain ⟨world, called, rfl⟩ := run
    rcases Treasury.exec_parameters keeps called with ⟨_, economist⟩ | ⟨other, same⟩
    · exact absurd (restricted.holder sender economist) (restricted.caller sender call rfl)
    · exact Or.inr ⟨other, same, rfl⟩
  | elsewhere other =>
    cases run
    exact Or.inr ⟨id, rfl, rfl⟩

/-- With a clock below the bound the Yul addition does not wrap. -/
theorem economistIntervalOpen_waits {last now : ℕ} (bounded : last < 2 ^ 64)
    (opened : economistIntervalOpen last now minAdjustInterval = true) :
    last = 0 ∨ last + minAdjustInterval ≤ now := by
  have fits : last + minAdjustInterval < 2 ^ 256 := by
    unfold minAdjustInterval
    omega
  unfold economistIntervalOpen at opened
  split at opened
  · exact Or.inl ‹_›
  · rw [Nat.mod_eq_of_lt fits] at opened
    simp only [Bool.not_eq_true', decide_eq_false_iff_not, not_lt] at opened
    exact Or.inr opened

section
variable {action : ℕ × EconomyAction τ} (keeps : KeepsParameters foreign)
  (restricted : EconomyAction.Restricted address e action)
include keeps restricted

theorem adjusts_sets (adjusts : Adjusts d foreign address e action) :
    EconomyAction.lastAction (TransitionRun.after (EconomyAction.exec d foreign address) e action) =
      action.1 := by
  obtain ⟨next, run, adjusted⟩ := adjusts
  rw [TransitionRun.after_ok run]
  rcases economy_cases keeps restricted run with ⟨_, _, last, _⟩ | ⟨other, same, _⟩
  · exact last
  · rcases adjusted with sets | changed
    · exact absurd sets other
    · exact absurd same changed

theorem adjusts_waits (adjusts : Adjusts d foreign address e action)
    (bounded : EconomyAction.lastAction e < 2 ^ 64) :
    EconomyAction.lastAction e = 0 ∨ EconomyAction.lastAction e + minAdjustInterval ≤ action.1 := by
  obtain ⟨next, run, adjusted⟩ := adjusts
  rcases economy_cases keeps restricted run with ⟨_, opened, _⟩ | ⟨other, same, _⟩
  · exact economistIntervalOpen_waits bounded opened
  · rcases adjusted with sets | changed
    · exact absurd sets other
    · exact absurd same changed

theorem last_kept (unadjusted : ¬ Adjusts d foreign address e action) :
    EconomyAction.lastAction (TransitionRun.after (EconomyAction.exec d foreign address) e action) =
      EconomyAction.lastAction e := by
  cases run : EconomyAction.exec d foreign address e action with
  | error revert => rw [TransitionRun.after_error run]
  | ok next =>
    rw [TransitionRun.after_ok run]
    rcases economy_cases keeps restricted run with ⟨sets, _⟩ | ⟨_, _, last⟩
    · exact absurd ⟨next, run, Or.inl sets⟩ unadjusted
    · exact last

end

/-- The rate of the treasury is still zero, or in the range of the controller. -/
def RateInRange (w : World τ) : Prop :=
  w.treasury.taxRateBps = 0 ∨ minTaxBps ≤ w.treasury.taxRateBps ∧ w.treasury.taxRateBps ≤ maxTaxBps

theorem RateInRange.exec (keeps : KeepsParameters foreign) {action : ℕ × EconomyAction τ}
    (restricted : EconomyAction.Restricted address e action) (inRange : RateInRange e.world)
    (run : EconomyAction.exec d foreign address e action = .ok after) : RateInRange after.world := by
  unfold RateInRange at inRange ⊢
  rcases economy_cases keeps restricted run with ⟨_, _, _, same | set⟩ | ⟨_, same, _⟩
  · rw [same]
    exact inRange
  · exact Or.inr set
  · rw [show after.world.treasury.taxRateBps = e.world.treasury.taxRateBps from congrArg Prod.fst same]
    exact inRange

section
variable (inRange : RateInRange w) (limit : maxTaxBps ≤ w.guardrail.maxFeeBpsOfNotional)
include inRange limit

omit [AitToken τ] in
/-- A fee at a rate in range is within what the breaker allows, with the rounding. -/
theorem settleFeeAllowed_passes {notional : ℕ} {allowed : Bool}
    (run : InternalMarket.settleFeeAllowed d (notional * w.treasury.taxRateBps / 10000) notional w =
      .ok (allowed, next)) : allowed = true ∧ next = w := by
  have rate : w.treasury.taxRateBps ≤ w.guardrail.maxFeeBpsOfNotional := by
    rcases inRange with zero | ⟨_, most⟩
    · omega
    · omega
  have within : notional * w.treasury.taxRateBps / 10000 * 10000 ≤
      notional * w.guardrail.maxFeeBpsOfNotional :=
    (Nat.div_mul_le_self ..).trans (Nat.mul_le_mul_left notional rate)
  rcases InternalMarket.settleFeeAllowed_cases run with passed | ⟨refused, _⟩
  · exact passed
  · unfold InternalMarket.settleFeeAllowed at run
    split at run
    · cases pure_eq_ok.mp run
      cases refused
    · simp only [World.requireNotPaused, Guardrail.evaluateSettleFee, bind_eq_ok, require_eq_ok,
        exists_const] at run
      obtain ⟨running, _, evaluated⟩ := run
      have passes := Guardrail.evaluate_within running within evaluated
      rw [refused] at passes
      cases passes

theorem settleTrade_guardrail {makerOrderId takerOrderId vstkAmount aitNotional : ℕ}
    {settlementId : Bytes32}
    (run : InternalMarket.settleTrade d msg makerOrderId takerOrderId vstkAmount aitNotional
      settlementId w = .ok next) : next.guardrail = w.guardrail := by
  simp only [InternalMarket.settleTrade, bind_eq_ok, InternalMarket.settleable_eq_ok,
    checkedMul_eq_ok] at run
  obtain ⟨_, _, _, checks, _, ⟨_, rfl⟩, ⟨allowed, evaluated⟩, guard, run⟩ := run
  obtain ⟨rfl, rfl⟩ := settleFeeAllowed_passes inRange limit guard
  obtain ⟨_, _, _, _, settled⟩ := InternalMarket.settle_effect checks guard run
  obtain ⟨_, _, _, _, rfl⟩ := settled.effect
  rfl

theorem depositProfit_guardrail {companyId grossAmount : ℕ}
    (run : InternalMarket.depositProfit d msg companyId grossAmount w = .ok next) :
    next.guardrail = w.guardrail := by
  simp only [InternalMarket.depositProfit, bind_eq_ok, checkedMul_eq_ok] at run
  obtain ⟨_, _, _, _, _, ⟨_, rfl⟩, ⟨allowed, evaluated⟩, guard, run⟩ := run
  obtain ⟨rfl, rfl⟩ := settleFeeAllowed_passes inRange limit guard
  simp only [if_true, bind_eq_ok, pure_eq_ok, World.safeTransferFrom_eq_ok] at run
  obtain ⟨⟨_, _⟩, collect, _, _, _, ⟨_, _, rfl⟩, _, notified, rfl⟩ := run
  obtain ⟨_, _, _, rfl⟩ := Treasury.collectTax_effect collect
  cases InternalMarket.notifyReward_effect notified
  rfl

end

/-- While only the controller holds the role, and the rate starts from zero, any two changes of a
parameter are an interval apart, the rate stays in range, and a breaker that allows the greatest
rate is not tripped by a settlement or by a deposit of profit. -/
theorem economist_is_limited (keeps : KeepsParameters foreign) (start : e.world.treasury.taxRateBps = 0)
    {run : List (ℕ × EconomyAction τ)}
    (restricted : TransitionRun.Meets (EconomyAction.exec d foreign address)
      (EconomyAction.Restricted address) e run)
    (ordered : run.Pairwise fun first second => first.1 ≤ second.1)
    (clock : ∀ action ∈ run, 0 < action.1 ∧ action.1 < 2 ^ 64) :
    AdjustmentsApart d foreign address e run ∧
    let reached := (TransitionRun.exec (EconomyAction.exec d foreign address) e run).world
    (reached.treasury.taxRateBps = 0 ∨
      10 ≤ reached.treasury.taxRateBps ∧ reached.treasury.taxRateBps ≤ 500) ∧
    (500 ≤ reached.guardrail.maxFeeBpsOfNotional → ∀ msg next,
      (∀ makerOrderId takerOrderId vstkAmount aitNotional settlementId,
        InternalMarket.settleTrade d msg makerOrderId takerOrderId vstkAmount aitNotional settlementId
          reached = .ok next → next.guardrail = reached.guardrail) ∧
      ∀ companyId grossAmount,
        InternalMarket.depositProfit d msg companyId grossAmount reached = .ok next →
          next.guardrail = reached.guardrail) := by
  have inRange : RateInRange (TransitionRun.exec (EconomyAction.exec d foreign address) e run).world :=
    TransitionRun.exec_preserves (I := fun e => RateInRange e.world)
      (fun _ _ _ inRange allowed taken => inRange.exec keeps allowed taken) (Or.inl start) restricted
  refine ⟨?_, inRange, ?_⟩
  · rintro before first between second rest rfl one other
    have waits : ∀ s a, EconomyAction.Restricted address s a → Adjusts d foreign address s a →
        EconomyAction.lastAction s < 2 ^ 64 →
        EconomyAction.lastAction s = 0 ∨ EconomyAction.lastAction s + 168 * 60 * 60 ≤ a.1 :=
      fun s a allowed adjusts bounded => adjusts_waits keeps allowed adjusts bounded
    exact TransitionRun.effects_apart (fun _ _ allowed adjusts => adjusts_sets keeps allowed adjusts)
      (fun _ _ allowed unadjusted => last_kept keeps allowed unadjusted) waits restricted ordered clock
      one other
  · intro limit msg next
    exact ⟨fun _ _ _ _ _ settle => settleTrade_guardrail inRange limit settle,
      fun _ _ deposit => depositProfit_guardrail inRange limit deposit⟩

namespace Devnet

def controller : Address := 105

/-- The admin owns the controller, which has taken over the role of the economist. -/
def economy : Economy ERC20 where
  world := { listed with treasury := { listed.treasury with
    roles := Function.update listed.treasury.roles .economist fun account => account = controller } }
  controller := AIEconomistController.constructed admin

/-- The second attempt comes too early. -/
def adjustments : List (ℕ × EconomyAction ERC20) :=
  [(1, .economist admin (.proposeNewTaxRate 500)),
    (604800, .economist admin (.updateSalaryCoefficient 7)),
    (604801, .economist admin (.updateSalaryCoefficient 7))]

/-- A contract at the address of a pool that does nothing. -/
def indifferent (_ : Address) (_ : ℕ) (w : World ERC20) : Except Revert (World ERC20) := .ok w

def adjusted : Economy ERC20 :=
  TransitionRun.exec (EconomyAction.exec Deployment.devnet indifferent controller) economy adjustments

end Devnet

open Devnet

theorem adjustments_are_limited :
    AdjustmentsApart Deployment.devnet Devnet.indifferent Devnet.controller economy adjustments ∧
    Devnet.adjusted.world.treasury.taxRateBps = 500 ∧
    ∀ msg next companyId grossAmount,
      InternalMarket.depositProfit Deployment.devnet msg companyId grossAmount Devnet.adjusted.world =
        .ok next → next.guardrail = Devnet.adjusted.world.guardrail := by
  have keeps : KeepsParameters Devnet.indifferent := by
    rintro _ _ w _ ⟨⟩
    rfl
  have restricted : TransitionRun.Meets
      (EconomyAction.exec Deployment.devnet Devnet.indifferent Devnet.controller)
      (EconomyAction.Restricted Devnet.controller) economy adjustments :=
    ⟨⟨fun _ held => of_decide_eq_true held, by rintro _ _ ⟨⟩⟩,
      ⟨fun _ held => of_decide_eq_true held, by rintro _ _ ⟨⟩⟩,
      ⟨fun _ held => of_decide_eq_true held, by rintro _ _ ⟨⟩⟩, trivial⟩
  obtain ⟨apart, _, kept⟩ := economist_is_limited keeps rfl restricted (by decide) (by decide)
  exact ⟨apart, rfl, fun msg next => (kept (by decide) msg next).2⟩

/-- The first and the last attempt of the run succeed, and the one between them fails. -/
example : ((adjustments.scanl (TransitionRun.after (EconomyAction.exec Deployment.devnet
    Devnet.indifferent Devnet.controller)) economy).map EconomyAction.lastAction) =
      [0, 1, 1, 604801] := by decide

end Aide
