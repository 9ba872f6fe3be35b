import Aide.Contracts.Treasury

namespace Aide

inductive EconomistEvent
  | taxRateProposed (newRateBps timestamp : ℕ)
  | salaryCoefficientUpdated (newS timestamp : ℕ)
  deriving DecidableEq

inductive EconomistRevert
  | taxRateOutOfRange
  | economistCooldownActive
  | reverted (error : Revert)
  deriving DecidableEq

/-- The storage and the logs of `AI_Economist_Controller`. -/
structure AIEconomistController where
  owner : Address
  lastEconomistActionAt : ℕ
  log : List EconomistEvent

/-- The controller beside the deployment that it adjusts. -/
structure Economy (τ : Type) where
  world : World τ
  controller : AIEconomistController

namespace AIEconomistController

def minTaxBps : ℕ := 10
def maxTaxBps : ℕ := 500

/-- 168 hours. -/
def minAdjustInterval : ℕ := 168 * 60 * 60

def constructed (initialOwner : Address) : AIEconomistController := ⟨initialOwner, 0, []⟩

/-- The Yul block of `_economistIntervalOpen`: `add` wraps, and zero stands for no action yet. -/
def economistIntervalOpen (lastTs currentTs interval : ℕ) : Bool :=
  if lastTs = 0 then true else !decide (currentTs < (lastTs + interval) % 2 ^ 256)

variable {τ : Type}

def onlyOwner (sender : Address) (e : Economy τ) : Except EconomistRevert Unit :=
  ensure (sender = e.controller.owner) (.reverted .ownableUnauthorizedAccount)

def requireEconomistInterval (msg : Msg) (e : Economy τ) : Except EconomistRevert Unit :=
  ensure (economistIntervalOpen e.controller.lastEconomistActionAt msg.timestamp minAdjustInterval)
    .economistCooldownActive

/-- The effect of both adjustments once the treasury has been set. -/
def acted (msg : Msg) (world : World τ) (event : EconomistEvent) (e : Economy τ) : Economy τ where
  world
  controller := { e.controller with
    lastEconomistActionAt := msg.timestamp
    log := e.controller.log ++ [event] }

variable [AitToken τ]

/-- `address` is the controller's own, which it has as the caller of the treasury. -/
def proposeNewTaxRate (address : Address) (msg : Msg) (newRateBps : ℕ) (e : Economy τ) :
    Except EconomistRevert (Economy τ) := do
  onlyOwner msg.sender e
  ensure (minTaxBps ≤ newRateBps ∧ newRateBps ≤ maxTaxBps) .taxRateOutOfRange
  requireEconomistInterval msg e
  let world ← (Treasury.setTaxRate { msg with sender := address } newRateBps e.world).mapError .reverted
  pure (acted msg world (.taxRateProposed newRateBps msg.timestamp) e)

def updateSalaryCoefficient (address : Address) (msg : Msg) (newS : ℕ) (e : Economy τ) :
    Except EconomistRevert (Economy τ) := do
  onlyOwner msg.sender e
  requireEconomistInterval msg e
  let world ← (Treasury.setWeeklySalaryCoefficient { msg with sender := address } newS
    e.world).mapError .reverted
  pure (acted msg world (.salaryCoefficientUpdated newS msg.timestamp) e)

def transferOwnership (msg : Msg) (newOwner : Address) (e : Economy τ) :
    Except EconomistRevert (Economy τ) := do
  onlyOwner msg.sender e
  ensure (newOwner ≠ 0) (.reverted .ownableInvalidOwner)
  pure { e with controller := { e.controller with owner := newOwner } }

def renounceOwnership (msg : Msg) (e : Economy τ) : Except EconomistRevert (Economy τ) := do
  onlyOwner msg.sender e
  pure { e with controller := { e.controller with owner := 0 } }

inductive Call
  | proposeNewTaxRate (newRateBps : ℕ)
  | updateSalaryCoefficient (newS : ℕ)
  | transferOwnership (newOwner : Address)
  | renounceOwnership

def exec (address : Address) (msg : Msg) : Call → Economy τ → Except EconomistRevert (Economy τ)
  | .proposeNewTaxRate newRateBps, e => proposeNewTaxRate address msg newRateBps e
  | .updateSalaryCoefficient newS, e => updateSalaryCoefficient address msg newS e
  | .transferOwnership newOwner, e => transferOwnership msg newOwner e
  | .renounceOwnership, e => renounceOwnership msg e

end AIEconomistController

end Aide
