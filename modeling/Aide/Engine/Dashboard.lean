import Aide.Engine.Telemetry

namespace Aide.Engine

/-- The addresses of the contracts, as the environment or a deployment file gives them. -/
structure ContractAddressBook where
  aitoken : Option String := none
  treasury : Option String := none
  guardrail : Option String := none
  internalMarket : Option String := none
  taskMarket : Option String := none
  stakingPool : Option String := none
  aiIdentityRegistry : Option String := none
  dualPoolVault : Option String := none
  deriving DecidableEq

/-- What the hub guards by its lock. -/
structure Inner extends TelemetryHub where
  guardrailPaused : Bool
  chainListenerConnected : Bool
  addressBook : ContractAddressBook

structure DashboardSummaryJson where
  aideSystemHealthScore : ℕ
  aideLedgerAlignment : String
  aideIdentityModel : String
  circuitBreaker : String
  aitNotionalVolume24hWei : String
  aitVelocityPerBlockWei : String
  aideMatchingPauseReason : Option String
  contracts : ContractAddressBook
  deriving DecidableEq

def MatchingPauseReason.text : MatchingPauseReason → String
  | drift => "drift"
  | settlementFailure => "settlement_failure"

namespace Inner

def new : Inner where
  toTelemetryHub := .new
  guardrailPaused := false
  chainListenerConnected := true
  addressBook := {}

def setContractAddresses (g : Inner) (book : ContractAddressBook) : Inner := { g with addressBook := book }

def setChainListenerConnected (g : Inner) (connected : Bool) : Inner :=
  { g with chainListenerConnected := connected }

def setGuardrailPaused (g : Inner) (paused : Bool) : Inner := { g with guardrailPaused := paused }

def computeHealthScore (g : Inner) : ℕ :=
  if !g.chainListenerConnected then 0
  else if g.matchingPause.isSome then 50
  else 100

/-- The summary, and what reading the clock evicts. -/
def toSummaryJson (g : Inner) (now : ℕ) : DashboardSummaryJson × Inner :=
  let (ait24, aitNotional24h) := g.aitNotional24h.total now
  ({ aideSystemHealthScore := g.computeHealthScore
     aideLedgerAlignment := if g.ledgerAlignmentOk then "ok" else "drift"
     aideIdentityModel := "TEE_ECDSA_1.0"
     circuitBreaker := if g.guardrailPaused then "Paused" else "Active"
     aitNotionalVolume24hWei := toString ait24
     aitVelocityPerBlockWei := toString g.blockAit.velocityPerBlockAvg
     aideMatchingPauseReason := g.matchingPause.map MatchingPauseReason.text
     contracts := g.addressBook },
    { g with aitNotional24h })

end Inner

end Aide.Engine
