import Aide.Engine.Audit
import Aide.Engine.Telemetry
import Aide.Foundation.BigEndian

namespace Aide.Engine

/-- The views of the market and of the treasury that an audit calls. -/
inductive ViewCall
  | aitBalance (user : Address)
  | vstkBalance (companyId : ℕ) (user : Address)
  | getCollectedTaxBalance
  | getCurrentTaxRate

/-- The account that is called. -/
def ViewCall.account (market treasury : Address) : ViewCall → Address
  | aitBalance _ => market
  | vstkBalance .. => market
  | getCollectedTaxBalance => treasury
  | getCurrentTaxRate => treasury

inductive AuditError
  | badRpc
  | call (message : String)
  | decode
  deriving DecidableEq

/-- The bytes that an endpoint returns for a call to an account, or its error. -/
abbrev ViewProvider := Address → ViewCall → Except String (List UInt8)

def decodeU256Word (data : List UInt8) : Except AuditError ℕ :=
  if data.length < 32 then
    .error .decode
  else
    .ok (beValue (data.drop (data.length - 32)))

/-- `provider.call(&tx).await`, and the word that is decoded from what it returns. -/
def ViewProvider.read (provider : ViewProvider) (account : Address) (call : ViewCall) : Except AuditError ℕ :=
  match provider account call with
  | .error message => .error (.call message)
  | .ok out => decodeU256Word out

/-- One read for each key, entered into a map. -/
def readAll {K : Type} [DecidableEq K] (read : K → Except AuditError ℕ) :
    (K → Option ℕ) → List K → Except AuditError (K → Option ℕ)
  | map, [] => .ok map
  | map, key :: keys => do
    let value ← read key
    readAll read (Function.update map key (some value)) keys

/-- Only the keys of the shadow are read. -/
def fetchChainSnapshotForShadow (provider : ViewProvider) (market treasury : Address) (shadow : Shadow) :
    Except AuditError (ChainBalanceSnapshot × ℕ) := do
  let snap := ChainBalanceSnapshot.new
  let ait ← readAll (fun user => provider.read market (.aitBalance user)) snap.ait shadow.shadowAitUsers
  let vstk ← readAll (fun key => provider.read market (.vstkBalance key.1 key.2)) snap.vstk
    shadow.shadowVstkKeys
  let taxOnChain ← provider.read treasury .getCollectedTaxBalance
  pure (⟨ait, vstk⟩, taxOnChain)

/-- `v.to::<u128>()` panics when the rate does not fit. -/
def syncTreasuryTaxRateToEngine (provider : ViewProvider) (treasury : Address) (engine : MatchEngine) :
    Option (Except AuditError ℕ × MatchEngine) :=
  match provider.read treasury .getCurrentTaxRate with
  | .error e => some (.error e, engine)
  | .ok v =>
    if v < 2 ^ 128 then
      some (.ok (min v (2 ^ 64 - 1)), engine.syncTaxRate v)
    else
      none

/-- The verdict is true where the shadow agrees with the chain within the threshold. A rate that cannot
be read is only warned of. -/
def runSyncAuditOnce (connect : String → Option ViewProvider) (rpcUrl : String) (market treasury : Address)
    (shadow : Shadow) (engine : MatchEngine) (threshold : ℕ) :
    Option (Except AuditError Bool × MatchEngine) :=
  match connect rpcUrl with
  | none => some (.error .badRpc, engine)
  | some provider =>
    match syncTreasuryTaxRateToEngine provider treasury engine with
    | none => none
    | some (_, engine) =>
      match fetchChainSnapshotForShadow provider market treasury shadow with
      | .error e => some (.error e, engine)
      | .ok (snap, _) =>
        let drifts := shadow.reconcile snap
        if drifts = [] then
          some (.ok true, engine)
        else if reportExceedsThreshold drifts threshold then
          some (.ok false, engine.pauseMatching)
        else
          some (.ok true, engine)

/-- What `run_sync_audit_loop` reads from the environment. -/
structure SyncAuditConfig where
  intervalBlocks : ℕ := 50
  threshold : ℕ := 0
  rpcUrl : String
  market : Address
  treasury : Address

/-- What a tick of the loop finds. The other tasks may have changed all of it since the last tick. -/
structure Found where
  head : ℕ
  connect : String → Option ViewProvider
  shadow : Shadow
  engine : MatchEngine
  telemetry : TelemetryHub
  matchPaused : Bool

/-- What a tick leaves after an audit. -/
def Found.report (found : Found) (engine : MatchEngine) : Except AuditError Bool → Found
  | .ok true =>
    { found with engine, telemetry := found.telemetry.setLedgerAlignmentOk true }
  | .ok false =>
    { found with
      engine
      telemetry := (found.telemetry.setLedgerAlignmentOk false).setMatchingPause (some .drift)
      matchPaused := true }
  | .error _ => { found with engine }

/-- The local variable of the loop, and the heads at which it has attempted an audit. -/
structure SyncAuditLoop where
  lastAuditedBlock : ℕ
  attempted : List ℕ

namespace SyncAuditLoop

def start : SyncAuditLoop := ⟨0, []⟩

variable (config : SyncAuditConfig)

/-- One pass of the loop. -/
def tick (loop : SyncAuditLoop) (found : Found) : Option (SyncAuditLoop × Found) :=
  if found.head = 0 ∨ found.head < config.intervalBlocks then
    some (loop, found)
  -- `head % interval_blocks` panics.
  else if config.intervalBlocks = 0 then
    none
  else if found.head % config.intervalBlocks ≠ 0 then
    some (loop, found)
  else if found.head = loop.lastAuditedBlock then
    some (loop, found)
  else
    match runSyncAuditOnce found.connect config.rpcUrl config.market config.treasury found.shadow
        found.engine config.threshold with
    | none => none
    | some (verdict, engine) =>
      some (⟨found.head, loop.attempted ++ [found.head]⟩, found.report engine verdict)

/-- The loop over its ticks. -/
def run (loop : SyncAuditLoop) : List Found → Option SyncAuditLoop
  | [] => some loop
  | found :: rest =>
    match loop.tick config found with
    | none => none
    | some (loop, _) => loop.run rest

end SyncAuditLoop

end Aide.Engine
