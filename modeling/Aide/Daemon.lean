import Aide.Engine.Dashboard
import Aide.Engine.SettlerTx
import Aide.Engine.SyncAudit
import Aide.TradeMetrics

namespace Aide

open Engine

namespace Engine

theorem SharedState.accumulateVelocity_eq {state counted : SharedState} {delta : ℕ}
    (fits : state.accumulateVelocity delta = some counted) : delta < 2 ^ 128 ∧
      counted = { state with economicVelocityWei := fetchAdd state.economicVelocityWei (delta % 2 ^ 64) } := by
  unfold accumulateVelocity at fits
  split at fits <;> cases fits
  rename_i small
  exact ⟨small, rfl⟩

theorem syncTreasuryTaxRateToEngine_frame {provider : ViewProvider} {treasury : Address}
    {engine next : MatchEngine} {outcome : Except AuditError ℕ}
    (run : syncTreasuryTaxRateToEngine provider treasury engine = some (outcome, next)) :
    ∃ taxRateBps, next = { engine with taxRateBps } := by
  unfold syncTreasuryTaxRateToEngine at run
  split at run
  · cases run
    exact ⟨_, rfl⟩
  · split at run <;> cases run
    exact ⟨_, rfl⟩

end Engine

/-- Where the match runner is in its loop: it waits for an event, or it is about to apply a trade to the
shadow, to place an order, to count the next fill of an order, or to send a fill that it has counted. -/
inductive RunnerTask
  | waiting
  | applying (companyId : ℕ) (buyer seller : Address) (vstkAmount aitNotional : ℕ)
  | placing (record : OrderRecord)
  | counting (fills : List Fill)
  | sending (f : Fill) (fills : List Fill)
  | ended (unsent : List Fill)

/-- The steps in which the settler pauses matching. -/
inductive PauseStage
  | telemetry
  | engine
  | flag
  | alert

/-- Where the settler is in its loop, and in `flush_batch`. -/
inductive SettlerTask
  | collecting
  | recording (blockNumber : ℕ) (fills : List Fill)
  | sending (settler : Option SettlerConfig) (calls : List SettleTradeCall)
  | pausing (stage : PauseStage) (streak : ℕ) (settler : SettlerConfig) (calls : List SettleTradeCall)
  | ended

/-- Where the audit loop is, and in `run_sync_audit_once`. -/
inductive AuditTask
  | waiting
  | syncing
  | fetchingAit
  | fetchingVstk (ait : Address → Option ℕ)
  | fetchingTax (snap : ChainBalanceSnapshot)
  | reconciling (snap : ChainBalanceSnapshot)
  | aligned
  | drifted
  | reporting
  | flagging
  | alerting
  | ended

/-- How `flush_batch` is done with a call. Without a configuration it is not sent. -/
inductive Outcome
  | confirmed
  | failed
  | unsent
  deriving DecidableEq

/-- The calls of `send_critical_alert`. -/
inductive Alert
  | criticalDrift (market treasury : Address) (contracts : ContractAddressBook)
  | criticalSettlementFailure (streak : ℕ) (market : Address) (contracts : ContractAddressBook)

structure DaemonConfig where
  keccak256 : List UInt8 → Bytes32
  audit : SyncAuditConfig
  urlParses : Bool

/-- What the settler finds when it goes on: whether the timer is due, the readings of the clock, its
configuration, and the answers to its next call. -/
structure SettlerInput (τ : Type) where
  timer : Bool
  clock : ℕ → ℕ
  settler : Option SettlerConfig
  provider : Provider τ

/-- The tasks of the daemon, what they share, and the channels between them. The last five fields keep
account of what the streamer has received, of the events that the runner has taken, of the fills that it
has sent, of the batches that were flushed and of the calls that are done with. -/
structure Daemon where
  shared : SharedState
  /-- The shadow of `shared`, with its keys. -/
  shadow : Shadow
  hub : Inner
  listening : Bool
  streaming : Bool
  streamer : Streamer
  releasing : List EngineEvent
  events : List EngineEvent
  runner : RunnerTask
  fills : List Fill
  settler : SettlerTask
  batch : List Fill
  audit : AuditTask
  lastAuditedBlock : ℕ
  alerts : List Alert
  received : List MarketChainEvent
  taken : List EngineEvent
  sent : List Fill
  flushed : List (List Fill)
  done : List (SettleTradeCall × Outcome)

namespace Daemon

def started (contracts : ContractAddressBook) : Daemon where
  shared := .new
  shadow := .new
  hub := Inner.new.setContractAddresses contracts
  listening := true
  streaming := true
  streamer := .new
  releasing := []
  events := []
  runner := .waiting
  fills := []
  settler := .collecting
  batch := []
  audit := .waiting
  lastAuditedBlock := 0
  alerts := []
  received := []
  taken := []
  sent := []
  flushed := []
  done := []

/-- The capacities of the two channels. A full channel makes its sender wait. -/
def eventCapacity : ℕ := 4096

def fillCapacity : ℕ := 8192

/-- The streamer receives what the listener sends it, and nothing more once the listener has exited. -/
def streamerReceives (s : Daemon) : Option MarketChainEvent → Except Unit Daemon
  | none => if s.listening then .error () else .ok { s with streaming := false }
  | some event =>
    let (streamer, releasing) := s.streamer.receive event
    .ok { s with
      shared := match event with
        | .newHead number => { s.shared with lastBlockHeight := number }
        | _ => s.shared
      streamer
      releasing
      received := s.received ++ [event] }

/-- It sends the next event to the runner, unless the runner has ended. -/
def streamerReleases (s : Daemon) (ev : EngineEvent) (releasing : List EngineEvent) : Except Unit Daemon :=
  match s.runner with
  | .ended _ => .ok { s with streaming := false }
  | _ =>
    if s.events.length < eventCapacity then .ok { s with releasing, events := s.events ++ [ev] }
    else .error ()

def streamerStep (event : Option MarketChainEvent) (s : Daemon) : Except Unit Daemon :=
  if s.streaming then
    match s.releasing with
    | [] => s.streamerReceives event
    | ev :: releasing => s.streamerReleases ev releasing
  else
    .error ()

/-- The runner takes an event, as far as the two flags. -/
def runnerTakes (s : Daemon) : EngineEvent → Daemon
  | .newBlock number => { s with shared := { s.shared with lastBlockHeight := number } }
  | .orderCancelled _ companyId orderId =>
    { s with shared := { s.shared with engine := (s.shared.engine.ingestCancel companyId orderId).2 } }
  | .tradeSettled block companyId buyer seller vstkAmount aitNotional =>
    { s with
      shared := { s.shared with lastBlockHeight := block }
      runner := .applying companyId buyer seller vstkAmount aitNotional }
  | .orderPlaced _ orderId companyId maker side priceRay amount timestamp =>
    if s.shared.matchPaused || s.shared.engine.matchingPaused then
      s
    else
      let record : OrderRecord :=
        { orderId, companyId, maker, side, priceRay, remaining := amount, timestamp }
      { s with runner := .placing record }

def runnerStep (s : Daemon) : Except Unit Daemon :=
  match s.runner with
  | .waiting =>
    match s.events with
    | [] => if s.streaming then .error () else .ok { s with runner := .ended [] }
    | ev :: events => .ok ({ s with events, taken := s.taken ++ [ev] }.runnerTakes ev)
  | .applying companyId buyer seller vstkAmount aitNotional =>
    let shadow := s.shadow.applyFillShadow companyId buyer seller vstkAmount aitNotional
    let shared := { s.shared with sync := shadow.sync }
    match shared.accumulateVelocity aitNotional with
    | none => .ok { s with shadow, shared, runner := .ended [] }
    | some shared => .ok { s with shadow, shared, runner := .waiting }
  | .placing record =>
    match s.shared.engine.limitOrderPlacement record with
    | .error _ => .ok { s with runner := .ended [] }
    | .ok (.error _, engine) =>
      .ok { s with shared := { s.shared with engine }, runner := .waiting }
    | .ok (.ok fills, engine) =>
      .ok { s with shared := { s.shared with engine }, runner := .counting fills }
  | .counting [] =>
    .ok { s with
      shared := { s.shared with orderCounter := fetchAdd s.shared.orderCounter 1 }
      runner := .waiting }
  | .counting (f :: fills) =>
    match s.shared.accumulateVelocity f.aitNotional with
    | none => .ok { s with runner := .ended (f :: fills) }
    | some shared => .ok { s with
        shared := { shared with pendingSettlements := fetchAdd shared.pendingSettlements 1 }
        runner := .sending f fills }
  | .sending f fills =>
    match s.settler with
    | .ended => .ok { s with runner := .ended (f :: fills) }
    | _ =>
      if s.fills.length < fillCapacity then
        .ok { s with fills := s.fills ++ [f], sent := s.sent ++ [f], runner := .counting fills }
      else
        .error ()
  | .ended _ => .error ()

section Settler
variable {τ : Type} (config : DaemonConfig) (input : SettlerInput τ) (s : Daemon)

def flushBatch : Daemon := { s with settler := .recording s.shared.lastBlockHeight s.batch }

/-- `select!` between the next fill and the timer. When the channel is closed the task ends. -/
def settlerCollects : Except Unit Daemon :=
  if input.timer then
    .ok (if s.batch.isEmpty then s else s.flushBatch)
  else
    match s.fills, s.runner with
    | f :: fills, _ =>
      let s := { s with fills, batch := s.batch ++ [f] }
      .ok (if 256 ≤ s.batch.length then s.flushBatch else s)
    | [], .ended _ => .ok { s with settler := .ended }
    | [], _ => .error ()

/-- A call is sent and confirmed, or given up. The third failure in a row pauses matching. -/
def settlerSends (settler : SettlerConfig) (call : SettleTradeCall) (calls : List SettleTradeCall) : Daemon :=
  match (sendSettleTradeWithRetry input.provider settler.chainId config.audit.market call).1 with
  | .ok _ =>
    { s with
      shared := s.shared.settlementConfirmed
      settler := .sending (some settler) calls
      done := s.done ++ [(call, .confirmed)] }
  | .error _ =>
    let streak := (s.shared.settlementFailStreak + 1) % 2 ^ 32
    { s with
      shared := { s.shared with settlementFailStreak := streak }
      settler := if 3 ≤ streak then .pausing .telemetry streak settler calls
        else .sending (some settler) calls
      done := s.done ++ [(call, .failed)] }

def settlerPauses (streak : ℕ) (settler : SettlerConfig) (calls : List SettleTradeCall) : PauseStage → Daemon
  | .telemetry =>
    { s with
      hub := { s.hub with toTelemetryHub := s.hub.setMatchingPause (some .settlementFailure) }
      settler := .pausing .engine streak settler calls }
  | .engine =>
    { s with
      shared := { s.shared with engine := s.shared.engine.pauseMatching }
      settler := .pausing .flag streak settler calls }
  | .flag =>
    { s with
      shared := { s.shared with matchPaused := true }
      settler := .pausing .alert streak settler calls }
  | .alert =>
    { s with
      alerts := s.alerts ++ [.criticalSettlementFailure streak config.audit.market s.hub.addressBook]
      settler := .sending (some settler) calls }

def settlerStep : Except Unit Daemon :=
  match s.settler with
  | .collecting => s.settlerCollects input
  | .recording blockNumber (f :: fills) =>
    let taxBps := s.shared.engine.taxRateBps
    .ok { s with
      hub := { s.hub with toTelemetryHub := s.hub.recordFill blockNumber taxBps input.clock f }
      settler := .recording blockNumber fills }
  | .recording _ [] =>
    .ok { s with
      settler := .sending input.settler (batchFromFills config.keccak256 s.batch 0)
      batch := []
      flushed := s.flushed ++ [s.batch] }
  | .sending _ [] => .ok { s with settler := .collecting }
  | .sending none (call :: calls) =>
    .ok { s with
      shared := { s.shared with pendingSettlements := fetchSub s.shared.pendingSettlements 1 }
      settler := .sending none calls
      done := s.done ++ [(call, .unsent)] }
  | .sending (some settler) (call :: calls) => .ok (s.settlerSends config input settler call calls)
  | .pausing stage streak settler calls => .ok (s.settlerPauses config streak settler calls stage)
  | .ended => .error ()

end Settler

section Audit
variable (config : DaemonConfig) (provider : ViewProvider) (s : Daemon)

/-- A tick of the loop, as far as the call of `run_sync_audit_once`. -/
def auditTicks : Daemon :=
  let head := s.shared.lastBlockHeight
  if head = 0 ∨ head < config.audit.intervalBlocks then s
  -- `head % interval_blocks` panics.
  else if config.audit.intervalBlocks = 0 then { s with audit := .ended }
  else if head % config.audit.intervalBlocks ≠ 0 then s
  else if head = s.lastAuditedBlock then s
  else { s with lastAuditedBlock := head, audit := .syncing }

def auditSyncs : Daemon :=
  if config.urlParses then
    match syncTreasuryTaxRateToEngine provider config.audit.treasury s.shared.engine with
    | none => { s with audit := .ended }
    | some (_, engine) => { s with shared := { s.shared with engine }, audit := .fetchingAit }
  else
    { s with audit := .waiting }

/-- The keys are those that the shadow has when they are listed. -/
def auditFetchesAit : AuditTask :=
  match readAll (fun user => provider.read config.audit.market (.aitBalance user))
      ChainBalanceSnapshot.new.ait s.shadow.shadowAitUsers with
  | .error _ => .waiting
  | .ok ait => .fetchingVstk ait

def auditFetchesVstk (ait : Address → Option ℕ) : AuditTask :=
  match readAll (fun key => provider.read config.audit.market (.vstkBalance key.1 key.2))
      ChainBalanceSnapshot.new.vstk s.shadow.shadowVstkKeys with
  | .error _ => .waiting
  | .ok vstk => .fetchingTax ⟨ait, vstk⟩

def auditFetchesTax (snap : ChainBalanceSnapshot) : AuditTask :=
  match provider.read config.audit.treasury .getCollectedTaxBalance with
  | .error _ => .waiting
  | .ok _ => .reconciling snap

/-- The trades that the runner has applied since the balances were read count as drifts. -/
def auditReconciles (snap : ChainBalanceSnapshot) : Daemon :=
  let drifts := s.shadow.reconcile snap
  if drifts = [] then
    { s with audit := .aligned }
  else if reportExceedsThreshold drifts config.audit.threshold then
    { s with
      shared := { s.shared with engine := s.shared.engine.pauseMatching }
      audit := .drifted }
  else
    { s with audit := .aligned }

def auditStep : Except Unit Daemon :=
  match s.audit with
  | .waiting => .ok (s.auditTicks config)
  | .syncing => .ok (s.auditSyncs config provider)
  | .fetchingAit => .ok { s with audit := s.auditFetchesAit config provider }
  | .fetchingVstk ait => .ok { s with audit := s.auditFetchesVstk config provider ait }
  | .fetchingTax snap => .ok { s with audit := auditFetchesTax config provider snap }
  | .reconciling snap => .ok (s.auditReconciles config snap)
  | .aligned =>
    .ok { s with
      hub := { s.hub with toTelemetryHub := s.hub.setLedgerAlignmentOk true }
      audit := .waiting }
  | .drifted =>
    .ok { s with
      hub := { s.hub with toTelemetryHub := s.hub.setLedgerAlignmentOk false }
      audit := .reporting }
  | .reporting =>
    .ok { s with
      hub := { s.hub with toTelemetryHub := s.hub.setMatchingPause (some .drift) }
      audit := .flagging }
  | .flagging => .ok { s with shared := { s.shared with matchPaused := true }, audit := .alerting }
  | .alerting =>
    .ok { s with
      alerts := s.alerts ++ [.criticalDrift config.audit.market config.audit.treasury s.hub.addressBook]
      audit := .waiting }
  | .ended => .error ()

end Audit

/-- The steps of the tasks, in any order. The listener exits, the state of the guardrail is polled, and
the dashboard reads its summary. -/
inductive Action (τ : Type)
  | streamer (event : Option MarketChainEvent)
  | runner
  | settler (input : SettlerInput τ)
  | audit (provider : ViewProvider)
  | listenerExits (failed : Bool)
  | guardrailPolled (paused : Bool)
  | summary (now : ℕ)

def exec {τ : Type} (config : DaemonConfig) (s : Daemon) : Action τ → Except Unit Daemon
  | .streamer event => s.streamerStep event
  | .runner => s.runnerStep
  | .settler input => s.settlerStep config input
  | .audit provider => s.auditStep config provider
  | .listenerExits failed =>
    if s.listening then
      .ok { s with
        listening := false
        hub := if failed then s.hub.setChainListenerConnected false else s.hub }
    else
      .error ()
  | .guardrailPolled paused => .ok { s with hub := s.hub.setGuardrailPaused paused }
  | .summary now => .ok { s with hub := (s.hub.toSummaryJson now).2 }

section Frame
variable {config : DaemonConfig} {provider : ViewProvider} {s next : Daemon}

/-- The streamer touches its own locals, its channel and the height of the chain. -/
theorem streamerStep_frame {event : Option MarketChainEvent} (run : s.streamerStep event = .ok next) :
    ∃ lastBlockHeight streaming streamer releasing events received, next = { s with
      shared := { s.shared with lastBlockHeight }
      streaming, streamer, releasing, events, received } := by
  unfold streamerStep at run
  split at run
  · split at run
    · cases event with
      | none =>
        simp only [streamerReceives] at run
        split at run <;> cases run
        exact ⟨_, _, _, _, _, _, rfl⟩
      | some event =>
        cases run
        cases event <;> exact ⟨_, _, _, _, _, _, rfl⟩
    · unfold streamerReleases at run
      split at run
      · cases run
        exact ⟨_, _, _, _, _, _, rfl⟩
      · split at run <;> cases run
        exact ⟨_, _, _, _, _, _, rfl⟩
  · cases run

/-- The audit touches the flags and the rate of the engine, but no book. -/
theorem auditStep_frame (run : s.auditStep config provider = .ok next) :
    ∃ matchingPaused taxRateBps matchPaused hub audit lastAuditedBlock alerts, next = { s with
      shared := { s.shared with
        engine := { s.shared.engine with matchingPaused, taxRateBps }
        matchPaused }
      hub, audit, lastAuditedBlock, alerts } := by
  unfold auditStep at run
  cases task : s.audit with
  | waiting =>
    simp only [task] at run
    cases run
    unfold auditTicks
    dsimp only
    split
    · exact ⟨_, _, _, _, _, _, _, rfl⟩
    · split
      · exact ⟨_, _, _, _, _, _, _, rfl⟩
      · split
        · exact ⟨_, _, _, _, _, _, _, rfl⟩
        · split <;> exact ⟨_, _, _, _, _, _, _, rfl⟩
  | syncing =>
    simp only [task] at run
    cases run
    unfold auditSyncs
    split
    · split
      · exact ⟨_, _, _, _, _, _, _, rfl⟩
      · rename_i synced
        obtain ⟨_, rfl⟩ := syncTreasuryTaxRateToEngine_frame synced
        exact ⟨_, _, _, _, _, _, _, rfl⟩
    · exact ⟨_, _, _, _, _, _, _, rfl⟩
  | reconciling snap =>
    simp only [task] at run
    cases run
    unfold auditReconciles
    dsimp only
    split
    · exact ⟨_, _, _, _, _, _, _, rfl⟩
    · split <;> exact ⟨_, _, _, _, _, _, _, rfl⟩
  | ended =>
    simp only [task] at run
    cases run
  | _ =>
    simp only [task] at run
    cases run
    exact ⟨_, _, _, _, _, _, _, rfl⟩

/-- The ways through the loop of the runner. -/
inductive RunnerRan (s : Daemon) : Daemon → Prop
  | closes (task : s.runner = .waiting) : RunnerRan s { s with runner := .ended [] }
  | takes {ev : EngineEvent} {events : List EngineEvent} (task : s.runner = .waiting)
      (first : s.events = ev :: events) :
      RunnerRan s ({ s with events, taken := s.taken ++ [ev] }.runnerTakes ev)
  | overflows {companyId vstkAmount aitNotional : ℕ} {buyer seller : Address} {shadow : Shadow}
      (task : s.runner = .applying companyId buyer seller vstkAmount aitNotional)
      (applied : s.shadow.applyFillShadow companyId buyer seller vstkAmount aitNotional = shadow) :
      RunnerRan s { s with shadow, shared := { s.shared with sync := shadow.sync }, runner := .ended [] }
  | applies {companyId vstkAmount aitNotional : ℕ} {buyer seller : Address} {shadow : Shadow}
      (task : s.runner = .applying companyId buyer seller vstkAmount aitNotional)
      (applied : s.shadow.applyFillShadow companyId buyer seller vstkAmount aitNotional = shadow)
      (fits : aitNotional < 2 ^ 128) :
      RunnerRan s { s with
        shadow
        shared := { s.shared with
          sync := shadow.sync
          economicVelocityWei := fetchAdd s.shared.economicVelocityWei (aitNotional % 2 ^ 64) }
        runner := .waiting }
  | panics {record : OrderRecord} {fault : Fault} (task : s.runner = .placing record)
      (placed : s.shared.engine.limitOrderPlacement record = .error fault) :
      RunnerRan s { s with runner := .ended [] }
  | refuses {record : OrderRecord} {e : MatchError} {engine : MatchEngine} (task : s.runner = .placing record)
      (placed : s.shared.engine.limitOrderPlacement record = .ok (.error e, engine)) :
      RunnerRan s { s with shared := { s.shared with engine }, runner := .waiting }
  | fills {record : OrderRecord} {fills : List Fill} {engine : MatchEngine} (task : s.runner = .placing record)
      (placed : s.shared.engine.limitOrderPlacement record = .ok (.ok fills, engine)) :
      RunnerRan s { s with shared := { s.shared with engine }, runner := .counting fills }
  | counted (task : s.runner = .counting []) :
      RunnerRan s { s with
        shared := { s.shared with orderCounter := fetchAdd s.shared.orderCounter 1 }
        runner := .waiting }
  | overcounts {f : Fill} {fills : List Fill} (task : s.runner = .counting (f :: fills)) :
      RunnerRan s { s with runner := .ended (f :: fills) }
  | counts {f : Fill} {fills : List Fill} (task : s.runner = .counting (f :: fills))
      (fits : f.aitNotional < 2 ^ 128) :
      RunnerRan s { s with
        shared := { s.shared with
          economicVelocityWei := fetchAdd s.shared.economicVelocityWei (f.aitNotional % 2 ^ 64)
          pendingSettlements := fetchAdd s.shared.pendingSettlements 1 }
        runner := .sending f fills }
  | abandons {f : Fill} {fills : List Fill} (task : s.runner = .sending f fills) (closed : s.settler = .ended) :
      RunnerRan s { s with runner := .ended (f :: fills) }
  | sends {f : Fill} {fills : List Fill} (task : s.runner = .sending f fills) :
      RunnerRan s { s with fills := s.fills ++ [f], sent := s.sent ++ [f], runner := .counting fills }

theorem runnerStep_ran (run : s.runnerStep = .ok next) : RunnerRan s next := by
  unfold runnerStep at run
  cases task : s.runner with
  | waiting =>
    simp only [task] at run
    split at run
    · split at run <;> cases run
      exact .closes task
    · rename_i first
      cases run
      rw [← task]
      exact .takes task first
  | applying companyId buyer seller vstkAmount aitNotional =>
    simp only [task] at run
    split at run
    · cases run
      exact .overflows task rfl
    · rename_i counted
      cases run
      obtain ⟨fits, rfl⟩ := SharedState.accumulateVelocity_eq counted
      exact .applies task rfl fits
  | placing record =>
    simp only [task] at run
    split at run
    · rename_i placed
      cases run
      exact .panics task placed
    · rename_i placed
      cases run
      exact .refuses task placed
    · rename_i placed
      cases run
      exact .fills task placed
  | counting fills =>
    cases fills with
    | nil =>
      simp only [task] at run
      cases run
      exact .counted task
    | cons f fills =>
      simp only [task] at run
      split at run
      · cases run
        exact .overcounts task
      · rename_i counted
        cases run
        obtain ⟨fits, rfl⟩ := SharedState.accumulateVelocity_eq counted
        exact .counts task fits
  | sending f fills =>
    simp only [task] at run
    split at run
    · rename_i closed
      cases run
      exact .abandons task closed
    · split at run <;> cases run
      exact .sends task
  | ended unsent =>
    simp only [task] at run
    cases run

/-- The runner takes events from the front of its channel. -/
theorem runnerStep_frame (run : s.runnerStep = .ok next) :
    ∃ shared shadow events runner fills taken sent, next = { s with
      shared, shadow, events, runner, fills, taken, sent } ∧ taken ++ events = s.taken ++ s.events := by
  cases runnerStep_ran run with
  | @takes ev events _ first =>
    have kept : s.taken ++ [ev] ++ events = s.taken ++ s.events := by simp [first]
    cases ev with
    | orderPlaced =>
      simp only [runnerTakes]
      split <;> exact ⟨_, _, _, _, _, _, _, rfl, kept⟩
    | _ => exact ⟨_, _, _, _, _, _, _, rfl, kept⟩
  | _ => exact ⟨_, _, _, _, _, _, _, rfl, rfl⟩

/-- The settler touches its own locals, its end of the channel, the flags and the two counters of settlements. -/
theorem settlerStep_frame {τ : Type} {input : SettlerInput τ} (run : s.settlerStep config input = .ok next) :
    ∃ matchingPaused matchPaused pendingSettlements settlementFailStreak hub settler batch fills alerts flushed
      done, next = { s with
        shared := { s.shared with
          engine := { s.shared.engine with matchingPaused }
          matchPaused, pendingSettlements, settlementFailStreak }
        hub, settler, batch, fills, alerts, flushed, done } := by
  unfold settlerStep at run
  cases task : s.settler with
  | collecting =>
    simp only [task, settlerCollects] at run
    split at run
    · cases run
      split <;> exact ⟨_, _, _, _, _, _, _, _, _, _, _, rfl⟩
    · split at run
      · cases run
        split <;> exact ⟨_, _, _, _, _, _, _, _, _, _, _, rfl⟩
      · cases run
        exact ⟨_, _, _, _, _, _, _, _, _, _, _, rfl⟩
      · cases run
  | recording blockNumber fills =>
    cases fills <;> simp only [task] at run <;> cases run <;>
      exact ⟨_, _, _, _, _, _, _, _, _, _, _, rfl⟩
  | sending settler calls =>
    cases calls with
    | nil =>
      simp only [task] at run
      cases run
      exact ⟨_, _, _, _, _, _, _, _, _, _, _, rfl⟩
    | cons call calls =>
      cases settler with
      | none =>
        simp only [task] at run
        cases run
        exact ⟨_, _, _, _, _, _, _, _, _, _, _, rfl⟩
      | some settler =>
        simp only [task] at run
        cases run
        unfold settlerSends
        split <;> exact ⟨_, _, _, _, _, _, _, _, _, _, _, rfl⟩
  | pausing stage streak settler calls =>
    simp only [task] at run
    cases run
    cases stage <;> exact ⟨_, _, _, _, _, _, _, _, _, _, _, rfl⟩
  | ended =>
    simp only [task] at run
    cases run

end Frame

end Daemon

end Aide
