import Aide.Engine.Matching
import Aide.Engine.Streamer
import Aide.Engine.Sync

namespace Aide.Engine

/-- `fetch_add` and `fetch_sub` of an `AtomicU64`, which wrap. -/
def fetchAdd (counter delta : ℕ) : ℕ := (counter + delta) % 2 ^ 64

def fetchSub (counter delta : ℕ) : ℕ :=
  if delta ≤ counter then counter - delta else counter + 2 ^ 64 - delta

/-- What the tasks of the daemon share. -/
structure SharedState where
  engine : MatchEngine
  sync : SyncCoordinator
  matchPaused : Bool
  orderCounter : ℕ
  pendingSettlements : ℕ
  settlementFailStreak : ℕ
  economicVelocityWei : ℕ
  lastBlockHeight : ℕ

namespace SharedState

def new : SharedState where
  engine := .new
  sync := .new
  matchPaused := false
  orderCounter := 0
  pendingSettlements := 0
  settlementFailStreak := 0
  economicVelocityWei := 0
  lastBlockHeight := 0

/-- `delta.to::<u128>()` panics when the value does not fit. -/
def accumulateVelocity (state : SharedState) (delta : ℕ) : Option SharedState :=
  if delta < 2 ^ 128 then
    some { state with
      economicVelocityWei := fetchAdd state.economicVelocityWei (delta % 2 ^ 64) }
  else
    none

/-- What is left when the match runner has handled an event: the shared state, the fills sent to
the settler, and whether the task is still alive. -/
structure Handled where
  state : SharedState
  sent : List Fill
  alive : Bool

/-- The loop over the fills of one order. -/
def pushFills (state : SharedState) : List Fill → Handled
  | [] => ⟨{ state with orderCounter := fetchAdd state.orderCounter 1 }, [], true⟩
  | f :: fills =>
    match state.accumulateVelocity f.aitNotional with
    | none => ⟨state, [], false⟩
    | some state =>
      let handled := pushFills
        { state with pendingSettlements := fetchAdd state.pendingSettlements 1 } fills
      { handled with sent := f :: handled.sent }

/-- One pass of the loop of `run_match_runner`. -/
def handle (state : SharedState) : EngineEvent → Handled
  | .newBlock number => ⟨{ state with lastBlockHeight := number }, [], true⟩
  | .orderCancelled _ companyId orderId =>
    ⟨{ state with engine := (state.engine.ingestCancel companyId orderId).2 }, [], true⟩
  | .tradeSettled block companyId buyer seller vstkAmount aitNotional =>
    let state := { state with
      lastBlockHeight := block
      sync := state.sync.applyFillShadow companyId buyer seller vstkAmount aitNotional }
    match state.accumulateVelocity aitNotional with
    | none => ⟨state, [], false⟩
    | some state => ⟨state, [], true⟩
  | .orderPlaced _ orderId companyId maker side priceRay amount timestamp =>
    if state.matchPaused || state.engine.matchingPaused then
      ⟨state, [], true⟩
    else
      let record : OrderRecord :=
        { orderId, companyId, maker, side, priceRay, remaining := amount, timestamp }
      match state.engine.limitOrderPlacement record with
      | .error _ => ⟨state, [], false⟩
      | .ok (.error _, engine) => ⟨{ state with engine }, [], true⟩
      | .ok (.ok fills, engine) => pushFills { state with engine } fills

theorem accumulateVelocity_engine {state counted : SharedState} {delta : ℕ}
    (fits : state.accumulateVelocity delta = some counted) : counted.engine = state.engine := by
  unfold accumulateVelocity at fits
  split at fits <;> cases fits
  rfl

/-- A runner that survives the loop has sent every fill. -/
theorem pushFills_alive {state : SharedState} {fills : List Fill}
    (alive : (state.pushFills fills).alive = true) :
    (state.pushFills fills).sent = fills ∧
      (state.pushFills fills).state.engine = state.engine := by
  induction fills generalizing state with
  | nil => exact ⟨rfl, rfl⟩
  | cons f fills ih =>
    unfold pushFills at alive ⊢
    cases fits : state.accumulateVelocity f.aitNotional with
    | none =>
      simp only [fits] at alive
      cases alive
    | some counted =>
      simp only [fits] at alive ⊢
      have kept := accumulateVelocity_engine fits
      obtain ⟨sent, engine⟩ := ih alive
      exact ⟨congrArg (f :: ·) sent, engine.trans kept⟩

/-- The loop sends the same fills from every state, and touches neither the engine nor the flag. -/
theorem pushFills_spec (state other : SharedState) (fills : List Fill) :
    (state.pushFills fills).sent = (other.pushFills fills).sent ∧
      (state.pushFills fills).alive = (other.pushFills fills).alive ∧
      (state.pushFills fills).state.engine = state.engine ∧
      (state.pushFills fills).state.matchPaused = state.matchPaused := by
  induction fills generalizing state other with
  | nil => exact ⟨rfl, rfl, rfl, rfl⟩
  | cons f fills ih =>
    unfold pushFills accumulateVelocity
    by_cases fits : f.aitNotional < 2 ^ 128
    · simp only [fits, if_true]
      obtain ⟨sent, alive, engine, flag⟩ := ih
        { state with
          economicVelocityWei := fetchAdd state.economicVelocityWei (f.aitNotional % 2 ^ 64)
          pendingSettlements := fetchAdd state.pendingSettlements 1 }
        { other with
          economicVelocityWei := fetchAdd other.economicVelocityWei (f.aitNotional % 2 ^ 64)
          pendingSettlements := fetchAdd other.pendingSettlements 1 }
      exact ⟨congrArg (f :: ·) sent, alive, engine, flag⟩
    · simp only [fits, if_false]
      exact ⟨trivial, trivial, trivial, trivial⟩

theorem pushFills_sent {state : SharedState} {fills : List Fill} :
    (state.pushFills fills).sent ⊆ fills := by
  induction fills generalizing state with
  | nil => exact List.Subset.refl _
  | cons f fills ih =>
    unfold pushFills
    cases state.accumulateVelocity f.aitNotional with
    | none => exact List.nil_subset _
    | some counted => exact List.cons_subset_cons f ih

/-- The loop of `run_match_runner` over the events that it receives. -/
def runMatchRunner (state : SharedState) : List EngineEvent → Handled
  | [] => ⟨state, [], true⟩
  | ev :: events =>
    let handled := state.handle ev
    if handled.alive then
      let rest := handled.state.runMatchRunner events
      { rest with sent := handled.sent ++ rest.sent }
    else
      handled

section Run
variable {state : SharedState} {ev : EngineEvent} {events more : List EngineEvent}

theorem runMatchRunner_alive (alive : (state.handle ev).alive = true) :
    state.runMatchRunner (ev :: events) =
      { (state.handle ev).state.runMatchRunner events with
        sent := (state.handle ev).sent ++ ((state.handle ev).state.runMatchRunner events).sent } :=
  if_pos alive

theorem runMatchRunner_dead (dead : (state.handle ev).alive = false) :
    state.runMatchRunner (ev :: events) = state.handle ev :=
  if_neg (Bool.eq_false_iff.mp dead)

theorem runMatchRunner_singleton : state.runMatchRunner [ev] = state.handle ev := by
  cases survives : (state.handle ev).alive with
  | false => exact runMatchRunner_dead survives
  | true =>
    rw [runMatchRunner_alive survives]
    simp [runMatchRunner, ← survives]

/-- A runner that survives the first events goes on with the others. -/
theorem runMatchRunner_append (alive : (state.runMatchRunner events).alive = true) :
    state.runMatchRunner (events ++ more) =
      { (state.runMatchRunner events).state.runMatchRunner more with
        sent := (state.runMatchRunner events).sent ++
          ((state.runMatchRunner events).state.runMatchRunner more).sent } := by
  induction events generalizing state with
  | nil => rfl
  | cons ev events ih =>
    cases survives : (state.handle ev).alive with
    | false =>
      rw [runMatchRunner_dead survives] at alive
      cases survives.symm.trans alive
    | true =>
      rw [List.cons_append, runMatchRunner_alive survives, runMatchRunner_alive survives]
      rw [runMatchRunner_alive survives] at alive
      rw [ih alive, List.append_assoc]

/-- More events take back none of the fills that were sent. -/
theorem runMatchRunner_sent : (state.runMatchRunner events).sent ⊆
    (state.runMatchRunner (events ++ more)).sent := by
  induction events generalizing state with
  | nil => exact List.nil_subset _
  | cons ev events ih =>
    cases survives : (state.handle ev).alive with
    | false =>
      rw [List.cons_append, runMatchRunner_dead survives, runMatchRunner_dead survives]
      exact List.Subset.refl _
    | true =>
      rw [List.cons_append, runMatchRunner_alive survives, runMatchRunner_alive survives]
      intro f member
      exact List.mem_append.mpr ((List.mem_append.mp member).imp_right fun later => ih later)

end Run

/-- `flush_batch` after a call that `send_settle_trade_with_retry` takes for confirmed. -/
def settlementConfirmed (state : SharedState) : SharedState :=
  { state with
    settlementFailStreak := 0
    pendingSettlements := fetchSub state.pendingSettlements 1 }

/-- `flush_batch` after a call whose retries are exhausted. -/
def settlementFailed (state : SharedState) : SharedState :=
  let settlementFailStreak := (state.settlementFailStreak + 1) % 2 ^ 32
  if 3 ≤ settlementFailStreak then
    { state with
      settlementFailStreak
      engine := { state.engine with matchingPaused := true }
      matchPaused := true }
  else
    { state with settlementFailStreak }

theorem settlementFailed_engine (state : SharedState) : ∃ matchingPaused,
    state.settlementFailed.engine = { state.engine with matchingPaused } := by
  unfold settlementFailed
  by_cases streak : 3 ≤ (state.settlementFailStreak + 1) % 2 ^ 32
  · exact ⟨true, by simp only [streak, if_true]⟩
  · exact ⟨state.engine.matchingPaused, by simp only [streak, if_false]⟩

end SharedState

end Aide.Engine
