import Aide.Contracts.MarketRun
import Aide.Engine.MatchRunner

namespace Aide.Engine

/-- The market, the events on their way to the match runner, what the daemon shares, and the fills
on their way back. A confirmed event stands in the buffer of the streamer until the runner takes it. -/
structure Pipeline (τ : Type) where
  world : World τ
  streamer : Streamer
  state : SharedState
  alive : Bool
  fills : List Fill
  /-- The orders whose placement reached the runner while matching was paused. -/
  dropped : List ℕ

namespace Pipeline
variable {τ : Type}

/-- The daemon is started with a market that has just been deployed. -/
def started (w : World τ) (admin : Address) : Pipeline τ where
  world := { w with market := InternalMarket.constructed admin }
  streamer := .new
  state := .new
  alive := true
  fills := []
  dropped := []

/-- A step of the market other than a settlement, the delivery of the next event, the next fill
sent in a transaction or given up after all retries, and pausing or resuming. -/
inductive Action (τ : Type)
  | chain (block : ℕ) (action : MarketAction τ)
  | deliver
  | settle (block : ℕ) (msg : Msg) (settlementId : Bytes32)
  | exhaust
  | pause (matchPaused matchingPaused : Bool)

/-- The logs of the market up to `next` go to the streamer. -/
def follow (s : Pipeline τ) (block : ℕ) (next : World τ) : Pipeline τ :=
  { s with
    world := next
    streamer := ((next.log.drop s.world.log.length).filterMap (processLog block)).foldl
      (fun streamer event => (streamer.receive event).1) s.streamer }

theorem follow_eq {s : Pipeline τ} {w : World τ} {block : ℕ} {emitted : List Event}
    (logs : w.log = s.world.log ++ emitted) :
    s.follow block w = { s with
      world := w
      streamer := (emitted.filterMap (processLog block)).foldl
        (fun streamer event => (streamer.receive event).1) s.streamer } := by
  rw [follow, logs, List.drop_left]

def isSettlement : MarketAction τ → Bool
  | .own _ (.settleTrade ..) => true
  | _ => false

/-- The orders that a runner drops because matching is paused. -/
def droppedBy (state : SharedState) : EngineEvent → List ℕ
  | .orderPlaced _ orderId .. =>
    if state.matchPaused || state.engine.matchingPaused then [orderId] else []
  | _ => []

variable [AitToken τ]

/-- A transaction that is reverted counts as confirmed, because its receipt is not looked into. -/
def exec (d : Deployment) (s : Pipeline τ) : Action τ → Except Unit (Pipeline τ)
  | .chain block action =>
    if isSettlement action then
      .error ()
    else
      match MarketAction.exec d s.world action with
      | .error _ => .error ()
      | .ok next => .ok (s.follow block next)
  | .deliver =>
    match s.streamer.buf.queue with
    | [] => .error ()
    | (_, ev) :: queue =>
      if s.alive then
        let handled := s.state.handle ev
        .ok { s with
          streamer := { s.streamer with buf := { s.streamer.buf with queue } }
          state := handled.state
          alive := handled.alive
          fills := s.fills ++ handled.sent
          dropped := droppedBy s.state ev ++ s.dropped }
      else
        .error ()
  | .settle block msg settlementId =>
    match s.fills with
    | [] => .error ()
    | f :: fills =>
      let s := { s with fills, state := s.state.settlementConfirmed }
      match InternalMarket.settleTrade d msg f.makerOrderId f.takerOrderId f.vstkAmount f.aitNotional
          settlementId s.world with
      | .error _ => .ok s
      | .ok next => .ok (s.follow block next)
  | .exhaust =>
    match s.fills with
    | [] => .error ()
    | _ :: fills => .ok { s with fills, state := s.state.settlementFailed }
  | .pause matchPaused matchingPaused =>
    .ok { s with state := { s.state with
      matchPaused
      engine := { s.state.engine with matchingPaused } } }

variable {d : Deployment} {s next : Pipeline τ}

/-- What a step does, with what it has to find. -/
inductive Stepped (d : Deployment) (s : Pipeline τ) : Action τ → Pipeline τ → Prop
  | own {block msg call w} : isSettlement (τ := τ) (.own msg call) = false →
      InternalMarket.exec d msg call s.world = .ok w →
      Stepped d s (.chain block (.own msg call)) (s.follow block w)
  | elsewhere {block} {world : World τ} : Stepped d s (.chain block (.elsewhere world))
      (s.follow block { world with market := s.world.market, log := s.world.log })
  | delivered {block ev queue} : s.streamer.buf.queue = (block, ev) :: queue → s.alive = true →
      Stepped d s .deliver { s with
        streamer := { s.streamer with buf := { s.streamer.buf with queue } }
        state := (s.state.handle ev).state
        alive := (s.state.handle ev).alive
        fills := s.fills ++ (s.state.handle ev).sent
        dropped := droppedBy s.state ev ++ s.dropped }
  | settled {block msg settlementId f fills w} : s.fills = f :: fills →
      InternalMarket.settleTrade d msg f.makerOrderId f.takerOrderId f.vstkAmount f.aitNotional
        settlementId s.world = .ok w →
      Stepped d s (.settle block msg settlementId)
        ({ s with fills, state := s.state.settlementConfirmed }.follow block w)
  | reverted {block msg settlementId f fills error} : s.fills = f :: fills →
      InternalMarket.settleTrade d msg f.makerOrderId f.takerOrderId f.vstkAmount f.aitNotional
        settlementId s.world = .error error →
      Stepped d s (.settle block msg settlementId)
        { s with fills, state := s.state.settlementConfirmed }
  | exhausted {f fills} : s.fills = f :: fills →
      Stepped d s .exhaust { s with fills, state := s.state.settlementFailed }
  | paused {matchPaused matchingPaused} : Stepped d s (.pause matchPaused matchingPaused)
      { s with state := { s.state with
        matchPaused
        engine := { s.state.engine with matchingPaused } } }

theorem stepped_of_exec {action : Action τ} (run : s.exec d action = .ok next) :
    Stepped d s action next := by
  cases action with
  | chain block action =>
    simp only [exec] at run
    split at run
    · cases run
    · rename_i other
      split at run
      · cases run
      · rename_i w taken
        cases run
        cases action with
        | own msg call => exact .own (Bool.eq_false_iff.mpr other) taken
        | elsewhere world =>
          cases taken
          exact .elsewhere
  | deliver =>
    simp only [exec] at run
    split at run
    · cases run
    · rename_i block ev queue first
      split at run
      · rename_i alive
        cases run
        exact .delivered first alive
      · cases run
  | settle block msg settlementId =>
    simp only [exec] at run
    split at run
    · cases run
    · rename_i f fills first
      split at run
      · rename_i error failed
        cases run
        exact .reverted first failed
      · rename_i w taken
        cases run
        exact .settled first taken
  | exhaust =>
    simp only [exec] at run
    split at run
    · cases run
    · rename_i f fills first
      cases run
      exact .exhausted first
  | pause matchPaused matchingPaused =>
    cases run
    exact .paused

end Pipeline

end Aide.Engine
