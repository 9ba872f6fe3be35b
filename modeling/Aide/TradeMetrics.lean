import Aide.Engine.MatchRunner
import Aide.Engine.Telemetry
import Aide.Foundation.TransitionRun
import Mathlib.Algebra.BigOperators.Group.List.Basic
import Mathlib.Data.Nat.ModEq

namespace Aide

open Engine

namespace Engine.TelemetryHub

/-- What `flush_batch` records of one fill. The clock is read up to four times. -/
def recordFill (hub : TelemetryHub) (blockNumber taxBps : ℕ) (clock : ℕ → ℕ) (f : Fill) :
    TelemetryHub :=
  let hub := hub.recordTradeSettled (clock 0) (clock 1) blockNumber f.aitNotional f.vstkAmount
  let hub := hub.recordVstkNotional (clock 2) f.vstkAmount
  if 0 < taxBps ∧ f.aitNotional ≠ 0 then
    hub.recordTax (clock 3) (f.aitNotional * taxBps % 2 ^ 256 / 10000)
  else
    hub

/-- What `flush_batch` records before it sends the batch. -/
def recordFills (blockNumber taxBps : ℕ) : TelemetryHub → (ℕ → ℕ) → List Fill → TelemetryHub
  | hub, _, [] => hub
  | hub, clock, f :: fills =>
    recordFills blockNumber taxBps (hub.recordFill blockNumber taxBps clock f)
      (fun i => clock (i + 4)) fills

/-- While no sample is too old at any reading of the clock, no sample of the volume is evicted. -/
def Undisturbed (hub : TelemetryHub) (clock : ℕ → ℕ) (fills : List Fill) : Prop :=
  (∀ i < 4 * fills.length, hub.vstkWindow.Fresh (clock i) ∧
    ∀ j < 4 * fills.length, clock i - clock j ≤ hub.vstkWindow.window) ∧
  hub.vstkWindow.sum + 2 * (fills.map Fill.vstkAmount).sum ≤ uint256Max

instance (hub : TelemetryHub) (clock : ℕ → ℕ) (fills : List Fill) :
    Decidable (hub.Undisturbed clock fills) :=
  have (now : ℕ) : Decidable (hub.vstkWindow.Fresh now) :=
    inferInstanceAs (Decidable (∀ sample ∈ _, _))
  inferInstanceAs (Decidable (_ ∧ _))

variable {hub : TelemetryHub} {blockNumber taxBps : ℕ} {clock : ℕ → ℕ} {f : Fill} {fills : List Fill}

/-- One fill enters the volume twice. -/
theorem vstkWindow_recordFill (undisturbed : hub.Undisturbed clock (f :: fills)) :
    (hub.recordFill blockNumber taxBps clock f).vstkWindow = { hub.vstkWindow with
      samples := hub.vstkWindow.samples ++ [(clock 1, f.vstkAmount)] ++ [(clock 2, f.vstkAmount)]
      sum := hub.vstkWindow.sum + f.vstkAmount + f.vstkAmount } := by
  obtain ⟨fresh, fits⟩ := undisturbed
  simp only [List.length_cons, List.map_cons, List.sum_cons] at fresh fits
  have first := SlidingWindow.record_of_fresh (fresh 1 (by omega)).1
    (show hub.vstkWindow.sum + f.vstkAmount ≤ uint256Max by omega)
  have freshNext : SlidingWindow.Fresh { hub.vstkWindow with
      samples := hub.vstkWindow.samples ++ [(clock 1, f.vstkAmount)]
      sum := hub.vstkWindow.sum + f.vstkAmount } (clock 2) := by
    intro sample member
    rcases List.mem_append.mp member with old | new
    · exact (fresh 2 (by omega)).1 sample old
    · cases List.mem_singleton.mp new
      exact (fresh 2 (by omega)).2 1 (by omega)
  have second := SlidingWindow.record_of_fresh freshNext
    (show hub.vstkWindow.sum + f.vstkAmount + f.vstkAmount ≤ uint256Max by omega)
  rw [recordFill]
  simp only [recordTradeSettled, recordVstkNotional, first, second]
  split <;> rfl

theorem Undisturbed.rest (undisturbed : hub.Undisturbed clock (f :: fills)) :
    (hub.recordFill blockNumber taxBps clock f).Undisturbed (fun i => clock (i + 4)) fills := by
  have recorded : (hub.recordFill blockNumber taxBps clock f).vstkWindow = _ :=
    vstkWindow_recordFill undisturbed
  obtain ⟨fresh, fits⟩ := undisturbed
  simp only [List.length_cons, List.map_cons, List.sum_cons] at fresh fits
  refine ⟨fun i bound => ?_, ?_⟩
  · rw [recorded]
    refine ⟨fun sample member => ?_, fun j boundJ => (fresh (i + 4) (by omega)).2 (j + 4) (by omega)⟩
    simp only [List.mem_append, List.mem_singleton] at member
    rcases member with (old | rfl) | rfl
    · exact (fresh (i + 4) (by omega)).1 sample old
    · exact (fresh (i + 4) (by omega)).2 1 (by omega)
    · exact (fresh (i + 4) (by omega)).2 2 (by omega)
  · rw [recorded]
    show hub.vstkWindow.sum + f.vstkAmount + f.vstkAmount + _ ≤ _
    omega

/-- A batch enters the volume twice. -/
theorem sum_recordFills (undisturbed : hub.Undisturbed clock fills) :
    (hub.recordFills blockNumber taxBps clock fills).vstkWindow.sum =
      hub.vstkWindow.sum + 2 * (fills.map Fill.vstkAmount).sum := by
  induction fills generalizing hub clock with
  | nil => rfl
  | cons f fills ih =>
    rw [recordFills, ih undisturbed.rest, vstkWindow_recordFill undisturbed, List.map_cons,
      List.sum_cons]
    show hub.vstkWindow.sum + f.vstkAmount + f.vstkAmount + _ = _
    omega

end Engine.TelemetryHub

/-- The amount and the notional of a trade that comes back. -/
def Engine.EngineEvent.trade : EngineEvent → List (ℕ × ℕ)
  | .tradeSettled _ _ _ _ vstkAmount aitNotional => [(vstkAmount, aitNotional)]
  | _ => []

/-- The match runner and the settler with what they count. The last three fields keep account of the
fills that the runner has sent, of those that the settler has flushed, and of the trades that have
come back to the runner. -/
structure Metered where
  state : SharedState
  alive : Bool
  telemetry : TelemetryHub
  channel : List Fill
  batch : List Fill
  emitted : List Fill
  flushed : List Fill
  returned : List (ℕ × ℕ)

namespace Metered

def started (state : SharedState) (telemetry : TelemetryHub) : Metered where
  state
  alive := true
  telemetry
  channel := []
  batch := []
  emitted := []
  flushed := []
  returned := []

/-- The runner takes an event, the settler takes a fill, flushes its batch, or is done with sending one
of the calls. -/
inductive Action
  | event (ev : EngineEvent)
  | receive
  | flush (clock : ℕ → ℕ)
  | sent (confirmed : Bool)

def exec (s : Metered) : Action → Except Unit Metered
  | .event ev =>
    if s.alive then
      let handled := s.state.handle ev
      .ok { s with
        state := handled.state
        alive := handled.alive
        channel := s.channel ++ handled.sent
        emitted := s.emitted ++ handled.sent
        returned := if handled.alive then s.returned ++ ev.trade else s.returned }
    else
      .error ()
  | .receive =>
    match s.channel with
    | [] => .error ()
    | f :: channel => .ok { s with channel, batch := s.batch ++ [f] }
  | .flush clock =>
    .ok { s with
      telemetry := s.telemetry.recordFills s.state.lastBlockHeight s.state.engine.taxRateBps clock s.batch
      batch := []
      flushed := s.flushed ++ s.batch }
  | .sent confirmed =>
    .ok { s with
      state := if confirmed then s.state.settlementConfirmed else s.state.settlementFailed }

/-- A flush evicts no sample of the volume and does not saturate its sum. -/
def Undisturbed (s : Metered) : Action → Prop
  | .flush clock => s.telemetry.Undisturbed clock s.batch
  | _ => True

instance (s : Metered) : DecidablePred s.Undisturbed
  | .event _ => isTrue trivial
  | .receive => isTrue trivial
  | .flush clock => inferInstanceAs (Decidable (s.telemetry.Undisturbed clock s.batch))
  | .sent _ => isTrue trivial

end Metered

/-- The amounts and the notionals of fills. -/
def Engine.Fill.trade (f : Fill) : ℕ × ℕ := (f.vstkAmount, f.aitNotional)

def vstkTotal (trades : List (ℕ × ℕ)) : ℕ := (trades.map Prod.fst).sum

def aitTotal (trades : List (ℕ × ℕ)) : ℕ := (trades.map Prod.snd).sum

theorem vstkTotal_append (trades more : List (ℕ × ℕ)) :
    vstkTotal (trades ++ more) = vstkTotal trades + vstkTotal more := by
  rw [vstkTotal, List.map_append, List.sum_append]
  rfl

theorem aitTotal_append (trades more : List (ℕ × ℕ)) :
    aitTotal (trades ++ more) = aitTotal trades + aitTotal more := by
  rw [aitTotal, List.map_append, List.sum_append]
  rfl

theorem vstkTotal_trades (fills : List Fill) :
    vstkTotal (fills.map Fill.trade) = (fills.map Fill.vstkAmount).sum := by
  rw [vstkTotal, List.map_map]
  rfl

namespace Engine.SharedState

theorem fetchAdd_modEq (counter delta : ℕ) :
    fetchAdd counter (delta % 2 ^ 64) ≡ counter + delta [MOD 2 ^ 64] :=
  (Nat.mod_modEq _ _).trans ((Nat.mod_modEq delta _).add_left counter)

/-- Every fill that is sent has been counted. -/
theorem velocity_pushFills (state : SharedState) (fills : List Fill) :
    (state.pushFills fills).state.economicVelocityWei ≡
      state.economicVelocityWei + aitTotal ((state.pushFills fills).sent.map Fill.trade) [MOD 2 ^ 64] := by
  induction fills generalizing state with
  | nil => exact Nat.ModEq.refl _
  | cons f fills ih =>
    unfold pushFills
    cases counted : state.accumulateVelocity f.aitNotional with
    | none => exact Nat.ModEq.refl _
    | some after =>
      have velocity : after.economicVelocityWei ≡ state.economicVelocityWei + f.aitNotional [MOD 2 ^ 64] := by
        unfold accumulateVelocity at counted
        split at counted <;> cases counted
        exact fetchAdd_modEq ..
      refine (ih _).trans ((velocity.add_right _).trans ?_)
      rw [Nat.add_assoc]
      exact Nat.ModEq.refl _

/-- A trade that comes back is counted unless its notional stops the runner. -/
theorem handle_tradeSettled (state : SharedState) {block companyId vstkAmount aitNotional : ℕ}
    {buyer seller : Address} :
    state.handle (.tradeSettled block companyId buyer seller vstkAmount aitNotional) =
      ⟨{ state with
          lastBlockHeight := block
          sync := state.sync.applyFillShadow companyId buyer seller vstkAmount aitNotional
          economicVelocityWei := if aitNotional < 2 ^ 128 then
            fetchAdd state.economicVelocityWei (aitNotional % 2 ^ 64) else state.economicVelocityWei },
        [], decide (aitNotional < 2 ^ 128)⟩ := by
  simp only [handle]
  by_cases fits : aitNotional < 2 ^ 128
  · rw [accumulateVelocity, if_pos fits, if_pos fits, decide_eq_true fits]
  · rw [accumulateVelocity, if_neg fits, if_neg fits, decide_eq_false fits]

/-- The trades that an event makes the runner count. -/
theorem velocity_handle (state : SharedState) (ev : EngineEvent) :
    (state.handle ev).state.economicVelocityWei ≡ state.economicVelocityWei +
      (aitTotal ((state.handle ev).sent.map Fill.trade) +
        aitTotal (if (state.handle ev).alive then ev.trade else [])) [MOD 2 ^ 64] := by
  cases ev with
  | newBlock => exact Nat.ModEq.refl _
  | orderCancelled => exact Nat.ModEq.refl _
  | tradeSettled block companyId buyer seller vstkAmount aitNotional =>
    rw [handle_tradeSettled]
    by_cases fits : aitNotional < 2 ^ 128
    · simp only [fits, decide_true, if_true, List.map_nil]
      refine (fetchAdd_modEq ..).trans ?_
      simp [aitTotal, EngineEvent.trade, Nat.ModEq.refl]
    · simp only [fits, decide_false, if_false]
      exact Nat.ModEq.refl _
  | orderPlaced =>
    have noTrade : ∀ alive : Bool, aitTotal (if alive then [] else []) = 0 := by
      intro alive
      cases alive <;> rfl
    simp only [EngineEvent.trade, noTrade, Nat.add_zero]
    simp only [handle]
    split
    · exact Nat.ModEq.refl _
    · split
      · exact Nat.ModEq.refl _
      · exact Nat.ModEq.refl _
      · exact velocity_pushFills _ _

theorem velocity_settlementFailed (state : SharedState) :
    state.settlementFailed.economicVelocityWei = state.economicVelocityWei := by
  unfold settlementFailed
  dsimp only
  split <;> rfl

end Engine.SharedState

namespace Metered
variable {state : SharedState} {telemetry : TelemetryHub} {s next : Metered} {action : Action}

/-- What has been sent is on its way or flushed. A fill counts twice for the volume once it is flushed, and
its notional counts for the velocity when it is sent and when it comes back. -/
structure Recorded (state : SharedState) (telemetry : TelemetryHub) (s : Metered) : Prop where
  kept : s.emitted = s.flushed ++ s.batch ++ s.channel
  volume : s.telemetry.vstkWindow.sum =
    telemetry.vstkWindow.sum + 2 * vstkTotal (s.flushed.map Fill.trade)
  velocity : s.state.economicVelocityWei ≡ state.economicVelocityWei +
    (aitTotal (s.emitted.map Fill.trade) + aitTotal s.returned) [MOD 2 ^ 64]

/-- The runner counts what it sends and what comes back. -/
theorem Recorded.event {ev : EngineEvent} (recorded : Recorded state telemetry s)
    (run : s.exec (.event ev) = .ok next) : Recorded state telemetry next := by
  obtain ⟨kept, volume, velocity⟩ := recorded
  simp only [Metered.exec] at run
  split at run
  · cases run
    refine ⟨?_, volume, ?_⟩
    · rw [kept, List.append_assoc]
    · refine (SharedState.velocity_handle s.state ev).trans ((velocity.add_right _).trans ?_)
      have returned : aitTotal (if (s.state.handle ev).alive then s.returned ++ ev.trade else s.returned) =
          aitTotal s.returned + aitTotal (if (s.state.handle ev).alive then ev.trade else []) := by
        split
        · exact aitTotal_append ..
        · rfl
      rw [List.map_append, aitTotal_append, returned]
      have sums : ∀ a b c d e : ℕ, a + (b + c) + (d + e) = a + (b + d + (c + e)) := by omega
      rw [sums]
  · cases run

/-- A flush records its batch twice. -/
theorem Recorded.flush {clock : ℕ → ℕ} (recorded : Recorded state telemetry s)
    (undisturbed : s.telemetry.Undisturbed clock s.batch) (run : s.exec (.flush clock) = .ok next) :
    Recorded state telemetry next := by
  obtain ⟨kept, volume, velocity⟩ := recorded
  cases run
  refine ⟨?_, ?_, velocity⟩
  · rw [kept, List.append_nil]
  · show (s.telemetry.recordFills _ _ clock s.batch).vstkWindow.sum = _
    rw [TelemetryHub.sum_recordFills undisturbed, volume, List.map_append, vstkTotal_append,
      vstkTotal_trades s.batch]
    omega

theorem Recorded.exec (recorded : Recorded state telemetry s) (undisturbed : s.Undisturbed action)
    (run : s.exec action = .ok next) : Recorded state telemetry next := by
  cases action with
  | event ev => exact recorded.event run
  | flush clock => exact recorded.flush undisturbed run
  | receive =>
    simp only [Metered.exec] at run
    split at run
    · cases run
    · rename_i f channel first
      cases run
      refine ⟨?_, recorded.volume, recorded.velocity⟩
      rw [recorded.kept, first]
      simp
  | sent confirmed =>
    cases run
    refine ⟨recorded.kept, recorded.volume, ?_⟩
    cases confirmed with
    | true => exact recorded.velocity
    | false =>
      have same := SharedState.velocity_settlementFailed s.state
      exact (congrArg (· % 2 ^ 64) same).trans recorded.velocity

/-- Every fill has been flushed, and its trade has come back. -/
structure Settled (s : Metered) : Prop where
  received : s.channel = []
  flushed : s.batch = []
  returned : s.returned.Perm (s.emitted.map Fill.trade)

/-- The volume and the velocity have grown by what was traded. -/
structure CountsOnce (s next : Metered) : Prop where
  volume : next.telemetry.vstkWindow.sum =
    s.telemetry.vstkWindow.sum + vstkTotal (next.emitted.map Fill.trade)
  velocity : next.state.economicVelocityWei ≡
    s.state.economicVelocityWei + aitTotal (next.emitted.map Fill.trade) [MOD 2 ^ 64]

theorem Recorded.countsOnce_iff (recorded : Recorded state telemetry s) (settled : s.Settled) :
    CountsOnce (started state telemetry) s ↔
      vstkTotal (s.emitted.map Fill.trade) = 0 ∧ 2 ^ 64 ∣ aitTotal (s.emitted.map Fill.trade) := by
  obtain ⟨kept, volume, velocity⟩ := recorded
  obtain ⟨received, flushed, returned⟩ := settled
  rw [received, flushed, List.append_nil, List.append_nil] at kept
  have cameBack : aitTotal s.returned = aitTotal (s.emitted.map Fill.trade) :=
    (returned.map Prod.snd).sum_eq
  rw [← kept] at volume
  rw [cameBack] at velocity
  have twice : s.telemetry.vstkWindow.sum = telemetry.vstkWindow.sum +
      vstkTotal (s.emitted.map Fill.trade) ↔ vstkTotal (s.emitted.map Fill.trade) = 0 := by omega
  constructor
  · rintro ⟨once, counted⟩
    have none := Nat.ModEq.add_left_cancel' _ (velocity.symm.trans counted)
    exact ⟨twice.mp once, Nat.modEq_zero_iff_dvd.mp (Nat.ModEq.add_left_cancel' _ none)⟩
  · rintro ⟨nothing, multiple⟩
    refine ⟨twice.mpr nothing, velocity.trans (Nat.ModEq.add_left _ ?_)⟩
    exact Nat.ModEq.add_left _ (Nat.modEq_zero_iff_dvd.mpr multiple)

end Metered

open Metered

variable {state : SharedState} {telemetry : TelemetryHub} {run : List Metered.Action} {s : Metered}

/-- Once all trades of a run have been flushed and have come back, each is counted once if and only if
there is nothing to count. -/
theorem counted_once_iff (undisturbed : TransitionRun.Meets Metered.exec Undisturbed (started state telemetry) run)
    (ends : TransitionRun.exec Metered.exec (started state telemetry) run = s) (settled : s.Settled) :
    CountsOnce (started state telemetry) s ↔
      vstkTotal (s.emitted.map Fill.trade) = 0 ∧ 2 ^ 64 ∣ aitTotal (s.emitted.map Fill.trade) := by
  have start : Recorded state telemetry (started state telemetry) := ⟨rfl, rfl, Nat.ModEq.refl _⟩
  have recorded := TransitionRun.exec_preserves (I := Recorded state telemetry)
    (fun _ _ _ recorded undisturbed run => recorded.exec undisturbed run) start undisturbed
  rw [ends] at recorded
  exact recorded.countsOnce_iff settled

/-- An offer of four shares for half a token each is bought, flushed, settled and logged. -/
def oneTrade : List Metered.Action :=
  [.event (.orderPlaced 1 1 7 11 .sell (5 * 10 ^ 17) 4 0), .event (.orderPlaced 1 2 7 12 .buy (10 ^ 18) 4 0),
    .receive, .flush fun _ => 0, .sent true, .event (.tradeSettled 2 7 12 11 4 2)]

/-- The daemon after the trade. -/
def afterOneTrade : Metered := TransitionRun.exec Metered.exec (started .new .new) oneTrade

theorem one_trade_settled : afterOneTrade.Settled :=
  ⟨by decide +kernel, by decide +kernel, by decide +kernel⟩

theorem counted_once_iff_of_one_trade :
    CountsOnce (started .new .new) afterOneTrade ↔
      vstkTotal (afterOneTrade.emitted.map Fill.trade) = 0 ∧
        2 ^ 64 ∣ aitTotal (afterOneTrade.emitted.map Fill.trade) :=
  @counted_once_iff .new .new oneTrade _ (by decide +kernel) rfl one_trade_settled

/-- The volume grows by eight and the velocity by four. -/
theorem trade_counted_twice :
    ¬ ∀ (state : SharedState) (telemetry : TelemetryHub) (run : List Metered.Action),
      TransitionRun.Meets Metered.exec Undisturbed (started state telemetry) run →
      (TransitionRun.exec Metered.exec (started state telemetry) run).Settled →
      CountsOnce (started state telemetry) (TransitionRun.exec Metered.exec (started state telemetry) run) := by
  intro always
  have once := always .new .new oneTrade (by decide +kernel) one_trade_settled
  exact absurd once.volume (by decide +kernel)

end Aide
