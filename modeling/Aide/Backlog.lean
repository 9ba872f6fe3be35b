import Aide.Daemon

namespace Aide

open Engine

namespace Engine

theorem fetchSub_one (counter : ℕ) : fetchSub counter 1 + 1 ≡ counter [MOD 2 ^ 64] := by
  unfold fetchSub
  split
  · have whole : counter - 1 + 1 = counter := by omega
    rw [whole]
  · have wrapped : counter + 2 ^ 64 - 1 + 1 = counter + 2 ^ 64 := by omega
    rw [wrapped]
    exact Nat.add_modEq_right

theorem fetchSub_lt {counter : ℕ} (bounded : counter < 2 ^ 64) : fetchSub counter 1 < 2 ^ 64 := by
  unfold fetchSub
  split <;> omega

@[simp] theorem length_batchFromFills (keccak256 : List UInt8 → Bytes32) (fills : List Fill)
    (batchEntropy : Bytes32) : (batchFromFills keccak256 fills batchEntropy).length = fills.length := by
  simp [batchFromFills]

end Engine

/-- The calls that the settler has still to make. -/
def SettlerTask.calls : SettlerTask → List SettleTradeCall
  | .sending _ calls => calls
  | .pausing _ _ _ calls => calls
  | _ => []

/-- The fill that the runner has counted and not sent. -/
def RunnerTask.counted : RunnerTask → ℕ
  | .sending .. => 1
  | _ => 0

/-- The failures in a row, after one more call. A call that is not sent does not count. -/
def Outcome.after (streak : ℕ) : Outcome → ℕ
  | .confirmed => 0
  | .failed => streak + 1
  | .unsent => streak

namespace Daemon
variable {τ : Type} {config : DaemonConfig} {s next : Daemon} {input : SettlerInput τ} {action : Action τ}

/-- How often settlement has failed in a row. -/
def failures (s : Daemon) : ℕ := (s.done.map Prod.snd).foldl Outcome.after 0

/-- How many calls have failed altogether. -/
def failed (s : Daemon) : ℕ := (s.done.map Prod.snd).count .failed

/-- Fills on their way to a call, and calls on their way to the chain. -/
def backlog (s : Daemon) : ℕ :=
  s.runner.counted + s.fills.length + s.batch.length + s.settler.calls.length

/-- Every fill that was sent waits in the channel or in the batch, or it was flushed and then its call was made or
will be. The counter is the backlog and the calls that have failed. -/
structure Accounted (config : DaemonConfig) (s : Daemon) : Prop where
  kept : s.sent = s.flushed.flatten ++ s.batch ++ s.fills
  calls : s.done.map Prod.fst ++ s.settler.calls = s.flushed.flatMap (batchFromFills config.keccak256 · 0)
  pending : s.shared.pendingSettlements ≡ s.failed + s.backlog [MOD 2 ^ 64]
  bounded : s.shared.pendingSettlements < 2 ^ 64
  streak : s.shared.settlementFailStreak = s.failures % 2 ^ 32
  third : ∀ stage streak settler calls, s.settler = .pausing stage streak settler calls → 3 ≤ s.failures
  closed : s.settler = .ended → ∃ unsent, s.runner = .ended unsent

/-- While the runner lives, the settler does. -/
theorem Accounted.opened (accounted : s.Accounted config) (lives : ∀ unsent, s.runner ≠ .ended unsent) :
    s.settler ≠ .ended := fun ended =>
  (accounted.closed ended).elim fun unsent task => lives unsent task

/-- The runner moves on without counting or sending a fill. -/
theorem Accounted.moved (accounted : s.Accounted config) {shared : SharedState} {shadow : Shadow}
    {events taken : List EngineEvent} {runner : RunnerTask} (lives : ∀ unsent, s.runner ≠ .ended unsent)
    (pending : shared.pendingSettlements = s.shared.pendingSettlements)
    (streak : shared.settlementFailStreak = s.shared.settlementFailStreak)
    (counted : runner.counted = s.runner.counted) :
    Accounted config { s with shared, shadow, events, taken, runner } where
  kept := accounted.kept
  calls := accounted.calls
  pending := by
    have backlog : Daemon.backlog { s with shared, shadow, events, taken, runner } = s.backlog := by
      simp only [Daemon.backlog, counted]
    rw [backlog]
    exact pending ▸ accounted.pending
  bounded := pending ▸ accounted.bounded
  streak := streak.trans accounted.streak
  third := accounted.third
  closed ended := absurd ended (accounted.opened lives)

theorem runnerTakes_accounted (accounted : s.Accounted config) (waiting : s.runner = .waiting)
    (events : List EngineEvent) (ev : EngineEvent) :
    ({ s with events, taken := s.taken ++ [ev] }.runnerTakes ev).Accounted config := by
  have lives : ∀ unsent, s.runner ≠ .ended unsent := by simp [waiting]
  have uncounted : RunnerTask.counted .waiting = s.runner.counted := by rw [waiting]
  cases ev with
  | newBlock | orderCancelled => exact accounted.moved lives rfl rfl rfl
  | tradeSettled => exact accounted.moved lives rfl rfl uncounted
  | orderPlaced =>
    simp only [runnerTakes]
    split
    · exact accounted.moved lives rfl rfl rfl
    · exact accounted.moved lives rfl rfl uncounted

/-- A fill is counted before it is sent. -/
theorem Accounted.counts (accounted : s.Accounted config) {f : Fill} {fills : List Fill} {economicVelocityWei : ℕ}
    (task : s.runner = .counting (f :: fills)) :
    Accounted config { s with
      shared := { s.shared with
        economicVelocityWei
        pendingSettlements := fetchAdd s.shared.pendingSettlements 1 }
      runner := .sending f fills } := by
  have backlog : Daemon.backlog { s with runner := .sending f fills } = s.backlog + 1 := by
    simp only [Daemon.backlog, RunnerTask.counted, task]
    omega
  have pending : fetchAdd s.shared.pendingSettlements 1 ≡ s.failed + (s.backlog + 1) [MOD 2 ^ 64] :=
    (Nat.mod_modEq _ _).trans (accounted.pending.add_right 1)
  exact {
    kept := accounted.kept
    calls := accounted.calls
    pending := backlog ▸ pending
    bounded := Nat.mod_lt _ (by decide)
    streak := accounted.streak
    third := accounted.third
    closed := fun ended => absurd ended (accounted.opened (by simp [task])) }

theorem Accounted.sends (accounted : s.Accounted config) {f : Fill} {fills : List Fill}
    (task : s.runner = .sending f fills) : Accounted config { s with
      fills := s.fills ++ [f]
      sent := s.sent ++ [f]
      runner := .counting fills } := by
  have backlog : Daemon.backlog { s with fills := s.fills ++ [f], runner := .counting fills } = s.backlog := by
    simp only [Daemon.backlog, RunnerTask.counted, task, List.length_append, List.length_singleton]
    omega
  exact {
    kept := by
      show s.sent ++ [f] = _
      rw [accounted.kept, List.append_assoc]
    calls := accounted.calls
    pending := backlog ▸ accounted.pending
    bounded := accounted.bounded
    streak := accounted.streak
    third := accounted.third
    closed := fun ended => absurd ended (accounted.opened (by simp [task])) }

theorem runnerStep_accounted (accounted : s.Accounted config) (run : s.runnerStep = .ok next) :
    next.Accounted config := by
  cases runnerStep_ran run with
  | closes task | overflows task _ | applies task _ _ | panics task _ | refuses task _ | fills task _ | counted task
  | overcounts task =>
    exact accounted.moved (by simp [task]) rfl rfl (by rw [task]; rfl)
  | takes task _ => exact runnerTakes_accounted accounted task _ _
  | counts task _ => exact accounted.counts task
  | abandons task closed => exact absurd closed (accounted.opened (by simp [task]))
  | sends task => exact accounted.sends task

/-- The settler moves on without being done with a call. -/
theorem Accounted.held (accounted : s.Accounted config) {shared : SharedState} {hub : Inner}
    {settler : SettlerTask} {batch fills : List Fill} {alerts : List Alert}
    (pending : shared.pendingSettlements = s.shared.pendingSettlements)
    (streak : shared.settlementFailStreak = s.shared.settlementFailStreak)
    (calls : settler.calls = s.settler.calls) (fillsKept : batch ++ fills = s.batch ++ s.fills)
    (third : ∀ stage streak config calls, settler = .pausing stage streak config calls → 3 ≤ s.failures)
    (closed : settler = .ended → ∃ unsent, s.runner = .ended unsent) :
    Accounted config { s with shared, hub, settler, batch, fills, alerts } where
  kept := by
    show s.sent = s.flushed.flatten ++ batch ++ fills
    rw [List.append_assoc, fillsKept, ← List.append_assoc]
    exact accounted.kept
  calls := by
    show s.done.map Prod.fst ++ settler.calls = _
    rw [calls]
    exact accounted.calls
  pending := by
    have lengths := congrArg List.length fillsKept
    rw [List.length_append, List.length_append] at lengths
    have backlog : Daemon.backlog { s with shared, hub, settler, batch, fills, alerts } = s.backlog := by
      simp only [Daemon.backlog, calls]
      omega
    rw [backlog]
    exact pending ▸ accounted.pending
  bounded := pending ▸ accounted.bounded
  streak := streak.trans accounted.streak
  third := third
  closed := closed

/-- The settler is done with a call. -/
theorem Accounted.calledBack (accounted : s.Accounted config) {shared : SharedState} {settler : SettlerTask}
    {call : SettleTradeCall} {calls : List SettleTradeCall} {outcome : Outcome}
    (task : s.settler.calls = call :: calls) (rest : settler.calls = calls)
    (pending : shared.pendingSettlements = if outcome = .failed then s.shared.pendingSettlements
      else fetchSub s.shared.pendingSettlements 1)
    (streak : shared.settlementFailStreak = (outcome.after s.failures) % 2 ^ 32)
    (third : ∀ stage streak config calls, settler = .pausing stage streak config calls →
      3 ≤ outcome.after s.failures)
    (opened : settler ≠ .ended) :
    Accounted config { s with shared, settler, done := s.done ++ [(call, outcome)] } := by
  have failures : Daemon.failures { s with shared, settler, done := s.done ++ [(call, outcome)] } =
      outcome.after s.failures := by
    simp [Daemon.failures]
  have backlog : s.backlog =
      Daemon.backlog { s with shared, settler, done := s.done ++ [(call, outcome)] } + 1 := by
    simp only [Daemon.backlog, task, rest, List.length_cons]
    omega
  have failed : Daemon.failed { s with shared, settler, done := s.done ++ [(call, outcome)] } =
      s.failed + if outcome = .failed then 1 else 0 := by
    simp only [Daemon.failed, List.map_append, List.map_cons, List.map_nil, List.count_append,
      List.count_singleton, beq_iff_eq]
  refine ⟨accounted.kept, ?_, ?_, ?_, ?_, ?_, fun ended => absurd ended opened⟩
  · have before := accounted.calls
    rw [task] at before
    simpa [rest] using before
  · have before := accounted.pending
    rw [failed]
    show shared.pendingSettlements ≡ _ [MOD 2 ^ 64]
    rw [pending]
    split
    · rw [backlog] at before
      rwa [Nat.add_assoc, Nat.add_comm 1]
    · rw [backlog] at before
      exact Nat.ModEq.add_right_cancel' 1 ((fetchSub_one _).trans before)
  · show shared.pendingSettlements < _
    rw [pending]
    split
    · exact accounted.bounded
    · exact fetchSub_lt accounted.bounded
  · rw [failures]
    exact streak
  · rw [failures]
    exact third

theorem flushBatch_accounted (accounted : s.Accounted config) (task : s.settler = .collecting)
    {batch fills : List Fill} (fillsKept : batch ++ fills = s.batch ++ s.fills) :
    (Daemon.flushBatch { s with batch, fills }).Accounted config :=
  accounted.held rfl rfl (by rw [task]; rfl) fillsKept (by simp) (by simp)

theorem settlerCollects_accounted (accounted : s.Accounted config) (task : s.settler = .collecting)
    (run : s.settlerCollects input = .ok next) : next.Accounted config := by
  unfold settlerCollects at run
  split at run
  · cases run
    split
    · exact accounted
    · exact flushBatch_accounted accounted task rfl
  · split at run
    · rename_i _ f fills received
      cases run
      have fillsKept : s.batch ++ [f] ++ fills = s.batch ++ s.fills := by simp [received]
      split
      · exact flushBatch_accounted accounted task fillsKept
      · exact accounted.held rfl rfl rfl fillsKept accounted.third accounted.closed
    · rename_i unsent _ ended
      cases run
      exact accounted.held rfl rfl (by rw [task]; rfl) rfl (by simp) fun _ => ⟨unsent, ended⟩
    · cases run

theorem settlerSends_accounted (accounted : s.Accounted config) {settler : SettlerConfig}
    {call : SettleTradeCall} {calls : List SettleTradeCall}
    (task : s.settler = .sending (some settler) (call :: calls)) :
    (s.settlerSends config input settler call calls).Accounted config := by
  have waiting : s.settler.calls = call :: calls := by rw [task]; rfl
  unfold settlerSends
  split
  · exact accounted.calledBack waiting rfl (if_neg (by decide)).symm (Nat.zero_mod _).symm (by simp) (by simp)
  · have streak : (s.shared.settlementFailStreak + 1) % 2 ^ 32 = (s.failures + 1) % 2 ^ 32 := by
      rw [accounted.streak, Nat.mod_add_mod]
    refine accounted.calledBack waiting ?_ (if_pos rfl).symm streak ?_ ?_
    · split <;> rfl
    · intro stage _ _ _ pausing
      split at pausing
      · rename_i third
        rw [streak] at third
        exact third.trans (Nat.mod_le _ _)
      · cases pausing
    · split <;> simp

theorem settlerStep_accounted (accounted : s.Accounted config) (run : s.settlerStep config input = .ok next) :
    next.Accounted config := by
  unfold settlerStep at run
  cases task : s.settler with
  | collecting =>
    simp only [task] at run
    exact settlerCollects_accounted accounted task run
  | recording blockNumber fills =>
    cases fills with
    | nil =>
      simp only [task] at run
      cases run
      have noCalls : s.settler.calls = [] := by rw [task]; rfl
      have backlog : Daemon.backlog { s with
          settler := .sending input.settler (batchFromFills config.keccak256 s.batch 0)
          batch := [] } = s.backlog := by
        unfold Daemon.backlog
        rw [noCalls]
        simp only [SettlerTask.calls, length_batchFromFills, List.length_nil]
        omega
      exact {
        kept := by
          show s.sent = (s.flushed ++ [s.batch]).flatten ++ [] ++ s.fills
          rw [accounted.kept]
          simp
        calls := by
          have before := accounted.calls
          rw [noCalls, List.append_nil] at before
          show s.done.map Prod.fst ++ batchFromFills config.keccak256 s.batch 0 = _
          rw [before]
          simp
        pending := backlog ▸ accounted.pending
        bounded := accounted.bounded
        streak := accounted.streak
        third := by simp
        closed := by simp }
    | cons f fills =>
      simp only [task] at run
      cases run
      exact accounted.held rfl rfl (by rw [task]; rfl) rfl (by simp) (by simp)
  | sending settler calls =>
    cases calls with
    | nil =>
      simp only [task] at run
      cases run
      exact accounted.held rfl rfl (by rw [task]; rfl) rfl (by simp) (by simp)
    | cons call calls =>
      cases settler with
      | none =>
        simp only [task] at run
        cases run
        exact accounted.calledBack (by rw [task]; rfl) rfl (if_neg (by decide)).symm accounted.streak (by simp)
          (by simp)
      | some settler =>
        simp only [task] at run
        cases run
        exact settlerSends_accounted accounted task
  | pausing stage streak settler calls =>
    simp only [task] at run
    cases run
    have third := accounted.third _ _ _ _ task
    have same : ∀ stage, (SettlerTask.pausing stage streak settler calls).calls = s.settler.calls := by
      rw [task]
      exact fun _ => rfl
    cases stage with
    | telemetry => exact accounted.held rfl rfl (same _) rfl (fun _ _ _ _ _ => third) (by simp)
    | engine => exact accounted.held rfl rfl (same _) rfl (fun _ _ _ _ _ => third) (by simp)
    | flag => exact accounted.held rfl rfl (same _) rfl (fun _ _ _ _ _ => third) (by simp)
    | alert => exact accounted.held rfl rfl (by rw [task]; rfl) rfl (fun _ _ _ _ _ => third) (by simp)
  | ended =>
    simp only [task] at run
    cases run

theorem exec_accounted (accounted : s.Accounted config) (run : s.exec config action = .ok next) :
    next.Accounted config := by
  obtain ⟨kept, calls, pending, bounded, streak, third, closed⟩ := accounted
  cases action with
  | streamer event =>
    obtain ⟨_, _, _, _, _, _, rfl⟩ := streamerStep_frame run
    exact ⟨kept, calls, pending, bounded, streak, third, closed⟩
  | runner => exact runnerStep_accounted ⟨kept, calls, pending, bounded, streak, third, closed⟩ run
  | settler input => exact settlerStep_accounted ⟨kept, calls, pending, bounded, streak, third, closed⟩ run
  | audit provider =>
    obtain ⟨_, _, _, _, _, _, _, rfl⟩ := auditStep_frame run
    exact ⟨kept, calls, pending, bounded, streak, third, closed⟩
  | listenerExits failed =>
    simp only [Daemon.exec] at run
    split at run <;> cases run
    exact ⟨kept, calls, pending, bounded, streak, third, closed⟩
  | guardrailPolled paused | summary now =>
    cases run
    exact ⟨kept, calls, pending, bounded, streak, third, closed⟩

theorem started_accounted (config : DaemonConfig) (contracts : ContractAddressBook) :
    (started contracts).Accounted config :=
  ⟨rfl, rfl, Nat.ModEq.refl 0, Nat.two_pow_pos 64, (Nat.zero_mod _).symm, by simp [started], by simp [started]⟩

theorem run_accounted (config : DaemonConfig) (contracts : ContractAddressBook) (run : List (Action τ)) :
    (TransitionRun.exec (Daemon.exec config) (started contracts) run).Accounted config :=
  TransitionRun.exec_preserves (P := fun _ _ => True)
    (fun _ _ _ accounted _ taken => exec_accounted accounted taken)
    (started_accounted config contracts) (.of_forall fun _ _ _ => trivial)

end Daemon

/-- The fills of the daemon are accounted for in every interleaving of its tasks. The fills that the match runner
has sent are, in order, those of the batches that were flushed, of the batch that is collected and of the channel; the
calls made and to be made are those of the flushed batches; and `pending_settlements` counts the fills and calls that
are on their way and, up to its overflow, every call that has ever failed. -/
theorem fills_accounted {τ : Type} (config : DaemonConfig) (contracts : ContractAddressBook)
    (run : List (Daemon.Action τ)) :
    let s := TransitionRun.exec (Daemon.exec config) (Daemon.started contracts) run
    s.sent = s.flushed.flatten ++ s.batch ++ s.fills ∧
      s.done.map Prod.fst ++ s.settler.calls = s.flushed.flatMap (batchFromFills config.keccak256 · 0) ∧
      s.shared.pendingSettlements = (s.failed + s.backlog) % 2 ^ 64 := by
  intro s
  have accounted : s.Accounted config := Daemon.run_accounted config contracts run
  exact ⟨accounted.kept, accounted.calls, (Nat.mod_eq_of_lt accounted.bounded).symm.trans accounted.pending⟩

end Aide
