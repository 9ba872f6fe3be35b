import Aide.Backlog
import Aide.PauseSigns

namespace Aide

open Engine

namespace Daemon
variable {τ : Type} {config : DaemonConfig} {s next : Daemon} {input : SettlerInput τ} {action : Action τ}
  {provider : ViewProvider}

/-- The three signs of a pause go together, up to a task that is in the middle of giving them. -/
structure Agreeing (s : Daemon) : Prop where
  raised : s.Raised → s.Told ∧ s.Stopped
  settler : s.SettlerPromises s.settler
  audit : s.AuditPromises s.audit
  begun : s.Told ∨ s.Stopped → s.Raised ∨ s.Pausing

/-- A step that gives no sign keeps the agreement where it neither begins nor ends a pause. -/
theorem Agreeing.unsigned (agreeing : s.Agreeing) (unsigned : Unsigned s next)
    (settler : next.SettlerPromises next.settler) (audit : next.AuditPromises next.audit)
    (pausing : s.Pausing → next.Raised ∨ next.Pausing) : next.Agreeing where
  raised raised := (agreeing.raised (unsigned.raised.mp raised)).imp unsigned.told.mpr unsigned.stopped.mpr
  settler := settler
  audit := audit
  begun either := by
    rcases agreeing.begun (either.imp unsigned.told.mp unsigned.stopped.mp) with raised | begun
    · exact .inl (unsigned.raised.mpr raised)
    · exact pausing begun

/-- So does a step of a task that gives none at all. -/
theorem Agreeing.apart (agreeing : s.Agreeing) (unsigned : Unsigned s next) (settler : next.settler = s.settler)
    (audit : next.audit = s.audit) : next.Agreeing := by
  refine agreeing.unsigned unsigned ?_ ?_ fun pausing => .inr ?_
  · rw [settler]
    exact unsigned.lasting.settlerPromises agreeing.settler
  · rw [audit]
    exact unsigned.lasting.auditPromises agreeing.audit
  · unfold Pausing
    rwa [settler, audit]

/-- The four steps of a pause. Each sign is given before the runner is told by its flag. -/
theorem settlerPauses_agreeing (agreeing : s.Agreeing) {stage : PauseStage} {streak : ℕ}
    {settler : SettlerConfig} {calls : List SettleTradeCall}
    (task : s.settler = .pausing stage streak settler calls) :
    Lasting s (s.settlerPauses config streak settler calls stage) ∧
      (s.settlerPauses config streak settler calls stage).Agreeing := by
  have promises := agreeing.settler
  rw [task] at promises
  cases stage with
  | telemetry =>
    have lasting : Lasting s (s.settlerPauses config streak settler calls .telemetry) :=
      ⟨fun _ => rfl, id, id⟩
    exact ⟨lasting, {
      raised := fun raised => ⟨rfl, (agreeing.raised raised).2⟩
      settler := rfl
      audit := lasting.auditPromises agreeing.audit
      begun := fun _ => .inr (.inl trivial) }⟩
  | engine =>
    have lasting : Lasting s (s.settlerPauses config streak settler calls .engine) := ⟨id, fun _ => rfl, id⟩
    exact ⟨lasting, {
      raised := fun raised => ⟨(agreeing.raised raised).1, rfl⟩
      settler := ⟨promises, rfl⟩
      audit := lasting.auditPromises agreeing.audit
      begun := fun _ => .inr (.inl trivial) }⟩
  | flag =>
    have lasting : Lasting s (s.settlerPauses config streak settler calls .flag) := ⟨id, id, fun _ => rfl⟩
    exact ⟨lasting, {
      raised := fun _ => promises
      settler := rfl
      audit := lasting.auditPromises agreeing.audit
      begun := fun _ => .inl rfl }⟩
  | alert =>
    have lasting : Lasting s (s.settlerPauses config streak settler calls .alert) := ⟨id, id, id⟩
    exact ⟨lasting, {
      raised := agreeing.raised
      settler := trivial
      audit := lasting.auditPromises agreeing.audit
      begun := fun _ => .inl promises }⟩

/-- While the settler is not pausing matching, it keeps the agreement. -/
theorem settlerStep_agreeing (agreeing : s.Agreeing) (run : s.settlerStep config input = .ok next) :
    Lasting s next ∧ next.Agreeing := by
  rcases settlerStep_signs run with ⟨idle, unsigned, audit, promises⟩ | ⟨_, _, _, _, task, rfl⟩
  · refine ⟨unsigned.lasting, agreeing.unsigned unsigned (promises _) ?_ fun pausing => .inr (.inr ?_)⟩
    · rw [audit]
      exact unsigned.lasting.auditPromises agreeing.audit
    · rw [audit]
      exact pausing.resolve_left idle
  · exact settlerPauses_agreeing agreeing task

/-- The verdict of an audit pauses the engine before anything is told. -/
theorem auditStep_agreeing (agreeing : s.Agreeing) (run : s.auditStep config provider = .ok next) :
    Lasting s next ∧ next.Agreeing := by
  have promises := agreeing.audit
  rcases auditStep_signs run with ⟨idle, unsigned, settler, fresh⟩ | ⟨snap, task, _, rfl⟩ | pausing
  · refine ⟨unsigned.lasting, agreeing.unsigned unsigned ?_ (fresh _) fun pausing => .inr (.inl ?_)⟩
    · rw [settler]
      exact unsigned.lasting.settlerPromises agreeing.settler
    · rw [settler]
      exact pausing.resolve_right idle
  · have lasting : Lasting s { s with
        shared := { s.shared with engine := s.shared.engine.pauseMatching }
        audit := .drifted } := ⟨id, fun _ => rfl, id⟩
    exact ⟨lasting, {
      raised := fun raised => ⟨(agreeing.raised raised).1, rfl⟩
      settler := lasting.settlerPromises agreeing.settler
      audit := rfl
      begun := fun _ => .inr (.inr trivial) }⟩
  · unfold auditStep at run
    cases task : s.audit with
    | drifted =>
      rw [task] at promises
      simp only [task] at run
      cases run
      have unsigned : Unsigned s { s with
          hub := { s.hub with toTelemetryHub := s.hub.setLedgerAlignmentOk false }
          audit := .reporting } := ⟨rfl, rfl, rfl⟩
      exact ⟨unsigned.lasting, agreeing.unsigned unsigned (unsigned.lasting.settlerPromises agreeing.settler)
        promises fun _ => .inr (.inr trivial)⟩
    | reporting =>
      rw [task] at promises
      simp only [task] at run
      cases run
      have lasting : Lasting s { s with
          hub := { s.hub with toTelemetryHub := s.hub.setMatchingPause (some .drift) }
          audit := .flagging } := ⟨fun _ => rfl, id, id⟩
      exact ⟨lasting, {
        raised := fun raised => ⟨rfl, (agreeing.raised raised).2⟩
        settler := lasting.settlerPromises agreeing.settler
        audit := ⟨rfl, promises⟩
        begun := fun _ => .inr (.inr trivial) }⟩
    | flagging =>
      rw [task] at promises
      simp only [task] at run
      cases run
      have lasting : Lasting s { s with
          shared := { s.shared with matchPaused := true }
          audit := .alerting } := ⟨id, id, fun _ => rfl⟩
      exact ⟨lasting, {
        raised := fun _ => promises
        settler := lasting.settlerPromises agreeing.settler
        audit := rfl
        begun := fun _ => .inl rfl }⟩
    | alerting =>
      rw [task] at promises
      simp only [task] at run
      cases run
      have lasting : Lasting s { s with
          alerts := s.alerts ++ [.criticalDrift config.audit.market config.audit.treasury s.hub.addressBook]
          audit := .waiting } := ⟨id, id, id⟩
      exact ⟨lasting, {
        raised := agreeing.raised
        settler := lasting.settlerPromises agreeing.settler
        audit := trivial
        begun := fun _ => .inl promises }⟩
    | _ =>
      rw [task] at pausing
      exact pausing.elim

/-- Every step keeps the agreement of the signs, and takes none of them back. -/
theorem exec_agreeing (agreeing : s.Agreeing) (run : s.exec config action = .ok next) :
    Lasting s next ∧ next.Agreeing := by
  cases action with
  | streamer event =>
    obtain ⟨unsigned, settler, audit⟩ := streamerStep_unsigned run
    exact ⟨unsigned.lasting, agreeing.apart unsigned settler audit⟩
  | runner =>
    obtain ⟨unsigned, settler, audit⟩ := runnerStep_unsigned run
    exact ⟨unsigned.lasting, agreeing.apart unsigned settler audit⟩
  | settler input => exact settlerStep_agreeing agreeing run
  | audit provider => exact auditStep_agreeing agreeing run
  | listenerExits failed =>
    simp only [Daemon.exec] at run
    split at run <;> cases run
    cases failed with
    | true =>
      have unsigned : Unsigned s { s with
          listening := false
          hub := s.hub.setChainListenerConnected false } := ⟨rfl, rfl, rfl⟩
      exact ⟨unsigned.lasting, agreeing.apart unsigned rfl rfl⟩
    | false =>
      have unsigned : Unsigned s { s with listening := false } := ⟨rfl, rfl, rfl⟩
      exact ⟨unsigned.lasting, agreeing.apart unsigned rfl rfl⟩
  | guardrailPolled paused =>
    cases run
    have unsigned : Unsigned s { s with hub := s.hub.setGuardrailPaused paused } := ⟨rfl, rfl, rfl⟩
    exact ⟨unsigned.lasting, agreeing.apart unsigned rfl rfl⟩
  | summary now =>
    cases run
    have unsigned : Unsigned s { s with hub := (s.hub.toSummaryJson now).2 } := ⟨rfl, rfl, rfl⟩
    exact ⟨unsigned.lasting, agreeing.apart unsigned rfl rfl⟩

theorem started_agreeing (contracts : ContractAddressBook) : (started contracts).Agreeing where
  raised raised := absurd raised Bool.false_ne_true
  settler := trivial
  audit := trivial
  begun either := either.elim (fun told => absurd told Bool.false_ne_true)
    fun stopped => absurd stopped Bool.false_ne_true

theorem run_agreeing (agreeing : s.Agreeing) (run : List (Action τ)) :
    Lasting s (TransitionRun.exec (Daemon.exec config) s run) ∧
      (TransitionRun.exec (Daemon.exec config) s run).Agreeing :=
  TransitionRun.exec_preserves (P := fun _ _ => True) (I := fun t => Lasting s t ∧ t.Agreeing)
    (fun _ _ _ kept _ taken => (exec_agreeing kept.2 taken).imp_left kept.1.trans)
    ⟨.refl s, agreeing⟩ (.of_forall fun _ _ _ => trivial)

end Daemon

/-- The fills of an order that the runner has not sent yet. -/
def RunnerTask.unsent : RunnerTask → List Fill
  | .counting fills => fills
  | .sending f fills => f :: fills
  | .ended unsent => unsent
  | _ => []

namespace Daemon
variable {τ : Type} {config : DaemonConfig} {s next : Daemon} {input : SettlerInput τ} {action : Action τ}
  {provider : ViewProvider}

/-- The fills that were made of the orders placed so far. -/
def matched (s : Daemon) : List Fill := s.sent ++ s.runner.unsent

theorem runnerTakes_stopped (stopped : s.Stopped) (waiting : s.runner = .waiting) (ev : EngineEvent) :
    (s.runnerTakes ev).matched = s.matched := by
  cases ev with
  | orderPlaced =>
    have dropped : (s.shared.matchPaused || s.shared.engine.matchingPaused) = true := by
      rw [show s.shared.engine.matchingPaused = true from stopped, Bool.or_true]
    simp only [runnerTakes, dropped, if_true]
  | tradeSettled =>
    show s.sent ++ [] = s.sent ++ s.runner.unsent
    rw [waiting]
    rfl
  | _ => rfl

/-- A runner whose engine refuses orders makes no more fills. -/
theorem runnerStep_stopped (stopped : s.Stopped) (run : s.runnerStep = .ok next) : next.matched = s.matched := by
  have unsent : ∀ task, s.runner = task → s.matched = s.sent ++ task.unsent := by
    rintro _ rfl
    rfl
  cases runnerStep_ran run with
  | @takes ev events task =>
    exact runnerTakes_stopped (s := { s with events, taken := s.taken ++ [ev] }) stopped task ev
  | @fills record _ _ _ placed =>
    have refused : s.shared.engine.limitOrderPlacement record =
        .ok (.error .matchingPaused, s.shared.engine) := if_pos stopped
    cases refused.symm.trans placed
  | @sends f fills task =>
    rw [unsent _ task]
    exact List.append_assoc s.sent [f] fills
  | closes task | overflows task | applies task | panics task | refuses task | counted task | overcounts task
  | counts task | abandons task =>
    rw [unsent _ task]
    rfl

theorem exec_stopped (stopped : s.Stopped) (run : s.exec config action = .ok next) :
    next.matched = s.matched := by
  cases action with
  | streamer event =>
    obtain ⟨_, _, _, _, _, _, rfl⟩ := streamerStep_frame run
    rfl
  | runner => exact runnerStep_stopped stopped run
  | settler input =>
    obtain ⟨_, _, _, _, _, _, _, _, _, _, _, rfl⟩ := settlerStep_frame run
    rfl
  | audit provider =>
    obtain ⟨_, _, _, _, _, _, _, rfl⟩ := auditStep_frame run
    rfl
  | listenerExits failed =>
    simp only [Daemon.exec] at run
    split at run <;> cases run
    rfl
  | guardrailPolled paused | summary now =>
    cases run
    rfl

theorem run_stopped (agreeing : s.Agreeing) (stopped : s.Stopped) (run : List (Action τ)) :
    (TransitionRun.exec (Daemon.exec config) s run).matched = s.matched :=
  (TransitionRun.exec_preserves (P := fun _ _ => True)
    (I := fun t => (t.Agreeing ∧ t.Stopped) ∧ t.matched = s.matched)
    (fun _ _ _ kept _ taken =>
      have ⟨lasting, agreeing⟩ := exec_agreeing kept.1.1 taken
      ⟨⟨agreeing, lasting.stopped kept.1.2⟩, (exec_stopped kept.1.2 taken).trans kept.2⟩)
    ⟨⟨agreeing, stopped⟩, rfl⟩ (.of_forall fun _ _ _ => trivial)).2

/-- The health score of a dashboard whose telemetry agrees with the engine. -/
theorem health_of_told (same : s.Told ↔ s.Stopped) (now : ℕ) :
    (s.hub.toSummaryJson now).1.aideSystemHealthScore =
      if s.hub.chainListenerConnected then (if s.shared.engine.matchingPaused then 50 else 100) else 0 := by
  have score : s.hub.matchingPause.isSome = s.shared.engine.matchingPaused := Bool.eq_iff_iff.mpr same
  show s.hub.computeHealthScore = _
  unfold Inner.computeHealthScore
  rw [score]
  cases s.hub.chainListenerConnected <;> rfl

/-- The step that pauses the engine: the settler after three failures in a row, or the audit after a drift
above the threshold. -/
def Halts (config : DaemonConfig) (s : Daemon) : Action τ → Prop
  | .settler _ => (∃ streak settler calls, s.settler = .pausing .engine streak settler calls) ∧ 3 ≤ s.failures
  | .audit _ => ∃ snap, s.audit = .reconciling snap ∧
      reportExceedsThreshold (s.shadow.reconcile snap) config.audit.threshold = true
  | _ => False

/-- A step of the settler that stops the engine is in the middle of pausing. -/
theorem settlerStep_halts (running : ¬ s.Stopped) (run : s.settlerStep config input = .ok next)
    (stopped : next.Stopped) : ∃ streak settler calls, s.settler = .pausing .engine streak settler calls := by
  rcases settlerStep_signs run with ⟨_, unsigned, _⟩ | ⟨stage, streak, settler, calls, task, rfl⟩
  · exact absurd (unsigned.stopped.mp stopped) running
  · cases stage with
    | engine => exact ⟨streak, settler, calls, task⟩
    | _ => exact absurd stopped running

theorem auditStep_halts (agreeing : s.Agreeing) (running : ¬ s.Stopped)
    (run : s.auditStep config provider = .ok next) (stopped : next.Stopped) : ∃ snap,
    s.audit = .reconciling snap ∧
      reportExceedsThreshold (s.shadow.reconcile snap) config.audit.threshold = true := by
  rcases auditStep_signs run with ⟨_, unsigned, _⟩ | ⟨snap, task, exceeds, _⟩ | pausing
  · exact absurd (unsigned.stopped.mp stopped) running
  · exact ⟨snap, task, exceeds⟩
  · have promises := agreeing.audit
    cases task : s.audit with
    | drifted | reporting =>
      rw [task] at promises
      exact absurd promises running
    | flagging =>
      rw [task] at promises
      exact absurd promises.2 running
    | alerting =>
      rw [task] at promises
      exact absurd (agreeing.raised promises).2 running
    | _ =>
      rw [task] at pausing
      exact pausing.elim

end Daemon

/-- A halt of the matching is one halt, in every interleaving of the tasks of the daemon. The runner's flag is set
only after the engine refuses orders and the dashboard says so; while no task is in the middle of pausing, all three
agree and the health score tells so; none of them is ever taken back; and from the moment that the engine refuses
orders no fill is made any more, only those already made are still sent. -/
theorem matching_halts_for_good {τ : Type} (config : DaemonConfig) (contracts : ContractAddressBook)
    (run : List (Daemon.Action τ)) :
    let s := TransitionRun.exec (Daemon.exec config) (Daemon.started contracts) run
    (s.Raised → s.Told ∧ s.Stopped) ∧
      (¬ s.Pausing → (s.Told ↔ s.Raised) ∧ (s.Stopped ↔ s.Raised) ∧
        ∀ now, (s.hub.toSummaryJson now).1.aideSystemHealthScore =
          if s.hub.chainListenerConnected then (if s.shared.engine.matchingPaused then 50 else 100) else 0) ∧
      ∀ more : List (Daemon.Action τ), let later := TransitionRun.exec (Daemon.exec config) s more
        Daemon.Lasting s later ∧ (s.Stopped → later.matched = s.matched) := by
  intro s
  have agreeing : s.Agreeing := (Daemon.run_agreeing (Daemon.started_agreeing contracts) run).2
  refine ⟨agreeing.raised, fun idle => ?_, fun more => ?_⟩
  · have begun : s.Told ∨ s.Stopped → s.Raised := fun either => (agreeing.begun either).resolve_right idle
    have told : s.Told ↔ s.Raised := ⟨begun ∘ .inl, fun raised => (agreeing.raised raised).1⟩
    have stopped : s.Stopped ↔ s.Raised := ⟨begun ∘ .inr, fun raised => (agreeing.raised raised).2⟩
    exact ⟨told, stopped, Daemon.health_of_told (told.trans stopped.symm)⟩
  · exact ⟨(Daemon.run_agreeing agreeing more).1, fun stopped => Daemon.run_stopped agreeing stopped more⟩

/-- Matching is never paused without a cause: in every interleaving, where the engine refuses orders there was a step
of the settler after three calls in a row had failed, or one of the audit that had found a drift above its
threshold. -/
theorem matching_halts_for_cause {τ : Type} (config : DaemonConfig) (contracts : ContractAddressBook)
    (run : List (Daemon.Action τ))
    (stopped : (TransitionRun.exec (Daemon.exec config) (Daemon.started contracts) run).Stopped) :
    ∃ before action after, run = before ++ action :: after ∧
      (TransitionRun.exec (Daemon.exec config) (Daemon.started contracts) before).Halts config action := by
  have gains : ∀ (s : Daemon) (action : Daemon.Action τ) next, ¬ s.Stopped →
      s.exec config action = .ok next → next.Stopped → s.Accounted config ∧ s.Agreeing → s.Halts config action := by
    rintro s action next running taken halted ⟨accounted, agreeing⟩
    cases action with
    | settler input =>
      obtain ⟨streak, settler, calls, task⟩ := Daemon.settlerStep_halts running taken halted
      exact ⟨⟨streak, settler, calls, task⟩, accounted.third _ _ _ _ task⟩
    | audit provider => exact Daemon.auditStep_halts agreeing running taken halted
    | streamer event => exact running ((Daemon.streamerStep_unsigned taken).1.stopped.mp halted)
    | runner => exact running ((Daemon.runnerStep_unsigned taken).1.stopped.mp halted)
    | listenerExits failed =>
      simp only [Daemon.exec] at taken
      split at taken <;> cases taken
      exact running halted
    | guardrailPolled paused | summary now =>
      cases taken
      exact running halted
  have running : ¬ (Daemon.started contracts).Stopped := Bool.false_ne_true
  obtain ⟨before, action, after, split, halts⟩ := TransitionRun.exists_cause running gains stopped
  exact ⟨before, action, after, split, halts ⟨Daemon.run_accounted config contracts before,
    (Daemon.run_agreeing (Daemon.started_agreeing contracts) before).2⟩⟩

namespace Devnet

/-- A daemon that audits every fourth block and allows no drift. -/
def strict : DaemonConfig where
  keccak256 _ := 0
  audit := {
    intervalBlocks := 4
    rpcUrl := ""
    market := Deployment.devnet.internalMarket
    treasury := Deployment.devnet.treasury }
  urlParses := true

/-- A trade is applied to the shadow, and the audit reads zero for every balance. -/
def unread : List (Daemon.Action Unit) :=
  [.streamer (some (.tradeSettled 1 1 2 1 alice bob 10 50 0 0)), .streamer (some (.newHead 4)),
    .streamer none, .streamer none, .runner, .runner, .runner] ++
  List.replicate 6 (.audit fun _ _ => .ok (List.replicate 32 0))

end Devnet

open Devnet in
theorem matching_halts_for_cause_of_unread :
    (TransitionRun.exec (Daemon.exec strict) (Daemon.started {}) unread).Stopped ∧
      ∃ before action after, unread = before ++ action :: after ∧
        (TransitionRun.exec (Daemon.exec strict) (Daemon.started {}) before).Halts strict action :=
  have stopped : (TransitionRun.exec (Daemon.exec strict) (Daemon.started {}) unread).Stopped := by
    unfold Daemon.Stopped
    decide +kernel
  ⟨stopped, matching_halts_for_cause strict {} unread stopped⟩

end Aide
