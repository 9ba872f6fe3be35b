import Aide.Daemon
import Aide.Restart

namespace Aide

open Engine

namespace Engine

theorem TelemetryHub.recordFill_pause (hub : TelemetryHub) (blockNumber taxBps : ℕ) (clock : ℕ → ℕ) (f : Fill) :
    (hub.recordFill blockNumber taxBps clock f).matchingPause = hub.matchingPause := by
  unfold recordFill
  dsimp only
  split <;> rfl

end Engine

namespace Daemon
variable {τ : Type} {config : DaemonConfig} {s next : Daemon} {input : SettlerInput τ} {action : Action τ}

/-- The telemetry says that matching is paused. -/
def Told (s : Daemon) : Prop := s.hub.matchingPause.isSome = true

/-- The engine refuses orders. -/
def Stopped (s : Daemon) : Prop := s.shared.engine.matchingPaused = true

/-- The flag of the match runner is set. -/
def Raised (s : Daemon) : Prop := s.shared.matchPaused = true

/-- What the settler has done before the next step of a pause. -/
def SettlerPromises (s : Daemon) : SettlerTask → Prop
  | .pausing .engine .. => s.Told
  | .pausing .flag .. => s.Told ∧ s.Stopped
  | .pausing .alert .. => s.Raised
  | _ => True

/-- What the audit has. -/
def AuditPromises (s : Daemon) : AuditTask → Prop
  | .drifted | .reporting => s.Stopped
  | .flagging => s.Told ∧ s.Stopped
  | .alerting => s.Raised
  | _ => True

end Daemon

def SettlerTask.IsPausing : SettlerTask → Prop
  | .pausing .. => True
  | _ => False

def AuditTask.IsPausing : AuditTask → Prop
  | .drifted | .reporting | .flagging | .alerting => True
  | _ => False

namespace Daemon
variable {τ : Type} {config : DaemonConfig} {s next : Daemon} {input : SettlerInput τ} {action : Action τ}
  {provider : ViewProvider}

/-- Some task is in the middle of pausing matching. -/
def Pausing (s : Daemon) : Prop := s.settler.IsPausing ∨ s.audit.IsPausing

/-- No sign is taken back. -/
structure Lasting (s next : Daemon) : Prop where
  told : s.Told → next.Told
  stopped : s.Stopped → next.Stopped
  raised : s.Raised → next.Raised

theorem Lasting.refl (s : Daemon) : Lasting s s := ⟨id, id, id⟩

theorem Lasting.trans {between : Daemon} (first : Lasting s between) (second : Lasting between next) :
    Lasting s next :=
  ⟨second.told ∘ first.told, second.stopped ∘ first.stopped, second.raised ∘ first.raised⟩

theorem Lasting.settlerPromises (lasting : Lasting s next) {task : SettlerTask}
    (promises : s.SettlerPromises task) : next.SettlerPromises task := by
  cases task with
  | pausing stage streak settler calls =>
    cases stage with
    | telemetry => trivial
    | engine => exact lasting.told promises
    | flag => exact promises.imp lasting.told lasting.stopped
    | alert => exact lasting.raised promises
  | _ => trivial

theorem Lasting.auditPromises (lasting : Lasting s next) {task : AuditTask}
    (promises : s.AuditPromises task) : next.AuditPromises task := by
  cases task with
  | drifted | reporting => exact lasting.stopped promises
  | flagging => exact promises.imp lasting.told lasting.stopped
  | alerting => exact lasting.raised promises
  | _ => trivial

/-- What a step leaves of the signs, and of the tasks that give them. -/
structure Unsigned (s next : Daemon) : Prop where
  pause : next.hub.matchingPause = s.hub.matchingPause
  engine : next.shared.engine.matchingPaused = s.shared.engine.matchingPaused
  flag : next.shared.matchPaused = s.shared.matchPaused

theorem Unsigned.told (unsigned : Unsigned s next) : next.Told ↔ s.Told := by
  unfold Told
  rw [unsigned.pause]

theorem Unsigned.stopped (unsigned : Unsigned s next) : next.Stopped ↔ s.Stopped := by
  unfold Stopped
  rw [unsigned.engine]

theorem Unsigned.raised (unsigned : Unsigned s next) : next.Raised ↔ s.Raised := by
  unfold Raised
  rw [unsigned.flag]

theorem Unsigned.lasting (unsigned : Unsigned s next) : Lasting s next :=
  ⟨unsigned.told.mpr, unsigned.stopped.mpr, unsigned.raised.mpr⟩

theorem streamerStep_unsigned {event : Option MarketChainEvent} (run : s.streamerStep event = .ok next) :
    Unsigned s next ∧ next.settler = s.settler ∧ next.audit = s.audit := by
  obtain ⟨_, _, _, _, _, _, rfl⟩ := streamerStep_frame run
  exact ⟨⟨rfl, rfl, rfl⟩, rfl, rfl⟩

theorem runnerTakes_unsigned (s : Daemon) (ev : EngineEvent) :
    Unsigned s (s.runnerTakes ev) ∧ (s.runnerTakes ev).settler = s.settler ∧
      (s.runnerTakes ev).audit = s.audit := by
  cases ev with
  | orderCancelled block companyId orderId =>
    exact ⟨⟨rfl, (MatchEngine.ingestCancel_unpaused ..).2, rfl⟩, rfl, rfl⟩
  | orderPlaced =>
    simp only [runnerTakes]
    split <;> exact ⟨⟨rfl, rfl, rfl⟩, rfl, rfl⟩
  | _ => exact ⟨⟨rfl, rfl, rfl⟩, rfl, rfl⟩

theorem runnerStep_unsigned (run : s.runnerStep = .ok next) :
    Unsigned s next ∧ next.settler = s.settler ∧ next.audit = s.audit := by
  cases runnerStep_ran run with
  | takes =>
    obtain ⟨⟨pause, engine, flag⟩, settler, audit⟩ := runnerTakes_unsigned _ _
    exact ⟨⟨pause, engine, flag⟩, settler, audit⟩
  | refuses _ placed | fills _ placed =>
    exact ⟨⟨rfl, MatchEngine.limitOrderPlacement_flag placed, rfl⟩, rfl, rfl⟩
  | _ => exact ⟨⟨rfl, rfl, rfl⟩, rfl, rfl⟩

/-- The settler gives no sign, unless it is in the middle of pausing. -/
theorem settlerStep_signs (run : s.settlerStep config input = .ok next) :
    (¬ s.settler.IsPausing ∧ Unsigned s next ∧ next.audit = s.audit ∧ ∀ t : Daemon, t.SettlerPromises next.settler) ∨
      ∃ stage streak settler calls, s.settler = .pausing stage streak settler calls ∧
        next = s.settlerPauses config streak settler calls stage := by
  unfold settlerStep at run
  cases task : s.settler with
  | collecting =>
    refine .inl ⟨id, ?_⟩
    simp only [task, settlerCollects] at run
    split at run
    · cases run
      split
      · exact ⟨⟨rfl, rfl, rfl⟩, rfl, fun _ => by rw [task]; trivial⟩
      · exact ⟨⟨rfl, rfl, rfl⟩, rfl, fun _ => trivial⟩
    · split at run
      · cases run
        split
        · exact ⟨⟨rfl, rfl, rfl⟩, rfl, fun _ => trivial⟩
        · exact ⟨⟨rfl, rfl, rfl⟩, rfl, fun _ => trivial⟩
      · cases run
        exact ⟨⟨rfl, rfl, rfl⟩, rfl, fun _ => trivial⟩
      · cases run
  | recording blockNumber fills =>
    refine .inl ⟨id, ?_⟩
    cases fills with
    | nil =>
      simp only [task] at run
      cases run
      exact ⟨⟨rfl, rfl, rfl⟩, rfl, fun _ => trivial⟩
    | cons f fills =>
      simp only [task] at run
      cases run
      exact ⟨⟨TelemetryHub.recordFill_pause .., rfl, rfl⟩, rfl, fun _ => trivial⟩
  | sending settler calls =>
    refine .inl ⟨id, ?_⟩
    cases calls with
    | nil =>
      simp only [task] at run
      cases run
      exact ⟨⟨rfl, rfl, rfl⟩, rfl, fun _ => trivial⟩
    | cons call calls =>
      cases settler with
      | none =>
        simp only [task] at run
        cases run
        exact ⟨⟨rfl, rfl, rfl⟩, rfl, fun _ => trivial⟩
      | some settler =>
        simp only [task] at run
        cases run
        unfold settlerSends
        split
        · exact ⟨⟨rfl, rfl, rfl⟩, rfl, fun _ => trivial⟩
        · refine ⟨⟨rfl, rfl, rfl⟩, rfl, fun _ => ?_⟩
          dsimp only
          split <;> trivial
  | pausing stage streak settler calls =>
    simp only [task] at run
    cases run
    exact .inr ⟨stage, streak, settler, calls, rfl, rfl⟩
  | ended =>
    simp only [task] at run
    cases run

/-- Nor does the audit, unless it finds a drift or is in the middle of pausing. -/
theorem auditStep_signs (run : s.auditStep config provider = .ok next) :
    (¬ s.audit.IsPausing ∧ Unsigned s next ∧ next.settler = s.settler ∧ ∀ t : Daemon, t.AuditPromises next.audit) ∨
      (∃ snap, s.audit = .reconciling snap ∧
        reportExceedsThreshold (s.shadow.reconcile snap) config.audit.threshold = true ∧
        next = { s with
          shared := { s.shared with engine := s.shared.engine.pauseMatching }
          audit := .drifted }) ∨
      s.audit.IsPausing := by
  unfold auditStep at run
  cases task : s.audit with
  | waiting =>
    refine .inl ⟨id, ?_⟩
    have same : Unsigned s s ∧ s.settler = s.settler ∧ ∀ t : Daemon, t.AuditPromises s.audit :=
      ⟨⟨rfl, rfl, rfl⟩, rfl, fun _ => by rw [task]; trivial⟩
    simp only [task] at run
    cases run
    unfold auditTicks
    dsimp only
    split
    · exact same
    · split
      · exact ⟨⟨rfl, rfl, rfl⟩, rfl, fun _ => trivial⟩
      · split
        · exact same
        · split
          · exact same
          · exact ⟨⟨rfl, rfl, rfl⟩, rfl, fun _ => trivial⟩
  | syncing =>
    refine .inl ⟨id, ?_⟩
    simp only [task] at run
    cases run
    unfold auditSyncs
    split
    · split
      · exact ⟨⟨rfl, rfl, rfl⟩, rfl, fun _ => trivial⟩
      · rename_i synced
        obtain ⟨_, rfl⟩ := syncTreasuryTaxRateToEngine_frame synced
        exact ⟨⟨rfl, rfl, rfl⟩, rfl, fun _ => trivial⟩
    · exact ⟨⟨rfl, rfl, rfl⟩, rfl, fun _ => trivial⟩
  | fetchingAit =>
    simp only [task] at run
    cases run
    refine .inl ⟨id, ⟨rfl, rfl, rfl⟩, rfl, fun t => ?_⟩
    show t.AuditPromises (s.auditFetchesAit config provider)
    unfold auditFetchesAit
    split <;> trivial
  | fetchingVstk ait =>
    simp only [task] at run
    cases run
    refine .inl ⟨id, ⟨rfl, rfl, rfl⟩, rfl, fun t => ?_⟩
    show t.AuditPromises (s.auditFetchesVstk config provider ait)
    unfold auditFetchesVstk
    split <;> trivial
  | fetchingTax snap =>
    simp only [task] at run
    cases run
    refine .inl ⟨id, ⟨rfl, rfl, rfl⟩, rfl, fun t => ?_⟩
    show t.AuditPromises (auditFetchesTax config provider snap)
    unfold auditFetchesTax
    split <;> trivial
  | reconciling snap =>
    simp only [task] at run
    cases run
    unfold auditReconciles
    dsimp only
    split
    · exact .inl ⟨id, ⟨rfl, rfl, rfl⟩, rfl, fun _ => trivial⟩
    · split
      · rename_i exceeds
        exact .inr (.inl ⟨snap, rfl, exceeds, rfl⟩)
      · exact .inl ⟨id, ⟨rfl, rfl, rfl⟩, rfl, fun _ => trivial⟩
  | aligned =>
    simp only [task] at run
    cases run
    exact .inl ⟨id, ⟨rfl, rfl, rfl⟩, rfl, fun _ => trivial⟩
  | ended =>
    simp only [task] at run
    cases run
  | drifted | reporting | flagging | alerting => exact .inr (.inr trivial)

end Daemon

end Aide
