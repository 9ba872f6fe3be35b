import Aide.Halting

namespace Aide

open Engine

namespace Engine

/-- The streamer over the events that it receives, with all that it releases. -/
def Streamer.receiveAll (s : Streamer) : List MarketChainEvent → Streamer × List EngineEvent
  | [] => (s, [])
  | event :: rest =>
    let (s, out) := s.receive event
    let (s, more) := s.receiveAll rest
    (s, out ++ more)

theorem Streamer.receiveAll_append (s : Streamer) (events more : List MarketChainEvent) :
    s.receiveAll (events ++ more) = (((s.receiveAll events).1.receiveAll more).1,
      (s.receiveAll events).2 ++ ((s.receiveAll events).1.receiveAll more).2) := by
  induction events generalizing s with
  | nil => rfl
  | cons event events ih => simp [receiveAll, ih]

/-- What an event does to the books of an engine that takes no orders. -/
def MatchEngine.withdraw (engine : MatchEngine) : EngineEvent → MatchEngine
  | .orderCancelled _ companyId orderId => (engine.ingestCancel companyId orderId).2
  | _ => engine

/-- The books, the flag and the rate of an engine do not interfere. -/
theorem MatchEngine.ingestCancel_books {engine other : MatchEngine} (same : engine.books = other.books)
    (companyId orderId : ℕ) :
    (engine.ingestCancel companyId orderId).2.books = (other.ingestCancel companyId orderId).2.books := by
  unfold ingestCancel
  rw [same]
  cases (other.books companyId).cancelOrder orderId with
  | error e => exact same
  | ok book => simp only [setBook, same]

theorem MatchEngine.withdraw_books {engine other : MatchEngine} (same : engine.books = other.books)
    (ev : EngineEvent) : (engine.withdraw ev).books = (other.withdraw ev).books := by
  cases ev with
  | orderCancelled block companyId orderId => exact ingestCancel_books same companyId orderId
  | _ => exact same

/-- An order trades with the books, whatever the rate is. -/
theorem MatchEngine.limitOrderPlacement_rate {engine other : MatchEngine} (same : engine.books = other.books)
    (flag : engine.matchingPaused = other.matchingPaused) (incoming : OrderRecord) :
    engine.limitOrderPlacement incoming = (other.limitOrderPlacement incoming).map
      (Prod.map id fun next => { next with taxRateBps := engine.taxRateBps }) := by
  obtain ⟨books, paused, rate⟩ := engine
  obtain ⟨_, _, otherRate⟩ := other
  cases same
  cases flag
  unfold limitOrderPlacement
  dsimp only
  split
  · rfl
  · cases matchIncoming (books incoming.companyId) incoming with
    | error fault => rfl
    | ok matched =>
      obtain ⟨book, left, fills⟩ := matched
      simp only [bind, Except.bind, pure, Except.pure]
      split
      · cases book.insertLimitOrder left <;> rfl
      · rfl

namespace SharedState
variable {state : SharedState} {events : List EngineEvent}

/-- A runner that nobody pauses goes on. -/
theorem runMatchRunner_flags (state : SharedState) (events : List EngineEvent) :
    (state.runMatchRunner events).state.matchPaused = state.matchPaused ∧
      (state.runMatchRunner events).state.engine.matchingPaused = state.engine.matchingPaused := by
  induction events generalizing state with
  | nil => exact ⟨rfl, rfl⟩
  | cons ev events ih =>
    have flags := state.handle_flags ev
    cases survives : (state.handle ev).alive with
    | false =>
      rw [runMatchRunner_dead survives]
      exact flags
    | true =>
      rw [runMatchRunner_alive survives]
      exact ⟨(ih _).1.trans flags.1, (ih _).2.trans flags.2⟩

/-- One more event. -/
theorem runMatchRunner_concat (alive : (state.runMatchRunner events).alive = true) (ev : EngineEvent) :
    state.runMatchRunner (events ++ [ev]) = { (state.runMatchRunner events).state.handle ev with
      sent := (state.runMatchRunner events).sent ++ ((state.runMatchRunner events).state.handle ev).sent } := by
  rw [runMatchRunner_append alive, runMatchRunner_singleton]

end SharedState

end Engine

namespace Daemon
variable {τ : Type} {config : DaemonConfig} {s next : Daemon} {action : Action τ}
  {done : List EngineEvent} {ev : EngineEvent}

/-- The runner alone, with nobody that pauses it. -/
def alone (events : List EngineEvent) : SharedState.Handled := SharedState.new.runMatchRunner events

/-- The runner has sent what it sends alone of the events before the halt, and of those after it has done the
withdrawals. -/
structure Split (s : Daemon) (done before after : List EngineEvent) : Prop where
  split : done = before ++ after
  halted : after ≠ [] → s.Stopped
  sent : s.sent = (alone before).sent
  books : s.shared.engine.books = (after.foldl MatchEngine.withdraw (alone before).state.engine).books

/-- So it has, and it has survived. -/
def Paced (s : Daemon) (done : List EngineEvent) : Prop :=
  ∃ before after, s.Split done before after ∧ (alone before).alive = true

/-- It is in the middle of sending `rest`. -/
structure Pushing (s : Daemon) (rest : List Fill) (alive : Bool) : Prop where
  sent : (alone s.taken).sent = s.sent ++ rest
  alive : (alone s.taken).alive = alive
  books : s.shared.engine.books = (alone s.taken).state.engine.books

/-- Where the runner is, compared with the runner alone. -/
def Follows (s : Daemon) : RunnerTask → Prop
  | .waiting => s.Paced s.taken
  | .applying companyId buyer seller vstkAmount aitNotional => ∃ done block,
    s.taken = done ++ [.tradeSettled block companyId buyer seller vstkAmount aitNotional] ∧ s.Paced done
  | .placing record => ∃ done block, s.taken = done ++ [.orderPlaced block record.orderId record.companyId
      record.maker record.side record.priceRay record.remaining record.timestamp] ∧ s.Paced done
  | .counting fills => s.Pushing (s.shared.pushFills fills).sent (s.shared.pushFills fills).alive
  | .sending f fills => s.Pushing (f :: (s.shared.pushFills fills).sent) (s.shared.pushFills fills).alive
  | .ended _ => ∃ before after, s.Split s.taken before after

theorem Split.frame {before after : List EngineEvent} (split : s.Split done before after)
    (stopped : s.Stopped → next.Stopped) (sent : next.sent = s.sent)
    (books : next.shared.engine.books = s.shared.engine.books) : next.Split done before after :=
  ⟨split.split, stopped ∘ split.halted, sent.trans split.sent, books.trans split.books⟩

theorem Split.of_taken {before after : List EngineEvent} (split : s.Split done before after)
    (taken : s.taken = done) : s.Split s.taken before after := by
  rw [taken]
  exact split

theorem Paced.frame (paced : s.Paced done) (stopped : s.Stopped → next.Stopped) (sent : next.sent = s.sent)
    (books : next.shared.engine.books = s.shared.engine.books) : next.Paced done := by
  obtain ⟨before, after, split, alive⟩ := paced
  exact ⟨before, after, split.frame stopped sent books, alive⟩

/-- A step of another task leaves the runner where it is. -/
theorem Follows.frame {task : RunnerTask} (follows : s.Follows task) (stopped : s.Stopped → next.Stopped)
    (taken : next.taken = s.taken) (sent : next.sent = s.sent)
    (books : next.shared.engine.books = s.shared.engine.books) : next.Follows task := by
  have pushing : ∀ rest alive, s.Pushing rest alive → next.Pushing rest alive := fun _ _ pushing =>
    ⟨by rw [taken, sent]; exact pushing.sent, by rw [taken]; exact pushing.alive,
      by rw [taken]; exact books.trans pushing.books⟩
  cases task with
  | waiting =>
    show next.Paced next.taken
    rw [taken]
    exact Paced.frame follows stopped sent books
  | applying companyId buyer seller vstkAmount aitNotional =>
    obtain ⟨done, block, last, kept⟩ := follows
    exact ⟨done, block, taken.trans last, kept.frame stopped sent books⟩
  | placing record =>
    obtain ⟨done, block, last, kept⟩ := follows
    exact ⟨done, block, taken.trans last, kept.frame stopped sent books⟩
  | counting fills =>
    obtain ⟨same, alive, _⟩ := SharedState.pushFills_spec next.shared s.shared fills
    simp only [Follows, same, alive]
    exact pushing _ _ follows
  | sending f fills =>
    obtain ⟨same, alive, _⟩ := SharedState.pushFills_spec next.shared s.shared fills
    simp only [Follows, same, alive]
    exact pushing _ _ follows
  | ended unsent =>
    obtain ⟨before, after, kept⟩ := follows
    exact ⟨before, after, taken ▸ kept.frame stopped sent books⟩

/-- After the halt the runner is done with an event that it drops, or that makes it send nothing. -/
theorem Split.dropped {before after : List EngineEvent} (split : s.Split done before after) (halted : next.Stopped)
    (sent : next.sent = s.sent) (books : next.shared.engine.books = (s.shared.engine.withdraw ev).books) :
    next.Split (done ++ [ev]) before (after ++ [ev]) where
  split := by rw [split.split, List.append_assoc]
  halted _ := halted
  sent := sent.trans split.sent
  books := by
    rw [books, List.foldl_append]
    exact MatchEngine.withdraw_books split.books ev

variable (next) in
/-- Before the halt it does with an event what it does alone. -/
theorem Split.handled {before : List EngineEvent} (split : s.Split done before [])
    (alive : (alone before).alive = true)
    (sent : next.sent = s.sent ++ ((alone before).state.handle ev).sent)
    (books : next.shared.engine.books = ((alone before).state.handle ev).state.engine.books) :
    next.Split (done ++ [ev]) (done ++ [ev]) [] ∧
      (alone (done ++ [ev])).alive = ((alone before).state.handle ev).alive := by
  have whole : done = before := split.split.trans (List.append_nil _)
  subst whole
  have last : alone (done ++ [ev]) = { (alone done).state.handle ev with
      sent := (alone done).sent ++ ((alone done).state.handle ev).sent } :=
    SharedState.runMatchRunner_concat alive ev
  rw [split.sent] at sent
  exact ⟨⟨(List.append_nil _).symm, absurd rfl, by rw [last]; exact sent, by rw [last]; exact books⟩, by rw [last]⟩

/-- An event that makes no order. -/
def Quiet (ev : EngineEvent) : Prop := ∀ state : SharedState, (state.handle ev).sent = [] ∧
  (state.handle ev).state.engine.books = (state.engine.withdraw ev).books

variable (next) in
/-- It is all the same whether such an event comes before the halt or after it. -/
theorem Paced.quiet (paced : s.Paced done) (quiet : Quiet ev) (stopped : s.Stopped → next.Stopped)
    (sent : next.sent = s.sent) (books : next.shared.engine.books = (s.shared.engine.withdraw ev).books) :
    ∃ before after, next.Split (done ++ [ev]) before after ∧
      ((∀ state : SharedState, (state.handle ev).alive = true) → (alone before).alive = true) := by
  obtain ⟨before, after, split, alive⟩ := paced
  by_cases first : after = []
  · subst first
    obtain ⟨silent, handled⟩ := quiet (alone before).state
    have same := MatchEngine.withdraw_books split.books ev
    obtain ⟨next, lives⟩ := split.handled next alive (by rw [sent, silent, List.append_nil])
      (books.trans (same.trans handled.symm))
    exact ⟨_, _, next, fun survives => lives.trans (survives _)⟩
  · exact ⟨_, _, split.dropped (stopped (split.halted first)) sent books, fun _ => alive⟩

theorem quiet_newBlock (number : ℕ) : Quiet (.newBlock number) := fun _ => ⟨rfl, rfl⟩

theorem quiet_orderCancelled (block companyId orderId : ℕ) : Quiet (.orderCancelled block companyId orderId) :=
  fun _ => ⟨rfl, rfl⟩

theorem quiet_tradeSettled (block companyId : ℕ) (buyer seller : Address) (vstkAmount aitNotional : ℕ) :
    Quiet (.tradeSettled block companyId buyer seller vstkAmount aitNotional) := fun state => by
  rw [SharedState.handle_tradeSettled]
  exact ⟨rfl, rfl⟩

theorem follows_of_waiting (waiting : s.runner = .waiting) (paced : s.Paced s.taken) : s.Follows s.runner := by
  rw [waiting]
  exact paced

/-- The runner takes an event. -/
theorem runnerTakes_follows (agreeing : s.Agreeing) (paced : s.Paced s.taken) (waiting : s.runner = .waiting)
    (events : List EngineEvent) (ev : EngineEvent) :
    ({ s with events, taken := s.taken ++ [ev] }.runnerTakes ev).Follows
      ({ s with events, taken := s.taken ++ [ev] }.runnerTakes ev).runner := by
  cases ev with
  | newBlock number =>
    obtain ⟨before, after, split, alive⟩ := paced.quiet
      { s with
        shared := { s.shared with lastBlockHeight := number }
        events, taken := s.taken ++ [.newBlock number] }
      (quiet_newBlock number) id rfl rfl
    exact follows_of_waiting waiting ⟨before, after, split, alive fun _ => rfl⟩
  | orderCancelled block companyId orderId =>
    obtain ⟨before, after, split, alive⟩ := paced.quiet
      { s with
        shared := { s.shared with engine := (s.shared.engine.ingestCancel companyId orderId).2 }
        events, taken := s.taken ++ [.orderCancelled block companyId orderId] }
      (quiet_orderCancelled block companyId orderId)
      ((MatchEngine.ingestCancel_unpaused ..).2.trans) rfl rfl
    exact follows_of_waiting waiting ⟨before, after, split, alive fun _ => rfl⟩
  | tradeSettled block companyId buyer seller vstkAmount aitNotional =>
    exact ⟨s.taken, block, rfl, paced.frame id rfl rfl⟩
  | orderPlaced block orderId companyId maker side priceRay amount timestamp =>
    simp only [runnerTakes]
    by_cases paused : (s.shared.matchPaused || s.shared.engine.matchingPaused) = true
    · have halted : s.Stopped := ((Bool.or_eq_true _ _).mp paused).elim
        (fun raised => (agreeing.raised raised).2) id
      obtain ⟨before, after, split, alive⟩ := paced
      rw [if_pos paused]
      exact follows_of_waiting waiting ⟨before, _, split.dropped halted rfl rfl, alive⟩
    · rw [if_neg paused]
      exact ⟨s.taken, block, rfl, paced.frame id rfl rfl⟩

/-- An order that was let through is placed in the books of the runner alone, unless matching has been paused
since. -/
theorem placing_follows {record : OrderRecord} (follows : s.Follows (.placing record)) (task : s.runner = .placing record)
    (run : s.runnerStep = .ok next) : next.Follows next.runner := by
  obtain ⟨done, block, last, before, after, split, alive⟩ := follows
  simp only [runnerStep, task] at run
  by_cases stopped : s.Stopped
  · have refused : s.shared.engine.limitOrderPlacement record =
        .ok (.error .matchingPaused, s.shared.engine) := if_pos stopped
    simp only [refused] at run
    cases run
    exact ⟨before, _, Split.of_taken (split.dropped stopped rfl rfl) last, alive⟩
  · have first : after = [] := not_not.mp fun more => stopped (split.halted more)
    subst first
    have running : s.shared.engine.matchingPaused = false := Bool.eq_false_iff.mpr stopped
    obtain ⟨flag, unpaused⟩ := SharedState.runMatchRunner_flags .new before
    have books : s.shared.engine.books = (alone before).state.engine.books := split.books
    have placed := MatchEngine.limitOrderPlacement_rate books (running.trans unpaused.symm) record
    have handled : (alone before).state.handle (.orderPlaced block record.orderId record.companyId record.maker
        record.side record.priceRay record.remaining record.timestamp) = _ :=
      if_neg (by rw [show (alone before).state.matchPaused = false from flag,
        show (alone before).state.engine.matchingPaused = false from unpaused]; decide)
    cases result : (alone before).state.engine.limitOrderPlacement record with
    | error fault =>
      simp only [placed, result, Except.map] at run
      simp only [result] at handled
      cases run
      obtain ⟨split, _⟩ := split.handled { s with runner := .ended [] } alive
        (by rw [handled]; exact (List.append_nil _).symm) (by rw [handled]; exact books)
      exact ⟨_, _, split.of_taken last⟩
    | ok outcome =>
      obtain ⟨verdict, engine⟩ := outcome
      cases verdict with
      | error e =>
        simp only [placed, result, Except.map, Prod.map, id] at run
        simp only [result] at handled
        cases run
        obtain ⟨split, lives⟩ := split.handled
          { s with
            shared := { s.shared with engine := { engine with taxRateBps := s.shared.engine.taxRateBps } }
            runner := .waiting }
          alive (by rw [handled]; exact (List.append_nil _).symm) (by rw [handled])
        exact ⟨_, _, split.of_taken last, lives.trans (by rw [handled])⟩
      | ok fills =>
        simp only [placed, result, Except.map, Prod.map, id] at run
        simp only [result] at handled
        cases run
        have whole : done = before := split.split.trans (List.append_nil _)
        subst whole
        have concat := SharedState.runMatchRunner_concat alive (.orderPlaced block record.orderId record.companyId
          record.maker record.side record.priceRay record.remaining record.timestamp)
        rw [← last, show (SharedState.new.runMatchRunner done).state.handle _ = _ from handled] at concat
        obtain ⟨sent, lives, books, _⟩ := SharedState.pushFills_spec { (alone done).state with engine }
          { s.shared with engine := { engine with taxRateBps := s.shared.engine.taxRateBps } } fills
        refine ⟨?_, ?_, ?_⟩
        · show (SharedState.new.runMatchRunner s.taken).sent = _
          rw [concat, sent, split.sent]
          rfl
        · show (SharedState.new.runMatchRunner s.taken).alive = _
          rw [concat]
          exact lives
        · show _ = (SharedState.new.runMatchRunner s.taken).state.engine.books
          rw [concat]
          exact (congrArg MatchEngine.books books).symm

/-- A trade is applied. One whose notional does not fit ends the runner. -/
theorem applying_follows {companyId vstkAmount aitNotional : ℕ} {buyer seller : Address}
    (follows : s.Follows (.applying companyId buyer seller vstkAmount aitNotional))
    (task : s.runner = .applying companyId buyer seller vstkAmount aitNotional) (run : s.runnerStep = .ok next) :
    next.Follows next.runner := by
  obtain ⟨done, block, last, paced⟩ := follows
  have quiet := quiet_tradeSettled block companyId buyer seller vstkAmount aitNotional
  simp only [runnerStep, task] at run
  split at run
  · cases run
    obtain ⟨before, after, split, _⟩ := paced.quiet
      { s with
        shadow := s.shadow.applyFillShadow companyId buyer seller vstkAmount aitNotional
        shared := { s.shared with
          sync := (s.shadow.applyFillShadow companyId buyer seller vstkAmount aitNotional).sync }
        runner := .ended [] }
      quiet id rfl rfl
    exact ⟨before, after, split.of_taken last⟩
  · rename_i counted
    cases run
    obtain ⟨fits, rfl⟩ := SharedState.accumulateVelocity_eq counted
    obtain ⟨before, after, split, alive⟩ := paced.quiet
      { s with
        shadow := s.shadow.applyFillShadow companyId buyer seller vstkAmount aitNotional
        shared := { s.shared with
          sync := (s.shadow.applyFillShadow companyId buyer seller vstkAmount aitNotional).sync
          economicVelocityWei := fetchAdd s.shared.economicVelocityWei (aitNotional % 2 ^ 64) }
        runner := .waiting }
      quiet id rfl rfl
    refine ⟨before, after, split.of_taken last, alive fun state => ?_⟩
    rw [SharedState.handle_tradeSettled]
    exact decide_eq_true fits

/-- What is left of the loop over the fills once a fill has been counted. -/
theorem pushFills_counted {state counted : SharedState} {f : Fill} (fills : List Fill)
    (fits : state.accumulateVelocity f.aitNotional = some counted) :
    (state.pushFills (f :: fills)).sent = f :: (state.pushFills fills).sent ∧
      (state.pushFills (f :: fills)).alive = (state.pushFills fills).alive := by
  obtain ⟨sent, alive, _⟩ := SharedState.pushFills_spec
    { counted with pendingSettlements := fetchAdd counted.pendingSettlements 1 } state fills
  conv_lhs => rw [SharedState.pushFills]
  simp only [fits]
  exact ⟨congrArg (f :: ·) sent, by rw [SharedState.pushFills]; simp only [fits]; exact alive⟩

theorem counting_follows {fills : List Fill} (follows : s.Follows (.counting fills))
    (task : s.runner = .counting fills) (run : s.runnerStep = .ok next) : next.Follows next.runner := by
  obtain ⟨sent, alive, books⟩ := follows
  cases fills with
  | nil =>
    simp only [runnerStep, task] at run
    cases run
    exact ⟨s.taken, [], ⟨(List.append_nil _).symm, absurd rfl, by rw [sent]; exact (List.append_nil _).symm, books⟩,
      alive⟩
  | cons f fills =>
    simp only [runnerStep, task] at run
    split at run
    · rename_i overflows
      cases run
      have none : (s.shared.pushFills (f :: fills)).sent = [] := by
        rw [SharedState.pushFills]
        simp only [overflows]
      rw [none, List.append_nil] at sent
      exact ⟨s.taken, [], (List.append_nil _).symm, absurd rfl, sent.symm, books⟩
    · rename_i counted
      cases run
      obtain ⟨first, lives⟩ := pushFills_counted fills counted
      rw [first] at sent
      rw [lives] at alive
      obtain ⟨_, rfl⟩ := SharedState.accumulateVelocity_eq counted
      have frame : Follows s (.sending f fills) := ⟨sent, alive, books⟩
      exact frame.frame id rfl rfl rfl

theorem sending_follows (accounted : s.Accounted config) {f : Fill} {fills : List Fill}
    (follows : s.Follows (.sending f fills)) (task : s.runner = .sending f fills) (run : s.runnerStep = .ok next) :
    next.Follows next.runner := by
  obtain ⟨sent, alive, books⟩ := follows
  simp only [runnerStep, task] at run
  split at run
  · rename_i ended
    exact absurd ended (accounted.opened (by simp [task]))
  · split at run <;> cases run
    exact ⟨sent.trans (by simp), alive, books⟩

theorem runnerStep_follows (accounted : s.Accounted config) (agreeing : s.Agreeing) (follows : s.Follows s.runner)
    (run : s.runnerStep = .ok next) : next.Follows next.runner := by
  cases task : s.runner with
  | waiting =>
    rw [task] at follows
    unfold runnerStep at run
    simp only [task] at run
    split at run
    · split at run <;> cases run
      obtain ⟨before, after, split, _⟩ := follows
      exact ⟨before, after, split.frame id rfl rfl⟩
    · cases run
      rw [← task]
      exact runnerTakes_follows agreeing follows task _ _
  | applying companyId buyer seller vstkAmount aitNotional => exact applying_follows (task ▸ follows) task run
  | placing record => exact placing_follows (task ▸ follows) task run
  | counting fills => exact counting_follows (task ▸ follows) task run
  | sending f fills => exact sending_follows accounted (task ▸ follows) task run
  | ended unsent =>
    simp only [runnerStep, task] at run
    cases run

/-- Whatever the other tasks do between its steps, the runner does what it does alone. -/
theorem exec_follows (accounted : s.Accounted config) (agreeing : s.Agreeing) (follows : s.Follows s.runner)
    (run : s.exec config action = .ok next) : next.Follows next.runner := by
  have lasting := (exec_agreeing agreeing run).1
  cases action with
  | runner => exact runnerStep_follows accounted agreeing follows run
  | streamer event =>
    obtain ⟨_, _, _, _, _, _, rfl⟩ := streamerStep_frame run
    exact follows.frame lasting.stopped rfl rfl rfl
  | settler input =>
    obtain ⟨_, _, _, _, _, _, _, _, _, _, _, rfl⟩ := settlerStep_frame run
    exact follows.frame lasting.stopped rfl rfl rfl
  | audit provider =>
    obtain ⟨_, _, _, _, _, _, _, rfl⟩ := auditStep_frame run
    exact follows.frame lasting.stopped rfl rfl rfl
  | listenerExits failed =>
    simp only [Daemon.exec] at run
    split at run <;> cases run
    exact follows.frame lasting.stopped rfl rfl rfl
  | guardrailPolled paused | summary now =>
    cases run
    exact follows.frame lasting.stopped rfl rfl rfl

/-- The streamer has released what it releases alone, and the runner has taken the first of it. -/
def Released (s : Daemon) : Prop :=
  Streamer.new.receiveAll s.received = (s.streamer, s.taken ++ s.events ++ s.releasing)

theorem streamerStep_released {event : Option MarketChainEvent} (released : s.Released)
    (run : s.streamerStep event = .ok next) : next.Released := by
  unfold streamerStep at run
  split at run
  · split at run
    · rename_i empty
      cases event with
      | none =>
        simp only [streamerReceives] at run
        split at run <;> cases run
        exact released
      | some event =>
        cases run
        unfold Released at released ⊢
        rw [empty, List.append_nil] at released
        show Streamer.new.receiveAll (s.received ++ [event]) =
          ((s.streamer.receive event).1, s.taken ++ s.events ++ (s.streamer.receive event).2)
        rw [Streamer.receiveAll_append, released]
        simp [Streamer.receiveAll]
    · rename_i ev releasing first
      unfold streamerReleases at run
      split at run
      · cases run
        exact released
      · split at run <;> cases run
        unfold Released at released ⊢
        rw [released, first]
        simp
  · cases run

theorem exec_released (released : s.Released) (run : s.exec config action = .ok next) : next.Released := by
  cases action with
  | streamer event => exact streamerStep_released released run
  | runner =>
    obtain ⟨_, _, _, _, _, _, _, rfl, kept⟩ := runnerStep_frame run
    unfold Released at released ⊢
    rw [released, kept]
  | settler input =>
    obtain ⟨_, _, _, _, _, _, _, _, _, _, _, rfl⟩ := settlerStep_frame run
    exact released
  | audit provider =>
    obtain ⟨_, _, _, _, _, _, _, rfl⟩ := auditStep_frame run
    exact released
  | listenerExits failed =>
    simp only [Daemon.exec] at run
    split at run <;> cases run
    exact released
  | guardrailPolled paused | summary now =>
    cases run
    exact released

theorem run_follows (config : DaemonConfig) (contracts : ContractAddressBook) (run : List (Action τ)) :
    let s := TransitionRun.exec (Daemon.exec config) (started contracts) run
    s.Released ∧ s.Follows s.runner :=
  (TransitionRun.exec_preserves (P := fun _ _ => True)
    (I := fun s => (s.Accounted config ∧ s.Agreeing) ∧ s.Released ∧ s.Follows s.runner)
    (fun _ _ _ kept _ taken =>
      ⟨⟨exec_accounted kept.1.1 taken, (exec_agreeing kept.1.2 taken).2⟩,
        exec_released kept.2.1 taken, exec_follows kept.1.1 kept.1.2 kept.2.2 taken⟩)
    ⟨⟨started_accounted config contracts, started_agreeing contracts⟩, rfl,
      [], [], ⟨rfl, absurd rfl, rfl, rfl⟩, rfl⟩
    (.of_forall fun _ _ _ => trivial)).2

end Daemon

/-- The runner is not in the middle of an event. -/
def RunnerTask.AtRest : RunnerTask → Prop
  | .waiting | .ended _ => True
  | _ => False

namespace Daemon
variable {s : Daemon} {done before after : List EngineEvent} {ev : EngineEvent}

/-- An event in whose middle the runner is, counted among those before the halt if there was none. -/
theorem Paced.underway (paced : s.Paced done) (last : s.taken = done ++ [ev]) :
    ∃ before after, s.taken = before ++ after ∧ (after ≠ [] → s.Stopped) ∧ s.sent <+: (alone before).sent := by
  obtain ⟨before, after, split, alive⟩ := paced
  by_cases first : after = []
  · refine ⟨before ++ [ev], [], ?_, absurd rfl, ?_⟩
    · rw [last, split.split, first, List.append_nil, List.append_nil]
    · show _ <+: (SharedState.new.runMatchRunner (before ++ [ev])).sent
      rw [SharedState.runMatchRunner_concat alive, split.sent]
      exact List.prefix_append ..
  · refine ⟨before, after ++ [ev], ?_, fun _ => split.halted first, split.sent ▸ List.prefix_refl _⟩
    rw [last, split.split, List.append_assoc]

end Daemon

/-- The concurrent daemon is the sequential one. In every interleaving of its tasks, the runner takes the events
in the order in which the streamer alone releases them; it sends, in order, the fills that the runner alone makes of
the events taken up to some point; and only after the engine refuses orders are there events beyond it, of which
then nothing but the withdrawals reaches the books. -/
theorem daemon_refines_runner {τ : Type} (config : DaemonConfig) (contracts : ContractAddressBook)
    (run : List (Daemon.Action τ)) :
    let s := TransitionRun.exec (Daemon.exec config) (Daemon.started contracts) run
    (Streamer.new.receiveAll s.received).2 = s.taken ++ s.events ++ s.releasing ∧
      ∃ before after, s.taken = before ++ after ∧ (after ≠ [] → s.Stopped) ∧
        s.sent <+: (SharedState.new.runMatchRunner before).sent ∧
        (s.runner.AtRest → s.sent = (SharedState.new.runMatchRunner before).sent ∧
          s.shared.engine.books =
            (after.foldl MatchEngine.withdraw (SharedState.new.runMatchRunner before).state.engine).books) := by
  intro s
  obtain ⟨released, follows⟩ : s.Released ∧ s.Follows s.runner := Daemon.run_follows config contracts run
  refine ⟨congrArg Prod.snd released, ?_⟩
  cases task : s.runner with
  | waiting =>
    rw [task] at follows
    obtain ⟨before, after, split, _⟩ := follows
    exact ⟨before, after, split.split, split.halted, split.sent ▸ List.prefix_refl _,
      fun _ => ⟨split.sent, split.books⟩⟩
  | ended unsent =>
    rw [task] at follows
    obtain ⟨before, after, split⟩ := follows
    exact ⟨before, after, split.split, split.halted, split.sent ▸ List.prefix_refl _,
      fun _ => ⟨split.sent, split.books⟩⟩
  | applying | placing =>
    rw [task] at follows
    obtain ⟨done, block, last, paced⟩ := follows
    obtain ⟨before, after, split, halted, sent⟩ := paced.underway last
    exact ⟨before, after, split, halted, sent, False.elim⟩
  | counting | sending =>
    rw [task] at follows
    have sent := follows.sent
    exact ⟨s.taken, [], (List.append_nil _).symm, absurd rfl, ⟨_, sent.symm⟩, False.elim⟩

end Aide
