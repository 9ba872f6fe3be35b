import Aide.Engine.Audit
import Aide.Engine.Settler
import Aide.Shadow

namespace Aide

open Engine

/-- The trade that a log of a block tells the engine. -/
def Event.settledIn (block : ℕ) : Event → Option EngineEvent
  | .tradeSettled companyId _ _ buyer seller vstkAmount aitNotional _ _ =>
    some (.tradeSettled block companyId buyer seller vstkAmount aitNotional)
  | _ => none

/-- An audit between its start and its report: what it has still to read, and what it has read. -/
structure Audit where
  users : List Address
  keys : List (ℕ × Address)
  snapshot : ChainBalanceSnapshot

/-- The market with its latest block, the trades on their way from it to the shadow, and the audit.
A trade is first in a block that is not scanned, then in the buffer, and then in the channel to the
match runner. -/
structure Audited (τ : Type) where
  world : World τ
  head : ℕ
  mined : List (ℕ × EngineEvent)
  buf : BlockBuffer
  sent : List EngineEvent
  shadow : Shadow
  engine : MatchEngine
  audit : Option Audit
  reports : List (List BalanceDrift)

namespace Audited
variable {τ : Type}

def started (w : World τ) (head : ℕ) (shadow : Shadow) (engine : MatchEngine) : Audited τ where
  world := w
  head
  mined := []
  buf := .new 3
  sent := []
  shadow
  engine
  audit := none
  reports := []

/-- A block of calls of `settleTrade` is mined, the listener scans a trade, the streamer takes a head
that was read before, the shadow takes a trade; an audit starts, reads a balance, reports, or fails. -/
inductive Action
  | mine (calls : List (Msg × SettleTradeCall))
  | scan
  | poll (number : ℕ)
  | apply
  | start
  | readAit (user : Address)
  | readVstk (key : ℕ × Address)
  | report
  | fail

/-- A call that is reverted changes nothing. -/
def settleOne [AitToken τ] (d : Deployment) (w : World τ) (call : Msg × SettleTradeCall) : World τ :=
  match InternalMarket.settleTrade d call.1 call.2.makerOrderId call.2.takerOrderId call.2.vstkAmount
      call.2.aitNotional call.2.settlementId w with
  | .ok next => next
  | .error _ => w

def settleAll [AitToken τ] (d : Deployment) (w : World τ) (calls : List (Msg × SettleTradeCall)) :
    World τ :=
  calls.foldl (settleOne d) w

/-- The trades that a block adds. -/
def trades (block : ℕ) (w next : World τ) : List EngineEvent :=
  (next.log.drop w.log.length).filterMap (Event.settledIn block)

def exec [AitToken τ] (d : Deployment) (s : Audited τ) : Action → Except Unit (Audited τ)
  | .mine calls =>
    let next := settleAll d s.world calls
    .ok { s with
      world := next
      head := s.head + 1
      mined := s.mined ++ (trades (s.head + 1) s.world next).map (s.head + 1, ·) }
  | .scan =>
    match s.mined with
    | [] => .error ()
    | (block, ev) :: mined => .ok { s with mined, buf := s.buf.push block ev }
  | .poll number =>
    if number ≤ s.head then
      let (confirmed, buf) := s.buf.drainConfirmed number
      .ok { s with buf, sent := s.sent ++ confirmed }
    else
      .error ()
  | .apply =>
    match s.sent with
    | [] => .error ()
    | ev :: sent => .ok { s with sent, shadow := s.shadow.observe ev }
  | .start =>
    match s.audit with
    | some _ => .error ()
    | none => .ok { s with
      engine := s.engine.syncTaxRate s.world.treasury.taxRateBps
      audit := some ⟨s.shadow.shadowAitUsers, s.shadow.shadowVstkKeys, .new⟩ }
  | .readAit user =>
    match s.audit with
    | none => .error ()
    | some audit =>
      if audit.users.contains user then
        let ait := Function.update audit.snapshot.ait user (some (s.world.market.aitBalance user))
        .ok { s with audit := some { audit with
          users := audit.users.erase user
          snapshot := { audit.snapshot with ait } } }
      else
        .error ()
  | .readVstk key =>
    match s.audit with
    | none => .error ()
    | some audit =>
      if audit.keys.contains key then
        let vstk := Function.update audit.snapshot.vstk key
          (some (s.world.market.vstkBalance key.1 key.2))
        .ok { s with audit := some { audit with
          keys := audit.keys.erase key
          snapshot := { audit.snapshot with vstk } } }
      else
        .error ()
  | .report =>
    match s.audit with
    | some ⟨[], [], snapshot⟩ =>
      let drifts := s.shadow.reconcile snapshot
      .ok { s with
        engine := s.engine.judge drifts 0
        audit := none
        reports := s.reports ++ [drifts] }
    | _ => .error ()
  | .fail => .ok { s with audit := none }

/-- The trades that are settled and have not reached the shadow. -/
def inFlight (s : Audited τ) : List EngineEvent :=
  s.sent ++ s.buf.queue.map Prod.snd ++ s.mined.map Prod.snd

/-- No report has a drift of shares, and matching was not paused without a drift of internal
balances. -/
structure NoShareAlarm (origin s : Audited τ) : Prop where
  reports : ∀ drifts ∈ s.reports, ∀ drift ∈ drifts, drift.field = .aitBalance
  paused : s.engine.matchingPaused = true → origin.engine.matchingPaused = true ∨
    ∃ drifts ∈ s.reports, ∃ drift ∈ drifts, drift.field = .aitBalance

/-- An audit starts when no trade is on its way to the shadow, no trade is settled before it has read
all shares, and none reaches the shadow before it has reported. -/
def Calm [AitToken τ] (d : Deployment) (s : Audited τ) : Action → Prop
  | .mine calls => (∃ audit, s.audit = some audit ∧ audit.keys ≠ []) →
      trades (s.head + 1) s.world (settleAll d s.world calls) = []
  | .apply => s.audit = none
  | .start => s.inFlight = []
  | .scan | .poll _ | .readAit _ | .readVstk _ | .report | .fail => True

/-- The shares of the shadow are those of the market. -/
def SameShares (shadow : Shadow) (market : InternalMarket) : Prop :=
  ∀ companyId user, shadow.sync.vstk (companyId, user) = market.vstkBalance companyId user

/-- The shadow after the trades that are on their way to it have the shares of the market. While an
audit reads shares no trade is on its way, and what it has read are the shares of the shadow. -/
structure Inv (origin s : Audited τ) : Prop where
  same : SameShares (s.inFlight.foldl Shadow.observe s.shadow) s.world.market
  still : ∀ audit, s.audit = some audit → audit.keys ≠ [] → s.inFlight = []
  read : ∀ audit, s.audit = some audit → ∀ key ∈ s.shadow.shadowVstkKeys,
    key ∈ audit.keys ∨ audit.snapshot.vstk key = some (s.shadow.sync.vstk key)
  quiet : origin.NoShareAlarm s

variable {d : Deployment} {origin s next : Audited τ} {w : World τ} {block : ℕ}

theorem started_inv {head : ℕ} {shadow : Shadow} {engine : MatchEngine}
    (same : SameShares shadow w.market) :
    Inv (started w head shadow engine) (started w head shadow engine) where
  same := same
  still := fun _ none => nomatch none
  read := fun _ none => nomatch none
  quiet := ⟨fun _ member => absurd member List.not_mem_nil, Or.inl⟩

section Settle
variable [AitToken τ]

/-- A shadow follows the trades that a call logs. -/
theorem settleOne_spec (block : ℕ) (w : World τ) (call : Msg × SettleTradeCall) :
    ∃ emitted, (settleOne d w call).log = w.log ++ emitted ∧
      ∀ shadow, SameShares shadow w.market →
        SameShares ((emitted.filterMap (Event.settledIn block)).foldl Shadow.observe shadow)
          (settleOne d w call).market := by
  unfold settleOne
  split
  · rename_i next run
    obtain ⟨_, ⟨cid, fee, buyer, seller, settled⟩ | blocked⟩ := InternalMarket.settleTrade_cases run
    · obtain ⟨_, _, _, _, effect⟩ := settled.effect
      have logs : next.log = w.log ++ (Treasury.taxLog d.internalMarket d.internalMarket
          call.2.aitNotional fee ++ [.tradeSettled cid call.2.takerOrderId call.2.makerOrderId buyer
            seller call.2.vstkAmount call.2.aitNotional fee call.2.settlementId]) := by
        rw [effect, List.append_assoc]
      refine ⟨_, logs, fun shadow same companyId user => ?_⟩
      rw [List.filterMap_append, Treasury.filterMap_taxLog (Event.settledIn block) rfl]
      exact settled.follows_vstk same companyId user
    · have logs : next.log = w.log ++ (Guardrail.tripEvents .fee
          (call.2.aitNotional * w.treasury.taxRateBps / 10000) w ++ [.tradeSettledBlocked
            call.2.makerOrderId call.2.takerOrderId call.2.aitNotional call.2.settlementId]) := by
        rw [blocked]
        exact List.append_assoc ..
      refine ⟨_, logs, fun shadow same => ?_⟩
      rw [List.filterMap_append, Guardrail.filterMap_tripEvents (Event.settledIn block) rfl, blocked]
      exact same
  · exact ⟨[], (List.append_nil _).symm, fun shadow same => same⟩

theorem settleAll_spec (block : ℕ) (w : World τ) (calls : List (Msg × SettleTradeCall)) :
    ∃ emitted, (settleAll d w calls).log = w.log ++ emitted ∧
      ∀ shadow, SameShares shadow w.market →
        SameShares ((emitted.filterMap (Event.settledIn block)).foldl Shadow.observe shadow)
          (settleAll d w calls).market := by
  induction calls generalizing w with
  | nil => exact ⟨[], (List.append_nil _).symm, fun shadow same => same⟩
  | cons call calls ih =>
    obtain ⟨first, logs, follows⟩ := settleOne_spec (d := d) block w call
    obtain ⟨rest, logsRest, followsRest⟩ := ih (settleOne d w call)
    refine ⟨first ++ rest, ?_, fun shadow same => ?_⟩
    · rw [← List.append_assoc, ← logs]
      exact logsRest
    · rw [List.filterMap_append, List.foldl_append]
      exact followsRest _ (follows shadow same)

end Settle

/-- A block of settlements brings its trades on their way. -/
theorem Inv.mine [AitToken τ] (inv : Inv origin s) {calls : List (Msg × SettleTradeCall)}
    (calm : s.Calm d (.mine calls)) :
    Inv origin { s with
      world := settleAll d s.world calls
      head := s.head + 1
      mined := s.mined ++ (trades (s.head + 1) s.world (settleAll d s.world calls)).map
        (s.head + 1, ·) } := by
  obtain ⟨emitted, logs, follows⟩ := settleAll_spec (d := d) (s.head + 1) s.world calls
  set more := trades (s.head + 1) s.world (settleAll d s.world calls) with moreIs
  have emits : more = emitted.filterMap (Event.settledIn (s.head + 1)) := by
    rw [moreIs, trades, logs, List.drop_left]
  have inFlight : s.sent ++ s.buf.queue.map Prod.snd ++
      (s.mined ++ more.map (s.head + 1, ·)).map Prod.snd = s.inFlight ++ more := by
    simp [Audited.inFlight, Function.comp_def]
  refine ⟨?_, fun audit reads keys => inFlight.trans ?_, inv.read, inv.quiet.reports,
    inv.quiet.paused⟩
  · change SameShares (List.foldl Shadow.observe s.shadow (_ ++ _ ++ _)) _
    rw [inFlight, List.foldl_append, emits]
    exact follows _ inv.same
  · have none : more = [] := calm ⟨audit, reads, keys⟩
    rw [none, List.append_nil]
    exact inv.still audit reads keys

/-- A trade moves on towards the shadow. -/
theorem Inv.move (inv : Inv origin s) {mined : List (ℕ × EngineEvent)} {buf : BlockBuffer}
    {sent : List EngineEvent}
    (moves : sent ++ buf.queue.map Prod.snd ++ mined.map Prod.snd = s.inFlight) :
    Inv origin { s with mined, buf, sent } := by
  refine ⟨?_, fun audit reads keys => moves.trans (inv.still audit reads keys), inv.read,
    inv.quiet.reports, inv.quiet.paused⟩
  change SameShares (List.foldl Shadow.observe s.shadow (_ ++ _ ++ _)) _
  rw [moves]
  exact inv.same

theorem drain_split (confirmations head : ℕ) (queue : List (ℕ × EngineEvent)) :
    (BlockBuffer.drain confirmations head queue).1 ++
      (BlockBuffer.drain confirmations head queue).2.map Prod.snd = queue.map Prod.snd := by
  rw [BlockBuffer.drain_eq, ← List.map_append, List.takeWhile_append_dropWhile]

/-- The shadow takes a trade while no audit compares it. -/
theorem Inv.apply (inv : Inv origin s) (idle : s.audit = none) {ev : EngineEvent}
    {sent : List EngineEvent} (first : s.sent = ev :: sent) :
    Inv origin { s with sent, shadow := s.shadow.observe ev } := by
  have same := inv.same
  rw [Audited.inFlight, first] at same
  refine ⟨same, fun audit reads => ?_, fun audit reads => ?_, inv.quiet.reports, inv.quiet.paused⟩
  · cases idle.symm.trans reads
  · cases idle.symm.trans reads

theorem Inv.start (inv : Inv origin s) (calm : s.inFlight = []) (rate : ℕ) :
    Inv origin { s with
      engine := s.engine.syncTaxRate rate
      audit := some ⟨s.shadow.shadowAitUsers, s.shadow.shadowVstkKeys, .new⟩ } := by
  refine ⟨inv.same, fun _ _ _ => calm, fun audit started key listed => ?_, inv.quiet.reports,
    inv.quiet.paused⟩
  cases started
  exact Or.inl listed

/-- What the audit reads is what the shadow has, because no trade is on its way. -/
theorem Inv.readVstk (inv : Inv origin s) {audit : Audit} {key : ℕ × Address}
    (reads : s.audit = some audit) (member : key ∈ audit.keys) :
    Inv origin { s with audit := some { audit with
      keys := audit.keys.erase key
      snapshot := { audit.snapshot with
        vstk := Function.update audit.snapshot.vstk key
          (some (s.world.market.vstkBalance key.1 key.2)) } } } := by
  have none := inv.still audit reads (List.ne_nil_of_mem member)
  have same := inv.same
  rw [none] at same
  refine ⟨inv.same, fun _ _ _ => none, fun after started other listed => ?_, inv.quiet.reports, inv.quiet.paused⟩
  cases started
  by_cases isKey : other = key
  · subst isKey
    exact Or.inr ((Function.update_self ..).trans (congrArg some (same other.1 other.2).symm))
  · change _ ∨ Function.update _ key _ other = _
    rw [Function.update_of_ne isKey]
    exact (inv.read audit reads other listed).imp_left (List.mem_erase_of_ne isKey).mpr

theorem Inv.readAit (inv : Inv origin s) {audit : Audit} (reads : s.audit = some audit)
    (users : List Address) (ait : Address → Option ℕ) :
    Inv origin { s with audit := some { audit with
      users
      snapshot := { audit.snapshot with ait } } } := by
  refine ⟨inv.same, fun after started keys => ?_, fun after started => ?_, inv.quiet.reports, inv.quiet.paused⟩
  · cases started
    exact inv.still audit reads keys
  · cases started
    exact inv.read audit reads

theorem Inv.report (inv : Inv origin s) {users : List Address} {snapshot : ChainBalanceSnapshot}
    (reads : s.audit = some ⟨users, [], snapshot⟩) :
    Inv origin { s with
      engine := s.engine.judge (s.shadow.reconcile snapshot) 0
      audit := none
      reports := s.reports ++ [s.shadow.reconcile snapshot] } := by
  have drifts : ∀ drift ∈ s.shadow.reconcile snapshot, drift.field = .aitBalance := by
    intro drift member
    refine Shadow.reconcile_vstk (fun key listed => ?_) member
    exact (inv.read _ reads key listed).resolve_left List.not_mem_nil
  refine ⟨inv.same, (fun _ none => by cases none), (fun _ none => by cases none), ?_, fun paused => ?_⟩
  · intro report member
    rcases List.mem_append.mp member with old | new
    · exact inv.quiet.reports report old
    · cases List.mem_singleton.mp new
      exact drifts
  · rcases MatchEngine.judge_paused paused with before | ⟨drift, member⟩
    · refine (inv.quiet.paused before).imp_right fun ⟨report, old, has⟩ => ?_
      exact ⟨report, List.mem_append_left _ old, has⟩
    · exact Or.inr ⟨_, List.mem_append_right _ (List.mem_singleton_self _), drift, member,
        drifts drift member⟩

theorem Inv.exec [AitToken τ] {action : Action} (inv : Inv origin s) (calm : s.Calm d action)
    (run : s.exec d action = .ok next) :
    Inv origin next := by
  cases action with
  | mine calls =>
    cases run
    exact inv.mine calm
  | scan =>
    simp only [Audited.exec] at run
    split at run <;> cases run
    rename_i block ev mined first
    refine inv.move ?_
    simp [Audited.inFlight, first, BlockBuffer.push]
  | poll number =>
    simp only [Audited.exec] at run
    split at run <;> cases run
    have split := drain_split s.buf.confirmations number s.buf.queue
    refine inv.move ?_
    rw [Audited.inFlight, ← split]
    simp [BlockBuffer.drainConfirmed]
  | apply =>
    simp only [Audited.exec] at run
    split at run <;> cases run
    rename_i ev sent first
    exact inv.apply calm first
  | start =>
    simp only [Audited.exec] at run
    split at run <;> cases run
    exact inv.start calm _
  | readAit user =>
    simp only [Audited.exec] at run
    split at run
    · cases run
    · rename_i audit reads
      split at run <;> cases run
      exact inv.readAit reads _ _
  | readVstk key =>
    simp only [Audited.exec] at run
    split at run
    · cases run
    · rename_i audit reads
      split at run
      · rename_i member
        cases run
        exact inv.readVstk reads (List.contains_iff_mem.mp member)
      · cases run
  | report =>
    simp only [Audited.exec] at run
    split at run <;> cases run
    rename_i snapshot reads
    exact inv.report reads
  | fail =>
    cases run
    exact ⟨inv.same, (fun _ none => by cases none), (fun _ none => by cases none), inv.quiet.reports,
      inv.quiet.paused⟩

end Audited

open Audited

/-- Audits that run while no trade is on its way to the shadow raise no alarm about shares. -/
theorem no_share_alarm_of_calm {τ : Type} [AitToken τ] {d : Deployment} {w : World τ} {head : ℕ}
    {shadow : Shadow} {engine : MatchEngine} {run : List Action}
    (same : ∀ companyId user, shadow.sync.vstk (companyId, user) = w.market.vstkBalance companyId user)
    (calm : TransitionRun.Meets (Audited.exec d) (Calm d) (started w head shadow engine) run) :
    (started w head shadow engine).NoShareAlarm
      (TransitionRun.exec (Audited.exec d) (started w head shadow engine) run) :=
  (TransitionRun.exec_preserves (fun _ _ _ inv calm run => Inv.exec inv calm run) (started_inv same)
    calm).quiet

namespace Devnet

/-- The shadow knows that alice has all shares. -/
def founded : Shadow where
  sync := { localAit := fun _ => none, localVstk := Function.update (fun _ => none) (1, alice) (some 100) }
  shadowAitUsers := []
  shadowVstkKeys := [(1, alice)]
  usersOf := by simp
  keysOf := by
    intro key
    by_cases same : key = (1, alice)
    · simp [same]
    · simp [same]

/-- Bob buys the shares of alice in one block, which is audited with or without its confirmations. -/
def audited (confirmed : Bool) : List Action :=
  .mine [({ sender := admin }, ⟨1, 2, 100, 10, 7⟩)] ::
    (if confirmed then [.mine [], .mine [], .mine [], .scan, .poll 4, .apply, .start, .readAit bob,
      .readAit alice, .readVstk (1, alice), .readVstk (1, bob), .report]
    else [.start, .readVstk (1, alice), .report])

theorem founded_same (companyId : ℕ) (user : Address) :
    founded.sync.vstk (companyId, user) = offered.market.vstkBalance companyId user := by
  have balance : offered.market.vstkBalance = Function.update (fun _ _ => 0) 1
      (Function.update (fun _ => 0) alice 100) := rfl
  rw [balance]
  by_cases inCompany : companyId = 1
  · subst inCompany
    by_cases isAlice : user = alice
    · simp [founded, SyncCoordinator.vstk, Engine.read, isAlice]
    · simp [founded, SyncCoordinator.vstk, Engine.read, isAlice]
  · simp [founded, SyncCoordinator.vstk, Engine.read, inCompany]

end Devnet

open Devnet

theorem no_share_alarm_of_confirmed_trade :
    (started offered 0 founded .new).NoShareAlarm
      (TransitionRun.exec (Audited.exec Deployment.devnet) (started offered 0 founded .new)
        (audited true)) := by
  refine no_share_alarm_of_calm founded_same ⟨?_, ?_, ?_, ?_, trivial, trivial, rfl, ?_, trivial,
    trivial, trivial, trivial, trivial, trivial⟩
  · exact fun ⟨_, reads, _⟩ => nomatch reads
  · exact fun ⟨_, reads, _⟩ => nomatch reads
  · exact fun ⟨_, reads, _⟩ => nomatch reads
  · exact fun ⟨_, reads, _⟩ => nomatch reads
  · rfl

/-- An audit finds that bob has the shares which alice still has in the shadow. -/
theorem unconfirmed_trade_raises_alarm :
    ¬ ∀ (d : Deployment) (w : World ERC20) (head : ℕ) (shadow : Shadow) (engine : MatchEngine)
      (run : List Action),
      (∀ companyId user,
        shadow.sync.vstk (companyId, user) = w.market.vstkBalance companyId user) →
      (started w head shadow engine).NoShareAlarm
        (TransitionRun.exec (Audited.exec d) (started w head shadow engine) run) := by
  intro always
  have quiet := always Deployment.devnet offered 0 founded .new (audited false) founded_same
  have drifts : [⟨alice, .vstkBalance, 100, 0⟩] ∈ (TransitionRun.exec (Audited.exec Deployment.devnet)
      (started offered 0 founded .new) (audited false)).reports := by decide +kernel
  cases quiet.reports _ drifts _ (List.mem_singleton_self _)

end Aide
