import Aide.Engine.Announced
import Aide.Reorg

namespace Aide

open Engine List

/-- The head that the streamer passes on. -/
def Engine.EngineEvent.head : EngineEvent → Option ℕ
  | .newBlock number => some number
  | _ => none

namespace Engine

theorem mem_drain {confirmations head : ℕ} {queue : List (ℕ × EngineEvent)} {ev : EngineEvent}
    (member : ev ∈ (BlockBuffer.drain confirmations head queue).1) : ∃ block, (block, ev) ∈ queue := by
  rw [BlockBuffer.drain_eq] at member
  obtain ⟨⟨block, _⟩, drained, rfl⟩ := List.mem_map.mp member
  exact ⟨block, List.takeWhile_subset _ drained⟩

theorem Carries.head {ev : EngineEvent} {log : MarketChainEvent} (carries : Carries ev log) :
    ev.head = none := by
  cases carries <;> rfl

theorem head_of_buffered {queue : List (ℕ × EngineEvent)} {logs : List MarketChainEvent}
    (buffers : Forall₂ Buffers queue logs) {entry : ℕ × EngineEvent} (member : entry ∈ queue) :
    entry.2.head = none := by
  induction buffers with
  | nil => cases member
  | cons first _ ih =>
    rcases List.mem_cons.mp member with rfl | later
    · exact first.2.head
    · exact ih later

theorem Carries.same_kind {ev : EngineEvent} {log other : MarketChainEvent} (first : Carries ev log)
    (second : Carries ev other) : log.isCancellation = other.isCancellation := by
  cases first <;> cases second <;> rfl

/-- Logs that the same events carry are as many, apart from the cancellations. -/
theorem countP_of_carries {events : List EngineEvent} {logs others : List MarketChainEvent}
    (first : Forall₂ Carries events logs) (second : Forall₂ Carries events others) :
    logs.countP (!·.isCancellation) = others.countP (!·.isCancellation) := by
  induction first generalizing others with
  | nil =>
    cases second
    rfl
  | cons carries _ ih =>
    cases second with
    | cons carriesOther rest =>
      rw [List.countP_cons, List.countP_cons, ih rest, carries.same_kind carriesOther]

theorem countP_concerns (all logs : List MarketChainEvent) :
    (logs.filter (MarketChainEvent.ConcernsPlaced all)).countP (!·.isCancellation) =
      logs.countP (!·.isCancellation) := by
  rw [List.countP_filter]
  refine List.countP_congr fun log _ => ?_
  simp only [Bool.and_eq_true, decide_eq_true_eq, and_iff_left_iff_imp]
  exact fun other => MarketChainEvent.concernsPlaced_of_not_cancellation (by simpa using other)

namespace Chain
variable {chain : Chain} {first hi : ℕ}

theorem logs_from (chain : Chain) (positive : 0 < first) (inRange : first ≤ hi) :
    chain.logs (first - 1) hi = chain.decoded first ++ chain.logs first hi := by
  have whole := chain.logs_append (Nat.sub_le first 1) inRange
  have block := @logs_succ chain (first - 1) (first - 1) le_rfl
  rw [Nat.sub_add_cancel positive, Chain.logs_self, List.nil_append] at block
  rw [← whole, block]

/-- A first block adds nothing to what the blocks after it announce exactly if it has cancellations
only. -/
theorem carries_announced_iff (orderly : Orderly (chain.logs (first - 1) hi)) (positive : 0 < first)
    (inRange : first ≤ hi) {events : List EngineEvent}
    (carries : Forall₂ Carries events (knownLogs [] (chain.logs first hi))) :
    Forall₂ Carries events (chain.announced first hi) ↔
      ∀ log ∈ chain.decoded first, log.isCancellation = true := by
  have split := chain.logs_from positive inRange
  rw [split] at orderly
  have known := (orderly.sublist (List.sublist_append_right ..)).knownLogs_nil
  constructor
  · intro announced
    have same := countP_of_carries carries announced
    rw [known, Chain.announced, countP_concerns, countP_concerns, split, List.countP_append] at same
    have none : (chain.decoded first).countP (!·.isCancellation) = 0 := by omega
    intro log member
    simpa using List.countP_eq_zero.mp none log member
  · intro only
    rw [Chain.announced, split, orderly.filter_skip only, ← known]
    exact carries

end Chain

end Engine

namespace Streaming

/-- The heads that the streamer has processed. -/
def heads (s : Streaming) : List ℕ := s.released.filterMap EngineEvent.head

/-- The last head that the streamer has processed, if any. -/
def lastHead (s : Streaming) : ℕ := s.heads.getLast?.getD 0

/-- The match runner has received the logs that the blocks from `first` to `hi` announce, each once
and in their order. -/
def Delivered (s : Streaming) (first hi : ℕ) : Prop :=
  Forall₂ Carries (s.released.filter EngineEvent.isMarket) (s.chain.announced first hi)

/-- Blocks never change, and only new ones are added. -/
def Grows : Action → Prop
  | .replace depth _ => depth = 0
  | .poll | .scan | .receive => True

/-- The last of the heads that are sent after `previous`. -/
def lastSent : ℕ → List (MarketChainEvent × ℕ) → ℕ
  | previous, [] => previous
  | _, (.newHead number, _) :: rest => lastSent number rest
  | previous, _ :: rest => lastSent previous rest

/-- Heads do not decrease, and each is sent when the blocks up to the head before it are scanned. -/
def Paced (start : ℕ) : ℕ → List (MarketChainEvent × ℕ) → Prop
  | _, [] => True
  | previous, (.newHead number, cursor) :: rest =>
    cursor = max start previous ∧ previous ≤ number ∧ Paced start number rest
  | previous, _ :: rest => Paced start previous rest

section Channel
variable {start previous number cursor : ℕ} {channel logs : List (MarketChainEvent × ℕ)}
  {event : MarketChainEvent}

theorem lastSent_log (isLog : event.isLog = true) :
    lastSent previous ((event, cursor) :: channel) = lastSent previous channel := by
  cases event with
  | newHead => cases isLog
  | orderPlaced => rfl
  | tradeSettled => rfl
  | orderCancelled => rfl

theorem paced_log (isLog : event.isLog = true) :
    Paced start previous ((event, cursor) :: channel) ↔ Paced start previous channel := by
  cases event with
  | newHead => cases isLog
  | orderPlaced => exact Iff.rfl
  | tradeSettled => exact Iff.rfl
  | orderCancelled => exact Iff.rfl

/-- Logs behind the messages of the channel. -/
theorem append_logs (areLogs : ∀ message ∈ logs, message.1.isLog = true) :
    lastSent previous (channel ++ logs) = lastSent previous channel ∧
      (Paced start previous channel → Paced start previous (channel ++ logs)) := by
  induction channel generalizing previous with
  | nil =>
    induction logs with
    | nil => exact ⟨rfl, id⟩
    | cons message logs ih =>
      obtain ⟨same, paced⟩ := ih fun other member => areLogs other (List.mem_cons_of_mem _ member)
      have isLog := areLogs message (List.mem_cons_self ..)
      exact ⟨(lastSent_log isLog).trans same, fun empty => (paced_log isLog).mpr (paced empty)⟩
  | cons message channel ih =>
    obtain ⟨event, at'⟩ := message
    cases isLog : event.isLog with
    | true =>
      rw [List.cons_append, lastSent_log isLog, lastSent_log isLog, paced_log isLog, paced_log isLog]
      exact ih
    | false =>
      cases event with
      | newHead number =>
        obtain ⟨same, paced⟩ := @ih number
        exact ⟨same, fun whole => ⟨whole.1, whole.2.1, paced whole.2.2⟩⟩
      | orderPlaced => cases isLog
      | tradeSettled => cases isLog
      | orderCancelled => cases isLog

/-- A head behind the messages of the channel. -/
theorem append_head :
    lastSent previous (channel ++ [(.newHead number, cursor)]) = number ∧
      (Paced start previous channel → cursor = max start (lastSent previous channel) →
        lastSent previous channel ≤ number →
        Paced start previous (channel ++ [(.newHead number, cursor)])) := by
  induction channel generalizing previous with
  | nil => exact ⟨rfl, fun _ at' mono => ⟨at', mono, trivial⟩⟩
  | cons message channel ih =>
    obtain ⟨event, sentAt⟩ := message
    cases isLog : event.isLog with
    | true =>
      rw [List.cons_append, lastSent_log isLog, lastSent_log isLog, paced_log isLog, paced_log isLog]
      exact ih
    | false =>
      cases event with
      | newHead head =>
        obtain ⟨last, paced⟩ := @ih head
        exact ⟨last, fun whole at' mono => ⟨whole.1, whole.2.1, paced whole.2.2 at' mono⟩⟩
      | orderPlaced => cases isLog
      | tradeSettled => cases isLog
      | orderCancelled => cases isLog

end Channel

/-- On a chain that only grows, the last block that two successive heads confirm is the last that
the earlier one had scanned and the later one confirms. -/
structure InStep (s : Streaming) : Prop where
  inv : Inv s
  scanned : s.listener.cursor ≤ max s.start s.listener.head
  mined : s.listener.head ≤ s.chain.head
  sent : lastSent s.lastHead s.channel = s.listener.head
  paced : Paced s.start s.lastHead s.channel
  reached : s.confirmed ≤ max s.start (s.lastHead - 3)
  confirmed : ∀ earlier previous head, s.heads = earlier ++ [previous, head] →
    s.confirmed = max s.start (min previous (head - 3))

variable {s next : Streaming} {channel : List (MarketChainEvent × ℕ)}

theorem started_inStep (chain : Chain) (fromBlock : ℕ) : InStep (started chain fromBlock) where
  inv := started_inv chain fromBlock
  scanned := le_max_left ..
  mined := Nat.zero_le _
  sent := rfl
  paced := trivial
  reached := le_max_left ..
  confirmed := by simp [heads, started]

/-- The head that ends what is released is the last one. -/
theorem lastHead_of_heads {earlier : List ℕ} {head : ℕ} (heads : s.heads = earlier ++ [head]) :
    s.lastHead = head := by
  simp [lastHead, heads]

theorem InStep.grow (step : InStep s) (blocks : List (List Event)) :
    InStep { s with chain := s.chain.replace 0 blocks } := by
  refine ⟨step.inv.chain fun number above below => ?_, step.scanned,
    step.mined.trans (s.chain.head_le_replace blocks), step.sent, step.paced, step.reached,
    step.confirmed⟩
  have scanned := step.scanned
  have mined := step.mined
  unfold Chain.head at mined
  exact Chain.getLogs_replace blocks (by omega)

theorem InStep.poll (step : InStep s) (idle : ¬ s.listener.cursor < s.listener.head) :
    InStep ({ s with listener := { s.listener with head := s.chain.head } }.send
      [.newHead s.chain.head]) := by
  have started := step.inv.started.trans step.inv.scanned
  have scanned := step.scanned
  have mined := step.mined
  obtain ⟨last, paced⟩ := @append_head s.start s.lastHead s.chain.head s.listener.cursor s.channel
  refine ⟨step.inv.poll, ?_, le_rfl, last, paced step.paced ?_ ?_, step.reached, step.confirmed⟩
  · exact scanned.trans (max_le_max le_rfl mined)
  · rw [step.sent]
    omega
  · exact step.sent.trans_le mined

theorem InStep.scan (step : InStep s) (busy : s.listener.cursor < s.listener.head) :
    InStep ({ s with listener := { s.listener with cursor := s.listener.cursor + 1 } }.send
      (s.chain.decoded (s.listener.cursor + 1))) := by
  have areLogs : ∀ message ∈ (s.chain.decoded (s.listener.cursor + 1)).map
      (·, s.listener.cursor + 1), message.1.isLog = true := by
    intro message member
    obtain ⟨event, decoded, rfl⟩ := List.mem_map.mp member
    exact (Chain.mem_decoded decoded).1
  have sent := @append_logs s.start s.lastHead s.channel _ areLogs
  refine ⟨step.inv.scan, ?_, step.mined, sent.1.trans step.sent, sent.2 step.paced, step.reached,
    step.confirmed⟩
  exact (Nat.succ_le_of_lt busy).trans (le_max_right ..)

theorem InStep.receive_log (step : InStep s) {event : MarketChainEvent} {cursor : ℕ}
    (first : s.channel = (event, cursor) :: channel) (isLog : event.isLog = true) :
    InStep { s with
      channel
      streamer := (s.streamer.receive event).1
      released := s.released ++ (s.streamer.receive event).2 } := by
  obtain ⟨_, _, tracks, _⟩ := step.inv.waiting
  obtain ⟨_, _, _, silent⟩ := Streamer.receive_log tracks isLog
  have sent := step.sent
  have paced := step.paced
  rw [first, lastSent_log isLog] at sent
  rw [first, paced_log isLog] at paced
  have inv := step.inv.receive_log first isLog
  rw [silent, List.append_nil] at inv ⊢
  exact ⟨inv, step.scanned, step.mined, sent, paced, step.reached, step.confirmed⟩

theorem InStep.receive_head (step : InStep s) {number cursor : ℕ}
    (first : s.channel = (.newHead number, cursor) :: channel) :
    InStep { s with
      channel
      streamer := (s.streamer.receive (.newHead number)).1
      released := s.released ++ (s.streamer.receive (.newHead number)).2
      confirmed := max s.confirmed (min cursor (number - 3)) } := by
  obtain ⟨_, _, _, buffers⟩ := step.inv.waiting
  have paced := step.paced
  rw [first] at paced
  obtain ⟨sentAt, mono, paced⟩ := paced
  have sent := step.sent
  rw [first] at sent
  have started := step.inv.started
  have reached := step.reached
  -- What is drained are logs, so the head is the only one that is released.
  have drained : ∀ ev ∈ (s.streamer.buf.drainConfirmed number).1, ev.head = none := by
    intro ev member
    obtain ⟨block, waits⟩ := mem_drain member
    exact head_of_buffered buffers waits
  set after : Streaming := { s with
    channel
    streamer := (s.streamer.receive (.newHead number)).1
    released := s.released ++ (s.streamer.receive (.newHead number)).2
    confirmed := max s.confirmed (min cursor (number - 3)) }
  have heads : after.heads = s.heads ++ [number] := by
    change (s.released ++ ((s.streamer.buf.drainConfirmed number).1 ++
      [EngineEvent.newBlock number])).filterMap EngineEvent.head = _
    rw [List.filterMap_append, List.filterMap_append, List.filterMap_eq_nil_iff.mpr drained]
    rfl
  have last : after.lastHead = number := lastHead_of_heads heads
  refine ⟨step.inv.receive_head first, step.scanned, step.mined, ?_, ?_, ?_, ?_⟩
  · rw [last]
    exact sent
  · rw [last]
    exact paced
  · rw [last]
    change max s.confirmed (min cursor (number - 3)) ≤ max s.start (number - 3)
    omega
  · intro earlier previous head same
    have parts : s.heads = earlier ++ [previous] ∧ number = head := by
      rw [heads, show earlier ++ [previous, head] = (earlier ++ [previous]) ++ [head] by simp] at same
      obtain ⟨old, new⟩ := List.append_inj' same rfl
      exact ⟨old, List.singleton_inj.mp new⟩
    obtain ⟨old, rfl⟩ := parts
    have before := lastHead_of_heads old
    change max s.confirmed (min cursor (number - 3)) = max s.start (min previous (number - 3))
    omega

theorem start_exec {action : Action} (run : s.exec action = .ok next) : next.start = s.start := by
  cases action with
  | replace | poll | scan | receive =>
    simp only [Streaming.exec] at run
    split at run <;> cases run
    rfl

theorem InStep.exec {action : Action} (step : InStep s) (grows : Grows action)
    (run : s.exec action = .ok next) : InStep next := by
  cases action with
  | replace depth blocks =>
    simp only [Streaming.exec] at run
    split at run <;> cases run
    cases grows
    exact step.grow blocks
  | poll =>
    simp only [Streaming.exec] at run
    split at run <;> cases run
    rename_i idle
    exact step.poll idle
  | scan =>
    simp only [Streaming.exec] at run
    split at run <;> cases run
    rename_i busy
    exact step.scan busy
  | receive =>
    simp only [Streaming.exec] at run
    split at run <;> cases run
    rename_i event cursor channel first
    cases event with
    | newHead number => exact step.receive_head first
    | orderPlaced => exact step.receive_log first rfl
    | tradeSettled => exact step.receive_log first rfl
    | orderCancelled => exact step.receive_log first rfl

end Streaming

open Streaming

/-- On a chain that carries the logs of a market and only grows, two successive heads have the logs
of the blocks from the start to their last confirmed block delivered exactly if the first block adds
nothing to them: the listener never scans it. -/
theorem logs_delivered_iff {τ : Type} [AitToken τ] {d : Deployment} {admin : Address}
    {deployed : World τ} {history : List (MarketAction τ)} {chain : Chain} {fromBlock : ℕ}
    {run : List Action} {s : Streaming} {earlier : List ℕ} {previous head : ℕ}
    (fresh : deployed.market = InternalMarket.constructed admin) (noLog : deployed.log = [])
    (positive : 0 < fromBlock) (grows : ∀ action ∈ run, Grows action)
    (reached : s = TransitionRun.exec Streaming.exec (started chain fromBlock) run)
    (carried : s.chain.blocks.flatten =
      (TransitionRun.exec (MarketAction.exec d) deployed history).log)
    (heads : s.heads = earlier ++ [previous, head]) :
    s.Delivered fromBlock (min (head - 3) previous) ↔
      min (head - 3) previous < fromBlock ∨
        ∀ log ∈ s.chain.decoded fromBlock, log.isCancellation = true := by
  have step : InStep s := by
    rw [reached]
    exact TransitionRun.exec_preserves (fun _ _ _ step grows run => step.exec grows run)
      (started_inStep chain fromBlock) (TransitionRun.Meets.of_forall fun action member _ =>
        grows action member)
  have start : s.start = fromBlock := by
    rw [reached]
    refine TransitionRun.exec_preserves (I := fun s => s.start = fromBlock) (P := fun _ _ => True)
      (fun before action next same _ run => (start_exec run).trans same) ?_
      (TransitionRun.Meets.of_forall fun _ _ _ => trivial)
    exact if_pos positive
  have released := step.inv.released
  have confirmed := step.confirmed earlier previous head heads
  have orderly : ∀ lo hi, Orderly (s.chain.logs lo hi) := fun lo hi =>
    Chain.orderly_logs (InternalMarket.LogsOnce.run fresh noLog history) carried
  unfold FaithfulToKnown at released
  rw [start] at confirmed released
  rw [confirmed] at released
  by_cases inRange : fromBlock ≤ min (head - 3) previous
  · rw [min_comm previous, max_eq_right inRange] at released
    refine (Chain.carries_announced_iff (orderly _ _) positive inRange released).trans ?_
    exact (or_iff_right (not_lt.mpr inRange)).symm
  · have none : s.chain.logs (fromBlock - 1) (min (head - 3) previous) = [] := by
      simp only [Chain.logs, show min (head - 3) previous - (fromBlock - 1) = 0 by omega,
        List.range'_zero, List.flatMap_nil]
    refine iff_of_true ?_ (Or.inl (not_le.mp inRange))
    rw [show max fromBlock (min previous (head - 3)) = fromBlock by omega, Chain.logs_self] at released
    unfold Delivered Chain.announced
    rw [none]
    exact released

namespace Devnet

/-- The market after the founding of the company and both orders. -/
def traded (actions : List (MarketAction ERC20)) : World ERC20 :=
  TransitionRun.exec (MarketAction.exec Deployment.devnet) listed actions

/-- The founding is in the first block, and both orders are in the second. -/
def ordersInBlock : Chain :=
  ⟨[[], (traded founding).log, (traded (founding ++ orders)).log.drop 3, [], [], []]⟩

/-- The streamer follows the chain from a block through two heads. -/
def followedFrom (fromBlock : ℕ) : List Action :=
  .poll :: List.replicate (5 - fromBlock) .scan ++ .poll :: List.replicate 4 .receive

def followed (fromBlock : ℕ) : Streaming :=
  TransitionRun.exec Streaming.exec (started ordersInBlock fromBlock) (followedFrom fromBlock)

theorem followed_grows (fromBlock : ℕ) : ∀ action ∈ followedFrom fromBlock, Grows action := by
  intro action member
  simp only [followedFrom, List.cons_append, List.mem_cons, List.mem_append, List.mem_replicate]
    at member
  rcases member with rfl | ⟨_, rfl⟩ | rfl | ⟨_, rfl⟩ <;> trivial

end Devnet

open Devnet

theorem logs_delivered_from_founding :
    (followed 1).Delivered 1 (min (5 - 3) 5) ↔
      min (5 - 3) 5 < 1 ∨
        ∀ log ∈ (followed 1).chain.decoded 1, log.isCancellation = true :=
  @logs_delivered_iff ERC20 _ Deployment.devnet admin listed (founding ++ orders) ordersInBlock 1
    (followedFrom 1) (followed 1) [] 5 5 rfl rfl (by decide) (followed_grows 1) rfl
    (by decide +kernel) (by decide +kernel)

/-- Both orders are in the block from which the listener is to start, and neither is delivered. -/
theorem orders_of_first_block_lost :
    ¬ ∀ (d : Deployment) (admin : Address) (deployed : World ERC20)
      (history : List (MarketAction ERC20)) (chain : Chain) (fromBlock : ℕ) (run : List Action)
      (s : Streaming) (earlier : List ℕ) (previous head : ℕ),
      deployed.market = InternalMarket.constructed admin → deployed.log = [] → 0 < fromBlock →
      (∀ action ∈ run, Grows action) →
      s = TransitionRun.exec Streaming.exec (started chain fromBlock) run →
      s.chain.blocks.flatten = (TransitionRun.exec (MarketAction.exec d) deployed history).log →
      s.heads = earlier ++ [previous, head] →
      s.Delivered fromBlock (min (head - 3) previous) := by
  intro always
  have delivered := always Deployment.devnet admin listed (founding ++ orders) ordersInBlock 2
    (followedFrom 2) (followed 2) [] 5 5 rfl rfl (by decide) (followed_grows 2) rfl
    (by decide +kernel) (by decide +kernel)
  exact absurd delivered.length_eq (by decide +kernel)

end Aide
