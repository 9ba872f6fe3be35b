import Aide.Contracts.Deploy
import Aide.Engine.Streamer
import Aide.Foundation.Followed
import Aide.Foundation.TransitionRun

namespace Aide

open Engine List

/-- The listener and the streamer on both ends of their channel, and the chain that is scanned.
A message in the channel stands with the cursor of the listener at the time it was sent. -/
structure Streaming where
  chain : Chain
  start : ℕ
  listener : Listener
  channel : List (MarketChainEvent × ℕ)
  streamer : Streamer
  released : List EngineEvent
  /-- The last block that had been scanned and had its confirmations at a poll whose head the
  streamer has processed. -/
  confirmed : ℕ

namespace Streaming

def started (chain : Chain) (fromBlock : ℕ) : Streaming where
  chain
  start := (Listener.started fromBlock chain.head).cursor
  listener := Listener.started fromBlock chain.head
  channel := []
  streamer := .new
  released := []
  confirmed := (Listener.started fromBlock chain.head).cursor

/-- What happens next: the chain grows or is reorganised, the listener reads the head or scans
one block, or the streamer takes a message from the channel. -/
inductive Action
  | replace (depth : ℕ) (blocks : List (List Event))
  | poll
  | scan
  | receive

def send (s : Streaming) (events : List MarketChainEvent) : Streaming :=
  { s with channel := s.channel ++ events.map (·, s.listener.cursor) }

def confirm (confirmed cursor : ℕ) : MarketChainEvent → ℕ
  | .newHead number => max confirmed (min cursor (number - 3))
  | _ => confirmed

def exec (s : Streaming) : Action → Except Unit Streaming
  | .replace depth blocks =>
    if depth ≤ 2 ∧ depth ≤ blocks.length then
      .ok { s with chain := s.chain.replace depth blocks }
    else
      .error ()
  | .poll =>
    if s.listener.cursor < s.listener.head then
      .error ()
    else
      .ok ({ s with listener := { s.listener with head := s.chain.head } }.send
        [.newHead s.chain.head])
  | .scan =>
    if s.listener.cursor < s.listener.head then
      .ok ({ s with listener := { s.listener with cursor := s.listener.cursor + 1 } }.send
        (s.chain.decoded (s.listener.cursor + 1)))
    else
      .error ()
  | .receive =>
    match s.channel with
    | [] => .error ()
    | (event, cursor) :: channel =>
      let (streamer, out) := s.streamer.receive event
      .ok { s with
        channel
        streamer
        released := s.released ++ out
        confirmed := confirm s.confirmed cursor event }

/-- The released events are the logs of the canonical chain up to the last confirmed block, each
once and in their order. -/
def Faithful (s : Streaming) : Prop :=
  Forall₂ Carries (s.released.filter EngineEvent.isMarket) (s.chain.logs s.start s.confirmed)

/-- The same, less the cancellations of orders that are not open in the scanned logs. -/
def FaithfulToKnown (s : Streaming) : Prop :=
  Forall₂ Carries (s.released.filter EngineEvent.isMarket)
    (knownLogs [] (s.chain.logs s.start s.confirmed))

/-- A reorganisation leaves the blocks that are scanned with their logs. -/
def KeepsScanned (s : Streaming) : Action → Prop
  | .replace depth blocks => ∀ number, s.start < number → number ≤ s.listener.cursor →
      (s.chain.replace depth blocks).getLogs number = s.chain.getLogs number
  | .poll | .scan | .receive => True

/-- The logs that are on their way to the streamer. -/
def inFlight (channel : List (MarketChainEvent × ℕ)) : List MarketChainEvent :=
  (channel.map Prod.fst).filter MarketChainEvent.isLog

/-- What was sent after a head are the logs of the blocks that were scanned after it. -/
structure Marks (s : Streaming) (cursor : ℕ) (after : List (MarketChainEvent × ℕ)) : Prop where
  confirmed : s.confirmed ≤ cursor
  scanned : cursor ≤ s.listener.cursor
  sent : inFlight after = s.chain.logs cursor s.listener.cursor
  later : ∀ message ∈ after, cursor ≤ message.2

/-- The heads in the channel are marked. -/
def MarkedHead (s : Streaming) (message : MarketChainEvent × ℕ)
    (after : List (MarketChainEvent × ℕ)) : Prop :=
  message.1.isLog = false → s.Marks message.2 after

/-- The logs of the scanned blocks are released, buffered or in flight, in this order. -/
structure Inv (s : Streaming) : Prop where
  started : s.start ≤ s.confirmed
  scanned : s.confirmed ≤ s.listener.cursor
  confirmations : s.streamer.buf.confirmations = 3
  released : s.FaithfulToKnown
  waiting : ∃ rest, rest ++ inFlight s.channel = s.chain.logs s.confirmed s.listener.cursor ∧
    s.streamer.Tracks (s.chain.logs s.start s.confirmed ++ rest) ∧
    Forall₂ Buffers s.streamer.buf.queue (knownLogs (s.chain.logs s.start s.confirmed) rest)
  heads : Followed s.MarkedHead s.channel

variable {s next : Streaming} {channel more : List (MarketChainEvent × ℕ)}

theorem inFlight_append : inFlight (channel ++ more) = inFlight channel ++ inFlight more := by
  simp [inFlight]

theorem started_inv (chain : Chain) (fromBlock : ℕ) : Inv (started chain fromBlock) where
  started := le_rfl
  scanned := le_rfl
  confirmations := rfl
  released := by simp [FaithfulToKnown, started, knownLogs]
  waiting := ⟨[], by simp [started, inFlight], fun _ => by simp [started, Streamer.new, openCompany],
    .nil⟩
  heads := trivial

/-- A change of the chain that leaves the scanned blocks with their logs. -/
theorem Inv.chain (inv : Inv s) {chain : Chain} (kept : ∀ number, s.start < number →
    number ≤ s.listener.cursor → chain.getLogs number = s.chain.getLogs number) :
    Inv { s with chain } := by
  have same : ∀ {lo hi : ℕ}, s.start ≤ lo → hi ≤ s.listener.cursor →
      chain.logs lo hi = s.chain.logs lo hi := fun above below =>
    Chain.logs_congr fun number after before => kept number (by omega) (by omega)
  have released := same le_rfl inv.scanned
  obtain ⟨rest, split, tracks, buffers⟩ := inv.waiting
  refine ⟨inv.started, inv.scanned, inv.confirmations, ?_, ⟨rest, ?_, ?_, ?_⟩, ?_⟩
  · unfold FaithfulToKnown
    rw [released]
    exact inv.released
  · exact split.trans (same inv.started le_rfl).symm
  · rw [released]
    exact tracks
  · rw [released]
    exact buffers
  · exact inv.heads.imp fun message member after head isHead =>
      have marked := head isHead
      ⟨marked.confirmed, marked.scanned,
        marked.sent.trans (same (inv.started.trans marked.confirmed) le_rfl).symm, marked.later⟩

/-- Messages at the end of the channel. -/
theorem Inv.send (inv : Inv s) {listener : Listener} {events : List MarketChainEvent}
    (moves : s.listener.cursor ≤ listener.cursor)
    (logs : ∀ {lo : ℕ}, lo ≤ s.listener.cursor → s.chain.logs lo listener.cursor =
      s.chain.logs lo s.listener.cursor ++ events.filter MarketChainEvent.isLog)
    (tail : Followed ({ s with listener }.send events).MarkedHead
      (events.map (·, listener.cursor))) :
    Inv ({ s with listener }.send events) := by
  have sent : inFlight (events.map (·, listener.cursor)) = events.filter MarketChainEvent.isLog := by
    simp [inFlight, Function.comp_def]
  obtain ⟨rest, split, tracks, buffers⟩ := inv.waiting
  refine ⟨inv.started, inv.scanned.trans moves, inv.confirmations, inv.released,
    ⟨rest, ?_, tracks, buffers⟩, ?_⟩
  · change rest ++ inFlight (s.channel ++ _) = s.chain.logs s.confirmed listener.cursor
    rw [inFlight_append, ← List.append_assoc, split, sent, logs inv.scanned]
  · refine inv.heads.append (fun message member after head isHead => ?_) tail
    have marked := head isHead
    refine ⟨marked.confirmed, marked.scanned.trans moves, ?_, fun later sent' => ?_⟩
    · rw [inFlight_append, marked.sent, sent]
      exact (logs marked.scanned).symm
    · rcases List.mem_append.mp sent' with before | new
      · exact marked.later later before
      · obtain ⟨event, _, rfl⟩ := List.mem_map.mp new
        exact marked.scanned.trans moves

theorem Inv.poll (inv : Inv s) :
    Inv ({ s with listener := { s.listener with head := s.chain.head } }.send
      [.newHead s.chain.head]) := by
  refine inv.send le_rfl (fun _ => (List.append_nil _).symm) ⟨fun _ => ?_, trivial⟩
  exact ⟨inv.scanned, le_rfl, Chain.logs_self.symm, fun later none => absurd none List.not_mem_nil⟩

theorem Inv.scan (inv : Inv s) :
    Inv ({ s with listener := { s.listener with cursor := s.listener.cursor + 1 } }.send
      (s.chain.decoded (s.listener.cursor + 1))) := by
  have logs : ∀ event ∈ s.chain.decoded (s.listener.cursor + 1), event.isLog = true :=
    fun event member => (Chain.mem_decoded member).1
  refine inv.send (Nat.le_succ _) (fun below => ?_)
    (Followed.of_forall fun message sent _ isHead => ?_)
  · rw [List.filter_eq_self.mpr logs]
    exact Chain.logs_succ below
  · obtain ⟨event, member, rfl⟩ := List.mem_map.mp sent
    cases isHead.symm.trans (logs event member)

/-- The streamer takes a log. -/
theorem Inv.receive_log (inv : Inv s) {event : MarketChainEvent} {cursor : ℕ}
    (first : s.channel = (event, cursor) :: channel) (isLog : event.isLog = true) :
    Inv { s with
      channel
      streamer := (s.streamer.receive event).1
      released := s.released ++ (s.streamer.receive event).2 } := by
  obtain ⟨rest, split, tracks, buffers⟩ := inv.waiting
  obtain ⟨entries, carries, buffered, silent⟩ := Streamer.receive_log tracks isLog
  have heads := inv.heads
  rw [first] at heads
  refine ⟨inv.started, inv.scanned, by rw [buffered]; exact inv.confirmations, ?_,
    ⟨rest ++ [event], ?_, ?_, ?_⟩, heads.2.imp fun message member after head isHead =>
      ⟨(head isHead).confirmed, (head isHead).scanned, (head isHead).sent, (head isHead).later⟩⟩
  · rw [silent, List.append_nil]
    exact inv.released
  · rw [← split, first]
    simp [inFlight, isLog]
  · rw [← List.append_assoc]
    exact Streamer.tracks_receive tracks isLog
  · rw [buffered, knownLogs_append]
    refine List.rel_append buffers ?_
    simpa [knownLogs] using carries

/-- The streamer takes a head and releases what it confirms. -/
theorem Inv.receive_head (inv : Inv s) {number cursor : ℕ}
    (first : s.channel = (.newHead number, cursor) :: channel) :
    Inv { s with
      channel
      streamer := (s.streamer.receive (.newHead number)).1
      released := s.released ++ (s.streamer.receive (.newHead number)).2
      confirmed := max s.confirmed (min cursor (number - 3)) } := by
  obtain ⟨rest, split, tracks, buffers⟩ := inv.waiting
  have heads := inv.heads
  rw [first] at heads
  have head := heads.1 rfl
  have confirmedLe := head.confirmed
  set confirmed := max s.confirmed (min cursor (number - 3)) with confirmedIs
  have above : s.confirmed ≤ confirmed := le_max_left ..
  have below : confirmed ≤ cursor := max_le confirmedLe (min_le_left ..)
  -- What waits are the logs of the blocks that were scanned before this head was read.
  have restIs : rest = s.chain.logs s.confirmed confirmed ++ s.chain.logs confirmed cursor := by
    rw [Chain.logs_append _ above below]
    rw [first] at split
    have inFlightIs : inFlight ((.newHead number, cursor) :: channel) = inFlight channel := rfl
    rw [inFlightIs, head.sent, ← Chain.logs_append _ confirmedLe head.scanned] at split
    exact List.append_cancel_right split
  have logs := s.chain.logs_append inv.started above
  rw [restIs, knownLogs_append, logs] at buffers
  obtain ⟨out, left, drained, carries, waiting⟩ := drain_confirmed
    s.streamer.buf.confirmations number buffers
    (fun event member => by
      obtain ⟨_, after, before⟩ := Chain.mem_logs (knownLogs_subset _ _ member)
      rw [inv.confirmations]
      omega)
    (fun event member => by
      obtain ⟨_, after, before⟩ := Chain.mem_logs (knownLogs_subset _ _ member)
      rw [inv.confirmations]
      omega)
  have received : s.streamer.receive (.newHead number) =
      ({ s.streamer with buf := { s.streamer.buf with queue := left } },
        out ++ [.newBlock number]) := by
    simp [Streamer.receive, BlockBuffer.drainConfirmed, drained]
  rw [received]
  refine ⟨inv.started.trans above, below.trans head.scanned, inv.confirmations, ?_,
    ⟨s.chain.logs confirmed cursor, ?_, ?_, waiting⟩, ?_⟩
  · unfold FaithfulToKnown
    change Forall₂ Carries
      ((s.released ++ (out ++ [EngineEvent.newBlock number])).filter EngineEvent.isMarket)
      (knownLogs [] (s.chain.logs s.start confirmed))
    rw [List.filter_append, List.filter_append, filter_isMarket carries, ← logs, knownLogs_append]
    simpa [EngineEvent.isMarket] using List.rel_append inv.released carries
  · change _ ++ inFlight channel = _
    rw [head.sent, Chain.logs_append _ below head.scanned]
  · rw [restIs, ← List.append_assoc, logs] at tracks
    exact tracks
  · exact heads.2.imp fun message member after marked isHead =>
      ⟨below.trans (head.later message member), (marked isHead).scanned, (marked isHead).sent,
        (marked isHead).later⟩

theorem Inv.exec {action : Action} (inv : Inv s) (keeps : s.KeepsScanned action)
    (run : s.exec action = .ok next) : Inv next := by
  cases action with
  | replace depth blocks =>
    simp only [Streaming.exec] at run
    split at run <;> cases run
    exact inv.chain keeps
  | poll =>
    simp only [Streaming.exec] at run
    split at run <;> cases run
    exact inv.poll
  | scan =>
    simp only [Streaming.exec] at run
    split at run <;> cases run
    exact inv.scan
  | receive =>
    simp only [Streaming.exec] at run
    split at run <;> cases run
    rename_i event cursor channel first
    cases event with
    | newHead number => exact inv.receive_head first
    | orderPlaced => exact inv.receive_log first rfl
    | tradeSettled => exact inv.receive_log first rfl
    | orderCancelled => exact inv.receive_log first rfl

end Streaming

open Streaming

/-- As long as no reorganisation changes the logs of a scanned block, the streamer releases the
logs of the canonical chain that it can follow, each once it is confirmed and only once. -/
theorem stream_faithful_of_kept_blocks {chain : Chain} {fromBlock : ℕ} {run : List Action}
    (keeps : TransitionRun.Meets Streaming.exec KeepsScanned (started chain fromBlock) run) :
    (TransitionRun.exec Streaming.exec (started chain fromBlock) run).FaithfulToKnown :=
  (TransitionRun.exec_preserves (I := Inv) (fun _ _ _ inv keeps run => inv.exec keeps run)
    (started_inv chain fromBlock) keeps).released

namespace Devnet

/-- Alice bids for a share in an order of this id. -/
def bid (orderId : ℕ) : Event := .orderPlaced orderId 1 alice .buy 1 1 0 0

/-- The last block is reorganised before it is scanned. -/
def tipReplaced : List Action :=
  [.replace 0 [[bid 1], [bid 2]], .poll, .scan, .replace 1 [[], []], .scan, .replace 0 [[]], .poll,
    .receive, .receive, .receive]

/-- The last block is reorganised after it is scanned, and its order moves to the next one. -/
def orphaned : List Action :=
  [.replace 0 [[bid 1]], .poll, .scan, .replace 1 [[]], .replace 0 [[bid 1], [], []], .poll,
    .receive, .receive, .receive]

/-- An order from before the first scanned block is cancelled. -/
def cancelled : List Action :=
  [.replace 0 [[.orderCancelled 1 alice], [], [], []], .poll, .scan, .scan, .scan, .scan, .poll,
    .receive, .receive, .receive]

end Devnet

open Devnet

theorem stream_faithful_of_replaced_tip :
    (TransitionRun.exec Streaming.exec (started ⟨[[], []]⟩ 1) tipReplaced).FaithfulToKnown := by
  refine stream_faithful_of_kept_blocks ⟨?_, trivial, trivial, ?_, trivial, ?_, trivial, trivial,
    trivial, trivial, trivial⟩
  · exact fun number above below => absurd (above.trans_le below) (by decide)
  · intro number above below
    obtain rfl : number = 2 := le_antisymm below above
    rfl
  · intro number above below
    obtain rfl | rfl : number = 2 ∨ number = 3 := by
      have upper : number ≤ 3 := below
      have lower : 1 < number := above
      omega
    · rfl
    · rfl

/-- The cancellation of an order that was placed before the first scanned block is passed over on a
chain that only grows, and an order is released that a reorganisation has taken out of its block. -/
theorem stream_passes_over_cancellation_and_releases_orphan :
    (∃ (chain : Chain) (fromBlock : ℕ) (run : List Action),
      (∀ depth blocks, .replace depth blocks ∈ run → depth = 0) ∧
      ¬ (TransitionRun.exec Streaming.exec (started chain fromBlock) run).Faithful) ∧
    ∃ (chain : Chain) (fromBlock : ℕ) (run : List Action),
      ¬ (TransitionRun.exec Streaming.exec (started chain fromBlock) run).FaithfulToKnown := by
  refine ⟨⟨⟨[[], [bid 1]]⟩, 1, cancelled, ?_, ?_⟩, ⟨[[], []]⟩, 1, orphaned, ?_⟩
  · intro depth blocks member
    simp only [cancelled, List.mem_cons, Action.replace.injEq, reduceCtorEq, List.not_mem_nil,
      or_false] at member
    exact member.1
  · exact fun faithful => absurd faithful.length_eq (by decide)
  · exact fun faithful => absurd faithful.length_eq (by decide)

end Aide
