import Aide.Contracts.OrderLogs
import Aide.Engine.Streamer

namespace Aide.Engine

namespace MarketChainEvent

def isCancellation : MarketChainEvent → Bool
  | .orderCancelled .. => true
  | _ => false

/-- A log places the order. -/
def Places (orderId : ℕ) : MarketChainEvent → Prop
  | .orderPlaced _ placed .. => placed = orderId
  | _ => False

instance (orderId : ℕ) : DecidablePred (Places orderId)
  | .newHead _ => isFalse id
  | .orderPlaced _ placed .. => inferInstanceAs (Decidable (placed = orderId))
  | .tradeSettled .. => isFalse id
  | .orderCancelled .. => isFalse id

/-- Every log, except the cancellation of an order that none of the logs places. -/
def ConcernsPlaced (logs : List MarketChainEvent) : MarketChainEvent → Prop
  | .orderCancelled _ orderId _ => ∃ log ∈ logs, log.Places orderId
  | _ => True

instance (logs : List MarketChainEvent) : DecidablePred (ConcernsPlaced logs)
  | .newHead _ => isTrue trivial
  | .orderPlaced .. => isTrue trivial
  | .tradeSettled .. => isTrue trivial
  | .orderCancelled _ orderId _ => inferInstanceAs (Decidable (∃ log ∈ logs, log.Places orderId))

/-- Of two logs about one order, the first places it and the second cancels it. -/
def Precedes (e later : MarketChainEvent) : Prop :=
  ∀ orderId, e.order = some orderId → later.order = some orderId →
    e.Places orderId ∧ later.isCancellation = true

variable {e : MarketChainEvent} {orderId : ℕ}

theorem Places.order (places : e.Places orderId) : e.order = some orderId := by
  cases e with
  | orderPlaced => exact congrArg some places
  | newHead => cases places
  | tradeSettled => cases places
  | orderCancelled => cases places

theorem Places.not_cancellation (places : e.Places orderId) : e.isCancellation = false := by
  cases e with
  | orderPlaced => rfl
  | newHead => cases places
  | tradeSettled => cases places
  | orderCancelled => cases places

theorem concernsPlaced_of_not_cancellation {logs : List MarketChainEvent}
    (other : e.isCancellation = false) : e.ConcernsPlaced logs := by
  cases e with
  | orderCancelled => cases other
  | newHead => trivial
  | orderPlaced => trivial
  | tradeSettled => trivial

end MarketChainEvent

open MarketChainEvent

/-- The logs of a market: each order is placed in a company and cancelled after that, if ever. -/
structure Orderly (logs : List MarketChainEvent) : Prop where
  company : ∀ log ∈ logs, ∀ orderId, log.Places orderId → log.company ≠ 0
  ordered : logs.Pairwise Precedes

namespace Orderly
variable {before logs after : List MarketChainEvent} {block orderId : ℕ} {maker : Address}

theorem sublist (orderly : Orderly logs) (within : before.Sublist logs) : Orderly before :=
  ⟨fun log member => orderly.company log (within.subset member), orderly.ordered.sublist within⟩

/-- The placement of a cancelled order comes before its cancellation. -/
theorem placed_before
    (orderly : Orderly (before ++ .orderCancelled block orderId maker :: after))
    {log : MarketChainEvent}
    (member : log ∈ before ++ .orderCancelled block orderId maker :: after)
    (places : log.Places orderId) : log ∈ before := by
  rcases List.mem_append.mp member with early | late
  · exact early
  · rcases List.mem_cons.mp late with rfl | late
    · cases places
    · have ordered := (List.pairwise_cons.mp (List.pairwise_append.mp orderly.ordered).2.1).1 log late
      exact absurd (ordered orderId rfl places.order).1 id

/-- A cancelled order is open before its cancellation exactly if its placement is among the logs. -/
theorem known_iff (orderly : Orderly (before ++ .orderCancelled block orderId maker :: after)) :
    Known before (.orderCancelled block orderId maker) ↔
      ConcernsPlaced (before ++ .orderCancelled block orderId maker :: after)
        (.orderCancelled block orderId maker) := by
  -- The logs about the order in front of its cancellation are all placements.
  have placements : ∀ log ∈ before, log.order = some orderId → log.Places orderId := by
    intro log member about
    have ordered := (List.pairwise_append.mp orderly.ordered).2.2 log member _ (List.mem_cons_self ..)
    exact (ordered orderId about rfl).1
  change openCompany before orderId ≠ 0 ↔ _
  unfold openCompany
  cases last : (before.filter (·.order = some orderId)).getLast? with
  | none =>
    have absent : before.filter (·.order = some orderId) = [] := List.getLast?_eq_none_iff.mp last
    refine ⟨fun known => absurd rfl known, fun ⟨log, member, places⟩ => ?_⟩
    have early := orderly.placed_before member places
    have about : log ∈ before.filter (·.order = some orderId) :=
      List.mem_filter.mpr ⟨early, decide_eq_true places.order⟩
    rw [absent] at about
    cases about
  | some log =>
    have found := List.mem_of_getLast? last
    obtain ⟨member, about⟩ := List.mem_filter.mp found
    have places := placements log member (of_decide_eq_true about)
    have inAll : log ∈ before ++ .orderCancelled block orderId maker :: after :=
      List.mem_append_left _ member
    exact ⟨fun _ => ⟨log, inAll, places⟩, fun _ => orderly.company log inAll orderId places⟩

/-- Of the logs of a market, those that can be followed are all but the cancellations of orders that
they do not place. -/
theorem knownLogs_eq (orderly : Orderly (before ++ logs)) :
    knownLogs before logs = logs.filter (ConcernsPlaced (before ++ logs)) := by
  induction logs generalizing before with
  | nil => rfl
  | cons log logs ih =>
    have split : before ++ log :: logs = before ++ [log] ++ logs := by simp
    have rest := ih (split ▸ orderly)
    have known : Known before log ↔ ConcernsPlaced (before ++ log :: logs) log := by
      cases log with
      | orderCancelled => exact orderly.known_iff
      | newHead => exact Iff.rfl
      | orderPlaced => exact Iff.rfl
      | tradeSettled => exact Iff.rfl
    rw [knownLogs, rest, ← split, List.filter_cons]
    by_cases concerns : ConcernsPlaced (before ++ log :: logs) log
    · simp [known, concerns]
    · simp [known, concerns]

/-- Cancellations in front of the logs that may place their orders add nothing. -/
theorem filter_skip (orderly : Orderly (before ++ logs))
    (only : ∀ log ∈ before, log.isCancellation = true) :
    (before ++ logs).filter (ConcernsPlaced (before ++ logs)) = logs.filter (ConcernsPlaced logs) := by
  have elsewhere : ∀ {log : MarketChainEvent} {orderId : ℕ}, log ∈ before ++ logs →
      log.Places orderId → log ∈ logs := by
    intro log orderId member places
    rcases List.mem_append.mp member with early | late
    · cases (only log early).symm.trans places.not_cancellation
    · exact late
  have none : before.filter (ConcernsPlaced (before ++ logs)) = [] := by
    refine List.filter_eq_nil_iff.mpr fun log member => ?_
    have cancels := only log member
    cases log with
    | newHead => cases cancels
    | orderPlaced => cases cancels
    | tradeSettled => cases cancels
    | orderCancelled block orderId maker =>
      intro concerns
      obtain ⟨placement, among, places⟩ := of_decide_eq_true concerns
      -- The order would be placed after it is cancelled.
      have ordered := (List.pairwise_append.mp orderly.ordered).2.2 _ member placement
        (elsewhere among places)
      exact (ordered orderId rfl places.order).1
  rw [List.filter_append, none, List.nil_append]
  refine List.filter_congr fun log member => decide_eq_decide.mpr ?_
  cases log with
  | newHead => exact Iff.rfl
  | orderPlaced => exact Iff.rfl
  | tradeSettled => exact Iff.rfl
  | orderCancelled block orderId maker =>
    constructor
    · rintro ⟨placement, among, places⟩
      exact ⟨placement, elsewhere among places, places⟩
    · rintro ⟨placement, among, places⟩
      exact ⟨placement, List.mem_append_right _ among, places⟩

theorem knownLogs_nil (orderly : Orderly logs) :
    knownLogs [] logs = logs.filter (ConcernsPlaced logs) :=
  @knownLogs_eq [] logs orderly

end Orderly

namespace Chain
variable {chain : Chain} {lo hi number : ℕ}

/-- The placements and trades of the blocks from `lo` to `hi`, and the cancellations of the orders
that are placed in them. -/
def announced (chain : Chain) (lo hi : ℕ) : List MarketChainEvent :=
  (chain.logs (lo - 1) hi).filter (ConcernsPlaced (chain.logs (lo - 1) hi))

theorem order_decoded {e : Event} {x : MarketChainEvent} (decoded : processLog number e = some x) :
    x.order = e.order := by
  unfold processLog at decoded
  split at decoded <;> cases decoded <;> rfl

theorem placement_decoded {e : Event} {x : MarketChainEvent} {orderId : ℕ}
    (decoded : processLog number e = some x) (about : x.order = some orderId) :
    (e.placement.isSome = true → x.Places orderId) ∧
      (e.placement = none → x.isCancellation = true) := by
  unfold processLog at decoded
  split at decoded <;> cases decoded
  · exact ⟨fun _ => Option.some.inj about, fun other => nomatch other⟩
  · cases about
  · exact ⟨fun placed => absurd placed Bool.false_ne_true, fun _ => rfl⟩

/-- What precedes a log in its block or in the blocks before still does when both are decoded. -/
theorem precedes_decoded {e later : Event} (precedes : e.Precedes later) {first second : ℕ}
    {x y : MarketChainEvent} (decodedFirst : processLog first e = some x)
    (decodedSecond : processLog second later = some y) : x.Precedes y := by
  intro orderId about same
  obtain ⟨places, cancels⟩ := precedes orderId ((order_decoded decodedFirst).symm.trans about)
    ((order_decoded decodedSecond).symm.trans same)
  exact ⟨(placement_decoded decodedFirst about).1 places,
    (placement_decoded decodedSecond same).2 cancels⟩

theorem company_decoded {e : Event} {x : MarketChainEvent} (decoded : processLog number e = some x)
    (company : ∀ orderId companyId terms, e.placement = some (orderId, companyId, terms) →
      companyId ≠ 0) {orderId : ℕ} (places : x.Places orderId) : x.company ≠ 0 := by
  unfold processLog at decoded
  split at decoded <;> cases decoded
  · exact company _ _ _ rfl
  · cases places
  · cases places

theorem mem_getLogs {e : Event} (member : e ∈ chain.getLogs number) :
    ∃ inBlock : number < chain.blocks.length, e ∈ chain.blocks[number] := by
  unfold getLogs at member
  cases block : chain.blocks[number]? with
  | none =>
    rw [block] at member
    cases member
  | some logs =>
    obtain ⟨inBlock, rfl⟩ := List.getElem?_eq_some_iff.mp block
    rw [block] at member
    exact ⟨inBlock, member⟩

/-- The decoded logs of a chain that carries the logs of a market. -/
theorem orderly_logs {τ : Type} {w : World τ} (once : InternalMarket.LogsOnce w)
    (carried : chain.blocks.flatten = w.log) : Orderly (chain.logs lo hi) := by
  have ordered := once.ordered
  rw [← carried, List.pairwise_flatten] at ordered
  constructor
  · intro log member orderId places
    obtain ⟨number, _, decoded⟩ := List.mem_flatMap.mp member
    obtain ⟨e, inLogs, decoded⟩ := List.mem_filterMap.mp decoded
    obtain ⟨inChain, inBlock⟩ := mem_getLogs inLogs
    have inLog : e ∈ w.log :=
      carried ▸ List.mem_flatten.mpr ⟨chain.blocks[number], List.getElem_mem inChain, inBlock⟩
    exact company_decoded decoded (once.company e inLog) places
  · refine List.pairwise_flatMap.mpr ⟨fun number _ => List.pairwise_filterMap.mpr ?_, ?_⟩
    · have inBlock : (chain.getLogs number).Pairwise Event.Precedes := by
        unfold getLogs
        cases block : chain.blocks[number]? with
        | none => exact List.Pairwise.nil
        | some logs => exact ordered.1 logs (List.mem_of_getElem? block)
      exact inBlock.imp fun precedes x first y second => precedes_decoded precedes first second
    · refine (List.pairwise_lt_range' ..).imp fun {first second} before x early y late => ?_
      obtain ⟨e, inFirst, decodedFirst⟩ := List.mem_filterMap.mp early
      obtain ⟨later, inSecond, decodedSecond⟩ := List.mem_filterMap.mp late
      obtain ⟨boundFirst, memberFirst⟩ := mem_getLogs inFirst
      obtain ⟨boundSecond, memberSecond⟩ := mem_getLogs inSecond
      have apart := List.pairwise_iff_getElem.mp ordered.2 first second boundFirst boundSecond before
      exact precedes_decoded (apart e memberFirst later memberSecond) decodedFirst decodedSecond

end Chain

end Aide.Engine
