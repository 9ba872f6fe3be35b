import Aide.Contracts.Standing
import Aide.Dividends

namespace Aide

/-- The order and the amount that an event places. -/
def Event.placed : Event → ℕ × ℕ
  | .orderPlaced orderId _ _ _ _ amount _ _ => (orderId, amount)
  | _ => (0, 0)

/-- The order that a trade fills as maker and as taker, and the shares that it trades. -/
def Event.makerFill : Event → ℕ × ℕ
  | .tradeSettled _ _ makerOrderId _ _ vstkAmount _ _ _ => (makerOrderId, vstkAmount)
  | _ => (0, 0)

def Event.takerFill : Event → ℕ × ℕ
  | .tradeSettled _ takerOrderId _ _ _ vstkAmount _ _ _ => (takerOrderId, vstkAmount)
  | _ => (0, 0)

/-- The event is a trade of the order. -/
def Event.trades (orderId : ℕ) : Event → Bool
  | .tradeSettled _ takerOrderId makerOrderId _ _ _ _ _ _ =>
    makerOrderId = orderId || takerOrderId = orderId
  | _ => false

namespace InternalMarket
variable {τ : Type} {d : Deployment} {msg : Msg} {w next : World τ}

/-- The shares of every company add up, and what was placed of every order is what remains of it
and what its trades have taken. An order that has not been placed has no amount. -/
structure Balanced (w : World τ) : Prop where
  shares : ∀ companyId, ∑ holder, w.market.vstkBalance companyId holder = w.market.totalVstk companyId
  filled : ∀ orderId, bookedFor Event.placed orderId w.log = (w.market.orders orderId).remaining +
    bookedFor Event.makerFill orderId w.log + bookedFor Event.takerFill orderId w.log
  unplaced : ∀ orderId, w.market.nextOrderId ≤ orderId → bookedFor Event.placed orderId w.log = 0

theorem silent_fills {e : Event} (silent : e.aboutOrders = false) :
    e.placed.2 = 0 ∧ e.makerFill.2 = 0 ∧ e.takerFill.2 = 0 ∧ ∀ orderId, e.trades orderId = false := by
  cases e <;> first | exact ⟨rfl, rfl, rfl, fun _ => rfl⟩ | cases silent

namespace Balanced

/-- A step that leaves the orders alone and logs nothing about them. -/
theorem quiet (balanced : Balanced w) (quiet : Quiet w next)
    (shares : ∀ companyId,
      ∑ holder, next.market.vstkBalance companyId holder = next.market.totalVstk companyId) :
    Balanced next := by
  obtain ⟨emitted, log, silent⟩ := quiet.log
  have nonePlaced : ∀ orderId, bookedFor Event.placed orderId emitted = 0 := fun _ =>
    bookedFor_eq_zero fun e member => (silent_fills (silent e member)).1
  have noneMade : ∀ orderId, bookedFor Event.makerFill orderId emitted = 0 := fun _ =>
    bookedFor_eq_zero fun e member => (silent_fills (silent e member)).2.1
  have noneTaken : ∀ orderId, bookedFor Event.takerFill orderId emitted = 0 := fun _ =>
    bookedFor_eq_zero fun e member => (silent_fills (silent e member)).2.2.1
  refine ⟨shares, fun orderId => ?_, fun orderId above => ?_⟩
  · have filled := balanced.filled orderId
    rw [log, quiet.orders, bookedFor_append, bookedFor_append, bookedFor_append, nonePlaced, noneMade,
      noneTaken]
    omega
  · rw [quiet.nextOrderId] at above
    rw [log, bookedFor_append, balanced.unplaced orderId above, nonePlaced]

theorem placeOrder (balanced : Balanced w) {companyId : ℕ} {side : Side}
    {priceRay amount engineHint : ℕ}
    (run : placeOrder msg companyId side priceRay amount engineHint w = .ok next) : Balanced next := by
  obtain ⟨_, _, rfl⟩ := placeOrder_effect run
  refine ⟨balanced.shares, fun orderId => ?_, fun orderId above => ?_⟩
  · have filled := balanced.filled orderId
    simp only [bookedFor_append, bookedFor_cons, bookedFor_nil, Event.placed, Event.makerFill,
      Event.takerFill, share_mk]
    by_cases isNew : orderId = w.market.nextOrderId
    · subst isNew
      have none := balanced.unplaced _ le_rfl
      simp only [Function.update_self, if_true]
      split <;> omega
    · rw [Function.update_of_ne isNew, if_neg (Ne.symm isNew)]
      split <;> omega
  · have known : w.market.nextOrderId < orderId := above
    have none := balanced.unplaced orderId known.le
    simp only [bookedFor_append, bookedFor_cons, bookedFor_nil, Event.placed, share_mk]
    rw [none, if_neg known.ne]

theorem cancelOrder (balanced : Balanced w) {orderId : ℕ}
    (run : cancelOrder msg orderId w = .ok next) : Balanced next := by
  obtain ⟨_, rfl⟩ := cancelOrder_effect run
  refine ⟨balanced.shares, fun other => ?_, fun other above => ?_⟩
  · have filled := balanced.filled other
    have remains : (Function.update w.market.orders orderId
        { w.market.orders orderId with active := false } other).remaining =
        (w.market.orders other).remaining := by
      by_cases same : other = orderId
      · subst same
        simp
      · simp [same]
    simp only [bookedFor_append, bookedFor_cons, bookedFor_nil, Event.placed, Event.makerFill,
      Event.takerFill, share_mk, remains]
    split <;> omega
  · have none := balanced.unplaced other above
    simp only [bookedFor_append, bookedFor_cons, bookedFor_nil, Event.placed, share_mk]
    split <;> omega

theorem issueShares (balanced : Balanced w) {companyId : ℕ} {recipient : Address} {amount : ℕ}
    (run : issueShares msg companyId recipient amount w = .ok next) : Balanced next := by
  cases issueShares_effect run
  refine balanced.quiet (.singleton rfl rfl rfl rfl) fun other => ?_
  by_cases same : other = companyId
  · subst same
    have total := Ledger.sum_update (w.market.vstkBalance other) recipient
      (w.market.vstkBalance other recipient + amount)
    have shares := balanced.shares other
    simp only [Function.update_self]
    omega
  · simpa [same] using balanced.shares other

/-- A trade takes its shares from both of its orders, which are different ones. -/
theorem settled [AitToken τ] (balanced : Balanced w)
    {makerOrderId takerOrderId vstkAmount aitNotional cid fee : ℕ} {settlementId : Bytes32}
    {buyer seller : Address} (settled : Settled d w next makerOrderId takerOrderId vstkAmount
      aitNotional settlementId cid fee buyer seller) : Balanced next := by
  have apart : makerOrderId ≠ takerOrderId := fun same => settled.checks.opposite (by rw [same])
  have makerFits := settled.checks.makerFits
  have takerFits := settled.checks.takerFits
  have untaxed : ∀ (entry : Event → ℕ × ℕ) (orderId : ℕ),
      (∀ e, e.aboutOrders = false → (entry e).2 = 0) →
      bookedFor entry orderId (Treasury.taxLog d.internalMarket d.internalMarket aitNotional fee) = 0 :=
    fun entry _ none => bookedFor_eq_zero fun e member => none e (taxLog_quiet e member)
  obtain ⟨_, _, _, _, rfl⟩ := settled.effect
  refine ⟨fun other => ?_, fun orderId => ?_, fun orderId above => ?_⟩
  · by_cases same : other = cid
    · subst same
      simp only [Function.update_self]
      exact (Ledger.sum_pay (fun _ => seller) (fun _ => buyer) (fun _ => vstkAmount) ()
        settled.holds).trans (balanced.shares other)
    · simpa [same] using balanced.shares other
  · have filled := balanced.filled orderId
    simp only [bookedFor_append, untaxed _ _ fun e silent => (silent_fills silent).1,
      untaxed _ _ fun e silent => (silent_fills silent).2.1,
      untaxed _ _ fun e silent => (silent_fills silent).2.2.1, bookedFor_cons, bookedFor_nil,
      Event.placed, Event.makerFill, Event.takerFill, share_mk]
    by_cases taker : orderId = takerOrderId
    · subst taker
      rw [Function.update_self, if_neg apart]
      simp only [Order.fill, if_true]
      split <;> omega
    · rw [Function.update_of_ne taker, if_neg (Ne.symm taker)]
      by_cases maker : orderId = makerOrderId
      · subst maker
        simp only [Function.update_self, Order.fill, if_true]
        split <;> omega
      · rw [Function.update_of_ne maker, if_neg (Ne.symm maker)]
        split <;> omega
  · have none := balanced.unplaced orderId above
    simp only [bookedFor_append, untaxed _ _ fun e silent => (silent_fills silent).1, bookedFor_cons,
      bookedFor_nil, Event.placed, share_mk]
    split <;> omega

theorem exec [AitToken τ] (balanced : Balanced w) {action : MarketAction τ}
    (run : action.exec d w = .ok next) : Balanced next := by
  cases action with
  | elsewhere other =>
    cases run
    exact ⟨balanced.shares, balanced.filled, balanced.unplaced⟩
  | own msg call =>
    rcases exec_shares run with ⟨_, _, _, issue⟩ | ⟨_, _, _, _, _, _, _, _, _, settled⟩ | ⟨held, total⟩
    · exact balanced.issueShares issue
    · exact balanced.settled settled
    · rcases exec_orders run with ⟨_, _, _, _, _, _, place⟩ | ⟨_, _, cancel⟩ |
        ⟨_, _, _, _, _, _, _, _, _, _, settled⟩ | quiet
      · exact balanced.placeOrder place
      · exact balanced.cancelOrder cancel
      · exact balanced.settled settled
      · exact balanced.quiet quiet fun companyId => by rw [held, total, balanced.shares]

/-- The books balance after every history of a market that has just been deployed. -/
theorem run [AitToken τ] {admin : Address} (fresh : w.market = InternalMarket.constructed admin)
    (noLog : w.log = []) (history : List (MarketAction τ)) :
    Balanced (TransitionRun.exec (MarketAction.exec d) w history) := by
  have start : Balanced w := by
    constructor
    · simp [fresh, InternalMarket.constructed]
    · simp [fresh, noLog, InternalMarket.constructed]
    · simp [noLog]
  exact TransitionRun.exec_preserves (P := fun _ _ => True)
    (fun _ _ _ balanced _ run => balanced.exec run) start
    (TransitionRun.Meets.of_forall fun _ _ _ => trivial)

end Balanced

/-- The order has been placed and is no longer active. -/
structure Retired (orderId : ℕ) (w : World τ) : Prop where
  placed : orderId < w.market.nextOrderId
  inactive : (w.market.orders orderId).active = false

/-- What one step appends to the log names no retired order in a trade. -/
theorem Retired.exec [AitToken τ] {orderId : ℕ} (retired : Retired orderId w) {action : MarketAction τ}
    (run : action.exec d w = .ok next) : Retired orderId next ∧
      ∃ emitted, next.log = w.log ++ emitted ∧ ∀ e ∈ emitted, e.trades orderId = false := by
  cases action with
  | elsewhere other =>
    cases run
    exact ⟨⟨retired.placed, retired.inactive⟩, [], (List.append_nil _).symm, fun e member => by cases member⟩
  | own msg call =>
    rcases exec_orders run with ⟨_, _, _, _, _, _, place⟩ | ⟨cancelled, _, cancel⟩ |
      ⟨maker, taker, _, _, _, _, _, _, _, _, settled⟩ | quiet
    · obtain ⟨_, _, rfl⟩ := placeOrder_effect place
      refine ⟨⟨Nat.lt_succ_of_lt retired.placed, ?_⟩, _, rfl, fun e member => ?_⟩
      · simpa [Function.update_of_ne retired.placed.ne] using retired.inactive
      · cases List.mem_singleton.mp member
        rfl
    · obtain ⟨_, rfl⟩ := cancelOrder_effect cancel
      refine ⟨⟨retired.placed, ?_⟩, _, rfl, fun e member => ?_⟩
      · by_cases same : orderId = cancelled
        · subst same
          simp
        · simpa [Function.update_of_ne same] using retired.inactive
      · cases List.mem_singleton.mp member
        rfl
    · have notMaker : maker ≠ orderId := by
        rintro rfl
        cases settled.checks.makerActive.symm.trans retired.inactive
      have notTaker : taker ≠ orderId := by
        rintro rfl
        cases settled.checks.takerActive.symm.trans retired.inactive
      obtain ⟨_, _, _, _, rfl⟩ := settled.effect
      refine ⟨⟨retired.placed, ?_⟩, _, List.append_assoc .., fun e member => ?_⟩
      · simpa [Function.update_of_ne (Ne.symm notMaker), Function.update_of_ne (Ne.symm notTaker)]
          using retired.inactive
      · rcases List.mem_append.mp member with tax | trade
        · exact (silent_fills (taxLog_quiet e tax)).2.2.2 orderId
        · cases List.mem_singleton.mp trade
          simp [Event.trades, notMaker, notTaker]
    · obtain ⟨emitted, log, silent⟩ := quiet.log
      refine ⟨⟨?_, ?_⟩, emitted, log, fun e member => (silent_fills (silent e member)).2.2.2 orderId⟩
      · rw [quiet.nextOrderId]
        exact retired.placed
      · rw [quiet.orders]
        exact retired.inactive

/-- A retired order stays retired, and no later trade names it, by induction on what follows. -/
theorem Retired.run [AitToken τ] {orderId : ℕ} (retired : Retired orderId w)
    (rest : List (MarketAction τ)) :
    Retired orderId (TransitionRun.exec (MarketAction.exec d) w rest) ∧
      ∃ emitted, (TransitionRun.exec (MarketAction.exec d) w rest).log = w.log ++ emitted ∧
        ∀ e ∈ emitted, e.trades orderId = false := by
  induction rest generalizing w with
  | nil => exact ⟨retired, [], (List.append_nil _).symm, fun e member => by cases member⟩
  | cons action rest ih =>
    rw [TransitionRun.exec_cons]
    cases taken : action.exec d w with
    | error e =>
      rw [TransitionRun.after_error taken]
      exact ih retired
    | ok next =>
      rw [TransitionRun.after_ok taken]
      obtain ⟨retiredNext, first, firstLog, firstSilent⟩ := retired.exec taken
      obtain ⟨retiredFinal, later, laterLog, laterSilent⟩ := ih retiredNext
      refine ⟨retiredFinal, first ++ later, ?_, fun e member => ?_⟩
      · rw [laterLog, firstLog, List.append_assoc]
      · rcases List.mem_append.mp member with early | late
        · exact firstSilent e early
        · exact laterSilent e late

end InternalMarket

open InternalMarket

/-- After every history of the market the shares of each company add up, each order is accounted
for by its trades, something remains of the active ones, and an order that has been filled or
cancelled stays so and is not traded again. -/
theorem market_is_bookkept [AitToken τ] {d : Deployment} {admin : Address} {w : World τ}
    (fresh : w.market = InternalMarket.constructed admin) (noLog : w.log = [])
    (history : List (MarketAction τ)) :
    Balanced (TransitionRun.exec (MarketAction.exec d) w history) ∧
    OpenOrders (TransitionRun.exec (MarketAction.exec d) w history) ∧
    ∀ orderId, Retired orderId (TransitionRun.exec (MarketAction.exec d) w history) → ∀ rest,
      Retired orderId (TransitionRun.exec (MarketAction.exec d) w (history ++ rest)) ∧
      ∀ e ∈ (TransitionRun.exec (MarketAction.exec d) w (history ++ rest)).log.drop
          (TransitionRun.exec (MarketAction.exec d) w history).log.length,
        e.trades orderId = false := by
  refine ⟨Balanced.run fresh noLog history, OpenOrders.run fresh history, fun orderId retired rest => ?_⟩
  obtain ⟨stays, emitted, log, silent⟩ := retired.run (d := d) rest
  rw [TransitionRun.exec_append]
  refine ⟨stays, fun e member => silent e ?_⟩
  rwa [log, List.drop_left] at member

namespace Devnet

/-- A trade of part of both orders, and bob takes back the rest of his. -/
def partly : List (MarketAction ERC20) :=
  founding ++ orders ++ [settle 40 400 1, .own { sender := bob } (.cancelOrder 2)]

end Devnet

theorem market_is_bookkept_after_partly :
    Balanced (TransitionRun.exec (MarketAction.exec Deployment.devnet) Devnet.listed Devnet.partly) ∧
    OpenOrders (TransitionRun.exec (MarketAction.exec Deployment.devnet) Devnet.listed Devnet.partly) ∧
    ∀ orderId, Retired orderId
        (TransitionRun.exec (MarketAction.exec Deployment.devnet) Devnet.listed Devnet.partly) → ∀ rest,
      Retired orderId
        (TransitionRun.exec (MarketAction.exec Deployment.devnet) Devnet.listed (Devnet.partly ++ rest)) ∧
      ∀ e ∈ (TransitionRun.exec (MarketAction.exec Deployment.devnet) Devnet.listed
          (Devnet.partly ++ rest)).log.drop
          (TransitionRun.exec (MarketAction.exec Deployment.devnet) Devnet.listed Devnet.partly).log.length,
        e.trades orderId = false :=
  market_is_bookkept rfl rfl Devnet.partly

end Aide
