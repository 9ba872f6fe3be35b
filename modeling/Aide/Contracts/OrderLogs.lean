import Aide.Contracts.MarketRun

namespace Aide

/-- The logs that tell of orders: placed, cancelled and traded. -/
def Event.aboutOrders : Event → Bool
  | .orderPlaced .. | .orderCancelled .. | .tradeSettled .. => true
  | _ => false

/-- The id and the terms under which an order is logged. -/
def Event.placement : Event → Option (ℕ × ℕ × Address × Side × ℕ)
  | .orderPlaced orderId companyId maker side priceRay _ _ _ =>
    some (orderId, companyId, maker, side, priceRay)
  | _ => none

/-- The order that a log places or cancels. -/
def Event.order : Event → Option ℕ
  | .orderPlaced orderId .. => some orderId
  | .orderCancelled orderId _ => some orderId
  | _ => none

/-- Of two logs about one order, the first places it and the second cancels it. -/
def Event.Precedes (e later : Event) : Prop :=
  ∀ orderId, e.order = some orderId → later.order = some orderId →
    e.placement.isSome = true ∧ later.placement = none

/-- What does not change in an order from its placement on. -/
def Order.terms (o : Order) : ℕ × Address × Side × ℕ := (o.companyId, o.maker, o.side, o.priceRay)

namespace InternalMarket
variable {τ : Type} {d : Deployment} {msg : Msg} {w next : World τ}

theorem placement_of_silent {e : Event} (silent : e.aboutOrders = false) : e.placement = none := by
  cases e <;> first | rfl | cases silent

theorem order_of_silent {e : Event} (silent : e.aboutOrders = false) : e.order = none := by
  cases e <;> first | rfl | cases silent

theorem taxLog_quiet {sender payer : Address} {taxableBase fee : ℕ} :
    ∀ e ∈ Treasury.taxLog sender payer taxableBase fee, e.aboutOrders = false := by
  intro e member
  cases Treasury.mem_taxLog member
  rfl

theorem tripEvents_quiet {reason : CircuitReason} {amount : ℕ} :
    ∀ e ∈ Guardrail.tripEvents reason amount w, e.aboutOrders = false := by
  intro e member
  cases Guardrail.mem_tripEvents member
  rfl

/-- A call that leaves the orders alone and logs nothing about them. -/
structure Quiet (w next : World τ) : Prop where
  orders : next.market.orders = w.market.orders
  nextOrderId : next.market.nextOrderId = w.market.nextOrderId
  log : ∃ emitted, next.log = w.log ++ emitted ∧ ∀ e ∈ emitted, e.aboutOrders = false

theorem Quiet.singleton {e : Event} (orders : next.market.orders = w.market.orders)
    (nextOrderId : next.market.nextOrderId = w.market.nextOrderId) (log : next.log = w.log ++ [e])
    (silent : e.aboutOrders = false) : Quiet w next :=
  ⟨orders, nextOrderId, [e], log, fun other member => by cases List.mem_singleton.mp member; exact silent⟩

theorem Quiet.last {before : List Event} {e : Event} (orders : next.market.orders = w.market.orders)
    (nextOrderId : next.market.nextOrderId = w.market.nextOrderId)
    (log : next.log = w.log ++ before ++ [e]) (quiet : ∀ e ∈ before, e.aboutOrders = false)
    (silent : e.aboutOrders = false) : Quiet w next := by
  refine ⟨orders, nextOrderId, before ++ [e], log.trans (List.append_assoc ..), fun other member => ?_⟩
  rcases List.mem_append.mp member with old | last
  · exact quiet other old
  · cases List.mem_singleton.mp last
    exact silent

/-- Only three calls write orders. Of these, the trade may be refused by the breaker instead. -/
theorem exec_orders [AitToken τ] {call : Call} (run : exec d msg call w = .ok next) :
    (∃ companyId side priceRay amount engineHint,
      call = .placeOrder companyId side priceRay amount engineHint ∧
      placeOrder msg companyId side priceRay amount engineHint w = .ok next) ∨
    (∃ orderId, call = .cancelOrder orderId ∧ cancelOrder msg orderId w = .ok next) ∨
    (∃ makerOrderId takerOrderId vstkAmount aitNotional settlementId cid fee buyer seller,
      call = .settleTrade makerOrderId takerOrderId vstkAmount aitNotional settlementId ∧
      Settled d w next makerOrderId takerOrderId vstkAmount aitNotional settlementId cid fee buyer
        seller) ∨
    Quiet w next := by
  cases call with
  | registerCompany vault =>
    cases registerCompany_effect run
    exact Or.inr (Or.inr (Or.inr (.singleton rfl rfl rfl rfl)))
  | issueShares companyId recipient amount =>
    cases issueShares_effect run
    exact Or.inr (Or.inr (Or.inr (.singleton rfl rfl rfl rfl)))
  | depositAit amount =>
    obtain ⟨_, _, rfl⟩ := depositAit_effect run
    exact Or.inr (Or.inr (Or.inr (.singleton rfl rfl rfl rfl)))
  | withdrawAit amount =>
    obtain ⟨_, _, _, rfl⟩ := withdrawAit_effect run
    exact Or.inr (Or.inr (Or.inr (.singleton rfl rfl rfl rfl)))
  | placeOrder companyId side priceRay amount engineHint =>
    exact Or.inl ⟨_, _, _, _, _, rfl, run⟩
  | cancelOrder orderId => exact Or.inr (Or.inl ⟨_, rfl, run⟩)
  | settleTrade makerOrderId takerOrderId vstkAmount aitNotional settlementId =>
    obtain ⟨_, ⟨cid, fee, buyer, seller, settled⟩ | rfl⟩ := settleTrade_cases run
    · exact Or.inr (Or.inr (Or.inl ⟨_, _, _, _, _, cid, fee, buyer, seller, rfl, settled⟩))
    · exact Or.inr (Or.inr (Or.inr (.last rfl rfl rfl tripEvents_quiet rfl)))
  | depositProfit companyId grossAmount =>
    obtain ⟨_, ⟨_, _, _, _, _, _, _, rfl⟩ | rfl⟩ := depositProfit_cases run
    · exact Or.inr (Or.inr (Or.inr (.last rfl rfl rfl taxLog_quiet rfl)))
    · exact Or.inr (Or.inr (Or.inr (.last rfl rfl rfl tripEvents_quiet rfl)))
  | setDividendPayoutVault companyId vault =>
    cases setDividendPayoutVault_effect run
    exact Or.inr (Or.inr (Or.inr (.singleton rfl rfl rfl rfl)))
  | claimDividend companyId =>
    obtain rfl | ⟨_, _, _, _, _, _, rfl⟩ := claimDividend_cases run
    · exact Or.inr (Or.inr (Or.inr ⟨rfl, rfl, [], (List.append_nil _).symm, fun e member =>
        absurd member List.not_mem_nil⟩))
    · exact Or.inr (Or.inr (Or.inr (.singleton rfl rfl rfl rfl)))
  | access call =>
    simp only [exec, bind_eq_ok, pure_eq_ok] at run
    obtain ⟨_, _, rfl⟩ := run
    exact Or.inr (Or.inr (Or.inr ⟨rfl, rfl, [], (List.append_nil _).symm, fun e member =>
      absurd member List.not_mem_nil⟩))

/-- Every order that has been logged is stored under the terms of its log. -/
def KeepsTerms (w : World τ) : Prop :=
  ∀ e ∈ w.log, ∀ orderId terms, e.placement = some (orderId, terms) →
    orderId < w.market.nextOrderId ∧ (w.market.orders orderId).terms = terms

namespace KeepsTerms

/-- A step that keeps the terms of the orders and logs no new one. -/
theorem of_frame (keeps : KeepsTerms w) (more : w.market.nextOrderId ≤ next.market.nextOrderId)
    (terms : ∀ id < w.market.nextOrderId,
      (next.market.orders id).terms = (w.market.orders id).terms)
    (log : ∀ e ∈ next.log, e ∈ w.log ∨ e.placement = none) : KeepsTerms next := by
  intro e member orderId placed same
  rcases log e member with old | none
  · obtain ⟨known, stored⟩ := keeps e old orderId placed same
    exact ⟨known.trans_le more, (terms orderId known).trans stored⟩
  · cases none.symm.trans same

theorem placeOrder (keeps : KeepsTerms w) {companyId : ℕ} {side : Side}
    {priceRay amount engineHint : ℕ}
    (run : placeOrder msg companyId side priceRay amount engineHint w = .ok next) :
    KeepsTerms next := by
  obtain ⟨_, _, rfl⟩ := placeOrder_effect run
  intro e member orderId placed same
  rcases List.mem_append.mp member with old | new
  · obtain ⟨known, stored⟩ := keeps e old orderId placed same
    refine ⟨Nat.lt_succ_of_lt known, ?_⟩
    simpa [Function.update_of_ne known.ne] using stored
  · cases List.mem_singleton.mp new
    simp only [Event.placement, Option.some.injEq, Prod.mk.injEq] at same
    obtain ⟨rfl, rfl⟩ := same
    exact ⟨Nat.lt_succ_self _, by simp [Order.terms]⟩

theorem cancelOrder (keeps : KeepsTerms w) {orderId : ℕ}
    (run : cancelOrder msg orderId w = .ok next) : KeepsTerms next := by
  obtain ⟨_, rfl⟩ := cancelOrder_effect run
  refine keeps.of_frame le_rfl (fun id known => ?_) fun e member => ?_
  · by_cases same : id = orderId
    · subst same
      simp [Order.terms]
    · simp [same]
  · rcases List.mem_append.mp member with old | new
    · exact Or.inl old
    · cases List.mem_singleton.mp new
      exact Or.inr rfl

theorem settled [AitToken τ] (keeps : KeepsTerms w)
    {makerOrderId takerOrderId vstkAmount aitNotional cid fee : ℕ} {settlementId : Bytes32}
    {buyer seller : Address} (settled : Settled d w next makerOrderId takerOrderId vstkAmount
      aitNotional settlementId cid fee buyer seller) : KeepsTerms next := by
  obtain ⟨_, _, _, _, rfl⟩ := settled.effect
  refine keeps.of_frame le_rfl (fun id known => ?_) fun e member => ?_
  · by_cases taker : id = takerOrderId
    · subst taker
      simp [Order.terms, Order.fill]
    · by_cases maker : id = makerOrderId
      · subst maker
        simp [Order.terms, Order.fill, taker]
      · simp [taker, maker]
  · simp only [List.append_assoc, List.mem_append, List.mem_singleton] at member
    rcases member with old | tax | rfl
    · exact Or.inl old
    · cases Treasury.mem_taxLog tax
      exact Or.inr rfl
    · exact Or.inr rfl

theorem quiet (keeps : KeepsTerms w) (quiet : Quiet w next) : KeepsTerms next := by
  obtain ⟨emitted, log, silent⟩ := quiet.log
  refine keeps.of_frame quiet.nextOrderId.ge (fun id _ => by rw [quiet.orders]) fun e member => ?_
  rw [log] at member
  rcases List.mem_append.mp member with old | new
  · exact Or.inl old
  · exact Or.inr (placement_of_silent (silent e new))

theorem exec [AitToken τ] (keeps : KeepsTerms w) {action : MarketAction τ}
    (run : action.exec d w = .ok next) : KeepsTerms next := by
  cases action with
  | own msg call =>
    rcases exec_orders run with ⟨_, _, _, _, _, _, place⟩ | ⟨_, _, cancel⟩ |
      ⟨_, _, _, _, _, _, _, _, _, _, settled⟩ | quiet
    · exact keeps.placeOrder place
    · exact keeps.cancelOrder cancel
    · exact keeps.settled settled
    · exact keeps.quiet quiet
  | elsewhere other =>
    cases run
    exact keeps

/-- The terms of every order stand as logged after every history of the market. -/
theorem run [AitToken τ] (noLog : w.log = []) (history : List (MarketAction τ)) :
    KeepsTerms (TransitionRun.exec (MarketAction.exec d) w history) := by
  have start : KeepsTerms w := fun e member => by
    rw [noLog] at member
    cases member
  exact TransitionRun.exec_preserves (P := fun _ _ => True)
    (fun w action next keeps _ run => keeps.exec run) start
    (TransitionRun.Meets.of_forall fun _ _ _ => trivial)

end KeepsTerms

/-- Every order is logged at most twice: when it is placed in a company, and when it is cancelled. -/
structure LogsOnce (w : World τ) : Prop where
  logged : ∀ e ∈ w.log, ∀ orderId, e.order = some orderId → orderId < w.market.nextOrderId
  cancelled : ∀ e ∈ w.log, ∀ orderId, e.order = some orderId → e.placement = none →
    (w.market.orders orderId).active = false
  placed : ∀ orderId, (w.market.orders orderId).active = true → orderId < w.market.nextOrderId
  company : ∀ e ∈ w.log, ∀ orderId companyId terms, e.placement = some (orderId, companyId, terms) →
    companyId ≠ 0
  ordered : w.log.Pairwise Event.Precedes

namespace LogsOnce

theorem constructed {admin : Address} (fresh : w.market = InternalMarket.constructed admin)
    (noLog : w.log = []) : LogsOnce w := by
  constructor
  · simp [noLog]
  · simp [noLog]
  · intro orderId active
    simp [fresh, InternalMarket.constructed] at active
  · simp [noLog]
  · simp [noLog]

/-- A step that revives no order and logs no placement and no cancellation. -/
theorem of_frame (once : LogsOnce w) {emitted : List Event}
    (more : next.market.nextOrderId = w.market.nextOrderId)
    (active : ∀ orderId, (next.market.orders orderId).active = true →
      (w.market.orders orderId).active = true)
    (log : next.log = w.log ++ emitted)
    (silent : ∀ e ∈ emitted, e.order = none ∧ e.placement = none) : LogsOnce next := by
  have old : ∀ e ∈ next.log, ∀ orderId, e.order = some orderId → e ∈ w.log := by
    intro e member orderId about
    rcases List.mem_append.mp (log ▸ member) with old | new
    · exact old
    · cases (silent e new).1.symm.trans about
  constructor
  · intro e member orderId about
    exact (once.logged e (old e member orderId about) orderId about).trans_eq more.symm
  · intro e member orderId about cancels
    have was := once.cancelled e (old e member orderId about) orderId about cancels
    exact Bool.eq_false_iff.mpr fun revived => Bool.eq_false_iff.mp was (active orderId revived)
  · intro orderId live
    exact (once.placed orderId (active orderId live)).trans_eq more.symm
  · intro e member orderId companyId terms places
    rcases List.mem_append.mp (log ▸ member) with old | new
    · exact once.company e old orderId companyId terms places
    · cases (silent e new).2.symm.trans places
  · rw [log]
    refine List.pairwise_append.mpr ⟨once.ordered, ?_, ?_⟩
    · refine List.pairwise_of_forall_mem_list fun e member _ _ orderId about => ?_
      cases (silent e member).1.symm.trans about
    · intro e _ later new orderId _ about
      cases (silent later new).1.symm.trans about

theorem placeOrder (once : LogsOnce w) {companyId : ℕ} {side : Side}
    {priceRay amount engineHint : ℕ}
    (run : placeOrder msg companyId side priceRay amount engineHint w = .ok next) :
    LogsOnce next := by
  obtain ⟨⟨inCompany, _⟩, _, rfl⟩ := placeOrder_effect run
  constructor
  · intro e member orderId about
    rcases List.mem_append.mp member with old | new
    · exact Nat.lt_succ_of_lt (once.logged e old orderId about)
    · cases List.mem_singleton.mp new
      cases about
      exact Nat.lt_succ_self _
  · intro e member orderId about cancels
    rcases List.mem_append.mp member with old | new
    · have known := once.logged e old orderId about
      have was := once.cancelled e old orderId about cancels
      simpa [Function.update_of_ne known.ne] using was
    · cases List.mem_singleton.mp new
      cases cancels
  · intro orderId live
    by_cases isNew : orderId = w.market.nextOrderId
    · exact isNew ▸ Nat.lt_succ_self _
    · simp only [Function.update_of_ne isNew] at live
      exact Nat.lt_succ_of_lt (once.placed orderId live)
  · intro e member orderId inside terms places
    rcases List.mem_append.mp member with old | new
    · exact once.company e old orderId inside terms places
    · cases List.mem_singleton.mp new
      cases places
      exact inCompany
  · refine List.pairwise_append.mpr ⟨once.ordered, List.pairwise_singleton .., ?_⟩
    intro e old later new orderId about same
    cases List.mem_singleton.mp new
    cases same
    exact absurd (once.logged e old _ about) (lt_irrefl _)

theorem cancelOrder (once : LogsOnce w) {orderId : ℕ}
    (run : cancelOrder msg orderId w = .ok next) : LogsOnce next := by
  obtain ⟨isActive, rfl⟩ := cancelOrder_effect run
  constructor
  · intro e member other about
    rcases List.mem_append.mp member with old | new
    · exact once.logged e old other about
    · cases List.mem_singleton.mp new
      cases about
      exact once.placed orderId isActive
  · intro e member other about cancels
    by_cases same : other = orderId
    · subst same
      simp
    · rcases List.mem_append.mp member with old | new
      · simpa [same] using once.cancelled e old other about cancels
      · cases List.mem_singleton.mp new
        cases about
        exact absurd rfl same
  · intro other live
    by_cases same : other = orderId
    · exact same ▸ once.placed orderId isActive
    · simp only [Function.update_of_ne same] at live
      exact once.placed other live
  · intro e member other companyId terms places
    rcases List.mem_append.mp member with old | new
    · exact once.company e old other companyId terms places
    · cases List.mem_singleton.mp new
      cases places
  · refine List.pairwise_append.mpr ⟨once.ordered, List.pairwise_singleton .., ?_⟩
    intro e old later new other about same
    cases List.mem_singleton.mp new
    cases same
    refine ⟨?_, rfl⟩
    cases places : e.placement with
    | some _ => rfl
    | none => cases (once.cancelled e old orderId about places).symm.trans isActive

theorem settled [AitToken τ] (once : LogsOnce w)
    {makerOrderId takerOrderId vstkAmount aitNotional cid fee : ℕ} {settlementId : Bytes32}
    {buyer seller : Address} (settled : Settled d w next makerOrderId takerOrderId vstkAmount
      aitNotional settlementId cid fee buyer seller) : LogsOnce next := by
  obtain ⟨_, _, _, _, rfl⟩ := settled.effect
  refine once.of_frame rfl (fun id live => ?_) (List.append_assoc ..) fun e member => ?_
  · by_cases taker : id = takerOrderId
    · subst taker
      exact settled.checks.takerActive
    · by_cases maker : id = makerOrderId
      · subst maker
        exact settled.checks.makerActive
      · simpa [taker, maker] using live
  · rcases List.mem_append.mp member with tax | trade
    · cases Treasury.mem_taxLog tax
      exact ⟨rfl, rfl⟩
    · cases List.mem_singleton.mp trade
      exact ⟨rfl, rfl⟩

theorem exec [AitToken τ] (once : LogsOnce w) {action : MarketAction τ}
    (run : action.exec d w = .ok next) : LogsOnce next := by
  cases action with
  | own msg call =>
    rcases exec_orders run with ⟨_, _, _, _, _, _, place⟩ | ⟨_, _, cancel⟩ |
      ⟨_, _, _, _, _, _, _, _, _, _, settled⟩ | quiet
    · exact once.placeOrder place
    · exact once.cancelOrder cancel
    · exact once.settled settled
    · obtain ⟨emitted, log, silent⟩ := quiet.log
      refine once.of_frame quiet.nextOrderId (fun id live => ?_) log fun e member => ?_
      · rwa [quiet.orders] at live
      · exact ⟨order_of_silent (silent e member), placement_of_silent (silent e member)⟩
  | elsewhere other =>
    cases run
    exact ⟨once.logged, once.cancelled, once.placed, once.company, once.ordered⟩

/-- Every history of a market that has just been deployed logs each order at most twice. -/
theorem run [AitToken τ] {admin : Address} (fresh : w.market = InternalMarket.constructed admin)
    (noLog : w.log = []) (history : List (MarketAction τ)) :
    LogsOnce (TransitionRun.exec (MarketAction.exec d) w history) :=
  TransitionRun.exec_preserves (P := fun _ _ => True)
    (fun _ _ _ once _ run => once.exec run) (constructed fresh noLog)
    (TransitionRun.Meets.of_forall fun _ _ _ => trivial)

end LogsOnce

end InternalMarket

end Aide
