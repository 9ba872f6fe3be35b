import Aide.Contracts.OrderLogs

namespace Aide
variable {τ : Type} [AitToken τ]

/-- Every check of `settleTrade` passes in the state before the call. -/
structure Passes (d : Deployment) (w : World τ) (sender : Address)
    (makerOrderId takerOrderId vstkAmount aitNotional : ℕ) : Prop where
  settler : w.market.roles .settler sender = true
  checks : InternalMarket.Settleable w makerOrderId takerOrderId vstkAmount aitNotional
  allowed : InternalMarket.settleFeeAllowed d (aitNotional * w.treasury.taxRateBps / 10000)
    aitNotional w = .ok (true, w)
  funded : aitNotional ≤ w.market.aitBalance
    (InternalMarket.party .buy (w.market.orders makerOrderId) (w.market.orders takerOrderId))
  holds : vstkAmount ≤ w.market.vstkBalance (w.market.orders makerOrderId).companyId
    (InternalMarket.party .sell (w.market.orders makerOrderId) (w.market.orders takerOrderId))

/-- The id that a settlement logs. -/
def Event.settlementId : Event → Option Bytes32
  | .tradeSettled _ _ _ _ _ _ _ _ settlementId => some settlementId
  | _ => none

/-- The logs hold a settlement with this id. -/
def SettledBefore (settlementId : Bytes32) (w : World τ) : Prop :=
  ∃ e ∈ w.log, e.settlementId = some settlementId

omit [AitToken τ] in
instance (settlementId : Bytes32) (w : World τ) : Decidable (SettledBefore settlementId w) :=
  inferInstanceAs (Decidable (∃ e ∈ w.log, e.settlementId = some settlementId))

namespace MarketAction

/-- A call of `settleTrade` with this id that changes an order or a balance. -/
def Effective (d : Deployment) (settlementId : Bytes32) (w : World τ) : MarketAction τ → Prop
  | .own msg (.settleTrade makerOrderId takerOrderId vstkAmount aitNotional id) =>
    let next := TransitionRun.after (exec d) w
      (.own msg (.settleTrade makerOrderId takerOrderId vstkAmount aitNotional id))
    id = settlementId ∧ (next.market.orders ≠ w.market.orders ∨
      next.market.aitBalance ≠ w.market.aitBalance ∨
      next.market.vstkBalance ≠ w.market.vstkBalance)
  | _ => False

/-- A call that carries the id of an earlier settlement fails a check of `settleTrade`. -/
def RefusesReplay (d : Deployment) (w : World τ) : MarketAction τ → Prop
  | .own msg (.settleTrade makerOrderId takerOrderId vstkAmount aitNotional settlementId) =>
    SettledBefore settlementId w →
      ¬ Passes d w msg.sender makerOrderId takerOrderId vstkAmount aitNotional
  | _ => True

end MarketAction

variable {d : Deployment} {msg : Msg} {w next : World τ} {settlementId : Bytes32}

/-- Every call of the market only adds to the logs. -/
theorem market_log_extends {call : InternalMarket.Call}
    (run : InternalMarket.exec d msg call w = .ok next) : w.log <+: next.log := by
  rcases InternalMarket.exec_orders run with ⟨_, _, _, _, _, _, place⟩ | ⟨_, _, cancel⟩ |
    ⟨_, _, _, _, _, _, _, _, _, _, settled⟩ | quiet
  · obtain ⟨_, _, rfl⟩ := InternalMarket.placeOrder_effect place
    exact List.prefix_append ..
  · obtain ⟨_, rfl⟩ := InternalMarket.cancelOrder_effect cancel
    exact List.prefix_append ..
  · obtain ⟨_, _, _, _, rfl⟩ := settled.effect
    exact (List.prefix_append ..).trans (List.prefix_append ..)
  · obtain ⟨emitted, logs, _⟩ := quiet.log
    rw [logs]
    exact List.prefix_append ..

theorem settledBefore_kept {action : MarketAction τ} (settled : SettledBefore settlementId w)
    (run : MarketAction.exec d w action = .ok next) : SettledBefore settlementId next := by
  obtain ⟨e, member, same⟩ := settled
  cases action with
  | own msg call => exact ⟨e, (market_log_extends run).subset member, same⟩
  | elsewhere other =>
    cases run
    exact ⟨e, member, same⟩

/-- What an effective call has passed and logged. -/
theorem effective_cases {action : MarketAction τ}
    (effective : MarketAction.Effective d settlementId w action) :
    SettledBefore settlementId (TransitionRun.after (MarketAction.exec d) w action) ∧
    ∃ msg makerOrderId takerOrderId vstkAmount aitNotional,
      action = .own msg
        (.settleTrade makerOrderId takerOrderId vstkAmount aitNotional settlementId) ∧
      Passes d w msg.sender makerOrderId takerOrderId vstkAmount aitNotional := by
  unfold MarketAction.Effective at effective
  split at effective
  · rename_i msg makerOrderId takerOrderId vstkAmount aitNotional id
    obtain ⟨rfl, changed⟩ := effective
    cases run : MarketAction.exec d w
        (.own msg (.settleTrade makerOrderId takerOrderId vstkAmount aitNotional id)) with
    | error e => simp [TransitionRun.after_error run] at changed
    | ok next =>
      rw [TransitionRun.after_ok run] at changed ⊢
      obtain ⟨settler, ⟨cid, fee, buyer, seller, settled⟩ | rfl⟩ :=
        InternalMarket.settleTrade_cases run
      · refine ⟨?_, msg, _, _, _, _, rfl, settler, settled.checks, settled.allowed,
          settled.buyerIs ▸ settled.funded, ?_⟩
        · obtain ⟨_, _, _, _, rfl⟩ := settled.effect
          exact ⟨_, List.mem_append_right _ (List.mem_singleton_self _), rfl⟩
        · rw [← settled.company, ← settled.sellerIs]
          exact settled.holds
      · simp [World.emit, Guardrail.trip] at changed
  · exact effective.elim

/-- Where every replayed id is refused by an existing check, an id has an effect at most once. -/
theorem settlement_effective_once {run before between rest : List (MarketAction τ)}
    {first second : MarketAction τ} (split : run = before ++ first :: between ++ second :: rest)
    (refuses : TransitionRun.Meets (MarketAction.exec d) (MarketAction.RefusesReplay d) w run)
    (effective : MarketAction.Effective d settlementId
      (TransitionRun.exec (MarketAction.exec d) w before) first) :
    ¬ MarketAction.Effective d settlementId
      (TransitionRun.exec (MarketAction.exec d) w (before ++ first :: between)) second := by
  subst split
  refine TransitionRun.effective_once (fun s a marks => (effective_cases marks).1)
    (fun s a next => settledBefore_kept) (fun s a marked refuses again => ?_) refuses effective
  obtain ⟨_, msg, _, _, _, _, rfl, passes⟩ := effective_cases again
  exact refuses marked passes

open Devnet in
theorem settlement_effective_once_of_full_fill :
    ¬ MarketAction.Effective Deployment.devnet 7
      (TransitionRun.exec (MarketAction.exec Deployment.devnet) listed
        (founding ++ orders ++ [settle 100 10 7])) (settle 100 10 7) :=
  @settlement_effective_once ERC20 _ Deployment.devnet listed 7
    (founding ++ orders ++ [settle 100 10 7, settle 100 10 7]) _ [] [] _ _ rfl
    ⟨trivial, trivial, trivial, trivial, trivial, fun settled => absurd settled (by decide),
      fun _ passes => absurd passes.checks.makerActive (by decide), trivial⟩
    ⟨rfl, Or.inl fun same => absurd (congrFun same 1) (by decide)⟩

open Devnet in
/-- A settlement of a part of two orders is settled again by the same call. -/
theorem settlement_replayed_after_partial_fill :
    ¬ ∀ (d : Deployment) (w : World ERC20) (settlementId : Bytes32)
      (before between : List (MarketAction ERC20)) (first second : MarketAction ERC20),
      MarketAction.Effective d settlementId (TransitionRun.exec (MarketAction.exec d) w before)
        first →
      ¬ MarketAction.Effective d settlementId
        (TransitionRun.exec (MarketAction.exec d) w (before ++ first :: between)) second := by
  intro never
  refine never Deployment.devnet listed 7 (founding ++ orders) [] (settle 10 1 7) (settle 10 1 7)
    ⟨rfl, Or.inl fun same => ?_⟩ ⟨rfl, Or.inl fun same => ?_⟩
  · exact absurd (congrFun same 1) (by decide)
  · exact absurd (congrFun same 1) (by decide)

end Aide
