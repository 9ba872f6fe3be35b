import Aide.Contracts.MarketRun
import Aide.Engine.Sync

namespace Aide

open Engine

/-- The shadow and the market agree on every balance. -/
structure Agrees (sync : SyncCoordinator) (market : InternalMarket) : Prop where
  ait : ∀ user, sync.ait user = market.aitBalance user
  vstk : ∀ companyId user, sync.vstk (companyId, user) = market.vstkBalance companyId user

namespace InternalMarket
variable {τ : Type} [AitToken τ] {d : Deployment} {msg : Msg} {w next : World τ}
  {makerOrderId takerOrderId vstkAmount aitNotional cid fee : ℕ} {buyer seller : Address}
  {settlementId : Bytes32} {sync : SyncCoordinator}

/-- A shadow with the market's shares still has them after the same trade. -/
theorem Settled.follows_vstk (settled : Settled d w next makerOrderId takerOrderId vstkAmount
    aitNotional settlementId cid fee buyer seller)
    (same : ∀ companyId user, sync.vstk (companyId, user) = w.market.vstkBalance companyId user)
    (companyId : ℕ) (user : Address) :
    (sync.applyFillShadow cid buyer seller vstkAmount aitNotional).vstk (companyId, user) =
      next.market.vstkBalance companyId user := by
  obtain ⟨_, _, _, _, rfl⟩ := settled.effect
  have fits := settled.fits
  rw [SyncCoordinator.vstk_applyFillShadow]
  simp only [Function.update_apply, Prod.mk.injEq, same] at fits ⊢
  by_cases sameCompany : companyId = cid
  · subst sameCompany
    by_cases isBuyer : user = buyer
    · subst isBuyer
      simp only [true_and, and_self, if_true, Function.update_self]
      exact min_eq_left fits
    · simp [isBuyer, Function.update_apply]
  · simp [sameCompany]

/-- The shares of the shadow move as those of the market do. -/
theorem Settled.shadow_vstk (settled : Settled d w next makerOrderId takerOrderId vstkAmount
    aitNotional settlementId cid fee buyer seller) (agrees : Agrees sync w.market)
    (companyId : ℕ) (user : Address) :
    (sync.applyFillShadow cid buyer seller vstkAmount aitNotional).vstk (companyId, user) =
      next.market.vstkBalance companyId user :=
  settled.follows_vstk agrees.vstk companyId user

/-- What the market pays to a seller it pays in tokens, so its balances only lose the notional. -/
theorem Settled.ait (settled : Settled d w next makerOrderId takerOrderId vstkAmount aitNotional
    settlementId cid fee buyer seller) :
    next.market.aitBalance =
      Function.update w.market.aitBalance buyer (w.market.aitBalance buyer - aitNotional) := by
  obtain ⟨_, _, _, _, rfl⟩ := settled.effect
  rfl

/-- After a trade the shadow agrees with the market exactly if the seller's credit, which the market
does not book, saturates away. -/
theorem shadow_agrees_iff {taker maker vstk ait : ℕ} {emitted : List Event} {id : Bytes32}
    (representable : ∀ user, w.market.aitBalance user ≤ uint256Max)
    (agrees : Agrees sync w.market)
    (run : settleTrade d msg makerOrderId takerOrderId vstkAmount aitNotional settlementId w =
      .ok next)
    (logs : next.log = w.log ++ emitted)
    (emits : .tradeSettled cid taker maker buyer seller vstk ait fee id ∈ emitted) :
    Agrees (sync.applyFillShadow cid buyer seller vstk ait) next.market ↔
      seller ≠ buyer ∧ w.market.aitBalance seller = uint256Max := by
  obtain ⟨rfl, rfl, settled⟩ := settled_of_emitted run logs emits
  have positive : 0 < ait := Nat.pos_of_ne_zero settled.checks.aitPositive
  have funded := settled.funded
  have bound := representable seller
  have booked : (sync.applyFillShadow cid buyer seller vstk ait).ait seller =
      saturatingAdd (if seller = buyer then w.market.aitBalance buyer - ait
        else w.market.aitBalance seller) ait := by
    rw [SyncCoordinator.ait_applyFillShadow]
    simp [Function.update_apply, agrees.ait]
  constructor
  · intro agreesNext
    have same := agreesNext.ait seller
    rw [booked, settled.ait, Function.update_apply, saturatingAdd] at same
    split at same
    · rename_i selfTrade
      subst selfTrade
      omega
    · rename_i apart
      exact ⟨apart, by omega⟩
  · rintro ⟨apart, full⟩
    refine ⟨fun user => ?_, settled.shadow_vstk agrees⟩
    by_cases isSeller : user = seller
    · subst isSeller
      rw [booked, settled.ait, if_neg apart, Function.update_of_ne apart, full]
      exact min_eq_right (Nat.le_add_right ..)
    · rw [SyncCoordinator.ait_applyFillShadow, settled.ait, Function.update_of_ne isSeller]
      simp [Function.update_apply, agrees.ait]

end InternalMarket

/-- A shadow that is read from the market. -/
def InternalMarket.mirror (market : InternalMarket) : SyncCoordinator where
  localAit user := some (market.aitBalance user)
  localVstk key := some (market.vstkBalance key.1 key.2)

theorem agrees_mirror (market : InternalMarket) : Agrees market.mirror market :=
  ⟨fun _ => rfl, fun _ _ => rfl⟩

namespace Devnet

/-- Alice offers a hundred shares that bob can pay for. -/
def offered : World ERC20 :=
  TransitionRun.exec (MarketAction.exec Deployment.devnet) listed (founding ++ orders)

/-- The same with an internal balance of alice that no credit can raise. -/
def saturated : World ERC20 :=
  { offered with market := { offered.market with
    aitBalance := Function.update offered.market.aitBalance alice uint256Max } }

def sold (w : World ERC20) : World ERC20 :=
  TransitionRun.after (MarketAction.exec Deployment.devnet) w (settle 100 10 7)

theorem offered_representable (user : Address) : offered.market.aitBalance user ≤ uint256Max := by
  have balance : offered.market.aitBalance = Function.update (fun _ => 0) bob 5000 := rfl
  rw [balance, Function.update_apply]
  split <;> decide

theorem saturated_representable (user : Address) :
    saturated.market.aitBalance user ≤ uint256Max := by
  by_cases rich : user = alice
  · rw [rich]
    exact (show saturated.market.aitBalance alice = uint256Max from rfl).le
  · exact (show saturated.market.aitBalance user = offered.market.aitBalance user from
      Function.update_of_ne rich ..).trans_le (offered_representable user)

theorem saturated_settled : InternalMarket.settleTrade Deployment.devnet { sender := admin } 1 2 100 10
    7 saturated = .ok (sold saturated) := rfl

theorem saturated_emitted : (sold saturated).log =
    saturated.log ++ [.tradeSettled 1 2 1 bob alice 100 10 0 7] := rfl

theorem shadow_agrees_of_saturated_seller :
    Agrees (saturated.market.mirror.applyFillShadow 1 bob alice 100 10) (sold saturated).market :=
  (InternalMarket.shadow_agrees_iff saturated_representable (agrees_mirror _)
    saturated_settled saturated_emitted (List.mem_singleton_self _)).mpr
    ⟨by decide, rfl⟩

/-- Alice is paid in tokens, and the shadow books the payment as an internal balance of hers. -/
theorem shadow_credits_seller :
    ¬ ∀ (d : Deployment) (msg : Msg) (w next : World ERC20) (sync : SyncCoordinator)
      (makerOrderId takerOrderId vstkAmount aitNotional : ℕ) (settlementId : Bytes32)
      (emitted : List Event) (cid taker maker vstk ait fee : ℕ) (buyer seller : Address)
      (id : Bytes32), Agrees sync w.market →
      InternalMarket.settleTrade d msg makerOrderId takerOrderId vstkAmount aitNotional settlementId w =
        .ok next →
      next.log = w.log ++ emitted →
      .tradeSettled cid taker maker buyer seller vstk ait fee id ∈ emitted →
      Agrees (sync.applyFillShadow cid buyer seller vstk ait) next.market := by
  intro always
  have agrees := always Deployment.devnet { sender := admin } offered (sold offered)
    offered.market.mirror 1 2 100 10 7 [.tradeSettled 1 2 1 bob alice 100 10 0 7] 1 2 1 100 10 0 bob
    alice 7 (agrees_mirror _) rfl rfl (List.mem_singleton_self _)
  exact absurd (agrees.ait alice) (by decide)

end Devnet

end Aide
