import Aide.Contracts.OrderLogs
import Aide.Dividends

namespace Aide

open InternalMarket (one pendingDividend Settled)

variable {τ : Type} {d : Deployment} {w next : World τ} {cid taker maker vstk ait fee : ℕ}
  {buyer seller holder : Address} {id : Bytes32}

/-- Taking away from a dividend leaves the quotient only within the remainder. -/
theorem sub_div_eq_iff {a b c : ℕ} (positive : 0 < c) (within : b ≤ a) :
    (a - b) / c = a / c ↔ b ≤ a % c := by
  have split := Nat.div_add_mod a c
  have below := Nat.mod_lt a positive
  rw [Nat.div_eq_iff positive, Nat.mul_comm]
  omega

/-- Adding to a dividend leaves the quotient only within what is missing to the next. -/
theorem add_div_eq_iff {a b c : ℕ} (positive : 0 < c) : (a + b) / c = a / c ↔ a % c + b < c := by
  have split := Nat.div_add_mod a c
  rw [Nat.div_eq_iff positive, Nat.mul_comm]
  omega

/-- What the shares of a holder have earned fits a word and covers the debt of the holder. -/
structure Accrues (w : World τ) (cid : ℕ) (holder : Address) : Prop where
  fits : w.market.vstkBalance cid holder * w.market.accAitPerShare cid ≤ uint256Max
  covered : w.market.rewardDebt cid holder ≤
    w.market.vstkBalance cid holder * w.market.accAitPerShare cid / one

theorem pendingDividend_eq_ok {x : ℕ} : pendingDividend cid holder w = .ok x ↔ Accrues w cid holder ∧
    x = w.market.vstkBalance cid holder * w.market.accAitPerShare cid / one -
      w.market.rewardDebt cid holder := by
  simp only [pendingDividend, bind_eq_ok, checkedMul_eq_ok, checkedSub_eq_ok]
  constructor
  · rintro ⟨_, ⟨fits, rfl⟩, covered, same⟩
    exact ⟨⟨fits, covered⟩, same⟩
  · rintro ⟨⟨fits, covered⟩, same⟩
    exact ⟨_, ⟨fits, rfl⟩, covered, same⟩

/-- What is pending for the parties of a trade stands as before, and so does that of every other holder. -/
structure Untouched (w next : World τ) (cid : ℕ) (buyer seller : Address) : Prop where
  ofSeller : ∃ x, pendingDividend cid seller w = .ok x ∧ pendingDividend cid seller next = .ok x
  ofBuyer : ∃ x, pendingDividend cid buyer w = .ok x ∧ pendingDividend cid buyer next = .ok x
  ofOthers : ∀ company other, company ≠ cid ∨ other ≠ seller ∧ other ≠ buyer →
    pendingDividend company other next = pendingDividend company other w

/-- The dividends of both parties can be computed, and the shares that are traded have earned no more than
what the seller has left over from its last whole unit, and less than what the buyer lacks to its next. -/
structure WithinUnit (w : World τ) (cid vstk : ℕ) (buyer seller : Address) : Prop where
  ofSeller : Accrues w cid seller
  ofBuyer : Accrues w cid buyer
  sold : seller ≠ buyer → vstk * w.market.accAitPerShare cid ≤
    w.market.vstkBalance cid seller * w.market.accAitPerShare cid % one
  bought : seller ≠ buyer →
    w.market.vstkBalance cid buyer * w.market.accAitPerShare cid % one +
      vstk * w.market.accAitPerShare cid < one ∧
    (w.market.vstkBalance cid buyer + vstk) * w.market.accAitPerShare cid ≤ uint256Max

/-- Where debt and reward per share stay, a success stays one with the same result if and only if the shares
have earned as much. -/
theorem pending_kept_iff (acc : next.market.accAitPerShare cid = w.market.accAitPerShare cid)
    (debt : next.market.rewardDebt cid holder = w.market.rewardDebt cid holder) :
    (∃ x, pendingDividend cid holder w = .ok x ∧ pendingDividend cid holder next = .ok x) ↔
      Accrues w cid holder ∧
      next.market.vstkBalance cid holder * w.market.accAitPerShare cid ≤ uint256Max ∧
      next.market.vstkBalance cid holder * w.market.accAitPerShare cid / one =
        w.market.vstkBalance cid holder * w.market.accAitPerShare cid / one := by
  simp only [pendingDividend_eq_ok]
  constructor
  · rintro ⟨x, ⟨before, rfl⟩, ⟨fits, covered⟩, same⟩
    rw [acc] at fits covered same
    rw [debt] at covered same
    have coveredBefore := before.covered
    exact ⟨before, fits, by omega⟩
  · rintro ⟨before, fits, same⟩
    refine ⟨_, ⟨before, rfl⟩, ⟨?_, ?_⟩, ?_⟩
    · rw [acc]
      exact fits
    · rw [acc, debt, same]
      exact before.covered
    · rw [acc, debt, same]

section Settlement
variable [AitToken τ] (settled : Settled d w next maker taker vstk ait id cid fee buyer seller)
include settled

/-- A settlement writes neither the reward per share nor the debts. -/
theorem settled_debts : next.market.accAitPerShare = w.market.accAitPerShare ∧
    next.market.rewardDebt = w.market.rewardDebt := by
  obtain ⟨_, _, _, _, rfl⟩ := settled.effect
  exact ⟨rfl, rfl⟩

/-- The shares after a settlement. -/
theorem settled_shares (company : ℕ) (holder : Address) : next.market.vstkBalance company holder =
    if company ≠ cid ∨ seller = buyer then w.market.vstkBalance company holder
    else if holder = seller then w.market.vstkBalance company holder - vstk
    else if holder = buyer then w.market.vstkBalance company holder + vstk
    else w.market.vstkBalance company holder := by
  have holds := settled.holds
  obtain ⟨_, _, _, _, rfl⟩ := settled.effect
  by_cases same : company = cid
  · subst same
    by_cases apart : seller = buyer
    · subst apart
      by_cases party : holder = seller
      · subst party
        simp only [Function.update_self]
        simp [Nat.sub_add_cancel holds]
      · simp [party]
    · by_cases sold : holder = seller
      · subst sold
        simp [apart]
      · by_cases bought : holder = buyer
        · subst bought
          simp [apart, sold]
        · simp [apart, sold, bought]
  · simp [same]

/-- Whoever is no party of a settlement has as much pending as before. -/
theorem settled_others {company : ℕ} {other : Address}
    (outside : company ≠ cid ∨ other ≠ seller ∧ other ≠ buyer) :
    pendingDividend company other next = pendingDividend company other w := by
  obtain ⟨acc, debt⟩ := settled_debts settled
  have same : next.market.vstkBalance company other = w.market.vstkBalance company other := by
    rw [settled_shares settled]
    by_cases elsewhere : company = cid
    · obtain ⟨notSold, notBought⟩ := outside.resolve_left (not_not.mpr elsewhere)
      simp [notSold, notBought]
    · simp [elsewhere]
  simp only [pendingDividend, same, acc, debt]

theorem settled_kept_iff (holder : Address) :
    (∃ x, pendingDividend cid holder w = .ok x ∧ pendingDividend cid holder next = .ok x) ↔
      Accrues w cid holder ∧
      next.market.vstkBalance cid holder * w.market.accAitPerShare cid ≤ uint256Max ∧
      next.market.vstkBalance cid holder * w.market.accAitPerShare cid / one =
        w.market.vstkBalance cid holder * w.market.accAitPerShare cid / one := by
  obtain ⟨acc, debt⟩ := settled_debts settled
  exact pending_kept_iff (congrFun acc cid) (congrFun (congrFun debt cid) holder)

/-- A trade of an account with itself moves no shares. -/
theorem kept_of_self (self : seller = buyer) :
    (∃ x, pendingDividend cid seller w = .ok x ∧ pendingDividend cid seller next = .ok x) ↔
      Accrues w cid seller := by
  have held : next.market.vstkBalance cid seller = w.market.vstkBalance cid seller := by
    simp [settled_shares settled, self]
  rw [settled_kept_iff settled, held]
  exact ⟨And.left, fun accrues => ⟨accrues, accrues.fits, rfl⟩⟩

/-- The seller keeps what is pending if and only if its remainder covers what is sold. -/
theorem seller_kept_iff (apart : seller ≠ buyer) :
    (∃ x, pendingDividend cid seller w = .ok x ∧ pendingDividend cid seller next = .ok x) ↔
      Accrues w cid seller ∧ vstk * w.market.accAitPerShare cid ≤
        w.market.vstkBalance cid seller * w.market.accAitPerShare cid % one := by
  have sold : next.market.vstkBalance cid seller = w.market.vstkBalance cid seller - vstk := by
    simp [settled_shares settled, apart]
  have less := Nat.mul_le_mul_right (w.market.accAitPerShare cid) settled.holds
  have fewer := Nat.sub_le (w.market.vstkBalance cid seller * w.market.accAitPerShare cid)
    (vstk * w.market.accAitPerShare cid)
  rw [settled_kept_iff settled, sold, Nat.sub_mul, sub_div_eq_iff (by decide) less]
  constructor
  · rintro ⟨accrues, _, remainder⟩
    exact ⟨accrues, remainder⟩
  · rintro ⟨accrues, remainder⟩
    exact ⟨accrues, fewer.trans accrues.fits, remainder⟩

/-- The buyer keeps what is pending if and only if what is bought does not fill its unit. -/
theorem buyer_kept_iff (apart : seller ≠ buyer) :
    (∃ x, pendingDividend cid buyer w = .ok x ∧ pendingDividend cid buyer next = .ok x) ↔
      Accrues w cid buyer ∧
      (w.market.vstkBalance cid buyer + vstk) * w.market.accAitPerShare cid ≤ uint256Max ∧
      w.market.vstkBalance cid buyer * w.market.accAitPerShare cid % one +
        vstk * w.market.accAitPerShare cid < one := by
  have bought : next.market.vstkBalance cid buyer = w.market.vstkBalance cid buyer + vstk := by
    simp [settled_shares settled, apart, apart.symm]
  rw [settled_kept_iff settled, bought, Nat.add_mul, add_div_eq_iff (by decide)]

/-- A trade leaves what is pending if and only if it stays within a unit. -/
theorem untouched_iff : Untouched w next cid buyer seller ↔ WithinUnit w cid vstk buyer seller := by
  have others : ∀ company other, company ≠ cid ∨ other ≠ seller ∧ other ≠ buyer →
      pendingDividend company other next = pendingDividend company other w :=
    fun _ _ outside => settled_others settled outside
  by_cases self : seller = buyer
  · have kept := kept_of_self settled self
    subst self
    constructor
    · rintro ⟨ofSeller, _, _⟩
      have accrues := kept.mp ofSeller
      exact ⟨accrues, accrues, fun apart => absurd rfl apart, fun apart => absurd rfl apart⟩
    · rintro ⟨accrues, _, _, _⟩
      exact ⟨kept.mpr accrues, kept.mpr accrues, others⟩
  · have keptSeller := seller_kept_iff settled self
    have keptBuyer := buyer_kept_iff settled self
    constructor
    · rintro ⟨ofSeller, ofBuyer, _⟩
      obtain ⟨accruesSeller, remainder⟩ := keptSeller.mp ofSeller
      obtain ⟨accruesBuyer, fits, missing⟩ := keptBuyer.mp ofBuyer
      exact ⟨accruesSeller, accruesBuyer, fun _ => remainder, fun _ => ⟨missing, fits⟩⟩
    · rintro ⟨accruesSeller, accruesBuyer, sold, bought⟩
      obtain ⟨missing, fits⟩ := bought self
      exact ⟨keptSeller.mpr ⟨accruesSeller, sold self⟩, keptBuyer.mpr ⟨accruesBuyer, fits, missing⟩, others⟩

end Settlement

/-- A log of a trade comes from a settlement. -/
theorem settled_of_traded [AitToken τ] {action : MarketAction τ} (run : action.exec d w = .ok next)
    (traded : .tradeSettled cid taker maker buyer seller vstk ait fee id ∈ next.log.drop w.log.length) :
    Settled d w next maker taker vstk ait id cid fee buyer seller := by
  cases action with
  | elsewhere other =>
    cases run
    rw [List.drop_length] at traded
    cases traded
  | own msg call =>
    rcases InternalMarket.exec_orders run with ⟨_, _, _, _, _, _, place⟩ | ⟨_, _, cancel⟩ |
      ⟨_, _, _, _, _, _, _, _, _, _, settled⟩ | quiet
    · obtain ⟨_, _, rfl⟩ := InternalMarket.placeOrder_effect place
      rw [List.drop_left] at traded
      cases List.mem_singleton.mp traded
    · obtain ⟨_, rfl⟩ := InternalMarket.cancelOrder_effect cancel
      rw [List.drop_left] at traded
      cases List.mem_singleton.mp traded
    · obtain ⟨taxed, token, _, _, effect⟩ := settled.effect
      have logged := congrArg World.log effect
      rw [List.append_assoc] at logged
      rw [logged, List.drop_left, List.mem_append, List.mem_singleton] at traded
      rcases traded with tax | trade
      · cases Treasury.mem_taxLog tax
      · cases trade
        exact settled
    · obtain ⟨emitted, logs, silent⟩ := quiet.log
      rw [logs, List.drop_left] at traded
      cases silent _ traded

/-- Every trade that the action settles leaves what is pending as it was. -/
def LeavesDividends [AitToken τ] (d : Deployment) (w : World τ) (action : MarketAction τ) : Prop :=
  ∀ next cid taker maker buyer seller vstk ait fee id, action.exec d w = .ok next →
    .tradeSettled cid taker maker buyer seller vstk ait fee id ∈ next.log.drop w.log.length →
    Untouched w next cid buyer seller

/-- Every trade that the action settles stays within a unit. -/
def TradesWithinUnit [AitToken τ] (d : Deployment) (w : World τ) (action : MarketAction τ) : Prop :=
  ∀ next cid taker maker buyer seller vstk ait fee id, action.exec d w = .ok next →
    .tradeSettled cid taker maker buyer seller vstk ait fee id ∈ next.log.drop w.log.length →
    WithinUnit w cid vstk buyer seller

/-- The trades of a run all leave the dividends, if and only if they all stay within a unit. -/
theorem trades_leave_dividends_iff [AitToken τ] {run : List (MarketAction τ)} :
    TransitionRun.Meets (MarketAction.exec d) (LeavesDividends d) w run ↔
      TransitionRun.Meets (MarketAction.exec d) (TradesWithinUnit d) w run := by
  have same : ∀ (w : World τ) action, LeavesDividends d w action ↔ TradesWithinUnit d w action := by
    intro w action
    constructor
    · intro leaves next cid taker maker buyer seller vstk ait fee id run traded
      exact (untouched_iff (settled_of_traded run traded)).mp
        (leaves next cid taker maker buyer seller vstk ait fee id run traded)
    · intro within next cid taker maker buyer seller vstk ait fee id run traded
      exact (untouched_iff (settled_of_traded run traded)).mpr
        (within next cid taker maker buyer seller vstk ait fee id run traded)
  exact TransitionRun.meets_congr (I := fun _ _ => True) (fun w action _ _ => same w action)
    (fun _ _ _ _ _ => trivial) trivial

open Devnet in
/-- Alice has a profit of a thousand pending, and nothing once she has sold her shares. -/
theorem sale_takes_pending_dividend :
    ¬ ∀ (d : Deployment) (w : World ERC20) (admin : Address) (run : List (MarketAction ERC20)),
      w.market = InternalMarket.constructed admin → w.log = [] →
      TransitionRun.Meets (MarketAction.exec d) (LeavesDividends d) w run := by
  intro always
  have meets := always Deployment.devnet listed admin (founding ++ [profit] ++ orders ++ [settle 100 10 0]) rfl rfl
  have last := (TransitionRun.meets_append.mp meets).2.1
  obtain ⟨x, before, after⟩ := (last _ 1 2 1 bob alice 100 10 0 0 rfl (by decide +kernel)).ofSeller
  have pending : pendingDividend 1 alice (TransitionRun.exec (MarketAction.exec Deployment.devnet) listed
      (founding ++ [profit] ++ orders)) = .ok 1000 := rfl
  cases before.symm.trans pending
  cases Eq.trans (c := Except.ok 0) after.symm rfl

end Aide
