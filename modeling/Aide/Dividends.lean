import Aide.Contracts.MarketRun
import Aide.Foundation.RewardPerShare

namespace Aide

/-- The company and the amount that an event pays out as dividend. -/
def Event.dividend : Event → ℕ × ℕ
  | .dividendClaimed companyId _ _ amount => (companyId, amount)
  | _ => (0, 0)

/-- The company and the net profit that an event notifies. -/
def Event.profit : Event → ℕ × ℕ
  | .profitDeposited companyId _ _ _ rewardBase => (companyId, rewardBase)
  | _ => (0, 0)

/-- One for each issue of shares of a company. -/
def Event.issue : Event → ℕ × ℕ
  | .sharesIssued companyId _ _ _ => (companyId, 1)
  | _ => (0, 0)

/-- The part of an entry that belongs to one company. -/
def share (companyId : ℕ) (entry : ℕ × ℕ) : ℕ := if entry.1 = companyId then entry.2 else 0

/-- What the logs book for one company, and for all companies together. -/
def bookedFor (entry : Event → ℕ × ℕ) (companyId : ℕ) (log : List Event) : ℕ :=
  (log.map fun e => share companyId (entry e)).sum

def booked (entry : Event → ℕ × ℕ) (log : List Event) : ℕ := (log.map fun e => (entry e).2).sum

section Booked
variable {entry : Event → ℕ × ℕ} {companyId : ℕ} {log more : List Event} {e : Event}

@[simp] theorem share_mk {owner amount : ℕ} :
    share companyId (owner, amount) = if owner = companyId then amount else 0 := rfl

@[simp] theorem bookedFor_nil : bookedFor entry companyId [] = 0 := rfl

@[simp] theorem booked_nil : booked entry [] = 0 := rfl

@[simp] theorem bookedFor_append :
    bookedFor entry companyId (log ++ more) =
      bookedFor entry companyId log + bookedFor entry companyId more := by
  simp [bookedFor]

@[simp] theorem booked_append : booked entry (log ++ more) = booked entry log + booked entry more := by
  simp [booked]

@[simp] theorem bookedFor_cons :
    bookedFor entry companyId (e :: log) =
      share companyId (entry e) + bookedFor entry companyId log := rfl

@[simp] theorem booked_cons : booked entry (e :: log) = (entry e).2 + booked entry log := rfl

/-- The total is the sum over any set that contains all companies of the log. -/
theorem booked_eq_sum {companies : Finset ℕ} (all : ∀ e ∈ log, (entry e).1 ∈ companies) :
    booked entry log = ∑ companyId ∈ companies, bookedFor entry companyId log := by
  induction log with
  | nil => simp
  | cons e log ih =>
    have rest := ih fun e member => all e (List.mem_cons_of_mem _ member)
    have here := all e (List.mem_cons_self ..)
    simp [Finset.sum_add_distrib, rest, share, here]

theorem booked_le {first second : Event → ℕ × ℕ}
    (each : ∀ companyId,
      bookedFor entry companyId log ≤ bookedFor first companyId log + bookedFor second companyId log) :
    booked entry log ≤ booked first log + booked second log := by
  let companies := ((log.map fun e => (entry e).1) ++ (log.map fun e => (first e).1) ++
    log.map fun e => (second e).1).toFinset
  have known : ∀ e ∈ log, (entry e).1 ∈ companies ∧ (first e).1 ∈ companies ∧
      (second e).1 ∈ companies := fun e member => by
    simp only [companies, List.mem_toFinset, List.mem_append, List.mem_map]
    exact ⟨Or.inl (Or.inl ⟨e, member, rfl⟩), Or.inl (Or.inr ⟨e, member, rfl⟩),
      Or.inr ⟨e, member, rfl⟩⟩
  rw [booked_eq_sum fun e member => (known e member).1,
    booked_eq_sum fun e member => (known e member).2.1,
    booked_eq_sum fun e member => (known e member).2.2, ← Finset.sum_add_distrib]
  exact Finset.sum_le_sum fun companyId _ => each companyId

end Booked

/-- The dividends of one company as a pool of rewards per share. -/
def dividendPool (companyId : ℕ) {τ : Type} (w : World τ) : RewardPerShare Address where
  shares := w.market.vstkBalance companyId
  total := w.market.totalVstk companyId
  perShare := w.market.accAitPerShare companyId
  debt := w.market.rewardDebt companyId
  paid := bookedFor Event.dividend companyId w.log
  notified := bookedFor Event.profit companyId w.log
  issues := bookedFor Event.issue companyId w.log

open InternalMarket (one)

variable {d : Deployment} {msg : Msg} {w next : World ERC20} {companyId : ℕ}

/-- Events that book nothing. -/
def Silent (events : List Event) : Prop :=
  ∀ e ∈ events, e.dividend.2 = 0 ∧ e.profit.2 = 0 ∧ e.issue.2 = 0

theorem bookedFor_eq_zero {entry : Event → ℕ × ℕ} {events : List Event}
    (none : ∀ e ∈ events, (entry e).2 = 0) : bookedFor entry companyId events = 0 := by
  simp only [bookedFor, List.sum_eq_zero_iff, List.mem_map]
  rintro amount ⟨e, member, rfl⟩
  simp [share, none e member]

theorem Silent.bookedFor {events : List Event} (silent : Silent events) (companyId : ℕ) :
    bookedFor Event.dividend companyId events = 0 ∧ bookedFor Event.profit companyId events = 0 ∧
      bookedFor Event.issue companyId events = 0 :=
  ⟨bookedFor_eq_zero fun e member => (silent e member).1,
    bookedFor_eq_zero fun e member => (silent e member).2.1,
    bookedFor_eq_zero fun e member => (silent e member).2.2⟩

theorem booked_eq_zero {entry : Event → ℕ × ℕ} {events : List Event}
    (none : ∀ e ∈ events, (entry e).2 = 0) : booked entry events = 0 := by
  simp only [booked, List.sum_eq_zero_iff, List.mem_map]
  rintro amount ⟨e, member, rfl⟩
  exact none e member

theorem Silent.booked {events : List Event} (silent : Silent events) :
    booked Event.dividend events = 0 ∧ booked Event.profit events = 0 :=
  ⟨booked_eq_zero fun e member => (silent e member).1,
    booked_eq_zero fun e member => (silent e member).2.1⟩

theorem Silent.singleton {e : Event} (dividend : e.dividend.2 = 0) (profit : e.profit.2 = 0)
    (issue : e.issue.2 = 0) : Silent [e] := by
  intro other member
  cases List.mem_singleton.mp member
  exact ⟨dividend, profit, issue⟩

theorem taxLog_silent (sender payer : Address) (taxableBase fee : ℕ) :
    Silent (Treasury.taxLog sender payer taxableBase fee) := by
  intro e member
  cases Treasury.mem_taxLog member
  exact ⟨rfl, rfl, rfl⟩

theorem tripEvents_silent (reason : CircuitReason) (amount : ℕ) (w : World ERC20) :
    Silent (Guardrail.tripEvents reason amount w) := by
  intro e member
  cases Guardrail.mem_tripEvents member
  exact ⟨rfl, rfl, rfl⟩

/-- Every pool accounts for what it has paid, and the tokens of the market cover the internal
balances once dividends and profits are set off. -/
structure DividendsCovered (d : Deployment) (w : World ERC20) : Prop where
  pools : ∀ companyId, (dividendPool companyId w).Accounted one
  deposits : ∑ user, w.market.aitBalance user + booked Event.profit w.log ≤
    w.balanceOf d.internalMarket + booked Event.dividend w.log

/-- A step that leaves shares, debts and internal balances alone, books nothing and takes no
tokens. -/
theorem DividendsCovered.of_frame {events : List Event} (covered : DividendsCovered d w)
    (vstkBalance : next.market.vstkBalance = w.market.vstkBalance)
    (totalVstk : next.market.totalVstk = w.market.totalVstk)
    (accAitPerShare : next.market.accAitPerShare = w.market.accAitPerShare)
    (rewardDebt : next.market.rewardDebt = w.market.rewardDebt)
    (aitBalance : next.market.aitBalance = w.market.aitBalance)
    (balance : w.balanceOf d.internalMarket ≤ next.balanceOf d.internalMarket)
    (log : next.log = w.log ++ events) (silent : Silent events) : DividendsCovered d next where
  pools companyId := by
    have same : dividendPool companyId next = dividendPool companyId w := by
      obtain ⟨noDividend, noProfit, noIssue⟩ := silent.bookedFor companyId
      simp [dividendPool, vstkBalance, totalVstk, accAitPerShare, rewardDebt, log, noDividend,
        noProfit, noIssue]
    rw [same]
    exact covered.pools companyId
  deposits := by
    have deposits := covered.deposits
    obtain ⟨noDividend, noProfit⟩ := silent.booked
    rw [aitBalance, log, booked_append, booked_append, noProfit, noDividend]
    omega

/-- A call that the breaker refuses. -/
theorem DividendsCovered.blocked {reason : CircuitReason} {amount : ℕ} {event : Event}
    (covered : DividendsCovered d w) (silent : Silent [event]) :
    DividendsCovered d
      ((Guardrail.trip w (Guardrail.tripEvents reason amount w)).emit event) := by
  have log : ((Guardrail.trip w (Guardrail.tripEvents reason amount w)).emit event).log =
      w.log ++ (Guardrail.tripEvents reason amount w ++ [event]) := by
    simp [World.emit, Guardrail.trip]
  refine covered.of_frame rfl rfl rfl rfl rfl le_rfl log fun e member => ?_
  rcases List.mem_append.mp member with tripped | last
  · exact tripEvents_silent _ _ _ e tripped
  · exact silent e last

theorem issueShares_pool {issuer : ℕ} {recipient : Address} {amount : ℕ}
    (run : InternalMarket.issueShares msg issuer recipient amount w = .ok next) :
    dividendPool companyId next =
      if companyId = issuer then (dividendPool companyId w).issue one recipient amount
      else dividendPool companyId w := by
  cases InternalMarket.issueShares_effect run
  by_cases same : companyId = issuer
  · subst same
    simp [dividendPool, RewardPerShare.issue, Event.dividend, Event.profit, Event.issue]
  · simp [dividendPool, same, Ne.symm same, Event.dividend, Event.profit, Event.issue]

theorem issueShares_covered {issuer : ℕ} {recipient : Address} {amount : ℕ}
    (covered : DividendsCovered d w)
    (run : InternalMarket.issueShares msg issuer recipient amount w = .ok next) :
    DividendsCovered d next where
  pools companyId := by
    rw [issueShares_pool run]
    split
    · exact (covered.pools companyId).issue recipient amount (by decide)
    · exact covered.pools companyId
  deposits := by
    cases InternalMarket.issueShares_effect run
    have deposits := covered.deposits
    simpa [Event.dividend, Event.profit, World.balanceOf] using deposits

theorem depositAit_dividends {amount : ℕ} (outside : d.Outside msg.sender)
    (covered : DividendsCovered d w) (run : InternalMarket.depositAit d msg amount w = .ok next) :
    DividendsCovered d next := by
  obtain ⟨token, pull, rfl⟩ := InternalMarket.depositAit_effect run
  have received := (ERC20.transferFrom_moved pull).received outside.ne_internalMarket.symm
  constructor
  · intro companyId
    have pool := covered.pools companyId
    simpa [dividendPool, Event.dividend, Event.profit, Event.issue] using pool
  · have credited := Ledger.sum_update w.market.aitBalance msg.sender
      (w.market.aitBalance msg.sender + amount)
    have deposits := covered.deposits
    simp only [World.balanceOf, AitToken.balanceOf, booked_append, booked_cons, booked_nil,
      Event.dividend, Event.profit] at deposits ⊢
    omega

theorem withdrawAit_dividends {amount : ℕ} (outside : d.Outside msg.sender)
    (covered : DividendsCovered d w) (run : InternalMarket.withdrawAit d msg amount w = .ok next) :
    DividendsCovered d next := by
  obtain ⟨owned, token, push, rfl⟩ := InternalMarket.withdrawAit_effect run
  have paid := (ERC20.transfer_moved push).1.paid outside.ne_internalMarket.symm
  constructor
  · intro companyId
    have pool := covered.pools companyId
    simpa [dividendPool, Event.dividend, Event.profit, Event.issue] using pool
  · have debited := Ledger.sum_update w.market.aitBalance msg.sender
      (w.market.aitBalance msg.sender - amount)
    have enough := (ERC20.transfer_moved push).1.covered
    have deposits := covered.deposits
    simp only [World.balanceOf, AitToken.balanceOf, booked_append, booked_cons, booked_nil,
      Event.dividend, Event.profit] at deposits ⊢
    omega

section Settlement
variable {makerOrderId takerOrderId vstkAmount aitNotional : ℕ} {settlementId : Bytes32}
  {cid fee : ℕ} {buyer seller : Address}

theorem Settled.pool (settled : InternalMarket.Settled d w next makerOrderId takerOrderId vstkAmount
      aitNotional settlementId cid fee buyer seller) :
    dividendPool companyId next =
      if companyId = cid then (dividendPool companyId w).move seller buyer vstkAmount
      else dividendPool companyId w := by
  obtain ⟨taxed, token, _, _, rfl⟩ := settled.effect
  have silent := taxLog_silent d.internalMarket d.internalMarket aitNotional fee
  obtain ⟨noDividend, noProfit, noIssue⟩ := silent.bookedFor companyId
  by_cases same : companyId = cid
  · subst same
    simp [dividendPool, RewardPerShare.move, Event.dividend, Event.profit, Event.issue, noDividend,
      noProfit, noIssue]
  · simp [dividendPool, same, Event.dividend, Event.profit, Event.issue, noDividend, noProfit,
      noIssue]

/-- A settlement takes the notional from the buyer's balance and pays it out, in two parts. -/
theorem Settled.deposits (covered : DividendsCovered d w)
    (settled : InternalMarket.Settled d w next makerOrderId takerOrderId vstkAmount
      aitNotional settlementId cid fee buyer seller) :
    ∑ user, next.market.aitBalance user + booked Event.profit next.log ≤
      next.balanceOf d.internalMarket + booked Event.dividend next.log := by
  obtain ⟨taxed, token, collected, pay, rfl⟩ := settled.effect
  have afterTax := collected.moved.sub_le d.internalMarket
  have afterPay := (ERC20.transfer_moved pay).1.sub_le d.internalMarket
  have silent := taxLog_silent d.internalMarket d.internalMarket aitNotional fee
  obtain ⟨noDividend, noProfit⟩ := silent.booked
  have debited := Ledger.sum_update w.market.aitBalance buyer
    (w.market.aitBalance buyer - aitNotional)
  have funded := settled.funded
  have feeLe := settled.feeLe
  have deposits := covered.deposits
  simp only [World.balanceOf, AitToken.balanceOf, booked_append, booked_cons, booked_nil,
    Event.dividend, Event.profit, noDividend, noProfit] at deposits ⊢
  omega

/-- The seller of a trade keeps enough shares to have earned its debt. -/
def KeepsDebt (w : World ERC20) (makerOrderId takerOrderId vstkAmount : ℕ) : Prop :=
  let makerOrder := w.market.orders makerOrderId
  let takerOrder := w.market.orders takerOrderId
  let cid := makerOrder.companyId
  let seller := InternalMarket.party .sell makerOrder takerOrder
  InternalMarket.party .buy makerOrder takerOrder ≠ seller →
    w.market.rewardDebt cid seller ≤
      (w.market.vstkBalance cid seller - vstkAmount) * w.market.accAitPerShare cid / one

instance : Decidable (KeepsDebt w makerOrderId takerOrderId vstkAmount) :=
  inferInstanceAs (Decidable (_ → _))

theorem settleTrade_dividends (covered : DividendsCovered d w)
    (keeps : KeepsDebt w makerOrderId takerOrderId vstkAmount)
    (run : InternalMarket.settleTrade d msg makerOrderId takerOrderId vstkAmount aitNotional
      settlementId w = .ok next) : DividendsCovered d next := by
  obtain ⟨_, ⟨cid, fee, buyer, seller, settled⟩ | rfl⟩ := InternalMarket.settleTrade_cases run
  · refine ⟨fun companyId => ?_, Settled.deposits covered settled⟩
    rw [Settled.pool settled]
    split
    · rename_i same
      refine (covered.pools companyId).move (by rw [same]; exact settled.holds) fun apart => ?_
      rw [same, settled.company, settled.sellerIs]
      rw [settled.buyerIs, settled.sellerIs] at apart
      exact (Nat.le_div_iff_mul_le (by decide)).mp (keeps apart)
    · exact covered.pools companyId
  · exact covered.blocked (.singleton rfl rfl rfl)

end Settlement

theorem depositProfit_dividends {company grossAmount : ℕ} (outside : d.Outside msg.sender)
    (covered : DividendsCovered d w)
    (run : InternalMarket.depositProfit d msg company grossAmount w = .ok next) :
    DividendsCovered d next := by
  obtain ⟨_, ⟨fee, taxed, token, _, feeLe, collected, pull, rfl⟩ | rfl⟩ :=
    InternalMarket.depositProfit_cases run
  · have afterTax := collected.moved.le_of_ne outside.ne_internalMarket.symm
    have received := (ERC20.transferFrom_moved pull).received outside.ne_internalMarket.symm
    have silent := taxLog_silent d.internalMarket msg.sender grossAmount fee
    constructor
    · intro companyId
      have pool := covered.pools companyId
      obtain ⟨noDividend, noProfit, noIssue⟩ := silent.bookedFor companyId
      by_cases same : companyId = company
      · subst same
        have notified := pool.notify (grossAmount - fee)
        simpa [dividendPool, RewardPerShare.notify, Event.dividend, Event.profit, Event.issue,
          noDividend, noProfit, noIssue] using notified
      · simpa [dividendPool, same, Ne.symm same, Event.dividend, Event.profit, Event.issue,
          noDividend, noProfit, noIssue] using pool
    · obtain ⟨noDividend, noProfit⟩ := silent.booked
      have deposits := covered.deposits
      simp only [World.balanceOf, AitToken.balanceOf, booked_append, booked_cons, booked_nil,
        Event.dividend, Event.profit, noDividend, noProfit] at deposits ⊢
      omega
  · exact covered.blocked (.singleton rfl rfl rfl)

theorem claimDividend_dividends {company : ℕ} (covered : DividendsCovered d w)
    (run : InternalMarket.claimDividend d msg company w = .ok next) : DividendsCovered d next := by
  obtain rfl | ⟨pending, recipient, token, _, earned, pay, rfl⟩ :=
    InternalMarket.claimDividend_cases run
  · exact covered
  · have paid := (ERC20.transfer_moved pay).1.sub_le d.internalMarket
    constructor
    · intro companyId
      have pool := covered.pools companyId
      by_cases same : companyId = company
      · subst same
        have within : (w.market.rewardDebt companyId msg.sender + pending) * one ≤
            w.market.vstkBalance companyId msg.sender * w.market.accAitPerShare companyId :=
          earned ▸ Nat.div_mul_le_self ..
        simpa [dividendPool, RewardPerShare.pay, Event.dividend, Event.profit, Event.issue] using
          pool.pay within
      · simpa [dividendPool, same, Ne.symm same, Event.dividend, Event.profit, Event.issue] using
          pool
    · have deposits := covered.deposits
      simp only [World.balanceOf, AitToken.balanceOf, booked_append, booked_cons, booked_nil,
        Event.dividend, Event.profit] at deposits ⊢
      omega

namespace MarketAction

/-- Callers are accounts outside the deployment, and what happens elsewhere takes no tokens from
the market. -/
def Admissible (d : Deployment) (w : World ERC20) : MarketAction ERC20 → Prop
  | .own msg _ => d.Outside msg.sender
  | .elsewhere other => w.balanceOf d.internalMarket ≤ other.balanceOf d.internalMarket

/-- No trade of the run leaves its seller with more debt than the remaining shares have earned. -/
def KeepsDebts (w : World ERC20) : MarketAction ERC20 → Prop
  | .own _ (.settleTrade makerOrderId takerOrderId vstkAmount _ _) =>
    KeepsDebt w makerOrderId takerOrderId vstkAmount
  | _ => True

instance (w : World ERC20) : ∀ action, Decidable (Admissible d w action)
  | .own msg _ => inferInstanceAs (Decidable (d.Outside msg.sender))
  | .elsewhere _ => inferInstanceAs (Decidable (_ ≤ _))

instance (w : World ERC20) : ∀ action, Decidable (KeepsDebts w action)
  | .own _ (.settleTrade makerOrderId takerOrderId vstkAmount _ _) =>
    inferInstanceAs (Decidable (KeepsDebt w makerOrderId takerOrderId vstkAmount))
  | .own _ (.registerCompany ..) | .own _ (.issueShares ..) | .own _ (.depositAit ..)
  | .own _ (.withdrawAit ..) | .own _ (.placeOrder ..) | .own _ (.cancelOrder ..)
  | .own _ (.depositProfit ..) | .own _ (.setDividendPayoutVault ..) | .own _ (.claimDividend ..)
  | .own _ (.access ..) | .elsewhere _ => isTrue trivial

end MarketAction

theorem marketAction_dividends {action : MarketAction ERC20} (admissible : action.Admissible d w)
    (keeps : action.KeepsDebts w) (covered : DividendsCovered d w)
    (run : MarketAction.exec d w action = .ok next) : DividendsCovered d next := by
  cases action with
  | own msg call =>
    cases call with
    | registerCompany vault =>
      cases InternalMarket.registerCompany_effect run
      exact covered.of_frame rfl rfl rfl rfl rfl le_rfl rfl (.singleton rfl rfl rfl)
    | issueShares company recipient amount => exact issueShares_covered covered run
    | depositAit amount => exact depositAit_dividends admissible covered run
    | withdrawAit amount => exact withdrawAit_dividends admissible covered run
    | placeOrder company side priceRay amount engineHint =>
      obtain ⟨_, _, rfl⟩ := InternalMarket.placeOrder_effect run
      exact covered.of_frame rfl rfl rfl rfl rfl le_rfl rfl (.singleton rfl rfl rfl)
    | cancelOrder orderId =>
      obtain ⟨_, rfl⟩ := InternalMarket.cancelOrder_effect run
      exact covered.of_frame rfl rfl rfl rfl rfl le_rfl rfl (.singleton rfl rfl rfl)
    | settleTrade makerOrderId takerOrderId vstkAmount aitNotional settlementId =>
      exact settleTrade_dividends covered keeps run
    | depositProfit company grossAmount => exact depositProfit_dividends admissible covered run
    | setDividendPayoutVault company vault =>
      cases InternalMarket.setDividendPayoutVault_effect run
      exact covered.of_frame rfl rfl rfl rfl rfl le_rfl rfl (.singleton rfl rfl rfl)
    | claimDividend company => exact claimDividend_dividends covered run
    | access call =>
      simp only [MarketAction.exec, InternalMarket.exec, bind_eq_ok, pure_eq_ok] at run
      obtain ⟨roles, _, rfl⟩ := run
      exact covered.of_frame rfl rfl rfl rfl rfl le_rfl (List.append_nil _).symm
        (fun e member => nomatch member)
  | elsewhere other =>
    cases run
    exact covered.of_frame rfl rfl rfl rfl rfl admissible (List.append_nil _).symm
      (fun e member => nomatch member)

theorem constructed_dividends {admin : Address} (fresh : w.market = InternalMarket.constructed admin)
    (noLog : w.log = []) : DividendsCovered d w where
  pools companyId := by
    refine ⟨?_, fun k => ?_, ?_⟩ <;>
      simp [dividendPool, fresh, noLog, InternalMarket.constructed]
  deposits := by simp [fresh, noLog, InternalMarket.constructed]

/-- What is paid for a company stays within its profit, and the tokens of the market within one
unit for each issue of what the market owes its users, in every run whose trades keep the debts. -/
theorem dividends_solvent_of_kept_debts {admin : Address} {run : List (MarketAction ERC20)}
    (fresh : w.market = InternalMarket.constructed admin) (noLog : w.log = [])
    (admissible : TransitionRun.Meets (MarketAction.exec d) (MarketAction.Admissible d) w run)
    (keeps : TransitionRun.Meets (MarketAction.exec d) MarketAction.KeepsDebts w run) :
    let final := TransitionRun.exec (MarketAction.exec d) w run
    (∀ companyId, bookedFor Event.dividend companyId final.log ≤
      bookedFor Event.profit companyId final.log + bookedFor Event.issue companyId final.log) ∧
    ∑ user, final.market.aitBalance user ≤
      final.balanceOf d.internalMarket + booked Event.issue final.log := by
  have covered : DividendsCovered d (TransitionRun.exec (MarketAction.exec d) w run) :=
    TransitionRun.exec_preserves
      (fun w action next covered meets step =>
        marketAction_dividends meets.1 meets.2 covered step)
      (constructed_dividends fresh noLog) (admissible.and keeps)
  have each := fun companyId => (covered.pools companyId).paid_le (by decide)
  have all := booked_le each
  have deposits := covered.deposits
  exact ⟨each, by omega⟩

namespace Devnet

def profit : MarketAction ERC20 := .own { sender := admin } (.depositProfit 1 1000)

def claim (holder : Address) : MarketAction ERC20 := .own { sender := holder } (.claimDividend 1)

end Devnet

open Devnet in
theorem dividends_solvent_of_sale_before_profit :
    let final := TransitionRun.exec (MarketAction.exec Deployment.devnet) listed
      (founding ++ orders ++ [settle 100 10 0, profit, claim bob])
    (∀ companyId, bookedFor Event.dividend companyId final.log ≤
      bookedFor Event.profit companyId final.log + bookedFor Event.issue companyId final.log) ∧
    ∑ user, final.market.aitBalance user ≤
      final.balanceOf Deployment.devnet.internalMarket + booked Event.issue final.log :=
  @dividends_solvent_of_kept_debts Deployment.devnet listed admin _ rfl rfl (by decide) (by decide)

open Devnet in
/-- A dividend that alice has claimed is claimed again by bob, who has bought her shares. -/
theorem dividend_paid_twice_after_sale :
    ¬ ∀ (d : Deployment) (w : World ERC20) (admin : Address) (run : List (MarketAction ERC20)),
      w.market = InternalMarket.constructed admin → w.log = [] →
      TransitionRun.Meets (MarketAction.exec d) (MarketAction.Admissible d) w run →
      ∀ companyId,
        let log := (TransitionRun.exec (MarketAction.exec d) w run).log
        bookedFor Event.dividend companyId log ≤
          bookedFor Event.profit companyId log + bookedFor Event.issue companyId log := by
  intro always
  have bound := always Deployment.devnet listed admin
    (founding ++ [profit, claim alice] ++ orders ++ [settle 100 10 0, claim bob]) rfl rfl (by decide) 1
  exact absurd bound (by decide)

end Aide
