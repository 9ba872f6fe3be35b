import Aide.Contracts.ForeignCode
import Aide.Contracts.RoleEffects

namespace Aide

/-- The salary that a log reports. -/
def Event.salary : Event → Option ℕ
  | .salaryDistributed _ _ amountMinted => some amountMinted
  | _ => none

/-- All salaries in the logs. -/
def salaries (log : List Event) : ℕ := (log.filterMap Event.salary).sum

/-- What the token is asked for, one call after another, by the contracts of a deployment and by callers from
outside, and how much the contracts mint. -/
inductive Asked (d : Deployment) (callers : Address → Prop) : AIToken → ℕ → AIToken → Prop
  | nothing (t : AIToken) : Asked d callers t 0 t
  | transfer {t mid next : AIToken} {rates : TaxRates} {sender dst : Address} {value minted : ℕ}
      (own : sender ∈ d.contracts) (run : t.transfer rates sender dst value = .ok mid)
      (rest : Asked d callers mid minted next) : Asked d callers t minted next
  | transferFrom {t mid next : AIToken} {rates : TaxRates} {spender src dst : Address} {value minted : ℕ}
      (own : spender ∈ d.contracts) (run : t.transferFrom rates spender src dst value = .ok mid)
      (rest : Asked d callers mid minted next) : Asked d callers t minted next
  | approve {t mid next : AIToken} {spender : Address} {value minted : ℕ}
      (run : t.approve d.treasury spender value = .ok mid) (rest : Asked d callers mid minted next) :
      Asked d callers t minted next
  | mint {t mid next : AIToken} {account : Address} {value minted : ℕ}
      (run : t.mint d.treasury account value = .ok mid) (rest : Asked d callers mid minted next) :
      Asked d callers t (value + minted) next
  | call {t mid next : AIToken} {rates : TaxRates} {sender : Address} {call : AIToken.Call} {minted : ℕ}
      (outside : callers sender) (run : AIToken.exec rates sender call t = .ok mid)
      (rest : Asked d callers mid minted next) : Asked d callers t minted next

/-- A step in which the token changes only as it is asked to, and in which the contracts mint what they log as
salaries. -/
def Asks (d : Deployment) (callers : Address → Prop) (w next : World AIToken) : Prop :=
  ∃ minted, Asked d callers w.token minted next.token ∧ salaries next.log = salaries w.log + minted

variable {d : Deployment} {callers : Address → Prop} {msg : Msg} {w between next : World AIToken}

namespace Asked
variable {t mid next : AIToken} {minted more : ℕ} {rates : TaxRates} {dst : Address} {value : ℕ}

theorem trans (first : Asked d callers t minted mid) (second : Asked d callers mid more next) :
    Asked d callers t (minted + more) next := by
  induction first with
  | nothing => rwa [Nat.zero_add]
  | transfer own run _ ih => exact .transfer own run (ih second)
  | transferFrom own run _ ih => exact .transferFrom own run (ih second)
  | approve run _ ih => exact .approve run (ih second)
  | mint run _ ih =>
    rw [Nat.add_assoc]
    exact .mint run (ih second)
  | call outside run _ ih => exact .call outside run (ih second)

theorem push {sender : Address} (own : sender ∈ d.contracts)
    (run : t.transfer rates sender dst value = .ok next) : Asked d callers t 0 next :=
  .transfer own run (.nothing _)

theorem pull {spender src : Address} (own : spender ∈ d.contracts)
    (run : t.transferFrom rates spender src dst value = .ok next) : Asked d callers t 0 next :=
  .transferFrom own run (.nothing _)

theorem collected {w : World AIToken} {payer : Address} {fee : ℕ}
    (collected : Treasury.Collected d w payer fee next) : Asked d callers w.token 0 next := by
  obtain ⟨_, rfl⟩ | run := collected
  · exact .nothing _
  · exact pull (by simp [Deployment.contracts]) run

theorem rewarded {w : World AIToken} {user : Address} (rewarded : StakingPool.Rewarded d w user next) :
    Asked d callers w.token 0 next := by
  obtain ⟨_, rfl⟩ | ⟨_, run⟩ := rewarded
  · exact .nothing _
  · exact push (by simp [Deployment.contracts]) run

end Asked

/-- Logs without a salary among them. -/
abbrev Unpaid (emitted : List Event) : Prop := ∀ e ∈ emitted, e.salary = none

theorem unpaid_single {e : Event} (none : e.salary = .none) : Unpaid [e] :=
  List.forall_mem_singleton.mpr none

theorem Unpaid.append {emitted more : List Event} (first : Unpaid emitted) (second : Unpaid more) :
    Unpaid (emitted ++ more) :=
  List.forall_mem_append.mpr ⟨first, second⟩

theorem unpaid_taxLog {sender payer : Address} {taxableBase fee : ℕ} :
    Unpaid (Treasury.taxLog sender payer taxableBase fee) := fun e member => by
  rw [Treasury.mem_taxLog member]
  rfl

theorem unpaid_tripEvents {reason : CircuitReason} {amount : ℕ} :
    Unpaid (Guardrail.tripEvents reason amount w) := fun e member => by
  rw [Guardrail.mem_tripEvents member]
  rfl

theorem unpaid_rewardLog {user : Address} : Unpaid (StakingPool.rewardLog w user) := fun e member => by
  unfold StakingPool.rewardLog at member
  split at member
  · rw [List.mem_singleton.mp member]
    rfl
  · cases member

namespace Asks

theorem trans (first : Asks d callers w between) (second : Asks d callers between next) : Asks d callers w next := by
  obtain ⟨minted, asked, log⟩ := first
  obtain ⟨more, asked', log'⟩ := second
  exact ⟨minted + more, asked.trans asked', by omega⟩

theorem of_unpaid {emitted : List Event} (asked : Asked d callers w.token 0 next.token)
    (log : next.log = w.log ++ emitted) (unpaid : Unpaid emitted) : Asks d callers w next := by
  refine ⟨0, asked, ?_⟩
  rw [log, salaries, List.filterMap_append, List.filterMap_eq_nil_iff.mpr unpaid, List.append_nil]
  rfl

/-- A call that logs once, and nothing about a salary. -/
theorem single {e : Event} (asked : Asked d callers w.token 0 next.token) (log : next.log = w.log ++ [e])
    (unpaid : e.salary = none) : Asks d callers w next :=
  of_unpaid asked log (unpaid_single unpaid)

/-- A call that has no part in the token and logs no salary. -/
theorem quiet {e : Event} (token : next.token = w.token) (log : next.log = w.log ++ [e])
    (unpaid : e.salary = none) : Asks d callers w next :=
  single (by rw [token]; exact .nothing _) log unpaid

theorem silent (token : next.token = w.token) (log : next.log = w.log) : Asks d callers w next :=
  ⟨0, by rw [token]; exact .nothing _, by rw [log]; rfl⟩

end Asks

theorem InternalMarket.exec_asks {call : InternalMarket.Call}
    (run : InternalMarket.exec d msg call w = .ok next) : Asks d callers w next := by
  have own : d.internalMarket ∈ d.contracts := by simp [Deployment.contracts]
  cases call with
  | registerCompany vault =>
    cases registerCompany_effect run
    exact .quiet rfl rfl rfl
  | issueShares companyId recipient amount =>
    cases issueShares_effect run
    exact .quiet rfl rfl rfl
  | depositAit amount =>
    obtain ⟨token, pull, rfl⟩ := depositAit_effect run
    exact .single (.pull own pull) rfl rfl
  | withdrawAit amount =>
    obtain ⟨_, token, push, rfl⟩ := withdrawAit_effect run
    exact .single (.push own push) rfl rfl
  | placeOrder companyId side priceRay amount engineHint =>
    obtain ⟨_, _, rfl⟩ := placeOrder_effect run
    exact .quiet rfl rfl rfl
  | cancelOrder orderId =>
    obtain ⟨_, rfl⟩ := cancelOrder_effect run
    exact .quiet rfl rfl rfl
  | settleTrade makerOrderId takerOrderId vstkAmount aitNotional settlementId =>
    obtain ⟨_, ⟨_, _, _, _, settled⟩ | rfl⟩ := settleTrade_cases run
    · obtain ⟨taxed, token, collected, pay, rfl⟩ := settled.effect
      exact .of_unpaid ((Asked.collected collected).trans (.push own pay)) (List.append_assoc ..)
        (unpaid_taxLog.append (unpaid_single rfl))
    · exact .of_unpaid (.nothing _) (List.append_assoc ..) (unpaid_tripEvents.append (unpaid_single rfl))
  | depositProfit companyId grossAmount =>
    obtain ⟨_, ⟨_, taxed, token, _, _, collected, pull, rfl⟩ | rfl⟩ := depositProfit_cases run
    · exact .of_unpaid ((Asked.collected collected).trans (.pull own pull)) (List.append_assoc ..)
        (unpaid_taxLog.append (unpaid_single rfl))
    · exact .of_unpaid (.nothing _) (List.append_assoc ..) (unpaid_tripEvents.append (unpaid_single rfl))
  | setDividendPayoutVault companyId vault =>
    cases setDividendPayoutVault_effect run
    exact .quiet rfl rfl rfl
  | claimDividend companyId =>
    obtain rfl | ⟨_, _, token, _, _, pay, rfl⟩ := claimDividend_cases run
    · exact .silent rfl rfl
    · exact .single (.push own pay) rfl rfl
  | access call =>
    simp only [exec, bind_eq_ok, pure_eq_ok] at run
    obtain ⟨_, _, rfl⟩ := run
    exact .silent rfl rfl

theorem TaskMarket.exec_asks {call : TaskMarket.Call} (run : TaskMarket.exec d msg call w = .ok next) :
    Asks d callers w next := by
  have own : d.taskMarket ∈ d.contracts := by simp [Deployment.contracts]
  cases call with
  | postTask bounty =>
    cases postTask_effect run
    exact .quiet rfl rfl rfl
  | fundTask taskId =>
    obtain ⟨_, _, _, token, pull, rfl⟩ := fundTask_effect run
    exact .single (.pull own pull) rfl rfl
  | assignWorker taskId worker aiPoolRecipient =>
    obtain ⟨_, _, _, rfl⟩ := assignWorker_effect run
    exact .quiet rfl rfl rfl
  | submitWork taskId resultHash =>
    obtain ⟨_, _, rfl⟩ := submitWork_effect run
    exact .quiet rfl rfl rfl
  | commitZkProof taskId commitment =>
    cases commitZkProof_effect run
    exact .quiet rfl rfl rfl
  | approveTask taskId =>
    simp only [exec, approveTask, settle, bind_eq_ok, pure_eq_ok, World.safeTransfer_eq_ok] at run
    obtain ⟨_, _, _, _, _, _, _, _, _, _, ⟨fee, _⟩, collect, _, _, _, ⟨token, pay, rfl⟩, rfl⟩ := run
    obtain ⟨_, taxed, collected, rfl⟩ := Treasury.collectTax_effect collect
    have approved : Asks d callers w (w.emit (.taskApproved taskId msg.sender)) := .quiet rfl rfl rfl
    exact approved.trans (.of_unpaid ((Asked.collected collected).trans (.push own pay)) (List.append_assoc ..)
      (unpaid_taxLog.append (unpaid_single rfl)))
  | cancelTask taskId =>
    obtain ⟨_, _, token, ⟨_, rfl⟩ | pay, rfl⟩ := cancelTask_effect run
    · exact .quiet rfl rfl rfl
    · exact .single (.push own pay) rfl rfl

theorem StakingPool.depositReward_asks {sender : Address} {amount : ℕ}
    (run : StakingPool.depositReward d sender amount w = .ok next) : Asks d callers w next := by
  have asked : Asked d callers w.token 0 next.token := by
    obtain ⟨_, token, _, _, pull, rfl⟩ := depositReward_effect run
    exact .pull (by simp [Deployment.contracts]) pull
  rcases depositReward_frame run with ⟨_, _, log⟩ | ⟨_, log⟩
  · have nothing : next.log = w.log ++ [] := log.trans (List.append_nil _).symm
    exact .of_unpaid asked nothing fun e member => absurd member List.not_mem_nil
  · exact .single asked log rfl

theorem StakingPool.exec_asks {call : StakingPool.Call} (run : StakingPool.exec d msg call w = .ok next) :
    Asks d callers w next := by
  have own : d.stakingPool ∈ d.contracts := by simp [Deployment.contracts]
  cases call with
  | depositReward amount => exact depositReward_asks run
  | stake amount =>
    have log := (stake_frame run).2
    obtain ⟨claimed, token, _, _, rewarded, pull, rfl⟩ := stake_effect run
    exact .of_unpaid ((Asked.rewarded rewarded).trans (.pull own pull)) (log.trans (List.append_assoc ..))
      (unpaid_rewardLog.append (unpaid_single rfl))
  | unstake amount =>
    have log := (unstake_frame run).2
    obtain ⟨_, _, claimed, token, _, _, rewarded, pay, rfl⟩ := unstake_effect run
    exact .of_unpaid ((Asked.rewarded rewarded).trans (.push own pay)) (log.trans (List.append_assoc ..))
      (unpaid_rewardLog.append (unpaid_single rfl))
  | claim =>
    have log := (claim_frame run).2
    obtain ⟨token, _, _, rewarded, rfl⟩ := claim_effect run
    exact .of_unpaid (Asked.rewarded rewarded) log unpaid_rewardLog

/-- The calls of the treasury, as long as the code outside the deployment that they reach does the same. -/
theorem Treasury.exec_asks {foreign : Address → ℕ → World AIToken → Except Revert (World AIToken)}
    {call : Treasury.Call}
    (asks : ∀ account amount w next, foreign account amount w = .ok next → Asks d callers w next)
    (run : Treasury.exec d foreign msg call w = .ok next) : Asks d callers w next := by
  have own : d.treasury ∈ d.contracts := by simp [Deployment.contracts]
  cases call with
  | setOperatingExpenseRecipient recipient allowed =>
    obtain ⟨_, _, rfl⟩ := setOperatingExpenseRecipient_effect run
    exact .quiet rfl rfl rfl
  | withdrawOperatingExpenses amount recipient =>
    obtain ⟨_, _, ⟨_, token, pay, rfl⟩ | rfl⟩ := withdrawOperatingExpenses_effect run
    · exact .single (.push own pay) rfl rfl
    · exact .of_unpaid (.nothing _) (List.append_assoc ..) (unpaid_tripEvents.append (unpaid_single rfl))
  | collectTax payer taxableBase =>
    obtain ⟨⟨fee, _⟩, collect, same⟩ := bind_eq_ok.mp run
    cases pure_eq_ok.mp same
    obtain ⟨_, token, collected, rfl⟩ := collectTax_effect collect
    exact .of_unpaid (Asked.collected collected) rfl unpaid_taxLog
  | setTaxRate newTaxRateBps =>
    obtain ⟨_, _, rfl⟩ := setTaxRate_effect run
    exact .quiet rfl rfl rfl
  | setWeeklySalaryCoefficient coefficientS =>
    obtain ⟨_, rfl⟩ := setWeeklySalaryCoefficient_effect run
    exact .quiet rfl rfl rfl
  | setCivilServant agent active =>
    obtain ⟨_, _, rfl⟩ := setCivilServant_effect run
    exact .quiet rfl rfl rfl
  | distributeSalary agent contributionRating =>
    obtain ⟨_, _, _, _, token, _, _, minted, rfl⟩ := distributeSalary_effect run
    refine ⟨_ + 0, .mint minted (.nothing _), ?_⟩
    simp [salaries, Event.salary]
  | approveStakingPoolPull stakingPool amount =>
    obtain ⟨_, token, approval, rfl⟩ := approveStakingPoolPull_effect run
    exact ⟨0, .approve approval (.nothing _), rfl⟩
  | depositRewardToStakingPool stakingPool amount =>
    obtain ⟨token, approval, deposit⟩ := depositRewardToStakingPool_effect run
    have approved : Asks d callers w { w with token } := ⟨0, .approve approval (.nothing _), rfl⟩
    rcases deposit with rewarded | called
    · exact approved.trans (StakingPool.depositReward_asks rewarded)
    · exact approved.trans (asks _ _ _ _ called)
  | access call =>
    simp only [exec, bind_eq_ok, pure_eq_ok] at run
    obtain ⟨_, _, rfl⟩ := run
    exact .silent rfl rfl

theorem Guardrail.exec_asks {call : Guardrail.Call} (run : Guardrail.exec msg call w = .ok next) :
    Asks d callers w next := by
  have evaluated {reason : CircuitReason} {amount : ℕ}
      (outcome : next = w ∨ next = trip w (tripEvents reason amount w)) : Asks d callers w next := by
    obtain rfl | rfl := outcome
    · exact .silent rfl rfl
    · exact .of_unpaid (.nothing _) rfl unpaid_tripEvents
  cases call with
  | setPeers treasury internalMarket =>
    obtain ⟨_, _, _, rfl⟩ := setPeers_effect run
    exact .quiet rfl rfl rfl
  | setOutflowBpsThreshold bps =>
    obtain ⟨_, _, rfl⟩ := setOutflowBpsThreshold_effect run
    exact .quiet rfl rfl rfl
  | setMaxFeeBpsOfNotional bps =>
    obtain ⟨_, _, rfl⟩ := setMaxFeeBpsOfNotional_effect run
    exact .quiet rfl rfl rfl
  | evaluateOutflow balanceBefore amount => exact evaluated (evaluateOutflow_effect run)
  | evaluateSettleFee fee aitNotional => exact evaluated (evaluateSettleFee_effect run)
  | unpause =>
    cases unpause_effect run
    exact .quiet rfl rfl rfl
  | access call =>
    simp only [exec, bind_eq_ok, pure_eq_ok] at run
    obtain ⟨_, _, rfl⟩ := run
    exact .silent rfl rfl

theorem AIIdentityRegistry.exec_asks {c : TeeCrypto} {call : AIIdentityRegistry.Call}
    (run : AIIdentityRegistry.exec c d msg call w = .ok next) : Asks d callers w next := by
  cases call with
  | verifyMachine agent proof =>
    obtain ⟨_, rfl⟩ := verifyMachine_effect run
    exact .quiet rfl rfl rfl
  | verifyZkIdentity => cases run
  | attestMachineWithTeeSignature agent deadline salt signature =>
    obtain ⟨_, _, rfl⟩ := attestMachine_effect run
    exact .quiet rfl rfl rfl
  | revokeMachine agent =>
    cases revokeMachine_effect run
    exact .quiet rfl rfl rfl
  | access call =>
    simp only [exec, bind_eq_ok, pure_eq_ok] at run
    obtain ⟨_, _, rfl⟩ := run
    exact .silent rfl rfl

theorem AIBank.exec_asks {call : AIBank.Call} (run : AIBank.exec msg call w = .ok next) : Asks d callers w next := by
  cases call with
  | approveListing companyId codeAuditHash =>
    obtain ⟨_, _, rfl⟩ := approveListing_effect run
    exact .quiet rfl rfl rfl
  | revokeListing companyId =>
    obtain ⟨_, rfl⟩ := revokeListing_effect run
    exact .quiet rfl rfl rfl
  | access call =>
    simp only [exec, bind_eq_ok, pure_eq_ok] at run
    obtain ⟨_, _, rfl⟩ := run
    exact .silent rfl rfl

/-- A transaction of one of the callers. -/
theorem System.exec_asks {crypto : TeeCrypto}
    {foreign : Address → ℕ → World AIToken → Except Revert (World AIToken)} {call : System.Call}
    (caller : callers msg.sender)
    (asks : ∀ account amount w next, foreign account amount w = .ok next → Asks d callers w next)
    (run : System.exec ⟨crypto, foreign⟩ d w (msg, call) = .ok next) : Asks d callers w next := by
  cases call with
  | token call =>
    obtain ⟨token, moved, same⟩ := bind_eq_ok.mp run
    cases pure_eq_ok.mp same
    exact ⟨0, .call caller moved (.nothing _), rfl⟩
  | guardrail call => exact Guardrail.exec_asks run
  | registry call => exact AIIdentityRegistry.exec_asks run
  | bank call => exact AIBank.exec_asks run
  | treasury call => exact Treasury.exec_asks asks run
  | market call => exact InternalMarket.exec_asks run
  | tasks call => exact TaskMarket.exec_asks run
  | pool call => exact StakingPool.exec_asks run

/-- All that a run does to the token. -/
theorem System.run_asks {crypto : TeeCrypto}
    {foreign : Address → ℕ → World AIToken → Except Revert (World AIToken)} {run : List (Msg × System.Call)}
    (acts : System.ActsByCalls crypto d callers foreign) (senders : ∀ tx ∈ run, callers tx.1.sender) :
    Asks d callers w (TransitionRun.exec (System.exec ⟨crypto, foreign⟩ d) w run) :=
  System.run_relates (R := Asks d callers) (fun _ => .silent rfl rfl) (fun _ _ _ first => first.trans)
    (fun _ _ _ _ asks caller taken => System.exec_asks caller asks taken) acts senders

end Aide
