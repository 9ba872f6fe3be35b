import Aide.Contracts.Asked
import Aide.Contracts.TaskRun

namespace Aide

/-- Who holds which power over the protocol. -/
structure Powers where
  owner : Address
  guardrail : Roles
  registry : Roles
  bank : Roles
  treasury : Roles
  market : Roles

/-- The powers, and everything that takes one of them to change. -/
structure Charter extends Powers where
  taxCollector : Address
  taxExemptSender : Address → Bool
  peerTreasury : Address
  peerMarket : Address
  outflowBpsThreshold : ℕ
  maxFeeBpsOfNotional : ℕ
  teeAuthority : Address
  tradable : ℕ → Bool
  codeAuditHash : ℕ → Bytes32
  operatingExpenseWhitelist : Address → Bool
  isCivilServant : Address → Bool
  taxRateBps : ℕ
  weeklySalaryCoefficientS : ℕ
  nextCompanyId : ℕ
  companyVault : ℕ → Address
  vstkBalance : ℕ → Address → ℕ
  totalVstk : ℕ → ℕ

def World.charter (w : World AIToken) : Charter where
  owner := w.token.owner
  guardrail := w.guardrail.roles
  registry := w.registry.roles
  bank := w.bank.roles
  treasury := w.treasury.roles
  market := w.market.roles
  taxCollector := w.token.treasury
  taxExemptSender := w.token.taxExemptSender
  peerTreasury := w.guardrail.treasury
  peerMarket := w.guardrail.internalMarket
  outflowBpsThreshold := w.guardrail.outflowBpsThreshold
  maxFeeBpsOfNotional := w.guardrail.maxFeeBpsOfNotional
  teeAuthority := w.registry.teeAuthority
  tradable := w.bank.tradable
  codeAuditHash := w.bank.codeAuditHash
  operatingExpenseWhitelist := w.treasury.operatingExpenseWhitelist
  isCivilServant := w.treasury.isCivilServant
  taxRateBps := w.treasury.taxRateBps
  weeklySalaryCoefficientS := w.treasury.weeklySalaryCoefficientS
  nextCompanyId := w.market.nextCompanyId
  companyVault := w.market.companyVault
  vstkBalance := w.market.vstkBalance
  totalVstk := w.market.totalVstk

/-- Whom a call gives a power. -/
def Roles.Call.appointee : Roles.Call → Option Address
  | .grantRole _ account => some account
  | _ => none

def System.Call.appointee : System.Call → Option Address
  | .token (.transferOwnership newOwner) => some newOwner
  | .guardrail (.access call) | .registry (.access call) | .bank (.access call)
  | .treasury (.access call) | .market (.access call) => call.appointee
  | _ => none

variable {G : Address → Prop} {sender : Address}

def Roles.HeldBy (G : Address → Prop) (roles : Roles) : Prop := ∀ role account, roles role account = true → G account

/-- No power is held outside of `G`. Nobody holds an ownership that has been renounced. -/
structure Powers.HeldBy (G : Address → Prop) (p : Powers) : Prop where
  owner : p.owner = 0 ∨ G p.owner
  guardrail : p.guardrail.HeldBy G
  registry : p.registry.HeldBy G
  bank : p.bank.HeldBy G
  treasury : p.treasury.HeldBy G
  market : p.market.HeldBy G

theorem Roles.granted_held {held : List Role} {admin : Address} (member : G admin) :
    (Roles.granted held admin).HeldBy G := fun _ _ holds =>
  (of_decide_eq_true holds).2 ▸ member

/-- A role that is taken from an account is taken from nobody else. -/
theorem Roles.HeldBy.drop {roles : Roles} (held : roles.HeldBy G) (role : Role) (account : Address) :
    (roles.set role account false).HeldBy G := fun other holder holds => by
  refine held other holder ?_
  unfold Roles.set at holds
  by_cases sameRole : other = role
  · subst sameRole
    by_cases same : holder = account
    · subst same
      simp at holds
    · simpa [same] using holds
  · simpa [sameRole] using holds

theorem Roles.HeldBy.give {roles : Roles} (held : roles.HeldBy G) (role : Role) {account : Address}
    (member : G account) : (roles.set role account true).HeldBy G := fun other holder holds => by
  unfold Roles.set at holds
  by_cases same : holder = account
  · exact same ▸ member
  · refine held other holder ?_
    by_cases sameRole : other = role
    · subst sameRole
      simpa [same] using holds
    · simpa [sameRole] using holds

/-- A call of `AccessControl`, of a table whose roles are all held by members, who appoint members only. -/
theorem Roles.exec_held {roles next : Roles} {call : Roles.Call} (held : roles.HeldBy G)
    (appoints : G sender → ∀ account ∈ call.appointee, G account) (run : roles.exec sender call = .ok next) :
    next.HeldBy G ∧ (¬ G sender → next = roles) := by
  cases call with
  | grantRole role account =>
    simp only [exec, bind_eq_ok, pure_eq_ok, only_eq_ok, exists_const] at run
    obtain ⟨admin, rfl⟩ := run
    have member : G sender := held _ _ admin
    exact ⟨held.give role (appoints member account rfl), absurd member⟩
  | revokeRole role account =>
    simp only [exec, bind_eq_ok, pure_eq_ok, only_eq_ok, exists_const] at run
    obtain ⟨admin, rfl⟩ := run
    exact ⟨held.drop role account, absurd (held _ _ admin)⟩
  | renounceRole role callerConfirmation =>
    simp only [exec, bind_eq_ok, pure_eq_ok, require_eq_ok, exists_const] at run
    obtain ⟨rfl, rfl⟩ := run
    refine ⟨held.drop role _, fun outsider => ?_⟩
    have none : roles role callerConfirmation = false :=
      Bool.eq_false_iff.mpr fun holds => outsider (held _ _ holds)
    simp only [set, ← none, Function.update_eq_self]

/-- Who stands at the token's powers. -/
structure AIToken.SameWiring (t next : AIToken) : Prop where
  owner : next.owner = t.owner
  treasury : next.treasury = t.treasury
  taxExemptSender : next.taxExemptSender = t.taxExemptSender

namespace AIToken
variable {t mid next : AIToken} {rates : TaxRates}

theorem SameWiring.trans (first : t.SameWiring mid) (second : mid.SameWiring next) : t.SameWiring next :=
  ⟨second.owner.trans first.owner, second.treasury.trans first.treasury,
    second.taxExemptSender.trans first.taxExemptSender⟩

theorem Moved.wiring {src dst : Address} {value fee : ℕ} (moved : t.Moved next src dst value fee) :
    t.SameWiring next := ⟨moved.owner, moved.treasury, moved.taxExemptSender⟩

theorem transfer_wiring {dst : Address} {value : ℕ} (run : t.transfer rates sender dst value = .ok next) :
    t.SameWiring next := by
  obtain ⟨⟨_, delivered⟩, _⟩ := transfer_delivered run
  exact delivered.moved.wiring

theorem transferFrom_wiring {spender src dst : Address} {value : ℕ}
    (run : t.transferFrom rates spender src dst value = .ok next) : t.SameWiring next := by
  obtain ⟨_, delivered⟩ := transferFrom_delivered run
  exact delivered.moved.wiring

theorem wiring_erc20 (t : AIToken) (balances : ERC20) : t.SameWiring { t with toERC20 := balances } := ⟨rfl, rfl, rfl⟩

theorem approve_wiring {owner spender : Address} {value : ℕ} (run : t.approve owner spender value = .ok next) :
    t.SameWiring next := by
  obtain ⟨approved, _, same⟩ := bind_eq_ok.mp run
  cases pure_eq_ok.mp same
  exact t.wiring_erc20 approved

theorem mint_wiring {account : Address} {value : ℕ} (run : t.mint sender account value = .ok next) :
    t.SameWiring next := by
  simp only [mint, bind_eq_ok, pure_eq_ok] at run
  obtain ⟨_, _, minted, _, rfl⟩ := run
  exact t.wiring_erc20 minted

theorem burn_wiring {value : ℕ} (run : t.burn sender value = .ok next) : t.SameWiring next := by
  simp only [burn, bind_eq_ok, pure_eq_ok] at run
  obtain ⟨_, _, burned, _, rfl⟩ := run
  exact t.wiring_erc20 burned

/-- Only the owner rewires the token, and names the next owner only by a transfer of the ownership. -/
theorem exec_wiring {call : AIToken.Call} (run : exec rates sender call t = .ok next) :
    t.SameWiring next ∨ sender = t.owner ∧
      (next.owner = t.owner ∨ next.owner = 0 ∨ call = .transferOwnership next.owner) := by
  cases call with
  | transfer dst value | taxedTransfer dst value => exact .inl (transfer_wiring run)
  | transferFrom src dst value | taxedTransferFrom src dst value => exact .inl (transferFrom_wiring run)
  | approve spender value => exact .inl (approve_wiring run)
  | mint account value => exact .inl (mint_wiring run)
  | burn value => exact .inl (burn_wiring run)
  | burnFrom account value =>
    obtain ⟨spent, _, burns⟩ := bind_eq_ok.mp run
    exact .inl ((t.wiring_erc20 spent).trans (burn_wiring burns))
  | setTreasury newTreasury =>
    simp only [exec, setTreasury, onlyOwner, bind_eq_ok, pure_eq_ok, require_eq_ok, exists_const] at run
    obtain ⟨owner, _, rfl⟩ := run
    exact .inr ⟨owner, .inl rfl⟩
  | setTaxExemptSender account exempt =>
    simp only [exec, setTaxExemptSender, onlyOwner, bind_eq_ok, pure_eq_ok, require_eq_ok, exists_const] at run
    obtain ⟨owner, rfl⟩ := run
    exact .inr ⟨owner, .inl rfl⟩
  | transferOwnership newOwner =>
    simp only [exec, transferOwnership, onlyOwner, bind_eq_ok, pure_eq_ok, require_eq_ok, exists_const] at run
    obtain ⟨owner, _, rfl⟩ := run
    exact .inr ⟨owner, .inr (.inr rfl)⟩
  | renounceOwnership =>
    simp only [exec, renounceOwnership, onlyOwner, bind_eq_ok, pure_eq_ok, require_eq_ok, exists_const] at run
    obtain ⟨owner, rfl⟩ := run
    exact .inr ⟨owner, .inr (.inl rfl)⟩

end AIToken

/-- What the contracts ask of the token does not rewire it. -/
theorem Asked.wiring {d : Deployment} {t next : AIToken} {minted : ℕ}
    (asked : Asked d (fun _ => False) t minted next) : t.SameWiring next := by
  induction asked with
  | nothing => exact ⟨rfl, rfl, rfl⟩
  | transfer _ run _ ih => exact (AIToken.transfer_wiring run).trans ih
  | transferFrom _ run _ ih => exact (AIToken.transferFrom_wiring run).trans ih
  | approve run _ ih => exact (AIToken.approve_wiring run).trans ih
  | mint run _ ih => exact (AIToken.mint_wiring run).trans ih
  | call never => exact never.elim

theorem Asks.wiring {d : Deployment} {w next : World AIToken} (asks : Asks d (fun _ => False) w next) :
    w.token.SameWiring next.token := by
  obtain ⟨_, asked, _⟩ := asks
  exact asked.wiring

/-- What a call of `sender` may do to a charter whose powers are all held by members: it gives none of them to
anybody else, and only a member changes anything at all. -/
def Lawful (G : Address → Prop) (sender : Address) (w next : World AIToken) : Prop :=
  w.charter.HeldBy G → next.charter.HeldBy G ∧ (¬ G sender → next.charter = w.charter)

namespace Lawful
variable {w next : World AIToken}

theorem unchanged (same : next.charter = w.charter) : Lawful G sender w next := fun held =>
  ⟨same ▸ held, fun _ => same⟩

theorem trans {between : World AIToken} (first : Lawful G sender w between) (second : Lawful G sender between next) :
    Lawful G sender w next := fun held => by
  obtain ⟨heldBetween, same⟩ := first held
  obtain ⟨heldNext, sameNext⟩ := second heldBetween
  exact ⟨heldNext, fun outsider => (sameNext outsider).trans (same outsider)⟩

/-- A call that needs a power, and leaves all of them with whom they are. -/
theorem privileged (member : w.charter.HeldBy G → G sender) (powers : next.charter.toPowers = w.charter.toPowers) :
    Lawful G sender w next := fun held =>
  ⟨powers.symm ▸ held, absurd (member held)⟩

/-- A call that leaves the charter alone, but for what it asks of the token. -/
theorem asking (wiring : w.token.SameWiring next.token)
    (rest : next.charter = { w.charter with
      owner := next.token.owner
      taxCollector := next.token.treasury
      taxExemptSender := next.token.taxExemptSender }) : Lawful G sender w next := by
  refine unchanged (rest.trans ?_)
  rw [wiring.owner, wiring.treasury, wiring.taxExemptSender]
  rfl

/-- One that needs a power, and asks something of the token. -/
theorem privileged_asking (member : w.charter.HeldBy G → G sender) (wiring : w.token.SameWiring next.token)
    (rest : next.charter.toPowers = { w.charter.toPowers with owner := next.token.owner }) :
    Lawful G sender w next := by
  rw [wiring.owner] at rest
  exact privileged member rest

/-- A call of `AccessControl` on one of the tables. -/
theorem access {roles next' : Roles} {call : Roles.Call} (table : w.charter.HeldBy G → roles.HeldBy G)
    (appoints : G sender → ∀ account ∈ call.appointee, G account) (run : roles.exec sender call = .ok next')
    (put : w.charter.HeldBy G → next'.HeldBy G → next.charter.HeldBy G)
    (same : next' = roles → next.charter = w.charter) : Lawful G sender w next := fun held => by
  obtain ⟨heldNext, unchanged⟩ := Roles.exec_held (table held) appoints run
  exact ⟨put held heldNext, fun outsider => same (unchanged outsider)⟩

end Lawful

section
variable {d : Deployment} {msg : Msg} {w next : World AIToken}

theorem InternalMarket.exec_lawful {call : InternalMarket.Call}
    (appoints : G msg.sender → ∀ account ∈ (System.Call.market call).appointee, G account)
    (run : InternalMarket.exec d msg call w = .ok next) : Lawful G msg.sender w next := by
  have wiring : w.token.SameWiring next.token := Asks.wiring (InternalMarket.exec_asks run)
  cases call with
  | registerCompany vault =>
    have holds : w.market.roles .companyAdmin msg.sender = true := by
      simp only [exec, registerCompany, bind_eq_ok, Roles.only_eq_ok, exists_const] at run
      exact run.1
    cases registerCompany_effect run
    exact .privileged (fun held => held.market _ _ holds) rfl
  | issueShares companyId recipient amount =>
    have holds : w.market.roles .companyAdmin msg.sender = true := by
      simp only [exec, issueShares, bind_eq_ok, Roles.only_eq_ok, exists_const] at run
      exact run.1
    cases issueShares_effect run
    exact .privileged (fun held => held.market _ _ holds) rfl
  | depositAit amount =>
    obtain ⟨_, _, rfl⟩ := depositAit_effect run
    exact .asking wiring rfl
  | withdrawAit amount =>
    obtain ⟨_, _, _, rfl⟩ := withdrawAit_effect run
    exact .asking wiring rfl
  | placeOrder companyId side priceRay amount engineHint =>
    obtain ⟨_, _, rfl⟩ := placeOrder_effect run
    exact .unchanged rfl
  | cancelOrder orderId =>
    obtain ⟨_, rfl⟩ := cancelOrder_effect run
    exact .unchanged rfl
  | settleTrade makerOrderId takerOrderId vstkAmount aitNotional settlementId =>
    obtain ⟨holds, ⟨_, _, _, _, settled⟩ | rfl⟩ := settleTrade_cases run
    · obtain ⟨_, _, _, _, rfl⟩ := settled.effect
      exact .privileged_asking (fun held => held.market _ _ holds) wiring rfl
    · exact .unchanged rfl
  | depositProfit companyId grossAmount =>
    obtain ⟨_, ⟨_, _, _, _, _, _, _, rfl⟩ | rfl⟩ := depositProfit_cases run
    · exact .asking wiring rfl
    · exact .unchanged rfl
  | setDividendPayoutVault companyId vault =>
    cases setDividendPayoutVault_effect run
    exact .unchanged rfl
  | claimDividend companyId =>
    obtain rfl | ⟨_, _, _, _, _, _, rfl⟩ := claimDividend_cases run
    · exact .unchanged rfl
    · exact .asking wiring rfl
  | access call =>
    simp only [exec, bind_eq_ok, pure_eq_ok] at run
    obtain ⟨roles, access, rfl⟩ := run
    exact .access (·.market) appoints access (fun held table => { held with market := table }) fun same => by
      subst same
      rfl

theorem TaskMarket.exec_lawful {call : TaskMarket.Call} (run : TaskMarket.exec d msg call w = .ok next) :
    Lawful G msg.sender w next := by
  have wiring : w.token.SameWiring next.token := Asks.wiring (TaskMarket.exec_asks run)
  obtain ⟨_, _, _, _, _, _, _, rfl⟩ := TaskMarket.exec_writes run
  exact .asking wiring rfl

theorem StakingPool.depositReward_lawful {payer : Address} {amount : ℕ}
    (run : StakingPool.depositReward d payer amount w = .ok next) : Lawful G sender w next := by
  have wiring : w.token.SameWiring next.token := Asks.wiring (StakingPool.depositReward_asks run)
  obtain ⟨_, _, _, _, _, rfl⟩ := depositReward_effect run
  exact .asking wiring rfl

theorem StakingPool.exec_lawful {call : StakingPool.Call} (run : StakingPool.exec d msg call w = .ok next) :
    Lawful G msg.sender w next := by
  have wiring : w.token.SameWiring next.token := Asks.wiring (StakingPool.exec_asks run)
  cases call with
  | depositReward amount => exact depositReward_lawful run
  | stake amount =>
    obtain ⟨_, _, _, _, _, _, rfl⟩ := stake_effect run
    exact .asking wiring rfl
  | unstake amount =>
    obtain ⟨_, _, _, _, _, _, _, _, rfl⟩ := unstake_effect run
    exact .asking wiring rfl
  | claim =>
    obtain ⟨_, _, _, _, rfl⟩ := claim_effect run
    exact .asking wiring rfl

theorem Guardrail.exec_lawful {call : Guardrail.Call}
    (appoints : G msg.sender → ∀ account ∈ (System.Call.guardrail call).appointee, G account)
    (run : Guardrail.exec msg call w = .ok next) : Lawful G msg.sender w next := by
  have evaluated {reason : CircuitReason} {amount : ℕ}
      (outcome : next = w ∨ next = trip w (tripEvents reason amount w)) : Lawful G msg.sender w next := by
    obtain rfl | rfl := outcome
    · exact .unchanged rfl
    · exact .unchanged rfl
  cases call with
  | setPeers treasury internalMarket =>
    obtain ⟨admin, _, _, rfl⟩ := setPeers_effect run
    exact .privileged (fun held => held.guardrail _ _ admin) rfl
  | setOutflowBpsThreshold bps =>
    obtain ⟨admin, _, rfl⟩ := setOutflowBpsThreshold_effect run
    exact .privileged (fun held => held.guardrail _ _ admin) rfl
  | setMaxFeeBpsOfNotional bps =>
    obtain ⟨admin, _, rfl⟩ := setMaxFeeBpsOfNotional_effect run
    exact .privileged (fun held => held.guardrail _ _ admin) rfl
  | evaluateOutflow balanceBefore amount => exact evaluated (evaluateOutflow_effect run)
  | evaluateSettleFee fee aitNotional => exact evaluated (evaluateSettleFee_effect run)
  | unpause =>
    cases unpause_effect run
    exact .unchanged rfl
  | access call =>
    simp only [exec, bind_eq_ok, pure_eq_ok] at run
    obtain ⟨roles, access, rfl⟩ := run
    exact .access (·.guardrail) appoints access (fun held table => { held with guardrail := table }) fun same => by
      subst same
      rfl

theorem AIIdentityRegistry.exec_lawful {c : TeeCrypto} {call : AIIdentityRegistry.Call}
    (appoints : G msg.sender → ∀ account ∈ (System.Call.registry call).appointee, G account)
    (run : AIIdentityRegistry.exec c d msg call w = .ok next) : Lawful G msg.sender w next := by
  cases call with
  | verifyMachine agent proof =>
    obtain ⟨_, rfl⟩ := verifyMachine_effect run
    exact .unchanged rfl
  | verifyZkIdentity => cases run
  | attestMachineWithTeeSignature agent deadline salt signature =>
    obtain ⟨_, _, rfl⟩ := attestMachine_effect run
    exact .unchanged rfl
  | revokeMachine agent =>
    cases revokeMachine_effect run
    exact .unchanged rfl
  | access call =>
    simp only [exec, bind_eq_ok, pure_eq_ok] at run
    obtain ⟨roles, access, rfl⟩ := run
    exact .access (·.registry) appoints access (fun held table => { held with registry := table }) fun same => by
      subst same
      rfl

theorem AIBank.exec_lawful {call : AIBank.Call}
    (appoints : G msg.sender → ∀ account ∈ (System.Call.bank call).appointee, G account)
    (run : AIBank.exec msg call w = .ok next) : Lawful G msg.sender w next := by
  cases call with
  | approveListing companyId codeAuditHash =>
    obtain ⟨auditor, _, rfl⟩ := approveListing_effect run
    exact .privileged (fun held => held.bank _ _ auditor) rfl
  | revokeListing companyId =>
    obtain ⟨admin, rfl⟩ := revokeListing_effect run
    exact .privileged (fun held => held.bank _ _ admin) rfl
  | access call =>
    simp only [exec, bind_eq_ok, pure_eq_ok] at run
    obtain ⟨roles, access, rfl⟩ := run
    exact .access (·.bank) appoints access (fun held table => { held with bank := table }) fun same => by
      subst same
      rfl

/-- The code outside the deployment that a member of the treasury calls leaves the charter as it is. -/
theorem Treasury.exec_lawful {foreign : Address → ℕ → World AIToken → Except Revert (World AIToken)}
    {call : Treasury.Call}
    (keeps : ∀ account amount w next, foreign account amount w = .ok next →
      w.charter.HeldBy G → next.charter = w.charter)
    (appoints : G msg.sender → ∀ account ∈ (System.Call.treasury call).appointee, G account)
    (run : Treasury.exec d foreign msg call w = .ok next) : Lawful G msg.sender w next := by
  cases call with
  | setOperatingExpenseRecipient recipient allowed =>
    obtain ⟨admin, _, rfl⟩ := setOperatingExpenseRecipient_effect run
    exact .privileged (fun held => held.treasury _ _ admin) rfl
  | withdrawOperatingExpenses amount recipient =>
    obtain ⟨ops, _, ⟨_, token, pay, rfl⟩ | rfl⟩ := withdrawOperatingExpenses_effect run
    · exact .privileged_asking (fun held => held.treasury _ _ ops) (AIToken.transfer_wiring pay) rfl
    · exact .unchanged rfl
  | collectTax payer taxableBase =>
    obtain ⟨⟨fee, _⟩, collect, same⟩ := bind_eq_ok.mp run
    cases pure_eq_ok.mp same
    obtain ⟨_, token, collected, rfl⟩ := collectTax_effect collect
    have asked : Asked d (fun _ => False) w.token 0 token := .collected collected
    exact .asking asked.wiring rfl
  | setTaxRate newTaxRateBps =>
    obtain ⟨economist, _, rfl⟩ := setTaxRate_effect run
    exact .privileged (fun held => held.treasury _ _ economist) rfl
  | setWeeklySalaryCoefficient coefficientS =>
    obtain ⟨economist, rfl⟩ := setWeeklySalaryCoefficient_effect run
    exact .privileged (fun held => held.treasury _ _ economist) rfl
  | setCivilServant agent active =>
    obtain ⟨registry, _, rfl⟩ := setCivilServant_effect run
    exact .privileged (fun held => held.treasury _ _ registry) rfl
  | distributeSalary agent contributionRating =>
    obtain ⟨salary, _, _, _, token, _, _, minted, rfl⟩ := distributeSalary_effect run
    exact .privileged_asking (fun held => held.treasury _ _ salary) (AIToken.mint_wiring minted) rfl
  | approveStakingPoolPull stakingPool amount =>
    obtain ⟨ops, token, approval, rfl⟩ := approveStakingPoolPull_effect run
    exact .privileged_asking (fun held => held.treasury _ _ ops) (AIToken.approve_wiring approval) rfl
  | depositRewardToStakingPool stakingPool amount =>
    obtain ⟨token, approval, deposit⟩ := depositRewardToStakingPool_effect run
    have approved : Lawful G msg.sender w { w with token } := .asking (AIToken.approve_wiring approval) rfl
    rcases deposit with rewarded | called
    · exact approved.trans (StakingPool.depositReward_lawful rewarded)
    · refine approved.trans fun held => ?_
      have same := keeps _ _ _ _ called held
      exact ⟨same ▸ held, fun _ => same⟩
  | access call =>
    simp only [exec, bind_eq_ok, pure_eq_ok] at run
    obtain ⟨roles, access, rfl⟩ := run
    exact .access (·.treasury) appoints access (fun held table => { held with treasury := table }) fun same => by
      subst same
      rfl

theorem AIToken.exec_lawful {rates : TaxRates} {call : AIToken.Call} {token : AIToken} (outside : d.Outside sender)
    (appoints : G sender → ∀ account ∈ (System.Call.token call).appointee, G account)
    (run : AIToken.exec rates sender call w.token = .ok token) : Lawful G sender w { w with token } := by
  rcases exec_wiring run with wiring | ⟨byOwner, named⟩
  · exact .asking wiring rfl
  · intro held
    have owns : w.token.owner = 0 ∨ G w.token.owner := held.owner
    have member : G sender := byOwner ▸ owns.resolve_left (byOwner ▸ outside.1)
    refine ⟨{ held with owner := ?_ }, absurd member⟩
    show token.owner = 0 ∨ G token.owner
    rcases named with same | renounced | rfl
    · rw [same]
      exact owns
    · exact .inl renounced
    · exact .inr (appoints member _ rfl)

/-- A transaction of an account outside the deployment. -/
theorem System.exec_lawful {crypto : TeeCrypto}
    {foreign : Address → ℕ → World AIToken → Except Revert (World AIToken)} {call : System.Call}
    (outside : d.Outside msg.sender)
    (keeps : ∀ account amount w next, foreign account amount w = .ok next →
      w.charter.HeldBy G → next.charter = w.charter)
    (appoints : G msg.sender → ∀ account ∈ call.appointee, G account)
    (run : System.exec ⟨crypto, foreign⟩ d w (msg, call) = .ok next) : Lawful G msg.sender w next := by
  cases call with
  | token call =>
    obtain ⟨token, moved, same⟩ := bind_eq_ok.mp run
    cases pure_eq_ok.mp same
    exact AIToken.exec_lawful outside appoints moved
  | guardrail call => exact Guardrail.exec_lawful appoints run
  | registry call => exact AIIdentityRegistry.exec_lawful appoints run
  | bank call => exact AIBank.exec_lawful appoints run
  | treasury call => exact Treasury.exec_lawful keeps appoints run
  | market call => exact InternalMarket.exec_lawful appoints run
  | tasks call => exact TaskMarket.exec_lawful run
  | pool call => exact StakingPool.exec_lawful run

end

end Aide
