import Aide.Contracts.TaskEffects
import Aide.Contracts.MarketEffects

namespace Aide

/-- The role table after a constructor that grants `held` to `admin`. -/
def Roles.granted (held : List Role) (admin : Address) : Roles := fun role account =>
  decide (role ∈ held ∧ account = admin)

/-- A fresh token with some balances. Both markets approve the treasury without limit in their
constructors. -/
def ERC20.launch (d : Deployment) (balanceOf : Address → ℕ) (totalSupply : ℕ) : ERC20 where
  balanceOf
  allowance owner spender :=
    if (owner = d.internalMarket ∨ owner = d.taskMarket) ∧ spender = d.treasury then uint256Max
    else 0
  totalSupply

/-- The taxed token as the deployment leaves it: wired to the treasury, both markets exempt. -/
def AIToken.launch (d : Deployment) (owner : Address) (balanceOf : Address → ℕ)
    (totalSupply : ℕ) : AIToken where
  toERC20 := ERC20.launch d balanceOf totalSupply
  owner
  treasury := d.treasury
  taxExemptSender account := decide (account = d.internalMarket ∨ account = d.taskMarket)
  processingTax := false

/-- The storage of the market after its constructor. -/
def InternalMarket.constructed (admin : Address) : InternalMarket where
  roles := Roles.granted [.defaultAdmin, .settler, .companyAdmin] admin
  nextCompanyId := 1
  nextOrderId := 1
  vstkBalance := fun _ _ => 0
  totalVstk := fun _ => 0
  companyVault := fun _ => 0
  accAitPerShare := fun _ => 0
  rewardDebt := fun _ _ => 0
  dividendPayoutVault := fun _ _ => 0
  aitBalance := fun _ => 0
  orders := fun _ => {}

def TaskMarket.constructed : TaskMarket where
  nextTaskId := 1
  tasks := fun _ => {}

def StakingPool.constructed : StakingPool where
  totalStaked := 0
  accRewardPerShare := 0
  staked := fun _ => 0
  rewardDebt := fun _ => 0

namespace Deployment
variable {τ : Type}

/-- Every contract after its constructor, with the breaker wired and the tax rate set. -/
def launch (d : Deployment) (admin teeAuthority : Address) (taxRateBps : ℕ) (token : τ) :
    World τ where
  token
  guardrail := {
    roles := Roles.granted [.defaultAdmin, .emergencyCommittee] admin
    treasury := d.treasury
    internalMarket := d.internalMarket
    paused := false
    outflowBpsThreshold := 3000
    maxFeeBpsOfNotional := 500 }
  registry := {
    roles := Roles.granted [.defaultAdmin, .verifier] admin
    teeAuthority
    verified := fun _ => false
    lastProof := fun _ => 0 }
  bank := {
    roles := Roles.granted [.defaultAdmin, .auditor] admin
    tradable := fun _ => false
    codeAuditHash := fun _ => 0 }
  treasury := {
    roles := Roles.granted [.defaultAdmin, .registry, .economist, .salary, .treasuryOps] admin
    operatingExpenseWhitelist := fun _ => false
    isCivilServant := fun _ => false
    taxRateBps
    weeklySalaryCoefficientS := 0 }
  market := InternalMarket.constructed admin
  tasks := TaskMarket.constructed
  pool := StakingPool.constructed
  log := []

/-- A deployment at small addresses, on which concrete runs are evaluated. -/
def devnet : Deployment where
  aitoken := 1
  treasury := 2
  guardrail := 3
  registry := 4
  bankAudit := 5
  internalMarket := 6
  taskMarket := 7
  stakingPool := 8
  distinct := by decide
  deployed := by decide

end Deployment

namespace Devnet

def admin : Address := 100
def teeAuthority : Address := 101
def alice : Address := 102
def bob : Address := 103
def mallory : Address := 104

end Devnet

end Aide
