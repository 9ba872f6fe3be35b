import Aide.Contracts.Deploy
import Aide.Foundation.TransitionRun

namespace Aide

/-- A step in the history of the market: one of its own calls, or anything else that happens
between two of them. -/
inductive MarketAction (τ : Type)
  | own (msg : Msg) (call : InternalMarket.Call)
  | elsewhere (other : World τ)

namespace MarketAction
variable {τ : Type} [AitToken τ]

/-- Only the market's own calls write its storage and its logs. -/
def exec (d : Deployment) (w : World τ) : MarketAction τ → Except Revert (World τ)
  | .own msg call => InternalMarket.exec d msg call w
  | .elsewhere other => .ok { other with market := w.market, log := w.log }

end MarketAction

namespace Devnet

/-- A company is listed, and bob and the admin own tokens that the market may pull. -/
def listed : World ERC20 :=
  { Deployment.devnet.launch admin teeAuthority 0
      { balanceOf := fun account => if account = bob ∨ account = admin then 10000 else 0
        allowance := fun _ _ => uint256Max
        totalSupply := 20000 : ERC20 } with
    bank := {
      roles := Roles.granted [.defaultAdmin, .auditor] admin
      tradable := fun companyId => companyId == 1
      codeAuditHash := fun _ => 0 } }

/-- Alice gets all shares of the company, and bob pays in. -/
def founding : List (MarketAction ERC20) :=
  [.own { sender := admin } (.registerCompany alice),
    .own { sender := admin } (.issueShares 1 alice 100),
    .own { sender := bob } (.depositAit 5000)]

/-- Alice offers her shares, and bob wants them all. -/
def orders : List (MarketAction ERC20) :=
  [.own { sender := alice } (.placeOrder 1 .sell 1 100 0),
    .own { sender := bob } (.placeOrder 1 .buy 1 100 0)]

def settle (vstkAmount aitNotional : ℕ) (settlementId : Bytes32) : MarketAction ERC20 :=
  .own { sender := admin } (.settleTrade 1 2 vstkAmount aitNotional settlementId)

end Devnet

end Aide
