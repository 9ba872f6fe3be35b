import Aide.Contracts.Deploy

namespace Aide.System

/-- A call of any contract of the deployment. -/
inductive Call
  | token (call : AIToken.Call)
  | guardrail (call : Guardrail.Call)
  | registry (call : AIIdentityRegistry.Call)
  | bank (call : AIBank.Call)
  | treasury (call : Treasury.Call)
  | market (call : InternalMarket.Call)
  | tasks (call : TaskMarket.Call)
  | pool (call : StakingPool.Call)

/-- The code that is not part of the deployment: the signature scheme, and the contract that
stands at an address from outside. -/
structure Environment where
  crypto : TeeCrypto
  foreign : Address → ℕ → World AIToken → Except Revert (World AIToken)

def exec (env : Environment) (d : Deployment) (w : World AIToken) :
    Msg × Call → Except Revert (World AIToken)
  | (msg, .token call) => do
    let token ← AIToken.exec (w.taxRates d) msg.sender call w.token
    pure { w with token }
  | (msg, .guardrail call) => Guardrail.exec msg call w
  | (msg, .registry call) => AIIdentityRegistry.exec env.crypto d msg call w
  | (msg, .bank call) => AIBank.exec msg call w
  | (msg, .treasury call) => Treasury.exec d env.foreign msg call w
  | (msg, .market call) => InternalMarket.exec d msg call w
  | (msg, .tasks call) => TaskMarket.exec d msg call w
  | (msg, .pool call) => StakingPool.exec d msg call w

end Aide.System
