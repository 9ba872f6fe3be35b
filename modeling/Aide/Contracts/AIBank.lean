import Aide.Contracts.World

namespace Aide.AIBank
variable {τ : Type}

def isTradable (w : World τ) (companyId : ℕ) : Bool := w.bank.tradable companyId

def approveListing (msg : Msg) (companyId : ℕ) (codeAuditHash : Bytes32) (w : World τ) :
    Except Revert (World τ) := do
  w.bank.roles.only .auditor msg.sender
  require (companyId ≠ 0) .zeroCompanyId
  pure ({ w with bank := { w.bank with
    tradable := Function.update w.bank.tradable companyId true
    codeAuditHash := Function.update w.bank.codeAuditHash companyId codeAuditHash } }.emit
      (.listingApproved companyId codeAuditHash msg.sender))

def revokeListing (msg : Msg) (companyId : ℕ) (w : World τ) : Except Revert (World τ) := do
  w.bank.roles.only .defaultAdmin msg.sender
  pure ({ w with bank := { w.bank with
    tradable := Function.update w.bank.tradable companyId false } }.emit
      (.listingRevoked companyId msg.sender))

inductive Call
  | approveListing (companyId : ℕ) (codeAuditHash : Bytes32)
  | revokeListing (companyId : ℕ)
  | access (call : Roles.Call)

def exec (msg : Msg) : Call → World τ → Except Revert (World τ)
  | .approveListing companyId codeAuditHash, w => approveListing msg companyId codeAuditHash w
  | .revokeListing companyId, w => revokeListing msg companyId w
  | .access call, w => do
    let roles ← w.bank.roles.exec msg.sender call
    pure { w with bank := { w.bank with roles } }

end Aide.AIBank
