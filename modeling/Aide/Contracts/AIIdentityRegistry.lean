import Aide.Contracts.World

namespace Aide

/-- The hash and signature primitives of the registry. `keccakWords` is `keccak256` of the
`abi.encode` of static values, one word each. -/
structure TeeCrypto where
  teeAttestTypehash : ℕ
  keccakWords : List ℕ → Bytes32
  keccakTeeProof : Bytes32 → Bytes32
  toEthSignedMessageHash : Bytes32 → Bytes32
  recover : Bytes32 → List UInt8 → Except Revert Address

namespace AIIdentityRegistry
variable {τ : Type}

def isVerifiedMachine (w : World τ) (account : Address) : Bool := w.registry.verified account

def verifyMachine (msg : Msg) (agent : Address) (proof : Bytes32) (w : World τ) :
    Except Revert (World τ) := do
  w.registry.roles.only .verifier msg.sender
  require (agent ≠ 0) (.require "AIIdentity: zero agent")
  require (proof ≠ 0) (.require "AIIdentity: empty proof")
  pure ({ w with registry := { w.registry with
    verified := Function.update w.registry.verified agent true
    lastProof := Function.update w.registry.lastProof agent proof } }.emit
      (.machineVerified agent proof))

/-- The digest the TEE signs, bound to the chain and to the registry. -/
def structHash (c : TeeCrypto) (d : Deployment) (msg : Msg) (agent : Address) (deadline : ℕ)
    (salt : Bytes32) : Bytes32 :=
  c.keccakWords [c.teeAttestTypehash, agent, deadline, salt.toNat, msg.chainId, d.registry]

def attestMachineWithTeeSignature (c : TeeCrypto) (d : Deployment) (msg : Msg) (agent : Address)
    (deadline : ℕ) (salt : Bytes32) (signature : List UInt8) (w : World τ) :
    Except Revert (World τ) := do
  require (agent ≠ 0) .zeroAddress
  require (msg.timestamp ≤ deadline) .expiredDeadline
  let hash := structHash c d msg agent deadline salt
  let recovered ← c.recover (c.toEthSignedMessageHash hash) signature
  require (recovered = w.registry.teeAuthority) .badTeeSignature
  pure ({ w with registry := { w.registry with
    verified := Function.update w.registry.verified agent true
    lastProof := Function.update w.registry.lastProof agent (c.keccakTeeProof hash) } }.emit
      (.teeMachineAttested agent deadline salt hash))

def revokeMachine (msg : Msg) (agent : Address) (w : World τ) : Except Revert (World τ) := do
  w.registry.roles.only .defaultAdmin msg.sender
  pure ({ w with registry := { w.registry with
    verified := Function.update w.registry.verified agent false } }.emit (.machineRevoked agent))

inductive Call
  | verifyMachine (agent : Address) (proof : Bytes32)
  | verifyZkIdentity
  | attestMachineWithTeeSignature (agent : Address) (deadline : ℕ) (salt : Bytes32)
      (signature : List UInt8)
  | revokeMachine (agent : Address)
  | access (call : Roles.Call)

def exec (c : TeeCrypto) (d : Deployment) (msg : Msg) : Call → World τ → Except Revert (World τ)
  | .verifyMachine agent proof, w => verifyMachine msg agent proof w
  | .verifyZkIdentity, _ => .error .zkPathDeprecated
  | .attestMachineWithTeeSignature agent deadline salt signature, w =>
    attestMachineWithTeeSignature c d msg agent deadline salt signature w
  | .revokeMachine agent, w => revokeMachine msg agent w
  | .access call, w => do
    let roles ← w.registry.roles.exec msg.sender call
    pure { w with registry := { w.registry with roles } }

variable {c : TeeCrypto} {d : Deployment} {msg : Msg} {w next : World τ} {agent : Address}

theorem verifyMachine_effect {proof : Bytes32} (run : verifyMachine msg agent proof w = .ok next) :
    w.registry.roles .verifier msg.sender = true ∧
    next = { w with
      registry := { w.registry with
        verified := Function.update w.registry.verified agent true
        lastProof := Function.update w.registry.lastProof agent proof }
      log := w.log ++ [.machineVerified agent proof] } := by
  simp only [verifyMachine, bind_eq_ok, pure_eq_ok, Roles.only_eq_ok, exists_const] at run
  obtain ⟨verifier, _, _, _, _, rfl⟩ := run
  exact ⟨verifier, rfl⟩

/-- The checks of an attestation: its deadline has not passed and the authority has signed it. -/
structure Attestable (c : TeeCrypto) (d : Deployment) (msg : Msg) (w : World τ) (agent : Address)
    (deadline : ℕ) (salt : Bytes32) (signature : List UInt8) : Prop where
  nonzero : agent ≠ 0
  inTime : msg.timestamp ≤ deadline
  signed : c.recover (c.toEthSignedMessageHash (structHash c d msg agent deadline salt)) signature =
    .ok w.registry.teeAuthority

theorem attestMachine_effect {deadline : ℕ} {salt : Bytes32} {signature : List UInt8}
    (run : attestMachineWithTeeSignature c d msg agent deadline salt signature w = .ok next) :
    Attestable c d msg w agent deadline salt signature ∧ ∃ proof,
    next = { w with
      registry := { w.registry with
        verified := Function.update w.registry.verified agent true
        lastProof := Function.update w.registry.lastProof agent proof }
      log := w.log ++
        [.teeMachineAttested agent deadline salt (structHash c d msg agent deadline salt)] } := by
  simp only [attestMachineWithTeeSignature, bind_eq_ok, pure_eq_ok, require_eq_ok,
    exists_const] at run
  obtain ⟨nonzero, inTime, _, recovered, rfl, rfl⟩ := run
  exact ⟨⟨nonzero, inTime, recovered⟩, _, rfl⟩

theorem revokeMachine_effect (run : revokeMachine msg agent w = .ok next) :
    next = { w with
      registry := { w.registry with
        verified := Function.update w.registry.verified agent false }
      log := w.log ++ [.machineRevoked agent] } := by
  simp only [revokeMachine, bind_eq_ok, pure_eq_ok] at run
  obtain ⟨_, _, rfl⟩ := run
  rfl

/-- No call of the registry touches any other contract. -/
theorem exec_frame {call : Call} (run : exec c d msg call w = .ok next) :
    ∃ registry log, next = { w with registry := registry, log := log } := by
  cases call with
  | verifyMachine agent proof =>
    obtain ⟨_, rfl⟩ := verifyMachine_effect run
    exact ⟨_, _, rfl⟩
  | verifyZkIdentity => cases run
  | attestMachineWithTeeSignature agent deadline salt signature =>
    obtain ⟨_, _, rfl⟩ := attestMachine_effect run
    exact ⟨_, _, rfl⟩
  | revokeMachine agent =>
    cases revokeMachine_effect run
    exact ⟨_, _, rfl⟩
  | access call =>
    simp only [exec, bind_eq_ok, pure_eq_ok] at run
    obtain ⟨_, _, rfl⟩ := run
    exact ⟨_, _, rfl⟩

end AIIdentityRegistry

end Aide
