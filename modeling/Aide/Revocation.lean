import Aide.Contracts.Deploy
import Aide.Foundation.TransitionRun

namespace Aide

/-- The attestation that an accepted call logs. -/
def Event.attestation : Event → Option (Address × ℕ × Bytes32)
  | .teeMachineAttested agent deadline salt _ => some (agent, deadline, salt)
  | _ => none

/-- The attestation has been accepted before. -/
def AcceptedBefore {τ : Type} (attestation : Address × ℕ × Bytes32) (w : World τ) : Prop :=
  ∃ e ∈ w.log, e.attestation = some attestation

instance {τ : Type} (attestation : Address × ℕ × Bytes32) (w : World τ) :
    Decidable (AcceptedBefore attestation w) :=
  inferInstanceAs (Decidable (∃ e ∈ w.log, e.attestation = some attestation))

namespace AIIdentityRegistry
variable {τ : Type} {c : TeeCrypto} {d : Deployment} {w next : World τ} {agent : Address}
  {attestation : Address × ℕ × Bytes32} {tx : Msg × Call}

abbrev step (c : TeeCrypto) (d : Deployment) (w : World τ) (tx : Msg × Call) :
    Except Revert (World τ) := exec c d tx.1 tx.2 w

/-- The call verifies `agent` by hand, or submits an attestation never accepted before. -/
def Reinstates (agent : Address) (w : World τ) : Msg × Call → Prop
  | (msg, .verifyMachine other _) => other = agent ∧ w.registry.roles .verifier msg.sender = true
  | (_, .attestMachineWithTeeSignature other deadline salt _) =>
    other = agent ∧ ¬ AcceptedBefore (other, deadline, salt) w
  | _ => False

/-- The call submits the attestation and is accepted. -/
def Accepted (c : TeeCrypto) (d : Deployment) (attestation : Address × ℕ × Bytes32)
    (w : World τ) : Msg × Call → Prop
  | (msg, .attestMachineWithTeeSignature agent deadline salt signature) =>
    (agent, deadline, salt) = attestation ∧
      ∃ next, attestMachineWithTeeSignature c d msg agent deadline salt signature w = .ok next
  | _ => False

/-- An attestation that was accepted before comes after its deadline or without a signature. -/
def RefusesReplay (c : TeeCrypto) (d : Deployment) (w : World τ) : Msg × Call → Prop
  | (msg, .attestMachineWithTeeSignature agent deadline salt signature) =>
    AcceptedBefore (agent, deadline, salt) w →
      ¬ Attestable c d msg w agent deadline salt signature
  | _ => True

theorem acceptedBefore_kept (accepted : AcceptedBefore attestation w)
    (run : step c d w tx = .ok next) : AcceptedBefore attestation next := by
  obtain ⟨e, member, same⟩ := accepted
  refine ⟨e, ?_, same⟩
  obtain ⟨msg, call⟩ := tx
  cases call with
  | verifyMachine other proof =>
    obtain ⟨_, rfl⟩ := verifyMachine_effect run
    exact List.mem_append_left _ member
  | verifyZkIdentity => cases run
  | attestMachineWithTeeSignature other deadline salt signature =>
    obtain ⟨_, _, rfl⟩ := attestMachine_effect run
    exact List.mem_append_left _ member
  | revokeMachine other =>
    cases revokeMachine_effect run
    exact List.mem_append_left _ member
  | access call =>
    simp only [step, exec, bind_eq_ok, pure_eq_ok] at run
    obtain ⟨_, _, rfl⟩ := run
    exact member

/-- While nothing reinstates an agent, no call verifies it. -/
theorem unverified_kept (revoked : isVerifiedMachine w agent = false)
    (refuses : RefusesReplay c d w tx) (quiet : ¬ Reinstates agent w tx)
    (run : step c d w tx = .ok next) : isVerifiedMachine next agent = false := by
  obtain ⟨msg, call⟩ := tx
  cases call with
  | verifyMachine other proof =>
    obtain ⟨verifier, rfl⟩ := verifyMachine_effect run
    have apart : agent ≠ other := fun same => quiet ⟨same.symm, verifier⟩
    simpa [isVerifiedMachine, apart] using revoked
  | verifyZkIdentity => cases run
  | attestMachineWithTeeSignature other deadline salt signature =>
    obtain ⟨attestable, _, rfl⟩ := attestMachine_effect run
    have apart : agent ≠ other := fun same =>
      quiet ⟨same.symm, fun accepted => refuses accepted attestable⟩
    simpa [isVerifiedMachine, apart] using revoked
  | revokeMachine other =>
    cases revokeMachine_effect run
    by_cases same : agent = other
    · simp [isVerifiedMachine, same]
    · simpa [isVerifiedMachine, same] using revoked
  | access call =>
    simp only [step, exec, bind_eq_ok, pure_eq_ok] at run
    obtain ⟨_, _, rfl⟩ := run
    exact revoked

theorem accepted_cases (accepted : Accepted c d attestation w tx) :
    AcceptedBefore attestation (TransitionRun.after (step c d) w tx) ∧
    (RefusesReplay c d w tx → ¬ AcceptedBefore attestation w) := by
  unfold Accepted at accepted
  split at accepted
  · obtain ⟨rfl, next, run⟩ := accepted
    obtain ⟨attestable, _, logged⟩ := attestMachine_effect run
    refine ⟨?_, fun refuses before => refuses before attestable⟩
    rw [TransitionRun.after_ok run, logged]
    exact ⟨_, List.mem_append_right _ (List.mem_singleton_self _), rfl⟩
  · exact accepted.elim

/-- Where no accepted attestation is replayed before its deadline, a revocation holds until the
agent is reinstated, and no attestation is accepted twice. -/
theorem revocation_sticks_without_replay {run : List (Msg × Call)}
    (refuses : TransitionRun.Meets (step c d) (RefusesReplay c d) w run) :
    (∀ before between rest msg revoked,
      run = before ++ (msg, .revokeMachine agent) :: between ++ rest →
      revokeMachine msg agent (TransitionRun.exec (step c d) w before) = .ok revoked →
      TransitionRun.Meets (step c d) (fun w tx => ¬ Reinstates agent w tx) revoked between →
      isVerifiedMachine (TransitionRun.exec (step c d) revoked between) agent = false) ∧
    (∀ before between rest first second attestation,
      run = before ++ first :: between ++ second :: rest →
      Accepted c d attestation (TransitionRun.exec (step c d) w before) first →
      ¬ Accepted c d attestation (TransitionRun.exec (step c d) w (before ++ first :: between))
        second) := by
  constructor
  · rintro before between rest msg revoked rfl taken quiet
    have refusesBetween : TransitionRun.Meets (step c d) (RefusesReplay c d) revoked between := by
      obtain ⟨refusesLeft, _⟩ := TransitionRun.meets_append.mp refuses
      obtain ⟨_, refusesAfter⟩ := TransitionRun.meets_append.mp refusesLeft
      have same : TransitionRun.after (step c d) (TransitionRun.exec (step c d) w before)
          (msg, .revokeMachine agent) = revoked := TransitionRun.after_ok taken
      rw [← same]
      exact refusesAfter.2
    refine TransitionRun.exec_preserves (I := fun w => isVerifiedMachine w agent = false)
      (fun w tx next unverified meets step => unverified_kept unverified meets.1 meets.2 step) ?_
      (refusesBetween.and quiet)
    cases revokeMachine_effect taken
    simp [isVerifiedMachine]
  · rintro before between rest first second attestation rfl accepted
    exact TransitionRun.effective_once (fun s a accepted => (accepted_cases accepted).1)
      (fun s a next => acceptedBefore_kept)
      (fun s a marked refuses again => (accepted_cases again).2 refuses marked) refuses accepted

end AIIdentityRegistry

namespace Devnet

/-- A signature scheme with one signed message: the attestation of bob until time 100. -/
def teeCrypto : TeeCrypto where
  teeAttestTypehash := 1
  keccakWords := keccakWords
  keccakTeeProof hash := hash
  toEthSignedMessageHash hash := hash + 1
  recover digest signature :=
    .ok (if digest = keccakWords [1, bob, 100, 5, 0, Deployment.devnet.registry] + 1 ∧
      signature = [1] then teeAuthority else mallory)
where
  keccakWords (words : List ℕ) : Bytes32 := BitVec.ofNat 256 (words.foldl (fun h x => 31 * h + x) 7)

def registered : World ERC20 :=
  Deployment.devnet.launch admin teeAuthority 0 (ERC20.launch Deployment.devnet (fun _ => 0) 0)

/-- Anybody can submit the attestation of bob. -/
def attestBob (timestamp : ℕ) : Msg × AIIdentityRegistry.Call :=
  ({ sender := mallory, timestamp }, .attestMachineWithTeeSignature bob 100 5 [1])

def revokeBob : Msg × AIIdentityRegistry.Call := ({ sender := admin }, .revokeMachine bob)

end Devnet

open Devnet AIIdentityRegistry in
theorem revocation_sticks_after_deadline :
    isVerifiedMachine (TransitionRun.exec (step teeCrypto Deployment.devnet) registered
      [attestBob 10, revokeBob, attestBob 200]) bob = false :=
  (@revocation_sticks_without_replay ERC20 teeCrypto Deployment.devnet registered bob
    [attestBob 10, revokeBob, attestBob 200]
    ⟨fun accepted => absurd accepted (by decide), trivial,
      fun _ attestable => absurd attestable.inTime (by decide), trivial⟩).1
    [attestBob 10] [attestBob 200] [] _ _ rfl rfl
    ⟨fun reinstates => absurd reinstates.2 (by decide), trivial⟩

open Devnet AIIdentityRegistry in
/-- The attestation of a revoked machine is accepted again until its deadline. -/
theorem revocation_undone_by_replay :
    ¬ ∀ (c : TeeCrypto) (d : Deployment) (w revoked : World ERC20) (agent : Address) (msg : Msg)
      (before between : List (Msg × Call)),
      revokeMachine msg agent (TransitionRun.exec (step c d) w before) = .ok revoked →
      TransitionRun.Meets (step c d) (fun w tx => ¬ Reinstates agent w tx) revoked between →
      isVerifiedMachine (TransitionRun.exec (step c d) revoked between) agent = false := by
  intro sticks
  have unverified := sticks teeCrypto Deployment.devnet registered _ bob { sender := admin }
    [attestBob 10] [attestBob 50] rfl ⟨fun reinstates => absurd reinstates.2 (by decide), trivial⟩
  exact absurd unverified (by decide)

end Aide
