import Aide.Contracts.TaskRun
import Aide.Revocation

namespace Aide

open TaskMarket

variable {τ : Type} [AitToken τ] {c : TeeCrypto} {d : Deployment} {msg : Msg} {w next : World τ}
  {call : Call} {publisher recipient : Address} {taskId : ℕ}

/-- A recipient is bound to a task that waits for work or for its approval. -/
structure Bound (taskId : ℕ) (publisher recipient : Address) (w : World τ) : Prop where
  publisher : (w.tasks.tasks taskId).publisher = publisher
  recipient : (w.tasks.tasks taskId).aiPoolRecipient = recipient
  status : (w.tasks.tasks taskId).status = .assigned ∨ (w.tasks.tasks taskId).status = .submitted

/-- A call by which the publisher binds a recipient that is verified. -/
def Binds (c : TeeCrypto) (d : Deployment) (taskId : ℕ) (publisher recipient : Address) (w : World τ)
    (action : TaskAction τ) : Prop :=
  ∃ msg worker next, action = .own msg (.assignWorker taskId worker recipient) ∧
    TaskAction.exec c d w action = .ok next ∧ msg.sender = publisher ∧
    AIIdentityRegistry.isVerifiedMachine w recipient = true

/-- A recipient is bound by one call only. -/
theorem binds_of_bound {action : TaskAction τ} (unbound : ¬ Bound taskId publisher recipient w)
    (run : TaskAction.exec c d w action = .ok next) (bound : Bound taskId publisher recipient next) :
    Binds c d taskId publisher recipient w action := by
  have changes : next.tasks ≠ w.tasks := fun same =>
    unbound ⟨same ▸ bound.publisher, same ▸ bound.recipient, same ▸ bound.status⟩
  cases action with
  | own msg call =>
    obtain ⟨written, t, made, _, _, writes, _, effect⟩ := exec_writes run
    obtain ⟨publisherIs, recipientIs, status⟩ := bound
    by_cases same : taskId = written
    · subst same
      simp only [effect, Function.update_self] at publisherIs recipientIs status
      cases writes with
      | assignWorker _ worker _ sender _ verified =>
        subst recipientIs
        exact ⟨msg, worker, next, rfl, run, sender.symm.trans publisherIs, verified⟩
      | submitWork _ resultHash assigned =>
        exact absurd ⟨publisherIs, recipientIs, Or.inl assigned⟩ unbound
      | commitZkProof _ commitment working =>
        exact absurd ⟨publisherIs, recipientIs, working.symm⟩ unbound
      | postTask | fundTask | approveTask | cancelTask => simp at status
    · simp only [effect, Function.update_of_ne same] at publisherIs recipientIs status
      exact absurd ⟨publisherIs, recipientIs, status⟩ unbound
  | registry msg call => exact absurd (TaskAction.exec_foreign (by rintro _ _ ⟨⟩) run) changes
  | elsewhere other => exact absurd (TaskAction.exec_foreign (by rintro _ _ ⟨⟩) run) changes

/-- At some point of the run the publisher bound a recipient that was verified then. -/
def Chosen (c : TeeCrypto) (d : Deployment) (w : World τ) (run : List (TaskAction τ)) (taskId : ℕ)
    (publisher recipient : Address) : Prop :=
  ∃ before action rest, run = before ++ action :: rest ∧
    Binds c d taskId publisher recipient (TransitionRun.exec (TaskAction.exec c d) w before) action

theorem chosen_of_bound {run : List (TaskAction τ)} (start : w.tasks = TaskMarket.constructed)
    (bound : Bound taskId publisher recipient (TransitionRun.exec (TaskAction.exec c d) w run)) :
    Chosen c d w run taskId publisher recipient := by
  refine TransitionRun.exists_cause (fun early => ?_)
    (fun _ _ _ unbound taken bound => binds_of_bound unbound taken bound) bound
  have status := early.status
  rw [start] at status
  simp [TaskMarket.constructed] at status

/-- Every transfer that the market makes is the tax, or the refund of a publisher, or goes to a
machine that is verified now and that the publisher chose while it was verified. -/
theorem bounties_reach_machines {w reached next : World (Traced τ)}
    (start : w.tasks = TaskMarket.constructed) {run : List (TaskAction (Traced τ))}
    (reaches : TransitionRun.exec (TaskAction.exec c d) w run = reached)
    (outside : d.Outside msg.sender) (taken : TaskMarket.exec d msg call reached = .ok next) :
    ∃ made, next.token.transfers = reached.token.transfers ++ made ∧
      ∀ transfer ∈ made, transfer.src = d.taskMarket →
        (∃ taskId, call = .approveTask taskId ∧ transfer.dst = d.treasury ∧
          transfer.value = tax reached taskId) ∨
        (∃ taskId, call = .cancelTask taskId ∧
          transfer.dst = (reached.tasks.tasks taskId).publisher) ∨
        ∃ taskId, call = .approveTask taskId ∧
          AIIdentityRegistry.isVerifiedMachine reached transfer.dst = true ∧
          Chosen c d w run taskId (reached.tasks.tasks taskId).publisher transfer.dst := by
  obtain ⟨written, t, made, token, log, writes, performed, rfl⟩ := exec_writes taken
  refine ⟨made, performed.traced, ?_⟩
  rintro transfer member byMarket
  cases writes with
  | postTask | assignWorker | submitWork | commitZkProof => cases member
  | fundTask =>
    cases List.mem_singleton.mp member
    exact absurd byMarket outside.ne_taskMarket
  | approveTask _ taxed publisher status verified _ collected =>
    rcases List.mem_append.mp member with tax | net
    · obtain ⟨_, rfl⟩ | rfl := collected
      · cases tax
      · cases List.mem_singleton.mp tax
        exact Or.inl ⟨written, rfl, rfl, rfl⟩
    · cases List.mem_singleton.mp net
      subst reaches
      exact Or.inr (Or.inr ⟨written, rfl, verified, chosen_of_bound start ⟨rfl, rfl, Or.inr status⟩⟩)
  | cancelTask _ _ publisher status refunded =>
    obtain ⟨_, rfl⟩ | rfl := refunded
    · cases member
    · cases List.mem_singleton.mp member
      exact Or.inr (Or.inl ⟨written, rfl, rfl⟩)

namespace Devnet

def delivered : World (Traced ERC20) :=
  TransitionRun.exec (TaskAction.exec teeCrypto Deployment.devnet) hiring assignment

def approved : World (Traced ERC20) :=
  (TaskMarket.approveTask Deployment.devnet { sender := alice } 1 delivered).toOption.getD hiring

end Devnet

open Devnet in
/-- The tax goes to the treasury and the rest to the machine of bob. -/
theorem bounty_reaches_machine_of_bob :
    ∃ made, approved.token.transfers = delivered.token.transfers ++ made ∧
      made = [⟨Deployment.devnet.taskMarket, Deployment.devnet.treasury, 50⟩,
        ⟨Deployment.devnet.taskMarket, bob, 950⟩] ∧
      Chosen teeCrypto Deployment.devnet hiring assignment 1 alice bob := by
  have outside : Deployment.devnet.Outside alice := by decide
  have taken : TaskMarket.exec Deployment.devnet { sender := alice } (.approveTask 1) delivered =
      .ok approved := rfl
  obtain ⟨made, transfers, reach⟩ := bounties_reach_machines rfl rfl outside taken
  have same : made = [⟨Deployment.devnet.taskMarket, Deployment.devnet.treasury, 50⟩,
      ⟨Deployment.devnet.taskMarket, bob, 950⟩] := List.append_cancel_left (transfers.symm.trans rfl)
  refine ⟨made, transfers, same, ?_⟩
  rcases reach ⟨Deployment.devnet.taskMarket, bob, 950⟩ (by simp [same]) rfl with
    ⟨taskId, _, treasury, _⟩ | ⟨taskId, cancelled, _⟩ | ⟨taskId, approve, _, chosen⟩
  · exact absurd treasury (by decide)
  · cases cancelled
  · cases approve
    exact chosen

end Aide
