import Aide.Contracts.Traced

namespace Aide

namespace TaskMarket
variable {τ : Type}

/-- The task that a call is about, where it is one that has been posted before. -/
def Call.taskId : Call → Option ℕ
  | .postTask _ => none
  | .fundTask taskId | .assignWorker taskId _ _ | .submitWork taskId _ | .commitZkProof taskId _
  | .approveTask taskId | .cancelTask taskId => some taskId

/-- The next number after a call. -/
def Call.nextTaskId (w : World τ) : Call → ℕ
  | .postTask _ => w.tasks.nextTaskId + 1
  | _ => w.tasks.nextTaskId

/-- A payment of the market. One of nothing may be left out. -/
def Payment (d : Deployment) (dst : Address) (value : ℕ) (made : List Transfer) : Prop :=
  (value = 0 ∧ made = []) ∨ made = [⟨d.taskMarket, dst, value⟩]

/-- The tax on what is locked in a task. -/
def tax (w : World τ) (taskId : ℕ) : ℕ :=
  (w.tasks.tasks taskId).lockedAmount * w.treasury.taxRateBps / 10000

/-- The task that a call writes in a state, and the transfers that it asks for. -/
inductive Writes (d : Deployment) (msg : Msg) (w : World τ) : Call → ℕ → Task → List Transfer → Prop
  | postTask (bounty : ℕ) :
    Writes d msg w (.postTask bounty) w.tasks.nextTaskId { publisher := msg.sender, bounty } []
  | fundTask (taskId : ℕ) (publisher : (w.tasks.tasks taskId).publisher = msg.sender)
      (status : (w.tasks.tasks taskId).status = .open) (positive : (w.tasks.tasks taskId).bounty ≠ 0) :
    Writes d msg w (.fundTask taskId) taskId
      { w.tasks.tasks taskId with lockedAmount := (w.tasks.tasks taskId).bounty, status := .funded }
      [⟨msg.sender, d.taskMarket, (w.tasks.tasks taskId).bounty⟩]
  | assignWorker (taskId : ℕ) (worker aiPoolRecipient : Address)
      (publisher : (w.tasks.tasks taskId).publisher = msg.sender)
      (status : (w.tasks.tasks taskId).status = .funded)
      (verified : w.registry.verified aiPoolRecipient = true) :
    Writes d msg w (.assignWorker taskId worker aiPoolRecipient) taskId
      { w.tasks.tasks taskId with worker, aiPoolRecipient, status := .assigned } []
  | submitWork (taskId : ℕ) (resultHash : Bytes32) (status : (w.tasks.tasks taskId).status = .assigned) :
    Writes d msg w (.submitWork taskId resultHash) taskId
      { w.tasks.tasks taskId with resultHash, status := .submitted } []
  | commitZkProof (taskId : ℕ) (commitment : Bytes32)
      (status : (w.tasks.tasks taskId).status = .submitted ∨ (w.tasks.tasks taskId).status = .assigned) :
    Writes d msg w (.commitZkProof taskId commitment) taskId
      { w.tasks.tasks taskId with zkProofCommitment := commitment } []
  | approveTask (taskId : ℕ) (taxed : List Transfer) (publisher : (w.tasks.tasks taskId).publisher = msg.sender)
      (status : (w.tasks.tasks taskId).status = .submitted)
      (verified : w.registry.verified (w.tasks.tasks taskId).aiPoolRecipient = true)
      (feeLe : tax w taskId ≤ (w.tasks.tasks taskId).lockedAmount)
      (collected : Payment d d.treasury (tax w taskId) taxed) :
    Writes d msg w (.approveTask taskId) taskId
      { w.tasks.tasks taskId with lockedAmount := 0, status := .completed }
      (taxed ++ [⟨d.taskMarket, (w.tasks.tasks taskId).aiPoolRecipient,
        (w.tasks.tasks taskId).lockedAmount - tax w taskId⟩])
  | cancelTask (taskId : ℕ) (made : List Transfer)
      (publisher : (w.tasks.tasks taskId).publisher = msg.sender)
      (status : (w.tasks.tasks taskId).status ≠ .completed ∧ (w.tasks.tasks taskId).status ≠ .cancelled)
      (refunded : Payment d (w.tasks.tasks taskId).publisher (w.tasks.tasks taskId).lockedAmount made) :
    Writes d msg w (.cancelTask taskId) taskId
      { w.tasks.tasks taskId with lockedAmount := 0, status := .cancelled } made

variable {d : Deployment} {msg : Msg} {w next : World τ} {call : Call}

section
variable {taskId : ℕ} {t : Task} {transfers : List Transfer} {transfer : Transfer}

/-- What the market pays out to somebody, or to itself. -/
theorem spent_of_payment {dst : Address} {value : ℕ} (payment : Payment d dst value transfers) :
    Ledger.total Transfer.src Transfer.value d.taskMarket transfers = value := by
  obtain ⟨nothing, rfl⟩ | rfl := payment
  · rw [nothing]
    rfl
  · simp

/-- What a call leaves in escrow is covered by what was there and by what came in. -/
theorem locked_of_writes (outside : d.Outside msg.sender)
    (writes : Writes d msg w call taskId t transfers) :
    t.lockedAmount + Ledger.total Transfer.src Transfer.value d.taskMarket transfers ≤
      (w.tasks.tasks taskId).lockedAmount +
        Ledger.total Transfer.dst Transfer.value d.taskMarket transfers := by
  cases writes with
  | postTask | assignWorker | submitWork | commitZkProof => simp
  | fundTask _ publisher status positive => simp [outside.ne_taskMarket]
  | approveTask _ taxed publisher status verified feeLe collected =>
    rw [Ledger.total_append, spent_of_payment collected]
    simp only [Ledger.total_cons, Ledger.total_nil, if_true]
    omega
  | cancelTask _ _ publisher running refunded =>
    rw [spent_of_payment refunded]
    simp

/-- A call moves tokens of the market or of its caller. -/
theorem src_of_writes (writes : Writes d msg w call taskId t transfers) (member : transfer ∈ transfers) :
    transfer.src = d.taskMarket ∨ transfer.src = msg.sender := by
  have paid {dst : Address} {value : ℕ} {made : List Transfer} (payment : Payment d dst value made)
      (among : transfer ∈ made) : transfer.src = d.taskMarket := by
    obtain ⟨_, rfl⟩ | rfl := payment
    · cases among
    · cases List.mem_singleton.mp among
      rfl
  cases writes with
  | postTask | assignWorker | submitWork | commitZkProof => cases member
  | fundTask =>
    cases List.mem_singleton.mp member
    exact Or.inr rfl
  | approveTask _ taxed publisher status verified feeLe collected =>
    rcases List.mem_append.mp member with tax | net
    · exact Or.inl (paid collected tax)
    · cases List.mem_singleton.mp net
      exact Or.inl rfl
  | cancelTask _ _ publisher running refunded => exact Or.inl (paid refunded member)

end

variable [AitToken τ]

/-- Every call writes one task and moves what it asks for, and logs. -/
theorem exec_writes (run : exec d msg call w = .ok next) :
    ∃ taskId t made token log, Writes d msg w call taskId t made ∧
      Performed (w.taxRates d) w.token made token ∧
      next = { w with
        token
        tasks := {
          nextTaskId := call.nextTaskId w
          tasks := Function.update w.tasks.tasks taskId t }
        log } := by
  cases call with
  | postTask bounty =>
    cases postTask_effect run
    exact ⟨_, _, _, _, _, .postTask bounty, .none _, rfl⟩
  | fundTask taskId =>
    obtain ⟨publisher, status, positive, token, pull, rfl⟩ := fundTask_effect run
    exact ⟨_, _, _, _, _, .fundTask taskId publisher status positive, .transferFrom pull (.none _), rfl⟩
  | assignWorker taskId worker aiPoolRecipient =>
    obtain ⟨publisher, status, verified, rfl⟩ := assignWorker_effect run
    exact ⟨_, _, _, _, _, .assignWorker taskId worker aiPoolRecipient publisher status verified, .none _,
      rfl⟩
  | submitWork taskId resultHash =>
    obtain ⟨status, _, rfl⟩ := submitWork_effect run
    exact ⟨_, _, _, _, _, .submitWork taskId resultHash status, .none _, rfl⟩
  | commitZkProof taskId commitment =>
    have status := commitZkProof_status run
    cases commitZkProof_effect run
    exact ⟨_, _, _, _, _, .commitZkProof taskId commitment status, .none _, rfl⟩
  | approveTask taskId =>
    obtain ⟨publisher, status, _, verified, _, taxed, token, _, rfl, feeLe, collected, pay, rfl⟩ :=
      approveTask_effect run
    obtain ⟨free, rfl⟩ | pull := collected
    · exact ⟨_, _, _, _, _, .approveTask taskId [] publisher status verified feeLe (Or.inl ⟨free, rfl⟩),
        .transfer pay (.none _), rfl⟩
    · exact ⟨_, _, _, _, _, .approveTask taskId _ publisher status verified feeLe (Or.inr rfl),
        .transferFrom pull (.transfer pay (.none _)), rfl⟩
  | cancelTask taskId =>
    obtain ⟨publisher, status, token, ⟨nothing, rfl⟩ | pay, rfl⟩ := cancelTask_effect run
    · exact ⟨_, _, _, _, _, .cancelTask taskId [] publisher status (Or.inl ⟨nothing, rfl⟩), .none _, rfl⟩
    · exact ⟨_, _, _, _, _, .cancelTask taskId _ publisher status (Or.inr rfl), .transfer pay (.none _),
        rfl⟩

end TaskMarket

/-- A step in the history of the tasks: a call of their market or of the registry, or anything else
that happens between two of them. -/
inductive TaskAction (τ : Type)
  | own (msg : Msg) (call : TaskMarket.Call)
  | registry (msg : Msg) (call : AIIdentityRegistry.Call)
  | elsewhere (other : World τ)

namespace TaskAction
variable {τ : Type} [AitToken τ]

/-- Only the market's own calls write its tasks. -/
def exec (c : TeeCrypto) (d : Deployment) (w : World τ) : TaskAction τ → Except Revert (World τ)
  | .own msg call => TaskMarket.exec d msg call w
  | .registry msg call => AIIdentityRegistry.exec c d msg call w
  | .elsewhere other => .ok { other with tasks := w.tasks }

variable {c : TeeCrypto} {d : Deployment} {w next : World τ} {action : TaskAction τ}

/-- A step that is not one of the market's own leaves all tasks. -/
theorem exec_foreign (foreign : ∀ msg call, action ≠ .own msg call)
    (run : exec c d w action = .ok next) : next.tasks = w.tasks := by
  cases action with
  | own msg call => exact absurd rfl (foreign msg call)
  | registry msg call =>
    obtain ⟨_, _, rfl⟩ := AIIdentityRegistry.exec_frame run
    rfl
  | elsewhere other =>
    cases run
    rfl

end TaskAction

namespace Devnet

/-- Alice owns 1000, of which the market may pull everything, and the tax rate is 5%. -/
def hiring : World (Traced ERC20) :=
  Deployment.devnet.launch admin teeAuthority 500
    { token := { ERC20.launch Deployment.devnet (fun account => if account = alice then 1000 else 0) 1000 with
        allowance := fun _ _ => uint256Max }
      transfers := [] }

/-- The machine of bob is verified, and alice funds a task and assigns it to mallory. -/
def assignment : List (TaskAction (Traced ERC20)) :=
  [.registry { sender := admin } (.verifyMachine bob 1),
    .own { sender := alice } (.postTask 1000),
    .own { sender := alice } (.fundTask 1),
    .own { sender := alice } (.assignWorker 1 mallory bob),
    .own { sender := mallory } (.submitWork 1 7)]

end Devnet

end Aide
