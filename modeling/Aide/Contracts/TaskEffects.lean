import Aide.Contracts.TaskMarket

namespace Aide.TaskMarket
variable {τ : Type} {d : Deployment} {msg : Msg} {w next : World τ} {taskId : ℕ}

theorem postTask_effect {bounty : ℕ} (run : postTask msg bounty w = .ok next) :
    next = { w with
      tasks := {
        nextTaskId := w.tasks.nextTaskId + 1
        tasks := Function.update w.tasks.tasks w.tasks.nextTaskId
          { publisher := msg.sender, bounty } }
      log := w.log ++ [.taskPosted w.tasks.nextTaskId msg.sender bounty] } := by
  simp only [postTask, bind_eq_ok, pure_eq_ok, checkedAdd_eq_ok] at run
  obtain ⟨_, ⟨_, rfl⟩, rfl⟩ := run
  rfl

/-- The calls that move a task on without moving a token: each keeps the amounts of the task. -/
theorem assignWorker_effect {worker aiPoolRecipient : Address}
    (run : assignWorker msg taskId worker aiPoolRecipient w = .ok next) :
    (w.tasks.tasks taskId).publisher = msg.sender ∧ (w.tasks.tasks taskId).status = .funded ∧
    w.registry.verified aiPoolRecipient = true ∧
    next = (put w taskId { w.tasks.tasks taskId with
      worker, aiPoolRecipient, status := .assigned }).emit
        (.workerAssigned taskId worker aiPoolRecipient) := by
  simp only [assignWorker, bind_eq_ok, pure_eq_ok, require_eq_ok, exists_const] at run
  obtain ⟨publisher, status, verified, rfl⟩ := run
  exact ⟨publisher, status, verified, rfl⟩

theorem submitWork_effect {resultHash : Bytes32}
    (run : submitWork msg taskId resultHash w = .ok next) :
    (w.tasks.tasks taskId).status = .assigned ∧ (w.tasks.tasks taskId).worker = msg.sender ∧
    next = (put w taskId { w.tasks.tasks taskId with resultHash, status := .submitted }).emit
      (.workSubmitted taskId msg.sender resultHash) := by
  simp only [submitWork, bind_eq_ok, pure_eq_ok, require_eq_ok, exists_const] at run
  obtain ⟨status, worker, rfl⟩ := run
  exact ⟨status, worker.symm, rfl⟩

theorem commitZkProof_status {commitment : Bytes32}
    (run : commitZkProof msg taskId commitment w = .ok next) :
    (w.tasks.tasks taskId).status = .submitted ∨ (w.tasks.tasks taskId).status = .assigned := by
  simp only [commitZkProof, bind_eq_ok, require_eq_ok, exists_const] at run
  exact run.1

theorem commitZkProof_effect {commitment : Bytes32}
    (run : commitZkProof msg taskId commitment w = .ok next) :
    next = (put w taskId { w.tasks.tasks taskId with zkProofCommitment := commitment }).emit
      (.zkProofCommitted taskId commitment) := by
  simp only [commitZkProof, bind_eq_ok, pure_eq_ok, require_eq_ok, exists_const] at run
  obtain ⟨_, _, rfl⟩ := run
  rfl

variable [AitToken τ]

theorem fundTask_effect (run : fundTask d msg taskId w = .ok next) :
    (w.tasks.tasks taskId).publisher = msg.sender ∧ (w.tasks.tasks taskId).status = .open ∧
    (w.tasks.tasks taskId).bounty ≠ 0 ∧
    ∃ token, AitToken.transferFrom w.token (w.taxRates d) d.taskMarket msg.sender d.taskMarket
        (w.tasks.tasks taskId).bounty = .ok token ∧
      next = (put { w with token } taskId { w.tasks.tasks taskId with
        lockedAmount := (w.tasks.tasks taskId).bounty, status := .funded }).emit
          (.taskFunded taskId (w.tasks.tasks taskId).bounty) := by
  simp only [fundTask, bind_eq_ok, pure_eq_ok, require_eq_ok, exists_const,
    World.safeTransferFrom_eq_ok] at run
  obtain ⟨publisher, status, bounty, _, ⟨token, pull, rfl⟩, rfl⟩ := run
  exact ⟨publisher, status, bounty, token, pull, rfl⟩

/-- An approval pays the tax and the rest of the locked amount, and empties the task. -/
theorem approveTask_effect (run : approveTask d msg taskId w = .ok next) :
    (w.tasks.tasks taskId).publisher = msg.sender ∧ (w.tasks.tasks taskId).status = .submitted ∧
    (w.tasks.tasks taskId).lockedAmount ≠ 0 ∧
    w.registry.verified (w.tasks.tasks taskId).aiPoolRecipient = true ∧
    ∃ fee taxed token log,
      fee = (w.tasks.tasks taskId).lockedAmount * w.treasury.taxRateBps / 10000 ∧
      fee ≤ (w.tasks.tasks taskId).lockedAmount ∧
      Treasury.Collected d w d.taskMarket fee taxed ∧
      AitToken.transfer taxed (w.taxRates d) d.taskMarket (w.tasks.tasks taskId).aiPoolRecipient
        ((w.tasks.tasks taskId).lockedAmount - fee) = .ok token ∧
      next = { put { w with token } taskId { w.tasks.tasks taskId with
        lockedAmount := 0, status := .completed } with
        log := log ++ [.taskSettled taskId (w.tasks.tasks taskId).aiPoolRecipient
          (w.tasks.tasks taskId).lockedAmount fee
          ((w.tasks.tasks taskId).lockedAmount - fee)] } := by
  simp only [approveTask, settle, bind_eq_ok, pure_eq_ok, require_eq_ok, exists_const,
    checkedSub_eq_ok, World.safeTransfer_eq_ok] at run
  obtain ⟨publisher, status, locked, verified, _, _, ⟨fee, _⟩, collect, _, ⟨feeLe, rfl⟩, _,
    ⟨token, pay, rfl⟩, rfl⟩ := run
  obtain ⟨feeIs, taxed, collected, rfl⟩ := Treasury.collectTax_effect collect
  exact ⟨publisher, status, locked, verified, fee, taxed, token, _, feeIs, feeLe, collected, pay,
    rfl⟩

/-- A cancellation pays back what is locked, if anything is, and empties the task. -/
theorem cancelTask_effect (run : cancelTask d msg taskId w = .ok next) :
    (w.tasks.tasks taskId).publisher = msg.sender ∧
    ((w.tasks.tasks taskId).status ≠ .completed ∧ (w.tasks.tasks taskId).status ≠ .cancelled) ∧
    ∃ token, ((w.tasks.tasks taskId).lockedAmount = 0 ∧ token = w.token ∨
        AitToken.transfer w.token (w.taxRates d) d.taskMarket (w.tasks.tasks taskId).publisher
          (w.tasks.tasks taskId).lockedAmount = .ok token) ∧
      next = (put { w with token } taskId { w.tasks.tasks taskId with
        lockedAmount := 0, status := .cancelled }).emit (.taskCancelled taskId) := by
  simp only [cancelTask, bind_eq_ok, require_eq_ok, exists_const] at run
  obtain ⟨publisher, running, run⟩ := run
  refine ⟨publisher, running, ?_⟩
  split at run
  · simp only [bind_eq_ok, pure_eq_ok, World.safeTransfer_eq_ok] at run
    obtain ⟨_, ⟨token, pay, rfl⟩, rfl⟩ := run
    exact ⟨token, Or.inr pay, rfl⟩
  · rename_i nothing
    cases pure_eq_ok.mp run
    exact ⟨w.token, Or.inl ⟨by omega, rfl⟩, rfl⟩

end Aide.TaskMarket
