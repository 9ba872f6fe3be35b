import Aide.Contracts.AIIdentityRegistry
import Aide.Contracts.Treasury

namespace Aide.TaskMarket
variable {τ : Type} [AitToken τ]

/-- Write one task. -/
def put (w : World τ) (taskId : ℕ) (task : Task) : World τ :=
  { w with tasks := { w.tasks with tasks := Function.update w.tasks.tasks taskId task } }

def postTask (msg : Msg) (bounty : ℕ) (w : World τ) : Except Revert (World τ) := do
  let taskId := w.tasks.nextTaskId
  let nextTaskId ← checkedAdd taskId 1
  let w : World τ := { w with tasks := { w.tasks with nextTaskId } }
  pure ((put w taskId { publisher := msg.sender, bounty }).emit
    (.taskPosted taskId msg.sender bounty))

def fundTask (d : Deployment) (msg : Msg) (taskId : ℕ) (w : World τ) : Except Revert (World τ) := do
  let t := w.tasks.tasks taskId
  require (t.publisher = msg.sender) .notPublisher
  require (t.status = .open) .badStatus
  require (t.bounty ≠ 0) .badStatus
  let w ← w.safeTransferFrom d d.taskMarket msg.sender d.taskMarket t.bounty
  pure ((put w taskId { t with lockedAmount := t.bounty, status := .funded }).emit
    (.taskFunded taskId t.bounty))

def assignWorker (msg : Msg) (taskId : ℕ) (worker aiPoolRecipient : Address) (w : World τ) :
    Except Revert (World τ) := do
  let t := w.tasks.tasks taskId
  require (t.publisher = msg.sender) .notPublisher
  require (t.status = .funded) .badStatus
  require (AIIdentityRegistry.isVerifiedMachine w aiPoolRecipient) .aiPoolRecipientNotVerified
  pure ((put w taskId { t with worker, aiPoolRecipient, status := .assigned }).emit
    (.workerAssigned taskId worker aiPoolRecipient))

def submitWork (msg : Msg) (taskId : ℕ) (resultHash : Bytes32) (w : World τ) :
    Except Revert (World τ) := do
  let t := w.tasks.tasks taskId
  require (t.status = .assigned) .badStatus
  require (msg.sender = t.worker) .notWorker
  pure ((put w taskId { t with resultHash, status := .submitted }).emit
    (.workSubmitted taskId msg.sender resultHash))

def commitZkProof (msg : Msg) (taskId : ℕ) (commitment : Bytes32) (w : World τ) :
    Except Revert (World τ) := do
  let t := w.tasks.tasks taskId
  require (t.status = .submitted ∨ t.status = .assigned) .badStatus
  require (msg.sender = t.worker ∨ msg.sender = t.publisher) .notWorker
  pure ((put w taskId { t with zkProofCommitment := commitment }).emit
    (.zkProofCommitted taskId commitment))

/-- `_settle`: tax from the escrow, the rest to the recipient. -/
def settle (d : Deployment) (taskId : ℕ) (w : World τ) : Except Revert (World τ) := do
  let t := w.tasks.tasks taskId
  let gross := t.lockedAmount
  require (gross ≠ 0) .badStatus
  require (AIIdentityRegistry.isVerifiedMachine w t.aiPoolRecipient) .aiPoolRecipientNotVerified
  w.requireRunning d
  let (fee, w) ← Treasury.collectTax d d.taskMarket d.taskMarket gross w
  let net ← checkedSub gross fee
  let w := put w taskId { t with lockedAmount := 0, status := .completed }
  let w ← w.safeTransfer d d.taskMarket t.aiPoolRecipient net
  pure (w.emit (.taskSettled taskId t.aiPoolRecipient gross fee net))

def approveTask (d : Deployment) (msg : Msg) (taskId : ℕ) (w : World τ) :
    Except Revert (World τ) := do
  let t := w.tasks.tasks taskId
  require (t.publisher = msg.sender) .notPublisher
  require (t.status = .submitted) .badStatus
  settle d taskId (w.emit (.taskApproved taskId msg.sender))

def cancelTask (d : Deployment) (msg : Msg) (taskId : ℕ) (w : World τ) :
    Except Revert (World τ) := do
  let t := w.tasks.tasks taskId
  require (t.publisher = msg.sender) .notPublisher
  require (t.status ≠ .completed ∧ t.status ≠ .cancelled) .badStatus
  let w := put w taskId { t with lockedAmount := 0, status := .cancelled }
  if 0 < t.lockedAmount then do
    let w ← w.safeTransfer d d.taskMarket t.publisher t.lockedAmount
    pure (w.emit (.taskCancelled taskId))
  else
    pure (w.emit (.taskCancelled taskId))

inductive Call
  | postTask (bounty : ℕ)
  | fundTask (taskId : ℕ)
  | assignWorker (taskId : ℕ) (worker aiPoolRecipient : Address)
  | submitWork (taskId : ℕ) (resultHash : Bytes32)
  | commitZkProof (taskId : ℕ) (commitment : Bytes32)
  | approveTask (taskId : ℕ)
  | cancelTask (taskId : ℕ)

def exec (d : Deployment) (msg : Msg) : Call → World τ → Except Revert (World τ)
  | .postTask bounty, w => postTask msg bounty w
  | .fundTask taskId, w => fundTask d msg taskId w
  | .assignWorker taskId worker aiPoolRecipient, w =>
    assignWorker msg taskId worker aiPoolRecipient w
  | .submitWork taskId resultHash, w => submitWork msg taskId resultHash w
  | .commitZkProof taskId commitment, w => commitZkProof msg taskId commitment w
  | .approveTask taskId, w => approveTask d msg taskId w
  | .cancelTask taskId, w => cancelTask d msg taskId w

end Aide.TaskMarket
