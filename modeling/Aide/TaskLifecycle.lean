import Aide.Contracts.TaskRun
import Aide.Escrow
import Aide.Revocation

namespace Aide

open TaskMarket

/-- The moves that the market allows. -/
inductive Status.Moves : Status → Status → Prop
  | fund : Moves .open .funded
  | assign : Moves .funded .assigned
  | submit : Moves .assigned .submitted
  | complete : Moves .submitted .completed
  | cancel (status : Status) (running : status ≠ .completed ∧ status ≠ .cancelled) : Moves status .cancelled

/-- The statuses in which the bounty is in escrow. -/
def Status.Escrowed (status : Status) : Prop :=
  status = .funded ∨ status = .assigned ∨ status = .submitted

/-- What is locked in a task, and what has been paid in and out for it, at each status. -/
def Accounted (t : Task) (funded paid : ℕ) : Prop :=
  match t.status with
  | .open => t.lockedAmount = 0 ∧ funded = 0 ∧ paid = 0
  | .funded | .assigned | .submitted =>
    t.lockedAmount = t.bounty ∧ 0 < t.bounty ∧ funded = t.bounty ∧ paid = 0
  | .completed => t.lockedAmount = 0 ∧ 0 < t.bounty ∧ funded = t.bounty ∧ paid = t.bounty
  | .cancelled => t.lockedAmount = 0 ∧ paid = funded ∧ (funded = 0 ∨ 0 < t.bounty ∧ funded = t.bounty)

/-- The world with what an observer of the token has counted for each task. -/
structure TaskBooks where
  world : World (Traced ERC20)
  funded : ℕ → ℕ
  paid : ℕ → ℕ

namespace TaskBooks

/-- The books of a market that has just been constructed. -/
def opened (w : World (Traced ERC20)) : TaskBooks where
  world := { w with tasks := TaskMarket.constructed }
  funded _ := 0
  paid _ := 0

/-- The step is a call of the market on the task. -/
def concerns (taskId : ℕ) : TaskAction (Traced ERC20) → Bool
  | .own _ call => call.taskId == some taskId
  | _ => false

/-- The step is a call that funds the task. -/
def funds (taskId : ℕ) : TaskAction (Traced ERC20) → Bool
  | .own _ (.fundTask fundedId) => fundedId == taskId
  | _ => false

/-- What the market receives when a task is funded, and whatever it pays in a call on the task, is
counted for that task. -/
def exec (c : TeeCrypto) (d : Deployment) (books : TaskBooks) (action : TaskAction (Traced ERC20)) :
    Except Revert TaskBooks := do
  let world ← TaskAction.exec c d books.world action
  let received := Ledger.total Transfer.dst Transfer.value d.taskMarket (books.world.made world)
  let spent := Ledger.total Transfer.src Transfer.value d.taskMarket (books.world.made world)
  pure {
    world
    funded := fun taskId => books.funded taskId + if funds taskId action then received else 0
    paid := fun taskId => books.paid taskId + if concerns taskId action then spent else 0 }

/-- The calls come from outside the deployment, and what happens elsewhere takes nothing from the
market. -/
def Orderly (d : Deployment) (books : TaskBooks) : TaskAction (Traced ERC20) → Prop
  | .own msg _ => d.Outside msg.sender
  | .registry _ _ => True
  | .elsewhere other => books.world.balanceOf d.taskMarket ≤ other.balanceOf d.taskMarket

variable {c : TeeCrypto} {d : Deployment} {msg : Msg} {call : TaskMarket.Call} {taskId : ℕ} {t : Task}
  {transfers : List Transfer} {w next : World (Traced ERC20)} {funded paid : ℕ}

/-- A call that is not the posting of a task finds it in some status, moves it on and keeps its
books. -/
theorem accounted_of_writes (outside : d.Outside msg.sender) (posted : call.taskId = some taskId)
    (writes : Writes d msg w call taskId t transfers)
    (accounted : Accounted (w.tasks.tasks taskId) funded paid) :
    Accounted t
      (funded + if funds taskId (.own msg call) then
        Ledger.total Transfer.dst Transfer.value d.taskMarket transfers else 0)
      (paid + Ledger.total Transfer.src Transfer.value d.taskMarket transfers) := by
  cases writes with
  | postTask bounty => cases posted
  | fundTask _ publisher status positive =>
    simp only [Accounted, status] at accounted
    obtain ⟨_, rfl, rfl⟩ := accounted
    simp [Accounted, funds, outside.ne_taskMarket, Nat.pos_of_ne_zero positive]
  | assignWorker _ worker aiPoolRecipient publisher status verified =>
    simp only [Accounted, status] at accounted
    simpa [Accounted, funds] using accounted
  | submitWork _ resultHash status =>
    simp only [Accounted, status] at accounted
    simpa [Accounted, funds] using accounted
  | commitZkProof _ commitment status =>
    simpa [Accounted, funds] using accounted
  | approveTask _ taxed publisher status verified feeLe collected =>
    simp only [Accounted, status] at accounted
    obtain ⟨locked, positive, rfl, rfl⟩ := accounted
    simp only [Accounted, funds, Ledger.total_append, spent_of_payment collected, Ledger.total_cons,
      Ledger.total_nil, if_true]
    refine ⟨trivial, positive, rfl, ?_⟩
    omega
  | cancelTask _ _ publisher running refunded =>
    simp only [Accounted, funds, spent_of_payment refunded, Bool.false_eq_true, if_false, Nat.add_zero]
    simp only [Accounted] at accounted
    cases status : (w.tasks.tasks taskId).status with
    | «open» =>
      simp only [status] at accounted
      obtain ⟨locked, rfl, rfl⟩ := accounted
      exact ⟨trivial, by omega, Or.inl rfl⟩
    | funded | assigned | submitted =>
      simp only [status] at accounted
      obtain ⟨locked, positive, rfl, rfl⟩ := accounted
      exact ⟨trivial, by omega, Or.inr ⟨positive, rfl⟩⟩
    | completed => exact absurd status running.1
    | cancelled => exact absurd status running.2

/-- A call that is not the posting of a task moves its status on, or leaves it. -/
theorem moves_of_writes (posted : call.taskId = some taskId)
    (writes : Writes d msg w call taskId t transfers) :
    t.status = (w.tasks.tasks taskId).status ∨ (w.tasks.tasks taskId).status.Moves t.status := by
  cases writes with
  | postTask bounty => cases posted
  | fundTask _ publisher status positive => exact Or.inr (status ▸ .fund)
  | assignWorker _ worker aiPoolRecipient publisher status verified => exact Or.inr (status ▸ .assign)
  | submitWork _ resultHash status => exact Or.inr (status ▸ .submit)
  | commitZkProof _ commitment status => exact Or.inl rfl
  | approveTask _ taxed publisher status verified feeLe collected => exact Or.inr (status ▸ .complete)
  | cancelTask _ _ publisher running refunded => exact Or.inr (.cancel _ running)

/-- What is true of the books at all times. A task that has not been posted reads as the zero task. -/
structure Kept (d : Deployment) (books : TaskBooks) : Prop where
  accounted : ∀ taskId,
    Accounted (books.world.tasks.tasks taskId) (books.funded taskId) (books.paid taskId)
  fresh : ∀ taskId, books.world.tasks.nextTaskId ≤ taskId → books.world.tasks.tasks taskId = {}
  covered : Ledger.Backed (fun taskId => (books.world.tasks.tasks taskId).lockedAmount)
    (books.world.balanceOf d.taskMarket)

/-- A call writes the next task, which it posts, or a task that it is about. -/
theorem writes_cases (writes : Writes d msg w call taskId t transfers) :
    (∃ bounty, call = .postTask bounty ∧ taskId = w.tasks.nextTaskId ∧
      t = { publisher := msg.sender, bounty } ∧ transfers = []) ∨
    call.taskId = some taskId ∧ call.nextTaskId w = w.tasks.nextTaskId := by
  cases writes with
  | postTask bounty => exact Or.inl ⟨bounty, rfl, rfl, rfl, rfl⟩
  | fundTask | assignWorker | submitWork | commitZkProof | approveTask | cancelTask =>
    exact Or.inr ⟨rfl, rfl⟩

/-- A task that a call is about has been posted. -/
theorem posted_of_writes (outside : d.Outside msg.sender) (posted : call.taskId = some taskId)
    (writes : Writes d msg w call taskId t transfers) : w.tasks.tasks taskId ≠ {} := by
  intro unposted
  cases writes with
  | postTask bounty => cases posted
  | fundTask _ publisher | assignWorker _ _ _ publisher | approveTask _ _ publisher
  | cancelTask _ _ publisher =>
    rw [unposted] at publisher
    exact outside.1 publisher.symm
  | submitWork _ _ status =>
    rw [unposted] at status
    cases status
  | commitZkProof _ _ status =>
    rw [unposted] at status
    simp at status

/-- The books after a call of the market. -/
theorem exec_own {books after : TaskBooks} (run : exec c d books (.own msg call) = .ok after) :
    ∃ written t transfers, Writes d msg books.world call written t transfers ∧
      after.world.tasks = {
        nextTaskId := call.nextTaskId books.world
        tasks := Function.update books.world.tasks.tasks written t } ∧
      after.world.balanceOf d.taskMarket +
          Ledger.total Transfer.src Transfer.value d.taskMarket transfers =
        books.world.balanceOf d.taskMarket +
          Ledger.total Transfer.dst Transfer.value d.taskMarket transfers ∧
      (after.funded = fun taskId => books.funded taskId + if funds taskId (.own msg call) then
        Ledger.total Transfer.dst Transfer.value d.taskMarket transfers else 0) ∧
      after.paid = fun taskId => books.paid taskId + if concerns taskId (.own msg call) then
        Ledger.total Transfer.src Transfer.value d.taskMarket transfers else 0 := by
  simp only [exec, bind_eq_ok, pure_eq_ok] at run
  obtain ⟨world, taken, rfl⟩ := run
  obtain ⟨written, t, transfers, token, log, writes, performed, rfl⟩ := exec_writes taken
  rw [performed.made]
  exact ⟨written, t, transfers, writes, rfl, performed.untraced.balance d.taskMarket, rfl, rfl⟩

/-- The books after any other step. -/
theorem exec_foreign {books after : TaskBooks} {action : TaskAction (Traced ERC20)}
    (foreign : ∀ msg call, action ≠ .own msg call) (run : exec c d books action = .ok after) :
    after.world.tasks = books.world.tasks ∧ after.funded = books.funded ∧ after.paid = books.paid := by
  simp only [exec, bind_eq_ok, pure_eq_ok] at run
  obtain ⟨world, taken, rfl⟩ := run
  have uncounted : ∀ taskId, concerns taskId action = false ∧ funds taskId action = false := by
    intro taskId
    cases action with
    | own msg call => exact absurd rfl (foreign msg call)
    | registry msg call => exact ⟨rfl, rfl⟩
    | elsewhere other => exact ⟨rfl, rfl⟩
  refine ⟨TaskAction.exec_foreign foreign taken, ?_, ?_⟩
  · simp [uncounted]
  · simp [uncounted]

/-- A call keeps the books of every task. -/
theorem accounted_own {books after : TaskBooks} (outside : d.Outside msg.sender) (kept : Kept d books)
    (run : exec c d books (.own msg call) = .ok after) (taskId : ℕ) :
    Accounted (after.world.tasks.tasks taskId) (after.funded taskId) (after.paid taskId) := by
  obtain ⟨written, t, transfers, writes, effect, _, funded, paid⟩ := exec_own run
  have before := kept.accounted taskId
  rw [effect, funded, paid]
  rcases writes_cases writes with ⟨bounty, rfl, rfl, rfl, rfl⟩ | ⟨posted, _⟩
  · simp only [concerns, funds, TaskMarket.Call.taskId]
    by_cases same : taskId = books.world.tasks.nextTaskId
    · subst same
      rw [kept.fresh _ le_rfl] at before
      simpa [Accounted] using before
    · simpa [Function.update_of_ne same] using before
  · by_cases same : taskId = written
    · subst same
      simp only [concerns, posted, Function.update_self]
      simpa using accounted_of_writes outside posted writes before
    · have other : concerns taskId (.own msg call) = false := by
        simp [concerns, posted, Ne.symm same]
      have unfunded : funds taskId (.own msg call) = false := by
        cases writes with
        | fundTask => simp [funds, Ne.symm same]
        | postTask | assignWorker | submitWork | commitZkProof | approveTask | cancelTask => rfl
      simpa [other, unfunded, Function.update_of_ne same] using before

theorem fresh_own {books after : TaskBooks} (outside : d.Outside msg.sender) (kept : Kept d books)
    (run : exec c d books (.own msg call) = .ok after) :
    ∀ taskId, after.world.tasks.nextTaskId ≤ taskId → after.world.tasks.tasks taskId = {} := by
  obtain ⟨written, t, transfers, writes, effect, _⟩ := exec_own run
  rw [effect]
  rintro taskId unposted
  rcases writes_cases writes with ⟨bounty, rfl, rfl, rfl, rfl⟩ | ⟨posted, next⟩
  · have later : books.world.tasks.nextTaskId + 1 ≤ taskId := unposted
    show Function.update books.world.tasks.tasks books.world.tasks.nextTaskId _ taskId = {}
    rw [Function.update_of_ne (by omega)]
    exact kept.fresh taskId (by omega)
  · have free : books.world.tasks.nextTaskId ≤ taskId := next ▸ unposted
    show Function.update books.world.tasks.tasks written t taskId = {}
    have apart : taskId ≠ written := by
      rintro rfl
      exact posted_of_writes outside posted writes (kept.fresh taskId free)
    rw [Function.update_of_ne apart]
    exact kept.fresh taskId free

theorem covered_own {books after : TaskBooks} (outside : d.Outside msg.sender) (kept : Kept d books)
    (run : exec c d books (.own msg call) = .ok after) :
    Ledger.Backed (fun taskId => (after.world.tasks.tasks taskId).lockedAmount)
      (after.world.balanceOf d.taskMarket) := by
  obtain ⟨written, t, transfers, writes, effect, moved, _⟩ := exec_own run
  have settled := kept.covered.settle (locked_of_writes outside writes) moved
  rw [← lockedAmount_update] at settled
  rw [effect]
  exact settled

/-- One step keeps the books. -/
theorem Kept.exec {books after : TaskBooks} {action : TaskAction (Traced ERC20)} (kept : Kept d books)
    (orderly : Orderly d books action) (run : TaskBooks.exec c d books action = .ok after) :
    Kept d after := by
  cases action with
  | own msg call =>
    exact ⟨accounted_own orderly kept run, fresh_own orderly kept run, covered_own orderly kept run⟩
  | registry msg call =>
    obtain ⟨tasks, funded, paid⟩ := exec_foreign (by rintro _ _ ⟨⟩) run
    simp only [TaskBooks.exec, TaskAction.exec, bind_eq_ok, pure_eq_ok] at run
    obtain ⟨world, taken, rfl⟩ := run
    obtain ⟨_, _, rfl⟩ := AIIdentityRegistry.exec_frame taken
    exact ⟨by rw [funded, paid]; exact kept.accounted, kept.fresh, kept.covered⟩
  | elsewhere other =>
    obtain ⟨tasks, funded, paid⟩ := exec_foreign (by rintro _ _ ⟨⟩) run
    have balance : after.world.balanceOf d.taskMarket = other.balanceOf d.taskMarket := by
      simp only [TaskBooks.exec, TaskAction.exec, bind_eq_ok, pure_eq_ok] at run
      obtain ⟨_, taken, rfl⟩ := run
      cases taken
      rfl
    refine ⟨?_, ?_, ?_⟩
    · rw [tasks, funded, paid]
      exact kept.accounted
    · rw [tasks]
      exact kept.fresh
    · rw [tasks, balance]
      exact kept.covered.mono orderly

theorem opened_kept (w : World (Traced ERC20)) : Kept d (opened w) where
  accounted _ := ⟨rfl, rfl, rfl⟩
  fresh _ _ := rfl
  covered := Ledger.Backed.zero _

/-- One step moves the status of each task on, or leaves it. -/
theorem status_moves {books after : TaskBooks} {action : TaskAction (Traced ERC20)}
    (kept : Kept d books) (run : exec c d books action = .ok after) (taskId : ℕ) :
    (after.world.tasks.tasks taskId).status = (books.world.tasks.tasks taskId).status ∨
      (books.world.tasks.tasks taskId).status.Moves (after.world.tasks.tasks taskId).status := by
  cases action with
  | own msg call =>
    obtain ⟨written, t, transfers, writes, effect, _⟩ := exec_own run
    rw [effect]
    by_cases same : taskId = written
    · subst same
      simp only [Function.update_self]
      rcases writes_cases writes with ⟨bounty, rfl, rfl, rfl, rfl⟩ | ⟨posted, _⟩
      · exact Or.inl (by rw [kept.fresh _ le_rfl])
      · exact moves_of_writes posted writes
    · simp only [Function.update_of_ne same]
      exact Or.inl trivial
  | registry msg call => exact Or.inl (by rw [(exec_foreign (by rintro _ _ ⟨⟩) run).1])
  | elsewhere other => exact Or.inl (by rw [(exec_foreign (by rintro _ _ ⟨⟩) run).1])

end TaskBooks

/-- What the books say of one task, spelled out. -/
theorem Accounted.spelled {t : Task} {funded paid : ℕ} (accounted : Accounted t funded paid) :
    (0 < t.lockedAmount ↔ t.status.Escrowed) ∧ (0 < t.lockedAmount → t.lockedAmount = t.bounty) ∧
      (funded = 0 ∨ funded = t.bounty) ∧ (t.status.Escrowed ∨ t.status = .completed → funded = t.bounty) ∧
      paid = if t.status = .completed ∨ t.status = .cancelled then funded else 0 := by
  simp only [Accounted] at accounted
  cases status : t.status with
  | «open» =>
    simp only [status] at accounted
    obtain ⟨unlocked, rfl, rfl⟩ := accounted
    simp [Status.Escrowed, unlocked]
  | funded | assigned | submitted =>
    simp only [status] at accounted
    obtain ⟨locked, positive, rfl, rfl⟩ := accounted
    simp [Status.Escrowed, locked, positive]
  | completed =>
    simp only [status] at accounted
    obtain ⟨unlocked, positive, rfl, rfl⟩ := accounted
    simp [Status.Escrowed, unlocked]
  | cancelled =>
    simp only [status] at accounted
    obtain ⟨unlocked, rfl, all⟩ := accounted
    have bounded : paid = 0 ∨ paid = t.bounty := all.imp_right And.right
    simp [Status.Escrowed, unlocked, bounded]

/-- The life of a task in an exact token, whatever the tax rate and the registry do meanwhile: what is
locked is the bounty while the task is in escrow and nothing else, the market can pay all of it, the
status moves in one direction only, and what was funded is paid out once, at the end. -/
theorem tasks_keep_their_escrow {c : TeeCrypto} {d : Deployment} (w : World (Traced ERC20))
    {run : List (TaskAction (Traced ERC20))} {books : TaskBooks}
    (orderly : TransitionRun.Meets (TaskBooks.exec c d) (TaskBooks.Orderly d) (TaskBooks.opened w) run)
    (reaches : TransitionRun.exec (TaskBooks.exec c d) (TaskBooks.opened w) run = books) :
    (∀ taskId, let t := books.world.tasks.tasks taskId
      (0 < t.lockedAmount ↔ t.status.Escrowed) ∧ (0 < t.lockedAmount → t.lockedAmount = t.bounty) ∧
      (books.funded taskId = 0 ∨ books.funded taskId = t.bounty) ∧
      (t.status.Escrowed ∨ t.status = .completed → books.funded taskId = t.bounty) ∧
      books.paid taskId =
        if t.status = .completed ∨ t.status = .cancelled then books.funded taskId else 0) ∧
    Ledger.Backed (fun taskId => (books.world.tasks.tasks taskId).lockedAmount)
      (books.world.balanceOf d.taskMarket) ∧
    ∀ action after, TaskBooks.exec c d books action = .ok after → ∀ taskId,
      (after.world.tasks.tasks taskId).status = (books.world.tasks.tasks taskId).status ∨
        (books.world.tasks.tasks taskId).status.Moves (after.world.tasks.tasks taskId).status := by
  have kept : TaskBooks.Kept d (TransitionRun.exec (TaskBooks.exec c d) (TaskBooks.opened w) run) :=
    TransitionRun.exec_preserves (fun _ _ _ kept orderly taken => kept.exec orderly taken)
      (TaskBooks.opened_kept w) orderly
  rw [reaches] at kept
  exact ⟨fun taskId => (kept.accounted taskId).spelled, kept.covered,
    fun _ _ taken taskId => TaskBooks.status_moves kept taken taskId⟩

namespace Devnet

/-- Alice approves the work of mallory. -/
def approval : List (TaskAction (Traced ERC20)) :=
  assignment ++ [.own { sender := alice } (.approveTask 1)]

def approvedBooks : TaskBooks :=
  TransitionRun.exec (TaskBooks.exec teeCrypto Deployment.devnet) (TaskBooks.opened hiring) approval

end Devnet

open Devnet in
theorem approved_task_is_paid :
    approvedBooks.paid 1 = 1000 ∧
      Ledger.Backed (fun taskId => (approvedBooks.world.tasks.tasks taskId).lockedAmount)
        (approvedBooks.world.balanceOf Deployment.devnet.taskMarket) := by
  have outsideAlice : Deployment.devnet.Outside alice := by decide
  have outsideMallory : Deployment.devnet.Outside mallory := by decide
  have orderly : TransitionRun.Meets (TaskBooks.exec teeCrypto Deployment.devnet)
      (TaskBooks.Orderly Deployment.devnet) (TaskBooks.opened hiring) approval :=
    ⟨trivial, outsideAlice, outsideAlice, outsideAlice, outsideMallory, outsideAlice, trivial⟩
  obtain ⟨tasks, covered, _⟩ := tasks_keep_their_escrow hiring orderly (Eq.refl approvedBooks)
  obtain ⟨_, _, _, funded, paid⟩ := tasks 1
  have completed : (approvedBooks.world.tasks.tasks 1).status = .completed := rfl
  refine ⟨paid.trans ?_, covered⟩
  rw [if_pos (Or.inl completed), funded (Or.inr completed)]
  rfl

end Aide
