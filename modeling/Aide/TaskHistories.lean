import Aide.LogReplay

namespace Aide

/-- The task that a log is about. -/
def Event.task : Event → Option ℕ
  | .taskPosted taskId .. | .taskFunded taskId _ | .workerAssigned taskId .. | .workSubmitted taskId ..
  | .zkProofCommitted taskId _ | .taskApproved taskId _ | .taskSettled taskId .. | .taskCancelled taskId =>
    some taskId
  | _ => none

/-- What the logs of a task have told so far: nothing, the task, or the task once its publisher has approved
it and its settlement is still to come. -/
inductive TaskStory
  | unposted
  | posted (task : Task)
  | approved (task : Task)

/-- One task as its own logs tell it. An approval is followed by the settlement and by nothing else. -/
def taskHistory : Journal TaskStory Event where
  admits
    | .unposted, .taskPosted .. => True
    | .posted t, .taskFunded _ lockedAmount =>
      t.status = .open ∧ lockedAmount = t.bounty ∧ lockedAmount ≠ 0
    | .posted t, .workerAssigned .. => t.status = .funded
    | .posted t, .workSubmitted _ worker _ => t.status = .assigned ∧ worker = t.worker
    | .posted t, .zkProofCommitted .. => t.status = .submitted ∨ t.status = .assigned
    | .posted t, .taskApproved _ approver => t.status = .submitted ∧ approver = t.publisher
    | .posted t, .taskCancelled _ => t.status ≠ .completed ∧ t.status ≠ .cancelled
    | .approved t, .taskSettled _ aiPoolRecipient grossAmount fee netToAiPool =>
      t.status = .submitted ∧ aiPoolRecipient = t.aiPoolRecipient ∧ grossAmount = t.lockedAmount ∧
        grossAmount ≠ 0 ∧ netToAiPool + fee = grossAmount
    | _, _ => False
  read
    | _, .taskPosted _ publisher bounty => .posted { publisher, bounty }
    | .posted t, .taskFunded _ lockedAmount => .posted { t with lockedAmount, status := .funded }
    | .posted t, .workerAssigned _ worker aiPoolRecipient =>
      .posted { t with worker, aiPoolRecipient, status := .assigned }
    | .posted t, .workSubmitted _ _ resultHash => .posted { t with resultHash, status := .submitted }
    | .posted t, .zkProofCommitted _ commitment => .posted { t with zkProofCommitment := commitment }
    | .posted t, .taskApproved .. => .approved t
    | .posted t, .taskCancelled _ => .posted { t with lockedAmount := 0, status := .cancelled }
    | .approved t, .taskSettled .. => .posted { t with lockedAmount := 0, status := .completed }
    | story, _ => story

namespace TaskStory

/-- Who has posted the task, and for how much. -/
def terms : TaskStory → Option (Address × ℕ)
  | .unposted => none
  | .posted t | .approved t => some (t.publisher, t.bounty)

variable {story : TaskStory} {e : Event} {entries : List Event}

/-- The terms of a task are those of its posting. -/
theorem terms_read (admits : taskHistory.admits story e) :
    (∃ taskId publisher bounty, e = .taskPosted taskId publisher bounty ∧
      (taskHistory.read story e).terms = some (publisher, bounty)) ∨
    (taskHistory.read story e).terms = story.terms := by
  cases story with
  | unposted =>
    cases e with
    | taskPosted taskId publisher bounty => exact Or.inl ⟨taskId, publisher, bounty, rfl, rfl⟩
    | _ => exact admits.elim
  | posted t =>
    cases e with
    | taskFunded | workerAssigned | workSubmitted | zkProofCommitted | taskApproved | taskCancelled =>
      exact Or.inr rfl
    | _ => exact admits.elim
  | approved t =>
    cases e with
    | taskSettled => exact Or.inr rfl
    | _ => exact admits.elim

theorem posted_of_terms (admitted : taskHistory.Admitted .unposted entries) {publisher : Address}
    {bounty : ℕ} (terms : (taskHistory.replay .unposted entries).terms = some (publisher, bounty)) :
    ∃ taskId, .taskPosted taskId publisher bounty ∈ entries := by
  induction entries using List.reverseRecOn with
  | nil => cases terms
  | append_singleton entries e ih =>
    obtain ⟨earlier, admits, _⟩ := Journal.admitted_append.mp admitted
    rw [Journal.replay_append, Journal.replay_cons, Journal.replay_nil] at terms
    rcases terms_read admits with ⟨taskId, _, _, rfl, posted⟩ | kept
    · rw [posted] at terms
      cases terms
      exact ⟨taskId, by simp⟩
    · obtain ⟨taskId, member⟩ := ih earlier (kept ▸ terms)
      exact ⟨taskId, List.mem_append_left _ member⟩

/-- A task is approved where its approval is the last of its logs. -/
theorem approval_last {t : Task} (admitted : taskHistory.Admitted .unposted entries)
    (approved : taskHistory.replay .unposted entries = .approved t) :
    ∃ earlier taskId, entries = earlier ++ [.taskApproved taskId t.publisher] ∧
      taskHistory.Admitted .unposted earlier ∧ taskHistory.replay .unposted earlier = .posted t := by
  rcases List.eq_nil_or_concat' entries with rfl | ⟨earlier, e, rfl⟩
  · cases approved
  obtain ⟨before, admits, _⟩ := Journal.admitted_append.mp admitted
  rw [Journal.replay_append, Journal.replay_cons, Journal.replay_nil] at approved
  cases story : taskHistory.replay .unposted earlier with
  | unposted =>
    rw [story] at admits approved
    cases e with
    | taskPosted => cases approved
    | _ => exact admits.elim
  | posted t =>
    rw [story] at admits approved
    cases e with
    | taskApproved taskId approver =>
      cases approved
      obtain ⟨_, rfl⟩ := admits
      exact ⟨earlier, taskId, rfl, before, story⟩
    | taskFunded | workerAssigned | workSubmitted | zkProofCommitted | taskCancelled => cases approved
    | _ => exact admits.elim
  | approved t =>
    rw [story] at admits approved
    cases e with
    | taskSettled => cases approved
    | _ => exact admits.elim

/-- What is settled has just been approved by the account that posted it. -/
theorem approved_of_settled {before after : List Event} {taskId : ℕ} {aiPoolRecipient : Address}
    {grossAmount fee netToAiPool : ℕ}
    (admitted : taskHistory.Admitted .unposted
      (before ++ .taskSettled taskId aiPoolRecipient grossAmount fee netToAiPool :: after)) :
    ∃ earlier approved posted publisher bounty, before = earlier ++ [.taskApproved approved publisher] ∧
      .taskPosted posted publisher bounty ∈ earlier := by
  have admits := admitted.admits
  cases story : taskHistory.replay .unposted before with
  | unposted | posted =>
    rw [story] at admits
    exact admits.elim
  | approved t =>
    obtain ⟨earlier, approved, rfl, told, posted⟩ :=
      approval_last (Journal.admitted_append.mp admitted).1 story
    have terms : (taskHistory.replay .unposted earlier).terms = some (t.publisher, t.bounty) := by
      rw [posted]
      rfl
    obtain ⟨id, member⟩ := posted_of_terms told terms
    exact ⟨earlier, approved, id, t.publisher, t.bounty, rfl, member⟩

end TaskStory

namespace Books
variable {b : Books} {c : TeeCrypto} {d : Deployment} {e : Event} {taskId : ℕ}

/-- What the books tell about a task. -/
def story (b : Books) (taskId : ℕ) : TaskStory :=
  if b.Posted taskId then
    if b.approved = some taskId then .approved (b.tasks.tasks taskId) else .posted (b.tasks.tasks taskId)
  else .unposted

theorem story_of_posted (idle : b.approved = none) (posted : b.Posted taskId) :
    b.story taskId = .posted (b.tasks.tasks taskId) := by
  simp [story, idle, posted]

theorem story_of_approved (approved : b.approved = some taskId) (posted : b.Posted taskId) :
    b.story taskId = .approved (b.tasks.tasks taskId) := by
  simp [story, approved, posted]

theorem story_congr {later : Books} (task : later.tasks.tasks taskId = b.tasks.tasks taskId)
    (posted : later.Posted taskId ↔ b.Posted taskId)
    (approved : later.approved = some taskId ↔ b.approved = some taskId) :
    later.story taskId = b.story taskId := by
  simp only [story, task, posted, approved]

/-- A task that has just been written. -/
theorem story_of_written {later : Books} {t : Task} (idle : later.approved = none)
    (posted : later.Posted taskId) (tasks : later.tasks.tasks = Function.update b.tasks.tasks taskId t) :
    later.story taskId = .posted t := by
  rw [story_of_posted idle posted, tasks, Function.update_self]

theorem story_putTask_ne {other : ℕ} (apart : taskId ≠ other) (t : Task) :
    (b.putTask other t).story taskId = b.story taskId :=
  story_congr (Function.update_of_ne apart ..) Iff.rfl Iff.rfl

/-- A log about another task, or about none, leaves the story of a task as it is. -/
theorem story_of_other (other : e.task ≠ some taskId) (admits : (journal c d).admits b e) :
    ((journal c d).read b e).story taskId = b.story taskId := by
  cases e with
  | taskPosted id publisher bounty =>
    obtain ⟨_, rfl⟩ := admits
    have apart : taskId ≠ b.tasks.nextTaskId := fun same => other (congrArg some same.symm)
    refine story_congr (Function.update_of_ne apart ..) (and_congr_right fun _ => ?_) Iff.rfl
    show taskId < b.tasks.nextTaskId + 1 ↔ taskId < b.tasks.nextTaskId
    omega
  | taskFunded id _ | workerAssigned id _ _ | workSubmitted id _ _ | zkProofCommitted id _
  | taskCancelled id => exact story_putTask_ne (fun same => other (congrArg some same.symm)) _
  | taskApproved id approver =>
    refine story_congr rfl Iff.rfl (iff_of_false other ?_)
    rw [admits.1]
    exact nofun
  | taskSettled id _ _ _ _ =>
    refine story_congr (Function.update_of_ne (fun same => other (congrArg some same.symm)) ..) Iff.rfl
      (iff_of_false nofun ?_)
    rw [admits.1]
    exact other
  | _ => rfl

/-- A log about a task is allowed by what its own logs tell about it, and does to it what they say. -/
theorem story_of_own (sound : b.Sound) (own : e.task = some taskId) (admits : (journal c d).admits b e) :
    taskHistory.admits (b.story taskId) e ∧
      ((journal c d).read b e).story taskId = taskHistory.read (b.story taskId) e := by
  cases e with
  | taskPosted id publisher bounty =>
    cases own
    obtain ⟨idle, rfl⟩ := admits
    have fresh : b.story b.tasks.nextTaskId = .unposted := if_neg fun posted => lt_irrefl _ posted.2
    rw [fresh]
    exact ⟨trivial, story_of_written idle ⟨sound.numbered, Nat.lt_succ_self _⟩ rfl⟩
  | taskFunded id lockedAmount =>
    cases own
    obtain ⟨idle, status, bounty, positive⟩ := admits
    have posted := sound.posted fun fresh => positive (bounty.trans (by rw [fresh]))
    rw [story_of_posted idle posted]
    exact ⟨⟨status, bounty, positive⟩, story_of_written idle posted rfl⟩
  | workerAssigned id worker aiPoolRecipient =>
    cases own
    obtain ⟨idle, status, _⟩ := admits
    have posted := sound.begun status (by simp)
    rw [story_of_posted idle posted]
    exact ⟨status, story_of_written idle posted rfl⟩
  | workSubmitted id worker resultHash =>
    cases own
    obtain ⟨idle, status, worker⟩ := admits
    have posted := sound.begun status (by simp)
    rw [story_of_posted idle posted]
    exact ⟨⟨status, worker⟩, story_of_written idle posted rfl⟩
  | zkProofCommitted id commitment =>
    cases own
    obtain ⟨idle, status⟩ := admits
    have posted : b.Posted taskId := by
      rcases status with submitted | assigned
      · exact sound.begun submitted (by simp)
      · exact sound.begun assigned (by simp)
    rw [story_of_posted idle posted]
    exact ⟨status, story_of_written idle posted rfl⟩
  | taskApproved id approver =>
    cases own
    obtain ⟨idle, status, publisher⟩ := admits
    have posted := sound.begun status (by simp)
    rw [story_of_posted idle posted]
    exact ⟨⟨status, publisher⟩, story_of_approved rfl posted⟩
  | taskSettled id aiPoolRecipient grossAmount fee netToAiPool =>
    cases own
    obtain ⟨approved, status, recipient, _, gross, positive, _, net, _⟩ := admits
    have posted := sound.begun status (by simp)
    rw [story_of_approved approved posted]
    exact ⟨⟨status, recipient, gross, positive, net⟩, story_of_written rfl posted rfl⟩
  | taskCancelled id =>
    cases own
    obtain ⟨idle, posted, running⟩ := admits
    rw [story_of_posted idle posted]
    exact ⟨running, story_of_written idle posted rfl⟩
  | _ => cases own

/-- The logs of one task tell its history, and no other log has a part in it. -/
theorem projects_story (taskId : ℕ) : Journal.Projects (journal c d) taskHistory Sound (story · taskId)
    (Option.guard fun e => e.task = some taskId) where
  skips b e _ admits unread := by
    refine story_of_other (fun own => ?_) admits
    simp [Option.guard, own] at unread
  admits b e e' sound admits read := by
    obtain ⟨same, own⟩ := Option.guard_eq_some_iff.mp read
    subst same
    exact story_of_own sound (of_decide_eq_true own) admits

end Books

/-- The life of a task can be read off its own logs. Of every run, the logs about one task are the history of
one task: it is posted, funded with its bounty, assigned, worked on, approved by its publisher and settled in
this order, each at most once, or cancelled on the way, and after it has been settled or cancelled there is no
further log about it. Right before a settlement stands its approval by the account that posted the task. -/
theorem task_history {env : System.Environment} (acts : System.ActsByCalls env.crypto d d.Outside env.foreign)
    (admin teeAuthority : Address) (taxRateBps : ℕ) (token : AIToken) (run : List (Msg × System.Call))
    (outsiders : ∀ tx ∈ run, d.Outside tx.1.sender) (taskId : ℕ) :
    let final := TransitionRun.exec (System.exec env d) (d.launch admin teeAuthority taxRateBps token) run
    let logs := final.log.filter fun e => e.task = some taskId
    taskHistory.Tells .unposted logs (final.books.story taskId) ∧
      ∀ before after aiPoolRecipient grossAmount fee netToAiPool,
        logs = before ++ .taskSettled taskId aiPoolRecipient grossAmount fee netToAiPool :: after →
        ∃ earlier publisher bounty, before = earlier ++ [.taskApproved taskId publisher] ∧
          .taskPosted taskId publisher bounty ∈ earlier := by
  intro final logs
  have tells := System.run_tells acts (launch_sound d admin teeAuthority taxRateBps token) rfl outsiders
  have history := tells.project (Books.projects_story taskId) (fun _ _ sound admits => sound.read admits)
    (launch_sound ..)
  have unposted : (d.launch admin teeAuthority taxRateBps token).books.story taskId = .unposted :=
    if_neg fun posted => posted.1 (Nat.lt_one_iff.mp posted.2)
  rw [unposted, List.filterMap_eq_filter] at history
  refine ⟨history, fun before after aiPoolRecipient grossAmount fee netToAiPool split => ?_⟩
  have admitted : taskHistory.Admitted .unposted logs := history.admitted
  rw [split] at admitted
  obtain ⟨earlier, approved, posted, publisher, bounty, rfl, member⟩ :=
    TaskStory.approved_of_settled admitted
  -- Both logs are among those about the task.
  have about : ∀ e ∈ earlier ++ [.taskApproved approved publisher], e.task = some taskId := by
    intro e listed
    have among : e ∈ logs := split ▸ List.mem_append_left _ listed
    simpa using (List.mem_filter.mp among).2
  cases about (.taskApproved approved publisher) (by simp)
  cases about (.taskPosted posted publisher bounty) (by simp [member])
  exact ⟨earlier, publisher, bounty, rfl, member⟩

namespace Devnet

def aliceOwns : AIToken :=
  AIToken.launch Deployment.devnet admin (fun account => if account = alice then 1000 else 0) 1000

/-- Alice posts and funds a task, mallory does the work for the pool of bob, and alice approves it. -/
def workday : List (Msg × System.Call) :=
  [({ sender := admin }, .registry (.verifyMachine bob 1)),
    ({ sender := alice }, .token (.approve Deployment.devnet.taskMarket 1000)),
    ({ sender := alice }, .tasks (.postTask 1000)),
    ({ sender := alice }, .tasks (.fundTask 1)),
    ({ sender := alice }, .tasks (.assignWorker 1 mallory bob)),
    ({ sender := mallory }, .tasks (.submitWork 1 7)),
    ({ sender := alice }, .tasks (.approveTask 1))]

def afterWork : World AIToken :=
  TransitionRun.exec (System.exec environment Deployment.devnet)
    (Deployment.devnet.launch admin teeAuthority 0 aliceOwns) workday

end Devnet

open Devnet in
theorem task_history_of_workday :
    taskHistory.Tells .unposted (afterWork.log.filter fun e => e.task = some 1) (afterWork.books.story 1) ∧
      ∃ earlier publisher bounty,
        [Event.taskPosted 1 alice 1000, .taskFunded 1 1000, .workerAssigned 1 mallory bob,
          .workSubmitted 1 mallory 7, .taskApproved 1 alice] = earlier ++ [.taskApproved 1 publisher] ∧
        .taskPosted 1 publisher bounty ∈ earlier := by
  obtain ⟨tells, settled⟩ :=
    task_history (environment_acts _) admin teeAuthority 0 aliceOwns workday (by decide) 1
  exact ⟨tells, settled _ [] bob 1000 0 1000 (by decide +kernel)⟩

end Aide
