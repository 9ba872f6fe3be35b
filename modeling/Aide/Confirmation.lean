import Aide.BookAtRest
import Aide.Engine.SettlerTx
import Aide.Foundation.TransitionRun

namespace Aide

open Engine Engine.Pipeline

variable {τ : Type} {d : Deployment}

namespace Engine

/-- The transaction succeeded and logged a trade. -/
def Receipt.settles (receipt : Receipt) : Bool := receipt.status && receipt.logs.any isTradeSettled

def isBlocked : Event → Bool
  | .tradeSettledBlocked .. => true
  | _ => false

/-- The transaction was neither reverted nor blocked by the breaker. -/
def Receipt.clean (receipt : Receipt) : Bool := receipt.status && !receipt.logs.any isBlocked

/-- The market settles a trade unless it reverts or its breaker trips. -/
theorem SettleTradeCall.execute_clean [AitToken τ] (call : SettleTradeCall) (signer : Address)
    (w : World τ) : (call.execute d signer w).clean = (call.execute d signer w).settles := by
  unfold SettleTradeCall.execute
  split
  · rename_i next run
    obtain ⟨_, ⟨cid, fee, buyer, seller, settled⟩ | blocked⟩ := InternalMarket.settleTrade_cases run
    · obtain ⟨_, _, _, _, effect⟩ := settled.effect
      have noneBlocked : ∀ e ∈ Treasury.taxLog d.internalMarket d.internalMarket call.aitNotional fee,
          isBlocked e = false := by
        intro e tax
        cases Treasury.mem_taxLog tax
        rfl
      have unblocked : (Treasury.taxLog d.internalMarket d.internalMarket call.aitNotional fee).any
          isBlocked = false := by
        simpa using noneBlocked
      rw [effect, List.append_assoc, List.drop_left]
      simp [Receipt.clean, Receipt.settles, isBlocked, isTradeSettled, unblocked]
    · have noTrade : ∀ e ∈ Guardrail.tripEvents .fee
          (call.aitNotional * w.treasury.taxRateBps / 10000) w, isTradeSettled e = false := by
        intro e tripped
        cases Guardrail.mem_tripEvents tripped
        rfl
      have untraded : (Guardrail.tripEvents .fee
          (call.aitNotional * w.treasury.taxRateBps / 10000) w).any isTradeSettled = false := by
        simpa using noTrade
      rw [blocked]
      simp only [World.emit, Guardrail.trip, List.append_assoc, List.drop_left]
      simp [Receipt.clean, Receipt.settles, isBlocked, isTradeSettled, untraded]
  · rfl

/-- The state in which the accepted transaction is mined, if it ever is. -/
def SendAnswer.minedIn : SendAnswer τ → Option (World τ)
  | refused => none
  | unconfirmed _ minedIn => minedIn
  | mined _ w => some w

namespace Submission
variable {s : Submission τ} {hash : Bytes32}

theorem result_ok : s.result d = some (.ok hash) ↔
    ∃ config w, s.settler = some config ∧ s.provider.accepted = some (.mined hash w) := by
  unfold result
  cases s.settler with
  | none => simp
  | some config => simp [sendSettleTradeWithRetry_ok]

/-- A submission that is not taken for confirmed is counted as a failure. -/
theorem submit_cases (state : SharedState) (configured : s.settler.isSome = true) :
    (∃ hash, s.result d = some (.ok hash) ∧ state.submit d s = state.settlementConfirmed) ∨
      state.submit d s = state.settlementFailed := by
  obtain ⟨config, same⟩ := Option.isSome_iff_exists.mp configured
  unfold SharedState.submit
  cases sent : (sendSettleTradeWithRetry s.provider config.chainId d.internalMarket s.call).1 with
  | ok hash =>
    refine Or.inl ⟨hash, ?_, ?_⟩
    · simp [result, same, sent]
    · simp [result, same, sent]
  | error e =>
    right
    simp [result, same, sent]

variable [AitToken τ]

/-- What the market did with the transaction of a submission, whether or not its receipt arrived. -/
def executed (d : Deployment) (s : Submission τ) : Option Receipt :=
  s.settler.bind fun config => (s.provider.accepted.bind SendAnswer.minedIn).map fun w =>
    s.call.execute d config.signer w

/-- The trade of the submission has happened. -/
def settled (d : Deployment) (s : Submission τ) : Bool := (s.executed d).any Receipt.settles

/-- The settler is configured, and a receipt that arrives is of a transaction that was neither
reverted nor blocked. -/
structure Clean (d : Deployment) (s : Submission τ) : Prop where
  configured : s.settler.isSome = true
  receipt : ∀ config hash w, s.settler = some config →
    s.provider.accepted = some (.mined hash w) → (s.call.execute d config.signer w).clean = true

theorem settled_of_mined {config : SettlerConfig} {w : World τ} (configured : s.settler = some config)
    (mined : s.provider.accepted = some (.mined hash w)) :
    s.settled d = (s.call.execute d config.signer w).settles := by
  simp [settled, executed, configured, mined, SendAnswer.minedIn]

theorem Clean.settled (clean : s.Clean d) (taken : s.result d = some (.ok hash)) :
    s.settled d = true := by
  obtain ⟨config, w, configured, mined⟩ := result_ok.mp taken
  rw [settled_of_mined configured mined, ← SettleTradeCall.execute_clean]
  exact clean.receipt config hash w configured mined

end Submission

/-- One call of the settler, or anything else that the daemon does between two of them. -/
inductive SettlerAction (τ : Type)
  | submit (s : Submission τ)
  | elsewhere (other : SharedState)

namespace SettlerAction

/-- Only the settler writes the streak, and no task of the daemon clears a pause. -/
def exec (d : Deployment) (state : SharedState) : SettlerAction τ → Except Unit SharedState
  | .submit s => .ok (state.submit d s)
  | .elsewhere other => .ok { other with
      settlementFailStreak := state.settlementFailStreak
      matchPaused := state.matchPaused || other.matchPaused
      engine := { other.engine with
        matchingPaused := state.engine.matchingPaused || other.engine.matchingPaused } }

def submission : SettlerAction τ → Option (Submission τ)
  | .submit s => some s
  | .elsewhere _ => none

end SettlerAction

def SharedState.Paused (state : SharedState) : Prop :=
  state.matchPaused = true ∧ state.engine.matchingPaused = true

/-- The streak counts the failures since the last confirmation. It wraps, but not before matching
is paused. -/
structure Streak (state : SharedState) (failures : ℕ) : Prop where
  counts : state.settlementFailStreak = failures % 2 ^ 32
  pauses : 3 ≤ failures → state.Paused

namespace Streak
variable {state : SharedState} {failures : ℕ}

theorem failed_counts (state : SharedState) :
    state.settlementFailed.pendingSettlements = state.pendingSettlements ∧
      state.settlementFailed.settlementFailStreak = (state.settlementFailStreak + 1) % 2 ^ 32 := by
  unfold SharedState.settlementFailed
  by_cases long : 3 ≤ (state.settlementFailStreak + 1) % 2 ^ 32
  · simp only [long, if_true, and_self]
  · simp only [long, if_false, and_self]

theorem failed (streak : Streak state failures) : Streak state.settlementFailed (failures + 1) where
  counts := by
    rw [(failed_counts state).2, streak.counts]
    omega
  pauses reached := by
    unfold SharedState.settlementFailed
    by_cases long : 3 ≤ (state.settlementFailStreak + 1) % 2 ^ 32
    · simp only [long, if_true]
      exact ⟨rfl, rfl⟩
    · -- The count has wrapped, or it would be long: then it was long before.
      have was : 3 ≤ failures := by
        rw [streak.counts] at long
        omega
      simp only [long, if_false]
      exact streak.pauses was

theorem confirmed : Streak state.settlementConfirmed 0 where
  counts := rfl
  pauses long := absurd long (by decide)

theorem elsewhere (streak : Streak state failures) (other : SharedState) : Streak
    (TransitionRun.exec (SettlerAction.exec d) state [(.elsewhere other : SettlerAction τ)]) failures := by
  refine ⟨streak.counts, fun long => ?_⟩
  obtain ⟨runner, engine⟩ := streak.pauses long
  simp [SharedState.Paused, TransitionRun.after, SettlerAction.exec, runner, engine]

end Streak

end Engine

open SettlerAction

/-- The state of a daemon after a run that starts with nothing pending. -/
def daemon (d : Deployment) (run : List (SettlerAction τ)) : SharedState :=
  TransitionRun.exec (SettlerAction.exec d) .new run

section Runs
variable {run : List (SettlerAction τ)} {s : Submission τ} {state : SharedState}

theorem daemon_submit : daemon d (run ++ [.submit s]) = (daemon d run).submit d s := by
  rw [daemon, TransitionRun.exec_append]
  rfl

/-- A flushed batch is submitted call by call. -/
theorem flushBatch_eq (keccak256 : List UInt8 → Bytes32) (settler : Option SettlerConfig)
    (provider : ℕ → Provider τ) (batch : List Fill) :
    (daemon d run).flushBatch keccak256 d settler provider batch =
      daemon d (run ++ (Submission.ofBatch keccak256 settler provider batch).map .submit) := by
  have folded : ∀ (state : SharedState) (calls : List (Submission τ)),
      calls.foldl (SharedState.submit d) state =
        TransitionRun.exec (SettlerAction.exec d) state (calls.map .submit) := by
    intro state calls
    induction calls generalizing state with
    | nil => rfl
    | cons call calls ih => exact ih _
  unfold SharedState.flushBatch
  rw [daemon, daemon, TransitionRun.exec_append]
  split
  · rename_i empty
    rw [List.isEmpty_iff.mp empty]
    rfl
  · exact folded _ _

theorem fetchSub_one_ne (counter : ℕ) : fetchSub counter 1 ≠ counter := by
  unfold fetchSub
  split <;> omega

variable [AitToken τ]

/-- How many fills in a row did not settle at the end of a run. -/
def unsettled (d : Deployment) (run : List (SettlerAction τ)) : ℕ :=
  ((run.filterMap submission).reverse.takeWhile fun s => !s.settled d).length

/-- A submission after a run counts as done only if its trade happened: it is confirmed only then,
otherwise it stays pending and adds to the streak, and three in a row leave matching paused. -/
structure Counts (d : Deployment) (run : List (SettlerAction τ)) (s : Submission τ) : Prop where
  confirmed : ∀ hash, s.result d = some (.ok hash) → s.settled d = true
  kept : s.settled d = false →
    ((daemon d run).submit d s).pendingSettlements = (daemon d run).pendingSettlements ∧
    ((daemon d run).submit d s).settlementFailStreak =
      ((daemon d run).settlementFailStreak + 1) % 2 ^ 32
  pauses : 3 ≤ unsettled d (run ++ [.submit s]) → (daemon d (run ++ [.submit s])).Paused

theorem unsettled_submit : unsettled d (run ++ [.submit s]) =
    if s.settled d then 0 else unsettled d run + 1 := by
  cases happened : s.settled d <;> simp [unsettled, submission, happened]

theorem unsettled_elsewhere : unsettled d (run ++ [.elsewhere state]) = unsettled d run := by
  simp [unsettled, submission]

/-- Every run of clean submissions, by induction from its end. -/
theorem daemon_streak (clean : ∀ s, .submit s ∈ run → s.Clean d) :
    ∃ failures, unsettled d run ≤ failures ∧ Streak (daemon d run) failures := by
  induction run using List.reverseRecOn with
  | nil => exact ⟨0, le_rfl, rfl, fun long => absurd long (by decide)⟩
  | append_singleton run action ih =>
    obtain ⟨failures, atMost, streak⟩ := ih fun s member => clean s (List.mem_append_left _ member)
    cases action with
    | elsewhere other =>
      refine ⟨failures, unsettled_elsewhere.trans_le atMost, ?_⟩
      rw [daemon, TransitionRun.exec_append]
      exact streak.elsewhere other
    | submit s =>
      have cleanLast := clean s (List.mem_append_right _ (List.mem_singleton_self _))
      rw [daemon_submit, unsettled_submit]
      rcases s.submit_cases (daemon d run) cleanLast.configured with ⟨hash, taken, same⟩ | same
      · rw [same, cleanLast.settled taken]
        exact ⟨0, le_rfl, Streak.confirmed⟩
      · rw [same]
        refine ⟨failures + 1, ?_, streak.failed⟩
        split <;> omega

theorem Counts.of_clean (clean : ∀ other, .submit other ∈ run ++ [.submit s] → other.Clean d) :
    Counts d run s where
  confirmed hash taken :=
    (clean s (List.mem_append_right _ (List.mem_singleton_self _))).settled taken
  kept unhappened := by
    have cleanLast := clean s (List.mem_append_right _ (List.mem_singleton_self _))
    rcases s.submit_cases (daemon d run) cleanLast.configured with ⟨hash, taken, _⟩ | same
    · cases unhappened.symm.trans (cleanLast.settled taken)
    · rw [same]
      exact Streak.failed_counts _
  pauses long := by
    obtain ⟨failures, atMost, streak⟩ := daemon_streak clean
    exact streak.pauses (long.trans atMost)

theorem Counts.clean (counts : Counts d run s) : s.Clean d where
  configured := by
    by_contra missing
    have none : s.settler = none := by simpa using missing
    have unhappened : s.settled d = false := by simp [Submission.settled, Submission.executed, none]
    have pending := (counts.kept unhappened).1
    simp only [SharedState.submit, Submission.result, none, Option.map_none] at pending
    exact fetchSub_one_ne _ pending
  receipt config hash w configured mined := by
    have happened := counts.confirmed hash (Submission.result_ok.mpr ⟨config, w, configured, mined⟩)
    rwa [Submission.settled_of_mined configured mined, ← SettleTradeCall.execute_clean] at happened

end Runs

/-- Every submission of a run counts as done only if its trade happened, if and only if every
submission is clean. -/
theorem settlements_count_iff [AitToken τ] (run : List (SettlerAction τ)) :
    (∀ before s rest, run = before ++ .submit s :: rest → Counts d before s) ↔
      ∀ s, .submit s ∈ run → s.Clean d := by
  constructor
  · intro counts s member
    obtain ⟨before, rest, same⟩ := List.append_of_mem member
    exact (counts before s rest same).clean
  · rintro clean before s rest rfl
    refine Counts.of_clean fun other member => clean other ?_
    rw [← List.singleton_append, ← List.append_assoc]
    exact List.mem_append_left _ member

namespace Devnet

/-- A trade that is never sent, for lack of a key. -/
def unsent : Submission ERC20 where
  settler := none
  call := ⟨1, 2, 100, 1000, 7⟩
  provider := ⟨false, none, fun _ => .refused⟩

/-- A trade of two orders that do not exist. It is mined and reverted. -/
def reverted : Submission ERC20 where
  settler := some ⟨admin, 84532⟩
  call := ⟨1, 2, 100, 1000, 7⟩
  provider := ⟨true, some 10, fun _ => .mined 9 listed⟩

/-- Matching goes on after any of the two has been submitted three times in a row. -/
theorem not_counts_of_unsettled {s : Submission ERC20} (either : s = unsent ∨ s = reverted) :
    ¬ Counts Deployment.devnet [.submit s, .submit s] s := by
  intro counts
  have three : 3 ≤ unsettled Deployment.devnet [.submit s, .submit s, .submit s] := by
    obtain rfl | rfl := either
    · decide
    · decide
  have paused := (counts.pauses three).1
  revert paused
  obtain rfl | rfl := either
  · decide
  · decide

end Devnet

open Devnet

/-- Three trades in a row are not sent, or sent and reverted, and matching goes on. -/
theorem unsettled_trades_do_not_pause :
    (¬ ∀ (run before : List (SettlerAction ERC20)) s rest, run = before ++ .submit s :: rest →
      Counts Deployment.devnet before s) ∧
    ¬ Counts Deployment.devnet [.submit unsent, .submit unsent] unsent ∧
    ¬ Counts Deployment.devnet [.submit reverted, .submit reverted] reverted := by
  have notSent := not_counts_of_unsettled (Or.inl rfl)
  exact ⟨fun always => notSent (always _ [.submit unsent, .submit unsent] unsent [] rfl), notSent,
    not_counts_of_unsettled (Or.inr rfl)⟩

end Aide
