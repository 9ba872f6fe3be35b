import Aide.LogReplay

namespace Aide

namespace Event

/-- The logs of the payments that the breaker guards. -/
def Pays : Event → Prop
  | .tradeSettled .. | .profitDeposited .. | .taskSettled .. | .salaryDistributed ..
  | .operatingExpensesWithdrawn .. => True
  | _ => False

/-- The logs of the transactions that it has stopped. -/
def Blocked : Event → Prop
  | .tradeSettledBlocked .. | .profitDepositBlocked .. | .operatingExpensesWithdrawBlocked .. => True
  | _ => False

def Breaks : Event → Prop
  | .circuitBroken .. => True
  | _ => False

def Unpauses : Event → Prop
  | .circuitUnpaused _ => True
  | _ => False

end Event

variable {c : TeeCrypto} {d : Deployment} {e : Event} {entries : List Event}

/-- The breaker has been tripped, and nobody has unpaused it since. -/
def Broken (entries : List Event) : Prop := Journal.LastSet Event.Breaks Event.Unpauses entries

namespace Books

/-- Nothing but its own two logs turns the breaker off or on. -/
theorem paused_latch (c : TeeCrypto) (d : Deployment) :
    Journal.Latch (journal c d) (·.paused = true) Event.Breaks Event.Unpauses where
  set b e _ breaks := by
    cases e with
    | circuitBroken reason detail => rfl
    | _ => exact breaks.elim
  clear b e _ unpauses := by
    cases e with
    | circuitUnpaused account => exact Bool.false_ne_true
    | _ => exact unpauses.elim
  keep b e _ unbroken still := by
    cases e with
    | circuitBroken reason detail => exact absurd trivial unbroken
    | circuitUnpaused account => exact absurd trivial still
    | _ => exact Iff.rfl

variable {b : Books}

/-- A payment needs a breaker that runs. -/
theorem running_of_pays (guarded : d.guardrail ≠ 0) (pays : e.Pays) (admits : (journal c d).admits b e) :
    b.paused = false := by
  cases e with
  | tradeSettled =>
    obtain ⟨_, _, _, _, _, _, _, _, allowed⟩ := admits
    exact (allowed guarded).1
  | profitDeposited =>
    obtain ⟨_, _, _, _, allowed⟩ := admits
    exact (allowed guarded).1
  | taskSettled =>
    obtain ⟨_, _, _, _, _, _, _, _, running⟩ := admits
    exact running guarded
  | salaryDistributed => exact admits.2.2.2 guarded
  | operatingExpensesWithdrawn => exact admits.2 guarded
  | _ => exact pays.elim

/-- A transaction is stopped by a tripped breaker only. -/
theorem paused_of_blocked (blocked : e.Blocked) (admits : (journal c d).admits b e) : b.paused = true := by
  cases e with
  | tradeSettledBlocked => exact admits.1
  | profitDepositBlocked => exact admits.1
  | operatingExpensesWithdrawBlocked => exact admits.2
  | _ => exact blocked.elim

theorem running_of_breaks (breaks : e.Breaks) (admits : (journal c d).admits b e) : b.paused = false := by
  cases e with
  | circuitBroken => exact admits
  | _ => exact breaks.elim

end Books

/-- The breaker in the logs. Of every run of a deployment with a breaker: it is paused exactly where it has
been tripped and not unpaused since, no guarded payment is logged in between and no second trip, and a
transaction is logged as stopped only in between. -/
theorem broken_circuit {env : System.Environment} (acts : System.ActsByCalls env.crypto d d.Outside env.foreign)
    (guarded : d.guardrail ≠ 0) (admin teeAuthority : Address) (taxRateBps : ℕ) (token : AIToken)
    (run : List (Msg × System.Call)) (outsiders : ∀ tx ∈ run, d.Outside tx.1.sender) :
    let final := TransitionRun.exec (System.exec env d) (d.launch admin teeAuthority taxRateBps token) run
    (final.guardrail.paused = true ↔ Broken final.log) ∧
      ∀ earlier e later, final.log = earlier ++ e :: later →
        ((e.Pays ∨ e.Breaks) → ¬ Broken earlier) ∧ (e.Blocked → Broken earlier) := by
  intro final
  have tells := System.run_tells acts (launch_sound d admin teeAuthority taxRateBps token) rfl outsiders
  have latch := Books.paused_latch env.crypto d
  have unbroken : ¬ (d.launch admin teeAuthority taxRateBps token).books.paused = true := Bool.false_ne_true
  have last := latch.on_iff unbroken tells.admitted
  rw [tells.replayed] at last
  refine ⟨last, fun earlier e later split => ?_⟩
  have admitted := tells.admitted
  rw [show _ = earlier ++ e :: later from split] at admitted
  have before := latch.before unbroken admitted
  have admits := admitted.admits
  refine ⟨fun acts broken => ?_, fun blocked => before.mp (Books.paused_of_blocked blocked admits)⟩
  have paused := before.mpr broken
  have running : _ = false := acts.elim (fun pays => Books.running_of_pays guarded pays admits)
    fun breaks => Books.running_of_breaks breaks admits
  exact Bool.false_ne_true (running.symm.trans paused)

namespace Devnet

/-- Half of the treasury is asked for, and then a tenth, before and after the breaker is unpaused. -/
def expenses : List (Msg × System.Call) :=
  let tenth : Msg × System.Call := ({ sender := admin }, .treasury (.withdrawOperatingExpenses 100 bob))
  [({ sender := admin }, .treasury (.setOperatingExpenseRecipient bob true)),
    ({ sender := admin }, .treasury (.withdrawOperatingExpenses 500 bob)), tenth,
    ({ sender := admin }, .guardrail .unpause), tenth]

end Devnet

open Devnet in
theorem broken_circuit_of_expenses :
    let final := TransitionRun.exec (System.exec environment Deployment.devnet)
      (Deployment.devnet.launch admin teeAuthority 0 treasuryFunded.token) expenses
    (final.guardrail.paused = true ↔ Broken final.log) ∧
      ∀ earlier e later, final.log = earlier ++ e :: later →
        ((e.Pays ∨ e.Breaks) → ¬ Broken earlier) ∧ (e.Blocked → Broken earlier) :=
  broken_circuit (environment_acts _) (by decide) admin teeAuthority 0 treasuryFunded.token expenses (by decide)

end Aide
