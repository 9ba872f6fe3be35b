import Aide.Contracts.System
import Aide.Foundation.TransitionRun

namespace Aide.System

/-- The contract at an address outside the deployment reaches it only by calls of the `callers`. While
such a call runs, the code that it comes to call in turn stands one level deeper in the call stack. -/
inductive ActsByCalls (crypto : TeeCrypto) (d : Deployment) (callers : Address → Prop) :
    (Address → ℕ → World AIToken → Except Revert (World AIToken)) → Prop
  | reverts {foreign : Address → ℕ → World AIToken → Except Revert (World AIToken)}
      (fails : ∀ account amount w next, foreign account amount w ≠ .ok next) :
      ActsByCalls crypto d callers foreign
  | calls {foreign inner : Address → ℕ → World AIToken → Except Revert (World AIToken)}
      (deeper : ActsByCalls crypto d callers inner)
      (acts : ∀ account amount w next, foreign account amount w = .ok next →
        ∃ run : List (Msg × Call), (∀ tx ∈ run, callers tx.1.sender) ∧
          TransitionRun.exec (exec ⟨crypto, inner⟩ d) w run = next) :
      ActsByCalls crypto d callers foreign

theorem ActsByCalls.mono {crypto : TeeCrypto} {d : Deployment} {callers others : Address → Prop}
    {foreign : Address → ℕ → World AIToken → Except Revert (World AIToken)}
    (more : ∀ account, callers account → others account) (acts : ActsByCalls crypto d callers foreign) :
    ActsByCalls crypto d others foreign := by
  induction acts with
  | reverts fails => exact .reverts fails
  | calls deeper acts ih =>
    refine .calls ih fun account amount w next called => ?_
    obtain ⟨run, senders, ends⟩ := acts account amount w next called
    exact ⟨run, fun tx member => more _ (senders tx member), ends⟩

section
variable {crypto : TeeCrypto} {d : Deployment} {callers : Address → Prop}
  {R : World AIToken → World AIToken → Prop} (refl : ∀ w, R w w)
  (trans : ∀ w between next, R w between → R between next → R w next)
  (step : ∀ foreign w tx next,
    (∀ account amount w next, foreign account amount w = .ok next → R w next) →
    callers tx.1.sender → exec ⟨crypto, foreign⟩ d w tx = .ok next → R w next)
include refl trans step

/-- What relates every transaction to its outcome, as long as it does so for the code that is called in
it, does so for all code outside the deployment. -/
theorem ActsByCalls.relates {foreign : Address → ℕ → World AIToken → Except Revert (World AIToken)}
    (acts : ActsByCalls crypto d callers foreign) (account : Address) (amount : ℕ) (w next : World AIToken)
    (run : foreign account amount w = .ok next) : R w next := by
  induction acts generalizing account amount w next with
  | reverts fails => exact absurd run (fails account amount w next)
  | calls deeper acts ih =>
    obtain ⟨run, senders, rfl⟩ := acts account amount w next run
    exact TransitionRun.exec_relates refl trans
      (fun w tx next sender taken => step _ w tx next ih sender taken)
      (TransitionRun.Meets.of_forall fun tx member _ => senders tx member)

/-- And so for all runs. -/
theorem run_relates {foreign : Address → ℕ → World AIToken → Except Revert (World AIToken)}
    (acts : ActsByCalls crypto d callers foreign) {w : World AIToken} {run : List (Msg × Call)}
    (senders : ∀ tx ∈ run, callers tx.1.sender) :
    R w (TransitionRun.exec (exec ⟨crypto, foreign⟩ d) w run) :=
  TransitionRun.exec_relates refl trans
    (fun w tx next sender taken =>
      step foreign w tx next (ActsByCalls.relates refl trans step acts) sender taken)
    (TransitionRun.Meets.of_forall fun tx member _ => senders tx member)

end

end Aide.System
