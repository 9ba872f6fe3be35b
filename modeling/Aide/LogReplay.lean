import Aide.Contracts.Booked
import Aide.Contracts.ForeignCode
import Aide.TreasuryOutflow

namespace Aide

variable {crypto : TeeCrypto} {d : Deployment} {w next : World AIToken}

/-- Every transaction writes into the logs what it books. -/
theorem System.exec_booked {foreign : Address → ℕ → World AIToken → Except Revert (World AIToken)}
    {msg : Msg} {call : System.Call} (sound : w.books.Sound) (outside : d.Outside msg.sender)
    (writes : ∀ account amount w next, foreign account amount w = .ok next → w.books.Sound →
      Booked crypto d w next)
    (run : System.exec ⟨crypto, foreign⟩ d w (msg, call) = .ok next) : Booked crypto d w next := by
  cases call with
  | token call =>
    obtain ⟨token, _, same⟩ := bind_eq_ok.mp run
    cases pure_eq_ok.mp same
    exact .silent rfl rfl
  | guardrail call => exact Guardrail.exec_booked run
  | registry call => exact AIIdentityRegistry.exec_booked run
  | bank call => exact AIBank.exec_booked run
  | treasury call =>
    exact Treasury.exec_booked (fun account amount token called => writes _ _ _ _ called sound) run
  | market call => exact InternalMarket.exec_booked run
  | tasks call => exact TaskMarket.exec_booked sound outside.1 run
  | pool call => exact StakingPool.exec_booked sound run

theorem Booked.sound (booked : Booked crypto d w next) (sound : w.books.Sound) : next.books.Sound :=
  booked.preserves (fun _ _ sound admits => sound.read admits) sound

/-- Every run does. -/
theorem System.run_booked {foreign : Address → ℕ → World AIToken → Except Revert (World AIToken)}
    {run : List (Msg × System.Call)} (acts : System.ActsByCalls crypto d d.Outside foreign) (sound : w.books.Sound)
    (outsiders : ∀ tx ∈ run, d.Outside tx.1.sender) :
    Booked crypto d w (TransitionRun.exec (System.exec ⟨crypto, foreign⟩ d) w run) := by
  refine System.run_relates (R := fun w next => w.books.Sound → Booked crypto d w next)
    (fun w _ => .refl w) (fun w between next first second sound => ?_)
    (fun foreign w tx next writes outside taken sound => ?_) acts outsiders sound
  · have earlier := first sound
    exact earlier.trans (second (earlier.sound sound))
  · exact System.exec_booked sound outside writes taken

/-- Where nothing has been logged yet, the logs of a run tell the whole run. -/
theorem System.run_tells {foreign : Address → ℕ → World AIToken → Except Revert (World AIToken)}
    {run : List (Msg × System.Call)} (acts : System.ActsByCalls crypto d d.Outside foreign) (sound : w.books.Sound)
    (noLog : w.log = []) (outsiders : ∀ tx ∈ run, d.Outside tx.1.sender) :
    (Books.journal crypto d).Tells w.books
      (TransitionRun.exec (System.exec ⟨crypto, foreign⟩ d) w run).log
      (TransitionRun.exec (System.exec ⟨crypto, foreign⟩ d) w run).books := by
  obtain ⟨entries, log, tells⟩ := System.run_booked acts sound outsiders
  rw [noLog, List.nil_append] at log
  rw [log]
  exact tells

theorem launch_sound {τ : Type} (d : Deployment) (admin teeAuthority : Address) (taxRateBps : ℕ) (token : τ) :
    (d.launch admin teeAuthority taxRateBps token).books.Sound :=
  ⟨fun _ => Nat.zero_le _, Nat.one_ne_zero, fun _ _ => rfl⟩

/-- The logs of a deployment are a complete account of it. After every run, what all contracts have stored
is what the logs lead to when they are booked one after another, and every log was allowed by the rules of the
protocol in the state that the logs before it lead to. -/
theorem log_tells_books {env : System.Environment} (acts : System.ActsByCalls env.crypto d d.Outside env.foreign)
    (admin teeAuthority : Address) (taxRateBps : ℕ) (token : AIToken) (run : List (Msg × System.Call))
    (outsiders : ∀ tx ∈ run, d.Outside tx.1.sender) :
    (Books.journal env.crypto d).Tells (d.launch admin teeAuthority taxRateBps token).books
      (TransitionRun.exec (System.exec env d) (d.launch admin teeAuthority taxRateBps token) run).log
      (TransitionRun.exec (System.exec env d) (d.launch admin teeAuthority taxRateBps token) run).books :=
  System.run_tells acts (launch_sound ..) rfl outsiders

namespace Devnet

/-- The code outside the deployment of `environment` does nothing at all. -/
theorem environment_acts (callers : Address → Prop) :
    System.ActsByCalls environment.crypto Deployment.devnet callers environment.foreign := by
  have inner : System.ActsByCalls environment.crypto Deployment.devnet callers fun _ _ _ => .error .noSuchFunction :=
    .reverts fun _ _ _ _ run => nomatch run
  refine .calls inner ?_
  rintro account amount w next run
  cases run
  exact ⟨[], fun tx member => absurd member List.not_mem_nil, rfl⟩

/-- A machine is verified, alice posts a task and the tax is set. -/
def opening : List (Msg × System.Call) :=
  [({ sender := admin }, .registry (.verifyMachine bob 1)),
    ({ sender := alice }, .tasks (.postTask 1000)),
    ({ sender := admin }, .treasury (.setTaxRate 500))]

end Devnet

open Devnet in
theorem log_tells_books_of_opening :
    (Books.journal environment.crypto Deployment.devnet).Tells
      (Deployment.devnet.launch admin teeAuthority 0 treasuryFunded.token).books
      (TransitionRun.exec (System.exec environment Deployment.devnet)
        (Deployment.devnet.launch admin teeAuthority 0 treasuryFunded.token) opening).log
      (TransitionRun.exec (System.exec environment Deployment.devnet)
        (Deployment.devnet.launch admin teeAuthority 0 treasuryFunded.token) opening).books :=
  log_tells_books (environment_acts _) admin teeAuthority 0 treasuryFunded.token opening (by decide)

end Aide
