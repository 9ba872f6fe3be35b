import Aide.Contracts.Charter
import Aide.LogReplay

namespace Aide

variable {d : Deployment} {G : Address → Prop} {w : World AIToken} {env : System.Environment}

theorem launch_held {admin : Address} (member : G admin) (d : Deployment) (teeAuthority : Address) (taxRateBps : ℕ)
    {token : AIToken} (owner : token.owner = 0 ∨ G token.owner) :
    (d.launch admin teeAuthority taxRateBps token).charter.HeldBy G where
  owner
  guardrail := Roles.granted_held member
  registry := Roles.granted_held member
  bank := Roles.granted_held member
  treasury := Roles.granted_held member
  market := Roles.granted_held member

/-- A step of an outsider keeps the charter, where all powers are with members. -/
def Frozen (G : Address → Prop) (w next : World AIToken) : Prop := w.charter.HeldBy G → next.charter = w.charter

theorem Frozen.trans {between next : World AIToken} (first : Frozen G w between) (second : Frozen G between next) :
    Frozen G w next := fun held => by
  have same := first held
  exact (second (same ▸ held)).trans same

namespace System

/-- Code outside the deployment that is called by outsiders only. -/
abbrev ActsForOutsiders (env : Environment) (d : Deployment) (G : Address → Prop) : Prop :=
  ActsByCalls env.crypto d (fun account => d.Outside account ∧ ¬ G account) env.foreign

theorem exec_frozen {foreign : Address → ℕ → World AIToken → Except Revert (World AIToken)} {tx : Msg × Call}
    {next : World AIToken} (inner : ∀ account amount w next, foreign account amount w = .ok next → Frozen G w next)
    (caller : d.Outside tx.1.sender ∧ ¬ G tx.1.sender) (taken : exec ⟨env.crypto, foreign⟩ d w tx = .ok next) :
    Frozen G w next := fun held =>
  (exec_lawful caller.1 inner (absurd · caller.2) taken held).2 caller.2

theorem foreign_frozen (acts : ActsForOutsiders env d G) (account : Address) (amount : ℕ) (w next : World AIToken)
    (run : env.foreign account amount w = .ok next) : Frozen G w next :=
  ActsByCalls.relates (R := Frozen G) (fun _ _ => rfl) (fun _ _ _ => Frozen.trans)
    (fun _ _ _ _ => exec_frozen) acts account amount w next run

/-- What a run of outsiders does to the charter: nothing. -/
theorem run_frozen (acts : ActsForOutsiders env d G) {run : List (Msg × Call)}
    (callers : ∀ tx ∈ run, d.Outside tx.1.sender ∧ ¬ G tx.1.sender) :
    Frozen G w (TransitionRun.exec (exec env d) w run) :=
  run_relates (R := Frozen G) (fun _ _ => rfl) (fun _ _ _ => Frozen.trans) (fun _ _ _ _ => exec_frozen) acts callers

/-- And what a run of anybody does to the powers. -/
theorem run_held (acts : ActsForOutsiders env d G) (held : w.charter.HeldBy G) {run : List (Msg × Call)}
    (outsiders : ∀ tx ∈ run, d.Outside tx.1.sender)
    (appoints : ∀ tx ∈ run, G tx.1.sender → ∀ account ∈ tx.2.appointee, G account) :
    (TransitionRun.exec (exec env d) w run).charter.HeldBy G := by
  have lawful : TransitionRun.Meets (exec env d)
      (fun _ tx => d.Outside tx.1.sender ∧ (G tx.1.sender → ∀ account ∈ tx.2.appointee, G account)) w run :=
    .of_forall fun tx member _ => ⟨outsiders tx member, appoints tx member⟩
  exact TransitionRun.exec_preserves (I := fun w => w.charter.HeldBy G)
    (fun _ _ _ held meets taken => (exec_lawful meets.1 (foreign_frozen acts) meets.2 taken held).1) held lawful

end System

/-- The powers over the protocol stay in one circle. A circle of accounts that has the admin and the owner of the
token in it, and whose members appoint only members, holds every role and the ownership for ever, whatever
anybody does; and while no member makes a transaction, no role, exemption, rate, threshold, peer, listing or
company changes, and no shares are issued or change hands. No contract outside the deployment is taken to be a member:
what its code calls, it calls for accounts outside the circle. -/
theorem governance_closed {admin teeAuthority : Address} {taxRateBps : ℕ} {token : AIToken}
    (acts : System.ActsForOutsiders env d G) (founder : G admin) (owner : G token.owner)
    {run : List (Msg × System.Call)} (outsiders : ∀ tx ∈ run, d.Outside tx.1.sender)
    (appoints : ∀ tx ∈ run, G tx.1.sender → ∀ account ∈ tx.2.appointee, G account) :
    let after := TransitionRun.exec (System.exec env d) (d.launch admin teeAuthority taxRateBps token)
    (after run).charter.HeldBy G ∧ ∀ earlier stretch, run = earlier ++ stretch →
      (∀ tx ∈ stretch, ¬ G tx.1.sender) → (after run).charter = (after earlier).charter := by
  intro after
  have launched := launch_held founder d teeAuthority taxRateBps (.inr owner)
  refine ⟨System.run_held acts launched outsiders appoints, ?_⟩
  rintro earlier stretch rfl strangers
  have held : (after earlier).charter.HeldBy G := System.run_held acts launched
    (fun tx member => outsiders tx (List.mem_append_left _ member))
    (fun tx member => appoints tx (List.mem_append_left _ member))
  have callers : ∀ tx ∈ stretch, d.Outside tx.1.sender ∧ ¬ G tx.1.sender := fun tx member =>
    ⟨outsiders tx (List.mem_append_right _ member), strangers tx member⟩
  have frozen := System.run_frozen acts callers held
  rwa [← TransitionRun.exec_append] at frozen

namespace Devnet

/-- The admin makes bob an auditor, who lists a company; alice tries to do the same, and to set the tax. -/
def appointments : List (Msg × System.Call) :=
  [({ sender := admin }, .bank (.access (.grantRole .auditor bob))),
    ({ sender := bob }, .bank (.approveListing 1 7))]

def intrusions : List (Msg × System.Call) :=
  [({ sender := alice }, .bank (.access (.grantRole .auditor alice))),
    ({ sender := alice }, .bank (.approveListing 2 7)), ({ sender := alice }, .treasury (.setTaxRate 500))]

theorem appointments_within : ∀ tx ∈ appointments ++ intrusions, tx.1.sender ∈ [admin, bob] →
    ∀ account ∈ tx.2.appointee, account ∈ [admin, bob] := by
  simp [appointments, intrusions, System.Call.appointee, Roles.Call.appointee, admin, bob, alice]

end Devnet

open Devnet in
theorem governance_closed_of_intrusions :
    let after := TransitionRun.exec (System.exec environment Deployment.devnet)
      (Deployment.devnet.launch admin teeAuthority 0 treasuryFunded.token)
    (after (appointments ++ intrusions)).charter.HeldBy (· ∈ [admin, bob]) ∧
      ∀ earlier stretch, appointments ++ intrusions = earlier ++ stretch →
        (∀ tx ∈ stretch, ¬ tx.1.sender ∈ [admin, bob]) →
          (after (appointments ++ intrusions)).charter = (after earlier).charter :=
  @governance_closed Deployment.devnet (· ∈ [admin, bob]) environment admin teeAuthority 0 treasuryFunded.token
    (environment_acts _) (by decide) (by decide) (appointments ++ intrusions) (by decide) appointments_within

end Aide
