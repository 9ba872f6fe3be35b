import Aide.Foundation.Decay
import Aide.TreasuryOutflow

namespace Aide

variable {env : System.Environment} {d : Deployment} {w next : World AIToken}

/-- The threshold of the breaker is at most `bps`. -/
def ThresholdWithin (bps : ℕ) (w : World AIToken) : Prop := w.guardrail.outflowBpsThreshold ≤ bps

instance (bps : ℕ) (w : World AIToken) : Decidable (ThresholdWithin bps w) := inferInstanceAs (Decidable (_ ≤ _))

/-- A transaction under the breaker leaves the treasury what is above the threshold. -/
theorem UnderBreaker.share (under : UnderBreaker d w next) {bps : ℕ} (within : ThresholdWithin bps w) :
    w.balanceOf d.treasury * (10000 - bps) ≤ next.balanceOf d.treasury * 10000 := by
  have bounded := under.bounded
  generalize w.balanceOf d.treasury = balance at bounded ⊢
  generalize next.balanceOf d.treasury = left at bounded ⊢
  have rounded := Nat.div_mul_le_self (balance * w.guardrail.outflowBpsThreshold) 10000
  have limit : balance * w.guardrail.outflowBpsThreshold ≤ balance * bps := Nat.mul_le_mul_left _ within
  rw [Nat.mul_sub]
  omega

/-- The treasury cannot be drained under the breaker. Take a deployment with a breaker whose treasury has given no
allowance, and let the operations role approve and reward contracts of the deployment only, and the staking pool
within the threshold and while the breaker is not tripped. As long as the threshold is at most `bps`, a run of any
length in which `n` transactions from outside the deployment take tokens out of the treasury leaves at least the
`n`-th power of the share that one of them has to leave. -/
theorem treasury_outlasts {bps : ℕ} {run : List (Msg × System.Call)} (guarded : d.guardrail ≠ 0)
    (none : NoAllowance d w) (outsiders : ∀ tx ∈ run, d.Outside tx.1.sender)
    (meets : TransitionRun.Meets (System.exec env d)
      (fun w tx => KeepsToPool d w tx ∧ ThresholdWithin bps w) w run) :
    let n := TransitionRun.lowerings (System.exec env d) (World.balanceOf · d.treasury) w run
    w.balanceOf d.treasury * (10000 - bps) ^ n ≤
      (TransitionRun.exec (System.exec env d) w run).balanceOf d.treasury * 10000 ^ n := by
  have outside : TransitionRun.Meets (System.exec env d) (fun _ tx => d.Outside tx.1.sender) w run :=
    .of_forall fun tx member _ => outsiders tx member
  refine TransitionRun.exec_decays (m := (World.balanceOf · d.treasury)) (I := NoAllowance d)
    (fun w tx next none meets taken => ?_) none (outside.and meets)
  obtain ⟨outside, keeps, within⟩ := meets
  obtain ⟨under, kept⟩ := transaction_underBreaker guarded outside none keeps taken
  exact ⟨kept, under.share within⟩

open Devnet in
theorem treasury_outlasts_two_rewards :
    let run := [reward 300, reward 200]
    let n := TransitionRun.lowerings (System.exec environment Deployment.devnet)
      (World.balanceOf · Deployment.devnet.treasury) treasuryFunded run
    n = 2 ∧ treasuryFunded.balanceOf Deployment.devnet.treasury * (10000 - 3000) ^ n ≤
      (TransitionRun.exec (System.exec environment Deployment.devnet) treasuryFunded run).balanceOf
        Deployment.devnet.treasury * 10000 ^ n :=
  ⟨by decide, treasury_outlasts (by decide) treasuryFunded_noAllowance (by decide) (by decide)⟩

end Aide
