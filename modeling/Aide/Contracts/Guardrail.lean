import Aide.Contracts.World

namespace Aide.Guardrail
variable {τ : Type}

def setPeers (msg : Msg) (treasury internalMarket : Address) (w : World τ) :
    Except Revert (World τ) := do
  w.guardrail.roles.only .defaultAdmin msg.sender
  require (w.guardrail.treasury = 0) .peersAlreadyWired
  require (treasury ≠ 0 ∧ internalMarket ≠ 0) .zeroPeer
  pure ({ w with guardrail := { w.guardrail with treasury, internalMarket } }.emit
    (.peersWired treasury internalMarket))

def setOutflowBpsThreshold (msg : Msg) (bps : ℕ) (w : World τ) : Except Revert (World τ) := do
  w.guardrail.roles.only .defaultAdmin msg.sender
  require (bps ≤ 10000) (.require "Guardrail: bps")
  pure ({ w with guardrail := { w.guardrail with outflowBpsThreshold := bps } }.emit
    (.outflowThresholdUpdated bps))

def setMaxFeeBpsOfNotional (msg : Msg) (bps : ℕ) (w : World τ) : Except Revert (World τ) := do
  w.guardrail.roles.only .defaultAdmin msg.sender
  require (bps ≤ 10000) (.require "Guardrail: bps")
  pure ({ w with guardrail := { w.guardrail with maxFeeBpsOfNotional := bps } }.emit
    (.maxFeeBpsUpdated bps))

/-- The common body of the two evaluations. The breaker trips, and the call still succeeds, when
`amount * 10000 > base * bps`; the products are not formed while `base` is zero. -/
def evaluate (reason : CircuitReason) (base amount bps : ℕ) (w : World τ) :
    Except Revert (Bool × World τ) :=
  if w.guardrail.paused then
    pure (false, w)
  else if 0 < base then do
    let demanded ← checkedMul amount 10000
    let limit ← checkedMul base bps
    if limit < demanded then
      pure (false, { w with guardrail := { w.guardrail with paused := true } }.emit
        (.circuitBroken reason amount))
    else
      pure (true, w)
  else
    pure (true, w)

def evaluateOutflow (sender : Address) (balanceBefore amount : ℕ) (w : World τ) :
    Except Revert (Bool × World τ) := do
  require (sender = w.guardrail.treasury) .onlyTreasury
  evaluate .outflow balanceBefore amount w.guardrail.outflowBpsThreshold w

def evaluateSettleFee (sender : Address) (fee aitNotional : ℕ) (w : World τ) :
    Except Revert (Bool × World τ) := do
  require (sender = w.guardrail.internalMarket) .onlyInternalMarket
  evaluate .fee aitNotional fee w.guardrail.maxFeeBpsOfNotional w

def unpause (msg : Msg) (w : World τ) : Except Revert (World τ) := do
  require (w.guardrail.roles .defaultAdmin msg.sender ∨
    w.guardrail.roles .emergencyCommittee msg.sender) .unauthorizedUnpause
  pure ({ w with guardrail := { w.guardrail with paused := false } }.emit
    (.circuitUnpaused msg.sender))

inductive Call
  | setPeers (treasury internalMarket : Address)
  | setOutflowBpsThreshold (bps : ℕ)
  | setMaxFeeBpsOfNotional (bps : ℕ)
  | evaluateOutflow (balanceBefore amount : ℕ)
  | evaluateSettleFee (fee aitNotional : ℕ)
  | unpause
  | access (call : Roles.Call)

def exec (msg : Msg) : Call → World τ → Except Revert (World τ)
  | .setPeers treasury internalMarket, w => setPeers msg treasury internalMarket w
  | .setOutflowBpsThreshold bps, w => setOutflowBpsThreshold msg bps w
  | .setMaxFeeBpsOfNotional bps, w => setMaxFeeBpsOfNotional msg bps w
  | .evaluateOutflow balanceBefore amount, w => do
    let (_, w) ← evaluateOutflow msg.sender balanceBefore amount w
    pure w
  | .evaluateSettleFee fee aitNotional, w => do
    let (_, w) ← evaluateSettleFee msg.sender fee aitNotional w
    pure w
  | .unpause, w => unpause msg w
  | .access call, w => do
    let roles ← w.guardrail.roles.exec msg.sender call
    pure { w with guardrail := { w.guardrail with roles } }

/-- The world with the breaker tripped and some more events, and nothing else changed. -/
def trip (w : World τ) (events : List Event) : World τ :=
  { w with guardrail := { w.guardrail with paused := true }, log := w.log ++ events }

/-- The events of a refused evaluation: a breaker that is already tripped logs nothing. -/
def tripEvents (reason : CircuitReason) (amount : ℕ) (w : World τ) : List Event :=
  if w.guardrail.paused then [] else [.circuitBroken reason amount]

theorem mem_tripEvents {reason : CircuitReason} {amount : ℕ} {w : World τ} {e : Event}
    (member : e ∈ tripEvents reason amount w) : e = .circuitBroken reason amount := by
  unfold tripEvents at member
  split at member
  · cases member
  · exact List.mem_singleton.mp member

theorem filterMap_tripEvents {α : Type} {reason : CircuitReason} {amount : ℕ} {w : World τ}
    (reads : Event → Option α) (none : reads (.circuitBroken reason amount) = none) :
    (tripEvents reason amount w).filterMap reads = [] := by
  refine List.filterMap_eq_nil_iff.mpr fun e member => ?_
  rw [mem_tripEvents member, none]

/-- An evaluation either lets the amount pass and changes nothing, or refuses it and leaves
the breaker tripped and everything else as it was. -/
theorem evaluate_cases {reason : CircuitReason} {base amount bps : ℕ} {w next : World τ}
    {allowed : Bool} (run : evaluate reason base amount bps w = .ok (allowed, next)) :
    (allowed = true ∧ next = w ∧ w.guardrail.paused = false ∧
      (0 < base → amount * 10000 ≤ base * bps)) ∨
    (allowed = false ∧ next = trip w (tripEvents reason amount w)) := by
  unfold evaluate at run
  split at run
  · rename_i paused
    cases pure_eq_ok.mp run
    refine Or.inr ⟨rfl, ?_⟩
    simp only [trip, tripEvents, paused, if_true, List.append_nil]
    rw [← paused]
  · rename_i running
    have unpaused : w.guardrail.paused = false := by simpa using running
    split at run
    · simp only [bind_eq_ok, checkedMul_eq_ok] at run
      obtain ⟨_, ⟨_, rfl⟩, _, ⟨_, rfl⟩, run⟩ := run
      split at run
      · cases pure_eq_ok.mp run
        exact Or.inr ⟨rfl, by simp [trip, tripEvents, unpaused, World.emit]⟩
      · rename_i within
        cases pure_eq_ok.mp run
        exact Or.inl ⟨rfl, rfl, unpaused, fun _ => by omega⟩
    · rename_i empty
      cases pure_eq_ok.mp run
      exact Or.inl ⟨rfl, rfl, unpaused, fun positive => absurd positive empty⟩

/-- When the breaker lets an amount pass. -/
theorem evaluate_eq_ok_true {reason : CircuitReason} {base amount bps : ℕ} {w next : World τ} :
    evaluate reason base amount bps w = .ok (true, next) ↔
      w.guardrail.paused = false ∧ (0 < base → amount * 10000 ≤ uint256Max ∧
        base * bps ≤ uint256Max ∧ amount * 10000 ≤ base * bps) ∧ next = w := by
  unfold evaluate
  cases w.guardrail.paused with
  | true => simp [pure_eq_ok]
  | false =>
    simp only [if_false, Bool.false_eq_true, true_and]
    by_cases positive : 0 < base
    · simp only [positive, if_true, bind_eq_ok, checkedMul_eq_ok, forall_const]
      constructor
      · rintro ⟨_, ⟨demanded, rfl⟩, _, ⟨limit, rfl⟩, run⟩
        by_cases trips : base * bps < amount * 10000
        · simp [trips, pure_eq_ok] at run
        · simp only [if_neg trips, pure_eq_ok, Prod.mk.injEq, true_and] at run
          exact ⟨⟨demanded, limit, not_lt.mp trips⟩, run.symm⟩
      · rintro ⟨⟨demanded, limit, within⟩, same⟩
        refine ⟨_, ⟨demanded, rfl⟩, _, ⟨limit, rfl⟩, ?_⟩
        simp [not_lt.mpr within, pure_eq_ok, same]
    · simp only [positive, if_false, pure_eq_ok, Prod.mk.injEq, true_and, IsEmpty.forall_iff]
      exact eq_comm

/-- An amount within the limit of a running breaker does not trip it. -/
theorem evaluate_within {reason : CircuitReason} {base amount bps : ℕ} {w next : World τ}
    {allowed : Bool} (running : w.guardrail.paused = false) (within : amount * 10000 ≤ base * bps)
    (run : evaluate reason base amount bps w = .ok (allowed, next)) : allowed = true := by
  unfold evaluate at run
  rw [running] at run
  simp only [Bool.false_eq_true, if_false] at run
  split at run
  · simp only [bind_eq_ok, checkedMul_eq_ok] at run
    obtain ⟨_, ⟨_, rfl⟩, _, ⟨_, rfl⟩, run⟩ := run
    rw [if_neg (not_lt.mpr within)] at run
    cases pure_eq_ok.mp run
    rfl
  · cases pure_eq_ok.mp run
    rfl

/-- No call of the breaker touches any other contract. -/
theorem exec_frame {msg : Msg} {call : Call} {w next : World τ} (run : exec msg call w = .ok next) :
    ∃ guardrail log, next = { w with guardrail := guardrail, log := log } := by
  cases call with
  | setPeers treasury internalMarket =>
    simp only [exec, setPeers, bind_eq_ok, pure_eq_ok] at run
    obtain ⟨_, _, _, _, _, _, rfl⟩ := run
    exact ⟨_, _, rfl⟩
  | setOutflowBpsThreshold bps =>
    simp only [exec, setOutflowBpsThreshold, bind_eq_ok, pure_eq_ok] at run
    obtain ⟨_, _, _, _, rfl⟩ := run
    exact ⟨_, _, rfl⟩
  | setMaxFeeBpsOfNotional bps =>
    simp only [exec, setMaxFeeBpsOfNotional, bind_eq_ok, pure_eq_ok] at run
    obtain ⟨_, _, _, _, rfl⟩ := run
    exact ⟨_, _, rfl⟩
  | evaluateOutflow balanceBefore amount =>
    simp only [exec, evaluateOutflow, bind_eq_ok, pure_eq_ok] at run
    obtain ⟨⟨_, _⟩, ⟨_, _, evaluated⟩, rfl⟩ := run
    obtain ⟨_, rfl, _⟩ | ⟨_, rfl⟩ := evaluate_cases evaluated
    · exact ⟨_, _, rfl⟩
    · exact ⟨_, _, rfl⟩
  | evaluateSettleFee fee aitNotional =>
    simp only [exec, evaluateSettleFee, bind_eq_ok, pure_eq_ok] at run
    obtain ⟨⟨_, _⟩, ⟨_, _, evaluated⟩, rfl⟩ := run
    obtain ⟨_, rfl, _⟩ | ⟨_, rfl⟩ := evaluate_cases evaluated
    · exact ⟨_, _, rfl⟩
    · exact ⟨_, _, rfl⟩
  | unpause =>
    simp only [exec, unpause, bind_eq_ok, pure_eq_ok] at run
    obtain ⟨_, _, rfl⟩ := run
    exact ⟨_, _, rfl⟩
  | access call =>
    simp only [exec, bind_eq_ok, pure_eq_ok] at run
    obtain ⟨_, _, rfl⟩ := run
    exact ⟨_, _, rfl⟩

end Aide.Guardrail
