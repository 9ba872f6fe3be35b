import Aide.Engine.SyncAudit

namespace Aide

open Engine

namespace Engine

/-- What the views of the market and of the treasury return. The treasury admits no higher rate. -/
structure ChainLedger where
  aitBalance : Address → ℕ
  vstkBalance : ℕ → Address → ℕ
  collectedTaxBalance : ℕ
  currentTaxRate : ℕ
  aitFits : ∀ user, aitBalance user ≤ uint256Max
  vstkFits : ∀ companyId user, vstkBalance companyId user ≤ uint256Max
  taxFits : collectedTaxBalance ≤ uint256Max
  rateFits : currentTaxRate ≤ 10000

namespace ChainLedger

def answer (ledger : ChainLedger) : ViewCall → ℕ
  | .aitBalance user => ledger.aitBalance user
  | .vstkBalance companyId user => ledger.vstkBalance companyId user
  | .getCollectedTaxBalance => ledger.collectedTaxBalance
  | .getCurrentTaxRate => ledger.currentTaxRate

/-- The answers of the provider are the words of the ledger. -/
def Answers (ledger : ChainLedger) (market treasury : Address) (provider : ViewProvider) : Prop :=
  ∀ call : ViewCall, provider (call.account market treasury) call = .ok (beBytes 32 (ledger.answer call))

variable {ledger : ChainLedger} {market treasury : Address} {provider : ViewProvider}

theorem answer_lt (ledger : ChainLedger) (call : ViewCall) : ledger.answer call < 256 ^ 32 := by
  have width : uint256Max < 256 ^ 32 := by decide
  cases call with
  | aitBalance user => exact (ledger.aitFits user).trans_lt width
  | vstkBalance companyId user => exact (ledger.vstkFits companyId user).trans_lt width
  | getCollectedTaxBalance => exact ledger.taxFits.trans_lt width
  | getCurrentTaxRate => exact ledger.rateFits.trans_lt (by decide)

theorem Answers.read (answers : ledger.Answers market treasury provider) (call : ViewCall) :
    provider.read (call.account market treasury) call = .ok (ledger.answer call) := by
  rw [ViewProvider.read, answers call]
  simp only
  rw [decodeU256Word, beBytes_length, if_neg (lt_irrefl 32)]
  exact congrArg Except.ok (beValue_beBytes_of_lt (ledger.answer_lt call))

end ChainLedger

/-- Where every read is answered, the keys are entered with their values. -/
theorem readAll_of_ok {K : Type} [DecidableEq K] {read : K → Except AuditError ℕ} {value : K → ℕ}
    (answers : ∀ key, read key = .ok (value key)) (map : K → Option ℕ) (keys : List K) :
    ∃ entries, readAll read map keys = .ok entries ∧ (∀ key ∈ keys, entries key = some (value key)) ∧
      ∀ key ∉ keys, entries key = map key := by
  induction keys generalizing map with
  | nil => exact ⟨map, rfl, fun key member => absurd member List.not_mem_nil, fun _ _ => rfl⟩
  | cons key keys ih =>
    obtain ⟨entries, runs, listed, others⟩ := ih (Function.update map key (some (value key)))
    refine ⟨entries, ?_, fun other member => ?_, fun other absent => ?_⟩
    · rw [readAll, answers key]
      exact runs
    · by_cases later : other ∈ keys
      · exact listed other later
      · cases (List.mem_cons.mp member).resolve_right later
        rw [others _ later, Function.update_self]
    · rw [List.mem_cons, not_or] at absent
      rw [others other absent.2, Function.update_of_ne absent.1]

/-- The values differ by more than the threshold. -/
def Apart (threshold localValue chainValue : ℕ) : Prop :=
  threshold < localValue - chainValue ∨ threshold < chainValue - localValue

theorem reportExceedsThreshold_iff {drifts : List BalanceDrift} {threshold : ℕ} :
    reportExceedsThreshold drifts threshold = true ↔
      ∃ d ∈ drifts, Apart threshold d.localValue d.chainValue := by
  rw [reportExceedsThreshold, List.any_eq_true]
  refine exists_congr fun d => and_congr_right fun _ => ?_
  unfold Apart
  split <;> split <;> rw [decide_eq_true_eq] <;> omega

/-- Of the keys that are compared, one makes the report exceed the threshold if and only if the value at
it is that far from what was read. -/
theorem exists_mem_drift {K : Type} {keys : List K} {user : K → Address} {field : BalanceField}
    {value chainValue : K → ℕ} {chain : K → Option ℕ} {threshold : ℕ}
    (reads : ∀ key ∈ keys, chain key = some (chainValue key)) :
    (∃ d ∈ keys.flatMap fun key => Shadow.drift (user key) field (value key) (chain key),
      Apart threshold d.localValue d.chainValue) ↔
      ∃ key ∈ keys, Apart threshold (value key) (chainValue key) := by
  constructor
  · rintro ⟨d, member, apart⟩
    obtain ⟨key, listed, drifts⟩ := List.mem_flatMap.mp member
    rw [reads key listed, Shadow.drift] at drifts
    split at drifts
    · cases List.mem_singleton.mp drifts
      exact ⟨key, listed, apart⟩
    · cases drifts
  · rintro ⟨key, listed, apart⟩
    refine ⟨⟨user key, field, value key, chainValue key⟩, List.mem_flatMap.mpr ⟨key, listed, ?_⟩, apart⟩
    have differs : value key ≠ chainValue key := by
      unfold Apart at apart
      omega
    rw [reads key listed, Shadow.drift, Option.getD_some, if_pos differs]
    exact List.mem_singleton_self _

namespace Shadow
variable {shadow : Shadow} {ledger : ChainLedger} {market treasury : Address} {provider : ViewProvider}
  {engine : MatchEngine} {threshold : ℕ}

/-- An entry of the shadow differs from the ledger by more than the threshold. -/
def Drifts (shadow : Shadow) (ledger : ChainLedger) (threshold : ℕ) : Prop :=
  (∃ user localValue, shadow.sync.localAit user = some localValue ∧
    Apart threshold localValue (ledger.aitBalance user)) ∨
  ∃ companyId user localValue, shadow.sync.localVstk (companyId, user) = some localValue ∧
    Apart threshold localValue (ledger.vstkBalance companyId user)

/-- The snapshot holds the values of the ledger at the keys of the shadow. -/
structure Reads (shadow : Shadow) (ledger : ChainLedger) (snap : ChainBalanceSnapshot) : Prop where
  ait : ∀ user ∈ shadow.shadowAitUsers, snap.ait user = some (ledger.aitBalance user)
  vstk : ∀ key ∈ shadow.shadowVstkKeys, snap.vstk key = some (ledger.vstkBalance key.1 key.2)

theorem fetch_of_answers (shadow : Shadow) (answers : ledger.Answers market treasury provider) :
    ∃ snap, fetchChainSnapshotForShadow provider market treasury shadow =
      .ok (snap, ledger.collectedTaxBalance) ∧ shadow.Reads ledger snap := by
  obtain ⟨ait, runsAit, aitOf, _⟩ := readAll_of_ok (fun user => answers.read (.aitBalance user))
    ChainBalanceSnapshot.new.ait shadow.shadowAitUsers
  obtain ⟨vstk, runsVstk, vstkOf, _⟩ := readAll_of_ok
    (fun key : ℕ × Address => answers.read (.vstkBalance key.1 key.2))
    ChainBalanceSnapshot.new.vstk shadow.shadowVstkKeys
  have tax := answers.read .getCollectedTaxBalance
  simp only [ViewCall.account] at runsAit runsVstk tax
  refine ⟨⟨ait, vstk⟩, ?_, aitOf, vstkOf⟩
  simp only [fetchChainSnapshotForShadow, runsAit, runsVstk, tax, bind, Except.bind, pure, Except.pure]
  rfl

/-- The entries of a map are its values at the keys. -/
theorem exists_entry {K : Type} {map : K → Option ℕ} {keys : List K} (P : K → ℕ → Prop)
    (keysOf : ∀ key, (map key).isSome ↔ key ∈ keys) :
    (∃ key ∈ keys, P key ((map key).getD 0)) ↔ ∃ key value, map key = some value ∧ P key value := by
  refine exists_congr fun key => ?_
  rw [← keysOf]
  cases map key with
  | none => simp
  | some value => simp

/-- A report on what was read exceeds the threshold if and only if an entry of the shadow drifts. -/
theorem Reads.exceeds_iff {snap : ChainBalanceSnapshot} (reads : shadow.Reads ledger snap) (threshold : ℕ) :
    reportExceedsThreshold (shadow.reconcile snap) threshold = true ↔ shadow.Drifts ledger threshold := by
  have keyed : (∃ key ∈ shadow.shadowVstkKeys, Apart threshold ((shadow.sync.localVstk key).getD 0)
      (ledger.vstkBalance key.1 key.2)) ↔ _ :=
    exists_entry (fun key value => Apart threshold value (ledger.vstkBalance key.1 key.2)) shadow.keysOf
  rw [reportExceedsThreshold_iff, reconcile, Drifts,
    ← exists_entry (fun user value => Apart threshold value (ledger.aitBalance user)) shadow.usersOf,
    ← Prod.exists' (p := fun companyId user => ∃ localValue, shadow.sync.localVstk (companyId, user) =
      some localValue ∧ Apart threshold localValue (ledger.vstkBalance companyId user)), ← keyed]
  simp only [List.mem_append, or_and_right, exists_or]
  exact or_congr (exists_mem_drift reads.ait) (exists_mem_drift reads.vstk)

end Shadow

/-- Where the balances differ the audit returns false and pauses matching. Otherwise it returns true and
leaves the flag as it is. -/
structure Judges (audit : Option (Except AuditError Bool × MatchEngine)) (engine : MatchEngine)
    (differ : Prop) : Prop where
  halts : differ → ∃ next, audit = some (.ok false, next) ∧ next.matchingPaused = true
  passes : ¬ differ → ∃ next, audit = some (.ok true, next) ∧ next.matchingPaused = engine.matchingPaused

/-- An entry that one of the two has differs by more than the threshold, where a missing entry is zero. -/
def Shadow.DriftsAnywhere (shadow : Shadow) (ledger : ChainLedger) (threshold : ℕ) : Prop :=
  (∃ user, Apart threshold (shadow.sync.ait user) (ledger.aitBalance user)) ∨
  ∃ companyId user, Apart threshold (shadow.sync.vstk (companyId, user)) (ledger.vstkBalance companyId user)

end Engine

open Engine

/-- With truthful answers an audit returns false and pauses matching if and only if an entry of the shadow
differs from the ledger by more than the threshold. -/
theorem audit_verdict_exact {connect : String → Option ViewProvider} {provider : ViewProvider}
    {ledger : ChainLedger} {market treasury : Address} {rpcUrl : String} (shadow : Shadow)
    (engine : MatchEngine) (threshold : ℕ) (connects : connect rpcUrl = some provider)
    (answers : ledger.Answers market treasury provider) :
    Judges (runSyncAuditOnce connect rpcUrl market treasury shadow engine threshold) engine
      (shadow.Drifts ledger threshold) := by
  obtain ⟨snap, fetched, reads⟩ := Shadow.fetch_of_answers shadow answers
  have rate : ledger.currentTaxRate < 2 ^ 128 := ledger.rateFits.trans_lt (by decide)
  have synced : syncTreasuryTaxRateToEngine provider treasury engine =
      some (.ok (min ledger.currentTaxRate (2 ^ 64 - 1)), engine.syncTaxRate ledger.currentTaxRate) := by
    have answer := answers.read .getCurrentTaxRate
    simp only [ViewCall.account, ChainLedger.answer] at answer
    rw [syncTreasuryTaxRateToEngine, answer]
    exact if_pos rate
  rw [← reads.exceeds_iff threshold]
  constructor
  · intro exceeds
    have drifts : shadow.reconcile snap ≠ [] := by
      intro none
      rw [none] at exceeds
      cases exceeds
    refine ⟨(engine.syncTaxRate ledger.currentTaxRate).pauseMatching, ?_, rfl⟩
    simp [runSyncAuditOnce, connects, synced, fetched, drifts, exceeds]
  · intro within
    refine ⟨engine.syncTaxRate ledger.currentTaxRate, ?_, rfl⟩
    simp [runSyncAuditOnce, connects, synced, fetched, within]

/-- One user has paid in, of whom the shadow has not heard. -/
def paidIn : ChainLedger where
  aitBalance user := if user = 11 then 5 else 0
  vstkBalance _ _ := 0
  collectedTaxBalance := 0
  currentTaxRate := 500
  aitFits user := by
    split <;> decide
  vstkFits _ _ := Nat.zero_le _
  taxFits := Nat.zero_le _
  rateFits := by decide

/-- An endpoint that answers from the ledger. -/
def paidInProvider : ViewProvider := fun _ call => .ok (beBytes 32 (paidIn.answer call))

/-- A shadow with an entry for the user. -/
def knowing (localValue : ℕ) : Shadow where
  sync := { localAit := fun user => if user = 11 then some localValue else none, localVstk := fun _ => none }
  shadowAitUsers := [11]
  shadowVstkKeys := []
  usersOf user := by
    by_cases same : user = 11 <;> simp [same]
  keysOf key := by simp

theorem audit_verdict_exact_of_small_drift :
    Judges (runSyncAuditOnce (fun _ => some paidInProvider) "http://127.0.0.1:8545" 1 2 (knowing 3) .new 2)
      .new ((knowing 3).Drifts paidIn 2) :=
  audit_verdict_exact _ _ _ rfl fun _ => rfl

/-- The shadow has no entry for a user who has a balance, and the audit returns true. -/
theorem unknown_user_is_not_audited :
    ¬ ∀ (connect : String → Option ViewProvider) (provider : ViewProvider) (ledger : ChainLedger)
      (market treasury : Address) (rpcUrl : String) (shadow : Shadow) (engine : MatchEngine) (threshold : ℕ),
      connect rpcUrl = some provider → ledger.Answers market treasury provider →
      Judges (runSyncAuditOnce connect rpcUrl market treasury shadow engine threshold) engine
        (shadow.DriftsAnywhere ledger threshold) := by
  intro always
  have judges := always (fun _ => some paidInProvider) _ paidIn 1 2 "http://127.0.0.1:8545" .new .new 0
    rfl fun _ => rfl
  obtain ⟨next, returns, _⟩ := judges.halts (Or.inl ⟨11, Or.inr (by decide)⟩)
  have verdict := congrArg (Option.map Prod.fst) returns
  have passes : (runSyncAuditOnce (fun _ => some paidInProvider) "http://127.0.0.1:8545" 1 2 .new .new
      0).map Prod.fst = some (.ok true) := by decide +kernel
  cases verdict.symm.trans passes

end Aide
