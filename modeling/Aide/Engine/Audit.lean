import Aide.Engine.Matching
import Aide.Engine.Streamer
import Aide.Engine.Sync

namespace Aide.Engine

/-- What an audit has read from the market. A key that was not read is missing. -/
structure ChainBalanceSnapshot where
  ait : Address → Option ℕ
  vstk : ℕ × Address → Option ℕ

def ChainBalanceSnapshot.new : ChainBalanceSnapshot := ⟨fun _ => none, fun _ => none⟩

/-- The two balances that are compared. -/
inductive BalanceField
  | aitBalance
  | vstkBalance
  deriving DecidableEq

structure BalanceDrift where
  user : Address
  field : BalanceField
  localValue : ℕ
  chainValue : ℕ
  deriving DecidableEq

/-- The keys of a map after an entry of it is changed. -/
def withKey {K : Type} [DecidableEq K] (keys : List K) (key : K) : List K :=
  if key ∈ keys then keys else keys ++ [key]

/-- The shadow with the keys of its two maps. -/
structure Shadow where
  sync : SyncCoordinator
  shadowAitUsers : List Address
  shadowVstkKeys : List (ℕ × Address)
  usersOf : ∀ user, (sync.localAit user).isSome ↔ user ∈ shadowAitUsers
  keysOf : ∀ key, (sync.localVstk key).isSome ↔ key ∈ shadowVstkKeys

/-- `SyncCoordinator::new`. -/
def Shadow.new : Shadow where
  sync := .new
  shadowAitUsers := []
  shadowVstkKeys := []
  usersOf _ := iff_of_false Bool.false_ne_true List.not_mem_nil
  keysOf _ := iff_of_false Bool.false_ne_true List.not_mem_nil

section Entry
variable {K : Type} [DecidableEq K] {map : K → Option ℕ} {keys : List K}

/-- An entry that is changed is among the keys of the map from then on. -/
theorem isSome_entry (keysOf : ∀ key, (map key).isSome ↔ key ∈ keys) (key : K) (change : ℕ → ℕ)
    (other : K) : (entry map key change other).isSome ↔ other ∈ withKey keys key := by
  have mem : other ∈ withKey keys key ↔ other = key ∨ other ∈ keys := by
    unfold withKey
    split
    · rename_i old
      exact ⟨Or.inr, fun either => either.elim (fun same => same ▸ old) id⟩
    · rw [List.mem_append, List.mem_singleton, or_comm]
  rw [mem, ← keysOf]
  by_cases same : other = key
  · subst same
    simp [entry]
  · simp [entry, same]

end Entry

namespace Shadow

/-- `apply_fill_shadow` also adds the keys that were missing. -/
def applyFillShadow (shadow : Shadow) (companyId : ℕ) (buyer seller : Address)
    (vstk ait : ℕ) : Shadow where
  sync := shadow.sync.applyFillShadow companyId buyer seller vstk ait
  shadowAitUsers := withKey (withKey shadow.shadowAitUsers buyer) seller
  shadowVstkKeys := withKey (withKey shadow.shadowVstkKeys (companyId, seller)) (companyId, buyer)
  usersOf := isSome_entry (isSome_entry shadow.usersOf buyer (saturatingSub · ait)) seller
    (saturatingAdd · ait)
  keysOf := isSome_entry (isSome_entry shadow.keysOf (companyId, seller) (saturatingSub · vstk))
    (companyId, buyer) (saturatingAdd · vstk)

/-- What the match runner does to the shadow. -/
def observe (shadow : Shadow) : EngineEvent → Shadow
  | .tradeSettled _ companyId buyer seller vstkAmount aitNotional =>
    shadow.applyFillShadow companyId buyer seller vstkAmount aitNotional
  | _ => shadow

/-- A value that differs from what was read, where a missing value counts as zero. -/
def drift (user : Address) (field : BalanceField) (localValue : ℕ) (chain : Option ℕ) :
    List BalanceDrift :=
  if localValue ≠ chain.getD 0 then [⟨user, field, localValue, chain.getD 0⟩] else []

def reconcile (shadow : Shadow) (chain : ChainBalanceSnapshot) : List BalanceDrift :=
  shadow.shadowAitUsers.flatMap (fun user =>
    drift user .aitBalance (shadow.sync.ait user) (chain.ait user)) ++
  shadow.shadowVstkKeys.flatMap (fun key =>
    drift key.2 .vstkBalance (shadow.sync.vstk key) (chain.vstk key))

variable {shadow : Shadow} {chain : ChainBalanceSnapshot} {d : BalanceDrift}

theorem mem_drift {user : Address} {field : BalanceField} {localValue : ℕ} {read : Option ℕ}
    (member : d ∈ drift user field localValue read) :
    d.field = field ∧ localValue ≠ read.getD 0 := by
  unfold drift at member
  split at member
  · rename_i differs
    cases List.mem_singleton.mp member
    exact ⟨rfl, differs⟩
  · cases member

/-- Shares that were read as they are in the shadow do not drift. -/
theorem reconcile_vstk
    (same : ∀ key ∈ shadow.shadowVstkKeys, chain.vstk key = some (shadow.sync.vstk key))
    (member : d ∈ shadow.reconcile chain) : d.field = .aitBalance := by
  rcases List.mem_append.mp member with ait | vstk
  · obtain ⟨user, _, drifts⟩ := List.mem_flatMap.mp ait
    exact (mem_drift drifts).1
  · obtain ⟨key, listed, drifts⟩ := List.mem_flatMap.mp vstk
    refine absurd ?_ (mem_drift drifts).2
    rw [same key listed]
    rfl

end Shadow

/-- At threshold zero every difference counts. -/
def reportExceedsThreshold (drifts : List BalanceDrift) (threshold : ℕ) : Bool :=
  drifts.any fun d =>
    let diff := if d.chainValue < d.localValue then d.localValue - d.chainValue
      else d.chainValue - d.localValue
    if threshold = 0 then 0 < diff else threshold < diff

/-- `sync_treasury_tax_rate_to_engine`, for a rate below 2 ^ 128. -/
def MatchEngine.syncTaxRate (engine : MatchEngine) (rate : ℕ) : MatchEngine :=
  { engine with taxRateBps := min rate (2 ^ 64 - 1) }

def MatchEngine.pauseMatching (engine : MatchEngine) : MatchEngine :=
  { engine with matchingPaused := true }

/-- The end of `run_sync_audit_once`: a drift above the threshold pauses matching. -/
def MatchEngine.judge (engine : MatchEngine) (drifts : List BalanceDrift) (threshold : ℕ) :
    MatchEngine :=
  if reportExceedsThreshold drifts threshold then engine.pauseMatching else engine

/-- A report that pauses matching is not empty. -/
theorem MatchEngine.judge_paused {engine : MatchEngine} {drifts : List BalanceDrift} {threshold : ℕ}
    (paused : (engine.judge drifts threshold).matchingPaused = true) :
    engine.matchingPaused = true ∨ ∃ d, d ∈ drifts := by
  unfold MatchEngine.judge at paused
  split at paused
  · rename_i exceeds
    obtain ⟨d, member, _⟩ := List.any_eq_true.mp exceeds
    exact Or.inr ⟨d, member⟩
  · exact Or.inl paused

end Aide.Engine
