import Aide.Engine.SyncAudit

namespace Aide

open Engine

namespace Engine

/-- An endpoint that reports the rate of the treasury reports at most what the treasury admits. -/
def Found.RateFits (config : SyncAuditConfig) (found : Found) : Prop :=
  ∀ provider, found.connect config.rpcUrl = some provider →
    ∀ rate, provider.read config.treasury .getCurrentTaxRate = .ok rate → rate ≤ 10000

/-- Under such an endpoint an audit does not panic, whatever else it returns. -/
theorem Found.RateFits.audited {config : SyncAuditConfig} {found : Found} (fits : found.RateFits config) :
    ∃ outcome, runSyncAuditOnce found.connect config.rpcUrl config.market config.treasury found.shadow
      found.engine config.threshold = some outcome := by
  unfold runSyncAuditOnce
  cases connects : found.connect config.rpcUrl with
  | none => exact ⟨_, rfl⟩
  | some provider =>
    have synced : ∃ outcome, syncTreasuryTaxRateToEngine provider config.treasury found.engine =
        some outcome := by
      unfold syncTreasuryTaxRateToEngine
      cases answer : provider.read config.treasury .getCurrentTaxRate with
      | error e => exact ⟨_, rfl⟩
      | ok rate =>
        have small : rate < 2 ^ 128 := (fits provider connects rate answer).trans_lt (by decide)
        exact ⟨_, if_pos small⟩
    obtain ⟨⟨_, engine⟩, runs⟩ := synced
    simp only [runs]
    split
    · exact ⟨_, rfl⟩
    · split
      · exact ⟨_, rfl⟩
      · split <;> exact ⟨_, rfl⟩

namespace SyncAuditLoop
variable {config : SyncAuditConfig} {loop : SyncAuditLoop} {found : Found} {ticks : List Found}

/-- The last audited head is among those that were attempted, which are multiples of the interval. -/
structure Sound (config : SyncAuditConfig) (loop : SyncAuditLoop) : Prop where
  last : loop.lastAuditedBlock = 0 ∨ loop.lastAuditedBlock ∈ loop.attempted
  multiples : ∀ head ∈ loop.attempted, config.intervalBlocks ∣ head

/-- The heads at which an audit is due. -/
def Due (config : SyncAuditConfig) (head : ℕ) : Prop := 0 < head ∧ config.intervalBlocks ∣ head

/-- A tick attempts an audit where one is due. -/
theorem Sound.tick (sound : loop.Sound config) (positive : 0 < config.intervalBlocks)
    (fits : found.RateFits config) :
    ∃ next left, loop.tick config found = some (next, left) ∧ next.Sound config ∧
      ∀ head, head ∈ next.attempted ↔ head ∈ loop.attempted ∨ head = found.head ∧ Due config head := by
  have idle : (Due config found.head → found.head ∈ loop.attempted) → ∀ head,
      head ∈ loop.attempted ↔ head ∈ loop.attempted ∨ head = found.head ∧ Due config head := by
    refine fun known head => ⟨Or.inl, fun either => either.elim id ?_⟩
    rintro ⟨rfl, due⟩
    exact known due
  unfold SyncAuditLoop.tick
  by_cases early : found.head = 0 ∨ found.head < config.intervalBlocks
  · refine ⟨loop, found, if_pos early, sound, idle fun due => ?_⟩
    have reached := Nat.le_of_dvd due.1 due.2
    have started := due.1
    omega
  rw [if_neg early, if_neg positive.ne']
  by_cases between : found.head % config.intervalBlocks ≠ 0
  · refine ⟨loop, found, if_pos between, sound, idle fun due => ?_⟩
    exact absurd (Nat.mod_eq_zero_of_dvd due.2) between
  have multiple : config.intervalBlocks ∣ found.head := Nat.dvd_of_mod_eq_zero (not_not.mp between)
  rw [if_neg between]
  by_cases again : found.head = loop.lastAuditedBlock
  · refine ⟨loop, found, if_pos again, sound, idle fun due => ?_⟩
    rcases sound.last with never | before
    · omega
    · exact again ▸ before
  obtain ⟨⟨verdict, engine⟩, audited⟩ := fits.audited
  have due : Due config found.head := ⟨by omega, multiple⟩
  rw [if_neg again, audited]
  refine ⟨_, _, rfl, ⟨Or.inr (List.mem_append_right _ (List.mem_singleton_self _)), fun head member => ?_⟩,
    fun head => ?_⟩
  · rcases List.mem_append.mp member with old | new
    · exact sound.multiples head old
    · exact List.mem_singleton.mp new ▸ multiple
  · rw [List.mem_append, List.mem_singleton]
    refine or_congr_right ⟨fun same => ⟨same, same ▸ due⟩, And.left⟩

/-- A run over ticks attempts an audit at every head at which one is due, and at no other. -/
theorem Sound.run (sound : loop.Sound config) (positive : 0 < config.intervalBlocks)
    (fits : ∀ found ∈ ticks, found.RateFits config) :
    ∃ last, loop.run config ticks = some last ∧ last.Sound config ∧
      ∀ head, head ∈ last.attempted ↔
        head ∈ loop.attempted ∨ (∃ found ∈ ticks, found.head = head) ∧ Due config head := by
  induction ticks generalizing loop with
  | nil => exact ⟨loop, rfl, sound, fun head => by simp⟩
  | cons found ticks ih =>
    obtain ⟨fitsFirst, fitsRest⟩ := List.forall_mem_cons.mp fits
    obtain ⟨next, left, ticked, soundNext, attempted⟩ := sound.tick positive fitsFirst
    obtain ⟨last, runs, soundLast, attemptedRest⟩ := ih soundNext fitsRest
    refine ⟨last, ?_, soundLast, fun head => ?_⟩
    · rw [SyncAuditLoop.run, ticked]
      exact runs
    · have seen : (∃ other ∈ found :: ticks, other.head = head) ↔
          head = found.head ∨ ∃ other ∈ ticks, other.head = head := by
        simp [eq_comm]
      rw [attemptedRest, attempted, seen, or_and_right, or_assoc]

/-- With an interval of zero blocks the loop goes on as long as the head is zero. -/
theorem run_of_zero (zero : config.intervalBlocks = 0) :
    (loop.run config ticks).isSome ↔ ∀ found ∈ ticks, found.head = 0 := by
  induction ticks with
  | nil => simp [run]
  | cons found ticks ih =>
    rw [List.forall_mem_cons, ← ih, run, tick, zero]
    by_cases still : found.head = 0
    · simp [still]
    · simp [still]

end SyncAuditLoop

/-- The loop never aborts, and after each tick that finds a head an audit has been attempted within the
interval of the head. -/
def SyncAuditConfig.Cadence (config : SyncAuditConfig) (ticks : List Found) : Prop :=
  ∀ before found rest, ticks = before ++ found :: rest →
    ∃ loop, SyncAuditLoop.start.run config (before ++ [found]) = some loop ∧
      (1 ≤ config.intervalBlocks → config.intervalBlocks ≤ found.head →
        ∃ head ∈ loop.attempted,
          found.head / config.intervalBlocks * config.intervalBlocks ≤ head ∧ head ≤ found.head)

end Engine

open SyncAuditLoop

/-- The only multiple of the interval between the latest one and the head is the latest one. -/
theorem latest_multiple {interval head other : ℕ} (positive : 0 < interval) (multiple : interval ∣ other)
    (lower : head / interval * interval ≤ other) (upper : other ≤ head) :
    other = head / interval * interval := by
  obtain ⟨k, rfl⟩ := multiple
  have bound : k ≤ head / interval := by
    rw [Nat.le_div_iff_mul_le positive, Nat.mul_comm]
    exact upper
  refine le_antisymm ?_ lower
  rw [Nat.mul_comm]
  exact Nat.mul_le_mul_right interval bound

variable {config : SyncAuditConfig} {ticks before rest : List Found} {found other : Found}

theorem mem_of_early (member : other ∈ before ++ [found]) : other ∈ before ++ found :: rest := by
  rw [List.append_cons]
  exact List.mem_append_left _ member

/-- What is seen at all, and is not above the head of a tick, is seen by then. -/
theorem seen_by_then
    (ordered : (before ++ found :: rest).Pairwise fun found later => found.head ≤ later.head)
    (upper : other.head ≤ found.head) (member : other ∈ before ++ found :: rest) :
    ∃ seen ∈ before ++ [found], seen.head = other.head := by
  rcases List.mem_append.mp member with early | late
  · exact ⟨other, List.mem_append_left _ early, rfl⟩
  · refine ⟨found, List.mem_append_right _ (List.mem_singleton_self _), ?_⟩
    rcases List.mem_cons.mp late with rfl | after
    · rfl
    · have later := (List.pairwise_cons.mp (List.pairwise_append.mp ordered).2.1).1 other after
      omega

/-- What has been attempted after a tick: the heads that were seen by then and at which an audit is due. -/
theorem attempted_by_then (positive : 0 < config.intervalBlocks)
    (fits : ∀ other ∈ before ++ found :: rest, other.RateFits config) :
    ∃ loop, start.run config (before ++ [found]) = some loop ∧ ∀ head,
      head ∈ loop.attempted ↔ (∃ seen ∈ before ++ [found], seen.head = head) ∧ Due config head := by
  have sound : start.Sound config := ⟨Or.inl rfl, fun head member => absurd member List.not_mem_nil⟩
  obtain ⟨loop, runs, _, attempted⟩ := sound.run positive fun other member =>
    fits other (mem_of_early member)
  refine ⟨loop, runs, fun head => (attempted head).trans ?_⟩
  exact or_iff_right List.not_mem_nil

/-- An interval of zero blocks is kept as long as there is no head. -/
theorem cadence_iff_of_zero (zero : config.intervalBlocks = 0) :
    config.Cadence ticks ↔ ∀ found ∈ ticks, found.head = 0 := by
  constructor
  · intro cadence found member
    obtain ⟨before, rest, split⟩ := List.append_of_mem member
    obtain ⟨loop, runs, _⟩ := cadence before found rest split
    exact (run_of_zero zero).mp (Option.isSome_of_eq_some runs) found
      (List.mem_append_right _ (List.mem_singleton_self _))
  · rintro still before found rest rfl
    obtain ⟨loop, runs⟩ := Option.isSome_iff_exists.mp ((run_of_zero zero).mpr fun other member =>
      still other (mem_of_early member))
    exact ⟨loop, runs, fun one => by omega⟩

/-- A positive interval is kept if and only if every head past it is seen at its latest multiple. -/
theorem cadence_iff_of_pos (positive : 0 < config.intervalBlocks)
    (ordered : ticks.Pairwise fun found later => found.head ≤ later.head)
    (fits : ∀ found ∈ ticks, found.RateFits config) :
    config.Cadence ticks ↔ ∀ found ∈ ticks, config.intervalBlocks ≤ found.head →
      ∃ other ∈ ticks, other.head = found.head / config.intervalBlocks * config.intervalBlocks := by
  constructor
  · intro cadence found member reached
    obtain ⟨before, rest, rfl⟩ := List.append_of_mem member
    obtain ⟨loop, runs, audits⟩ := cadence before found rest rfl
    obtain ⟨last, ran, attempted⟩ := attempted_by_then positive fits
    cases runs.symm.trans ran
    obtain ⟨head, audited, lower, upper⟩ := audits positive reached
    obtain ⟨⟨other, among, rfl⟩, due⟩ := (attempted head).mp audited
    exact ⟨other, mem_of_early among, latest_multiple positive due.2 lower upper⟩
  · rintro seen before found rest rfl
    obtain ⟨loop, runs, attempted⟩ := attempted_by_then positive fits
    refine ⟨loop, runs, fun _ reached => ?_⟩
    obtain ⟨other, member, same⟩ := seen found (List.mem_append_right _ (List.mem_cons_self ..)) reached
    have upper : found.head / config.intervalBlocks * config.intervalBlocks ≤ found.head :=
      Nat.div_mul_le_self ..
    have due : Due config (found.head / config.intervalBlocks * config.intervalBlocks) :=
      ⟨Nat.mul_pos (Nat.div_pos reached positive) positive, Nat.dvd_mul_left ..⟩
    have byThen := seen_by_then ordered (same.le.trans upper) member
    rw [same] at byThen
    exact ⟨_, (attempted _).mpr ⟨byThen, due⟩, le_rfl, upper⟩

/-- For heads that do not go down, the loop keeps the cadence if and only if the interval is positive once
there is a head, and every head past an interval is seen at its latest multiple. -/
theorem audit_cadence_iff {config : SyncAuditConfig} {ticks : List Found}
    (ordered : ticks.Pairwise fun found later => found.head ≤ later.head)
    (fits : ∀ found ∈ ticks, found.RateFits config) :
    config.Cadence ticks ↔ ∀ found ∈ ticks, 0 < found.head → config.intervalBlocks ≤ found.head →
      0 < config.intervalBlocks ∧
        ∃ other ∈ ticks, other.head = found.head / config.intervalBlocks * config.intervalBlocks := by
  rcases Nat.eq_zero_or_pos config.intervalBlocks with zero | positive
  · rw [cadence_iff_of_zero zero]
    constructor
    · intro still found member started _
      have none := still found member
      omega
    · intro seen found member
      by_contra started
      have interval := (seen found member (Nat.pos_of_ne_zero started) (by omega)).1
      omega
  · rw [cadence_iff_of_pos positive ordered fits]
    constructor
    · intro seen found member _ reached
      exact ⟨positive, seen found member reached⟩
    · intro seen found member reached
      exact (seen found member (positive.trans_le reached) reached).2

/-- An endpoint that reports a rate of 500, and 500 wherever else it is asked. -/
def rated : ViewProvider := fun _ _ => .ok (beBytes 32 500)

/-- A tick that finds the head, an endpoint that reports a rate, and nothing else. -/
def foundAt (head : ℕ) : Found where
  head
  connect := fun _ => some rated
  shadow := .new
  engine := .new
  telemetry := .new
  matchPaused := false

theorem foundAt_rateFits (config : SyncAuditConfig) (heads : List ℕ) :
    ∀ found ∈ heads.map foundAt, found.RateFits config := by
  intro found member provider connects rate answers
  obtain ⟨head, _, rfl⟩ := List.mem_map.mp member
  cases connects
  have reported : rated.read config.treasury .getCurrentTaxRate = .ok 500 := rfl
  cases reported.symm.trans answers
  decide

/-- The settings of the loop where the interval is not set. -/
def defaultConfig : SyncAuditConfig where
  rpcUrl := "http://127.0.0.1:8545"
  market := 1
  treasury := 2

theorem audit_cadence_iff_of_two_multiples :
    defaultConfig.Cadence ([50, 70, 100].map foundAt) ↔
      ∀ found ∈ [50, 70, 100].map foundAt, 0 < found.head → defaultConfig.intervalBlocks ≤ found.head →
        0 < defaultConfig.intervalBlocks ∧ ∃ other ∈ [50, 70, 100].map foundAt,
          other.head = found.head / defaultConfig.intervalBlocks * defaultConfig.intervalBlocks :=
  audit_cadence_iff (by simp [foundAt]) (foundAt_rateFits defaultConfig [50, 70, 100])

/-- The head jumps past the fiftieth block, and no audit is attempted. -/
theorem skipped_multiple_is_not_audited :
    ¬ ∀ (config : SyncAuditConfig) (ticks : List Found),
      (ticks.Pairwise fun found later => found.head ≤ later.head) →
      (∀ found ∈ ticks, found.RateFits config) → config.Cadence ticks := by
  intro always
  obtain ⟨loop, runs, audits⟩ := always defaultConfig ([49, 51].map foundAt) (by simp [foundAt])
    (foundAt_rateFits defaultConfig [49, 51]) [foundAt 49] (foundAt 51) [] rfl
  have nothing : start.run defaultConfig [foundAt 49, foundAt 51] = some ⟨0, []⟩ := rfl
  cases nothing.symm.trans runs
  obtain ⟨head, audited, _⟩ := audits (by decide) (by decide)
  cases audited

end Aide
