import Aide.Engine.Sync

namespace Aide.Engine

/-- Amounts with the instants at which they were recorded, the oldest first, and their running sum. -/
structure SlidingWindow where
  window : ℕ
  samples : List (ℕ × ℕ)
  sum : ℕ

namespace SlidingWindow

def new (window : ℕ) : SlidingWindow := ⟨window, [], 0⟩

/-- The loop of `evict_old`. An instant that is not before `now` is no time ago. -/
def evict (window now : ℕ) : List (ℕ × ℕ) → ℕ → List (ℕ × ℕ) × ℕ
  | [], sum => ([], sum)
  | (instant, amount) :: samples, sum =>
    if window < now - instant then
      evict window now samples (saturatingSub sum amount)
    else
      ((instant, amount) :: samples, sum)

def evictOld (w : SlidingWindow) (now : ℕ) : SlidingWindow :=
  let (samples, sum) := evict w.window now w.samples w.sum
  { w with samples, sum }

def record (w : SlidingWindow) (now amount : ℕ) : SlidingWindow :=
  { w with samples := w.samples ++ [(now, amount)], sum := saturatingAdd w.sum amount }.evictOld now

/-- The sum that is read, and the window that is left. -/
def total (w : SlidingWindow) (now : ℕ) : ℕ × SlidingWindow :=
  ((w.evictOld now).sum, w.evictOld now)

/-- No sample is older than the window. -/
def Fresh (w : SlidingWindow) (now : ℕ) : Prop := ∀ sample ∈ w.samples, now - sample.1 ≤ w.window

variable {w : SlidingWindow} {now amount : ℕ}

theorem evictOld_of_fresh (fresh : w.Fresh now) : w.evictOld now = w := by
  obtain ⟨window, samples, sum⟩ := w
  cases samples with
  | nil => rfl
  | cons sample samples =>
    have kept : ¬ window < now - sample.1 := not_lt.mpr (fresh sample (List.mem_cons_self ..))
    rw [evictOld, evict, if_neg kept]

theorem record_of_fresh (fresh : w.Fresh now) (fits : w.sum + amount ≤ uint256Max) :
    w.record now amount =
      { w with samples := w.samples ++ [(now, amount)], sum := w.sum + amount } := by
  have added : saturatingAdd w.sum amount = w.sum + amount := Nat.min_eq_left fits
  rw [record, added]
  refine evictOld_of_fresh fun sample member => ?_
  rcases List.mem_append.mp member with old | new
  · exact fresh sample old
  · cases List.mem_singleton.mp new
    simp

end SlidingWindow

/-- The window of the volumes and taxes. -/
abbrev VolumeWindow24h := SlidingWindow

/-- The window of the forecaster. -/
abbrev VelocityWindow := SlidingWindow

/-- The sum that is read, and the window that is left. -/
def VelocityWindow.windowVolume (w : VelocityWindow) (now : ℕ) : ℕ × VelocityWindow :=
  ((w.evictOld now).sum, w.evictOld now)

/-- The notionals of the last blocks, where those of one block are added up. -/
structure Last1000BlocksAit where
  blocks : List (ℕ × ℕ)
  maxBlocks : ℕ

namespace Last1000BlocksAit

def new : Last1000BlocksAit := ⟨[], 1000⟩

/-- The loop that takes blocks from the front leaves the last `maxBlocks`. -/
def push (l : Last1000BlocksAit) (blockNumber aitNotional : ℕ) : Last1000BlocksAit :=
  let blocks := l.blocks ++ [(blockNumber, aitNotional)]
  { l with blocks := blocks.drop (blocks.length - l.maxBlocks) }

def record (l : Last1000BlocksAit) (blockNumber aitNotional : ℕ) : Last1000BlocksAit :=
  match l.blocks.getLast? with
  | some (block, sum) =>
    if block = blockNumber then
      { l with blocks := l.blocks.dropLast ++ [(block, saturatingAdd sum aitNotional)] }
    else
      l.push blockNumber aitNotional
  | none => l.push blockNumber aitNotional

/-- The notional for each block, rounded down, and zero where there is no block. -/
def velocityPerBlockAvg (l : Last1000BlocksAit) : ℕ :=
  let n := l.blocks.length
  if n = 0 then
    0
  else
    l.blocks.foldl (fun acc block => saturatingAdd acc block.2) 0 / n

end Last1000BlocksAit

/-- Why matching is paused. -/
inductive MatchingPauseReason
  | drift
  | settlementFailure
  deriving DecidableEq

/-- What the tasks of the daemon record for the dashboard. -/
structure TelemetryHub where
  vstkWindow : VolumeWindow24h
  taxWindow : VolumeWindow24h
  aitNotional24h : VolumeWindow24h
  blockAit : Last1000BlocksAit
  ledgerAlignmentOk : Bool
  matchingPause : Option MatchingPauseReason

namespace TelemetryHub

/-- Instants and durations are in nanoseconds. -/
def day : ℕ := 24 * 3600 * 10 ^ 9

def new : TelemetryHub where
  vstkWindow := .new day
  taxWindow := .new day
  aitNotional24h := .new day
  blockAit := .new
  ledgerAlignmentOk := true
  matchingPause := none

def setLedgerAlignmentOk (hub : TelemetryHub) (ok : Bool) : TelemetryHub :=
  { hub with ledgerAlignmentOk := ok }

def setMatchingPause (hub : TelemetryHub) (reason : Option MatchingPauseReason) : TelemetryHub :=
  { hub with matchingPause := reason }

def recordVstkNotional (hub : TelemetryHub) (now amount : ℕ) : TelemetryHub :=
  { hub with vstkWindow := hub.vstkWindow.record now amount }

def recordTax (hub : TelemetryHub) (now fee : ℕ) : TelemetryHub :=
  { hub with taxWindow := hub.taxWindow.record now fee }

/-- The two windows read the clock one after the other. -/
def recordTradeSettled (hub : TelemetryHub) (now later blockNumber aitNotional vstkNotional : ℕ) :
    TelemetryHub :=
  { hub with
    blockAit := hub.blockAit.record blockNumber aitNotional
    aitNotional24h := hub.aitNotional24h.record now aitNotional
    vstkWindow := hub.vstkWindow.record later vstkNotional }

end TelemetryHub

end Aide.Engine
