import Aide.Engine.Telemetry
import Aide.Foundation.FrontQueue
import Aide.Foundation.TransitionRun
import Mathlib.Algebra.BigOperators.Group.List.Basic

namespace Aide

open Engine

namespace Engine.SlidingWindow

/-- The sum of the amounts of samples. -/
def volume (samples : List (ℕ × ℕ)) : ℕ := (samples.map Prod.snd).sum

/-- The instant of a sample is longer ago than the window. -/
def old (window now : ℕ) (sample : ℕ × ℕ) : Bool := decide (window < now - sample.1)

/-- The samples that are no older than the window. -/
def recent (window now : ℕ) (samples : List (ℕ × ℕ)) : List (ℕ × ℕ) :=
  samples.filter fun sample => !old window now sample

variable {w : SlidingWindow} {window now last amount : ℕ} {samples : List (ℕ × ℕ)}

theorem volume_append (samples more : List (ℕ × ℕ)) :
    volume (samples ++ more) = volume samples + volume more := by
  rw [volume, List.map_append, List.sum_append]
  rfl

theorem volume_split (window now : ℕ) (samples : List (ℕ × ℕ)) :
    volume (samples.filter (old window now)) + volume (recent window now samples) = volume samples := by
  rw [← volume_append]
  exact ((List.filter_append_perm (old window now) samples).map Prod.snd).sum_eq

/-- A sample that is old stays old. -/
theorem old_mono (later : last ≤ now) {sample : ℕ × ℕ} (before : old window last sample = true) :
    old window now sample = true := by
  simp only [old, decide_eq_true_eq] at before ⊢
  omega

theorem recent_append (more : List (ℕ × ℕ)) :
    recent window now (samples ++ more) = recent window now samples ++ recent window now more :=
  List.filter_append ..

theorem recent_recent (later : last ≤ now) :
    recent window now (recent window last samples) = recent window now samples := by
  rw [recent, recent, List.filter_filter]
  refine List.filter_congr fun sample _ => ?_
  by_cases before : old window last sample = true
  · simp [before, old_mono later before]
  · simp [before]

/-- The loop takes the old samples from the front, and their amounts from the sum. -/
theorem evict_eq (window now : ℕ) (samples : List (ℕ × ℕ)) (sum : ℕ) :
    evict window now samples sum =
      (samples.dropWhile (old window now), sum - volume (samples.takeWhile (old window now))) := by
  induction samples generalizing sum with
  | nil => rfl
  | cons sample samples ih =>
    by_cases late : window < now - sample.1
    · have gone : old window now sample = true := decide_eq_true late
      rw [evict, if_pos late, ih, List.dropWhile_cons_of_pos gone, List.takeWhile_cons_of_pos gone,
        saturatingSub, Nat.sub_sub]
      rfl
    · have stays : ¬ old window now sample = true := by simpa [old] using late
      rw [evict, if_neg late, List.dropWhile_cons_of_neg stays, List.takeWhile_cons_of_neg stays]
      rfl

/-- Samples in the order of their instants get old from the front. -/
theorem evictOld_eq (sorted : w.samples.Pairwise fun a b => a.1 ≤ b.1) :
    w.evictOld now = { w with
      samples := recent w.window now w.samples
      sum := w.sum - volume (w.samples.filter (old w.window now)) } := by
  have front : w.samples.Pairwise fun a b => old w.window now b = true → old w.window now a = true := by
    refine sorted.imp fun {a b} before => ?_
    simp only [old, decide_eq_true_eq]
    omega
  rw [evictOld, evict_eq, FrontQueue.dropWhile_of_front front, FrontQueue.takeWhile_of_front front]
  rfl

end Engine.SlidingWindow

open Engine.SlidingWindow

/-- A call to a window with the instant that it reads from the clock. -/
inductive WindowCall
  | record (now amount : ℕ)
  | total (now : ℕ)
  | windowVolume (now : ℕ)

namespace WindowCall

def now : WindowCall → ℕ
  | .record now _ => now
  | .total now => now
  | .windowVolume now => now

/-- The sample that a call records, if it does. -/
def samples : WindowCall → List (ℕ × ℕ)
  | .record now amount => [(now, amount)]
  | .total _ => []
  | .windowVolume _ => []

/-- What a read returns, and after a record what it would return at the same instant. -/
def value (w : SlidingWindow) : WindowCall → ℕ
  | .record now amount => ((w.record now amount).total now).1
  | .total now => (w.total now).1
  | .windowVolume now => (VelocityWindow.windowVolume w now).1

end WindowCall

/-- A window, and all samples that were ever recorded. -/
structure WindowRun where
  window : SlidingWindow
  recorded : List (ℕ × ℕ)

namespace WindowRun

def new (window : ℕ) : WindowRun := ⟨.new window, []⟩

def exec (s : WindowRun) : WindowCall → Except Unit WindowRun
  | .record now amount => .ok ⟨s.window.record now amount, s.recorded ++ [(now, amount)]⟩
  | .total now => .ok ⟨(s.window.total now).2, s.recorded⟩
  | .windowVolume now => .ok ⟨(VelocityWindow.windowVolume s.window now).2, s.recorded⟩

/-- The value is the sum of the amounts that were recorded no longer ago than the window. -/
def Tells (s : WindowRun) (call : WindowCall) : Prop :=
  call.value s.window =
    min uint256Max (volume (recent s.window.window call.now (s.recorded ++ call.samples)))

/-- With what a call records, the amounts in the window fit into its sum, or none of them is old, or none is
recent. Amounts of zero do not count. -/
def Reversible (s : WindowRun) (call : WindowCall) : Prop :=
  volume (s.window.samples ++ call.samples) ≤ uint256Max ∨
    volume (recent s.window.window call.now (s.window.samples ++ call.samples)) =
      volume (s.window.samples ++ call.samples) ∨
    volume (recent s.window.window call.now (s.window.samples ++ call.samples)) = 0

instance (s : WindowRun) : DecidablePred s.Tells := fun _ => inferInstanceAs (Decidable (_ = _))

instance (s : WindowRun) : DecidablePred s.Reversible :=
  fun _ => inferInstanceAs (Decidable (_ ≤ _ ∨ _ = _ ∨ _ = 0))

/-- At an instant the window holds the samples that are no older, and their sum. -/
structure Holds (s : WindowRun) (now : ℕ) : Prop where
  sorted : s.recorded.Pairwise fun a b => a.1 ≤ b.1
  past : ∀ sample ∈ s.recorded, sample.1 ≤ now
  samples : s.window.samples = recent s.window.window now s.recorded
  sum : s.window.sum = min uint256Max (volume s.window.samples)

variable {s : WindowRun} {last : ℕ} {call : WindowCall} {calls : List WindowCall}

theorem Holds.sorted_append (holds : s.Holds last) (later : last ≤ call.now) :
    (s.recorded ++ call.samples).Pairwise fun a b => a.1 ≤ b.1 := by
  cases call with
  | record now amount =>
    refine List.pairwise_append.mpr ⟨holds.sorted, List.pairwise_singleton .., fun a member b new => ?_⟩
    cases List.mem_singleton.mp new
    exact (holds.past a member).trans later
  | total now | windowVolume now => exact (List.append_nil _).symm ▸ holds.sorted

theorem Holds.past_append (holds : s.Holds last) (later : last ≤ call.now) :
    ∀ sample ∈ s.recorded ++ call.samples, sample.1 ≤ call.now := by
  intro sample member
  rcases List.mem_append.mp member with old | new
  · exact (holds.past sample old).trans later
  · cases call with
    | record now amount =>
      cases List.mem_singleton.mp new
      exact le_rfl
    | total now | windowVolume now => cases new

theorem Holds.window_sorted (holds : s.Holds last) (later : last ≤ call.now) :
    (s.window.samples ++ call.samples).Pairwise fun a b => a.1 ≤ b.1 := by
  have sublist : (s.window.samples ++ call.samples).Sublist (s.recorded ++ call.samples) := by
    rw [holds.samples]
    exact List.filter_sublist.append_right _
  exact (holds.sorted_append later).sublist sublist

/-- Nothing that has left the window is recent. -/
theorem Holds.recent_eq (holds : s.Holds last) (later : last ≤ call.now) :
    recent s.window.window call.now (s.window.samples ++ call.samples) =
      recent s.window.window call.now (s.recorded ++ call.samples) := by
  rw [recent_append, recent_append, holds.samples, recent_recent later]

/-- A call adds what it records and subtracts what is old by then. -/
theorem Holds.after_eq (holds : s.Holds last) (later : last ≤ call.now) :
    TransitionRun.after exec s call =
      ⟨{ s.window with
          samples := recent s.window.window call.now (s.window.samples ++ call.samples)
          sum := min uint256Max (volume (s.window.samples ++ call.samples)) -
            volume ((s.window.samples ++ call.samples).filter (old s.window.window call.now)) },
        s.recorded ++ call.samples⟩ := by
  have sorted := holds.window_sorted later
  have sum := holds.sum
  cases call with
  | record now amount =>
    have added : saturatingAdd s.window.sum amount =
        min uint256Max (volume (s.window.samples ++ [(now, amount)])) := by
      rw [sum, saturatingAdd_min, volume_append]
      rfl
    refine (TransitionRun.after_ok rfl).trans ?_
    rw [SlidingWindow.record, evictOld_eq sorted, added]
    rfl
  | total now | windowVolume now =>
    simp only [WindowCall.samples, List.append_nil] at sorted ⊢
    change WindowRun.mk (s.window.evictOld now) s.recorded = _
    rw [evictOld_eq sorted, sum]
    rfl

/-- What can be read is the sum that the call leaves. -/
theorem Holds.value_eq (holds : s.Holds last) (later : last ≤ call.now) :
    call.value s.window = (TransitionRun.after exec s call).window.sum := by
  cases call with
  | total now | windowVolume now => rfl
  | record now amount =>
    have left : s.window.record now amount = (TransitionRun.after exec s (.record now amount)).window := rfl
    have fresh : (s.window.record now amount).Fresh now := by
      intro sample member
      rw [left, holds.after_eq later] at member
      have young := (List.mem_filter.mp member).2
      simp only [old, Bool.not_eq_true', decide_eq_false_iff_not, not_lt] at young
      exact young
    rw [WindowCall.value, SlidingWindow.total, SlidingWindow.evictOld_of_fresh fresh]
    rfl

/-- Subtracting what is old leaves the sum of what is recent exactly if the sum was not cut off, or only
zeros are subtracted, or everything is. -/
theorem min_sub_eq_iff {limit : ℕ} (positive : 0 < limit) (gone kept : ℕ) :
    min limit (gone + kept) - gone = min limit kept ↔ gone + kept ≤ limit ∨ gone = 0 ∨ kept = 0 := by
  omega

theorem Holds.tells_iff (holds : s.Holds last) (later : last ≤ call.now) :
    s.Tells call ↔ s.Reversible call := by
  have split := volume_split s.window.window call.now (s.window.samples ++ call.samples)
  rw [Tells, Reversible, holds.value_eq later, holds.after_eq later, ← holds.recent_eq later, ← split,
    min_sub_eq_iff (by decide)]
  simp only [Nat.right_eq_add]

/-- A call that tells the sum leaves it in the window. -/
theorem Holds.next (holds : s.Holds last) (later : last ≤ call.now) (tells : s.Tells call) :
    (TransitionRun.after exec s call).Holds call.now := by
  have told := (holds.value_eq later).symm.trans tells
  rw [← holds.recent_eq later] at told
  have after := holds.after_eq later
  rw [after] at told ⊢
  exact ⟨holds.sorted_append later, holds.past_append later, holds.recent_eq later, told⟩

theorem new_holds (window : ℕ) : (WindowRun.new window).Holds 0 :=
  ⟨.nil, (fun _ member => nomatch member), rfl, (Nat.min_eq_right (Nat.zero_le _)).symm⟩

/-- Before each call of an ordered run the window holds what is recent, as of an instant that no call ahead
precedes. -/
def Ordered (s : WindowRun) (calls : List WindowCall) : Prop :=
  ∃ last, s.Holds last ∧ (last :: calls.map WindowCall.now).Pairwise (· ≤ ·)

theorem Ordered.tells_iff (ordered : s.Ordered (call :: calls)) : s.Tells call ↔ s.Reversible call := by
  obtain ⟨last, holds, times⟩ := ordered
  exact holds.tells_iff ((List.pairwise_cons.mp times).1 _ (List.mem_cons_self ..))

theorem Ordered.next (ordered : s.Ordered (call :: calls)) (tells : s.Tells call) :
    (TransitionRun.after exec s call).Ordered calls := by
  obtain ⟨last, holds, times⟩ := ordered
  obtain ⟨first, rest⟩ := List.pairwise_cons.mp times
  exact ⟨call.now, holds.next (first _ (List.mem_cons_self ..)) tells, rest⟩

end WindowRun

open WindowRun

variable {window : ℕ} {calls : List WindowCall}

/-- In a run whose instants do not go back, every call tells the sum over the window if and only if no
call finds the sum cut off while a part of the amounts is old and a part is not. -/
theorem window_tells_iff (ordered : (calls.map WindowCall.now).Pairwise (· ≤ ·)) :
    TransitionRun.Meets WindowRun.exec Tells (.new window) calls ↔
      TransitionRun.Meets WindowRun.exec Reversible (.new window) calls := by
  have start : (WindowRun.new window).Ordered calls :=
    ⟨0, new_holds window, List.pairwise_cons.mpr ⟨fun _ _ => Nat.zero_le _, ordered⟩⟩
  exact TransitionRun.meets_congr (fun _ _ _ ordered => ordered.tells_iff)
    (fun _ _ _ ordered tells => ordered.next tells) start

/-- An amount, one hour later an amount of one, and a read when only the first is older than a day. -/
def hourApart (amount : ℕ) : List WindowCall :=
  [.record 0 amount, .record (3600 * 10 ^ 9) 1, .windowVolume (24 * 3600 * 10 ^ 9 + 1)]

theorem window_tells_iff_of_five_and_one :
    TransitionRun.Meets WindowRun.exec Reversible (.new TelemetryHub.day) (hourApart 5) ∧
      TransitionRun.Meets WindowRun.exec Tells (.new TelemetryHub.day) (hourApart 5) := by
  have reversible : TransitionRun.Meets WindowRun.exec Reversible (.new TelemetryHub.day) (hourApart 5) := by
    decide +kernel
  exact ⟨reversible, (window_tells_iff (by decide)).mpr reversible⟩

/-- The amount of one is in the window, and zero is read. -/
theorem sum_lost :
    ¬ ∀ (window : ℕ) (calls : List WindowCall), (calls.map WindowCall.now).Pairwise (· ≤ ·) →
      (∀ call ∈ calls, ∀ sample ∈ call.samples, sample.2 ≤ uint256Max) →
      TransitionRun.Meets WindowRun.exec Tells (.new window) calls := by
  intro always
  exact absurd (always TelemetryHub.day (hourApart uint256Max) (by decide) (by decide)) (by decide +kernel)

end Aide
