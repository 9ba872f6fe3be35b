import Mathlib.Algebra.BigOperators.Group.List.Basic
import Mathlib.Algebra.Order.BigOperators.Group.List
import Mathlib.Algebra.GroupWithZero.Nat
import Mathlib.Tactic.Common

/-- What happens to quantities that stand open under keys: one is opened, two are traded against
each other, one is closed with what is left of it. -/
inductive QuantityEvent (κ : Type*)
  | opened (k : κ) (amount : ℕ)
  | traded (maker taker : κ) (amount : ℕ)
  | closed (k : κ) (amount : ℕ)

namespace QuantityEvent
variable {κ : Type*} [DecidableEq κ] {s : κ → Option ℕ} {e : QuantityEvent κ}
  {events before rest : List (QuantityEvent κ)} {k maker taker : κ} {amount : ℕ}

def openedBy (k : κ) : QuantityEvent κ → ℕ
  | opened j amount => if j = k then amount else 0
  | _ => 0

def tradedBy (k : κ) : QuantityEvent κ → ℕ
  | traded maker taker amount => (if maker = k then amount else 0) + if taker = k then amount else 0
  | _ => 0

def closedBy (k : κ) : QuantityEvent κ → ℕ
  | closed j amount => if j = k then amount else 0
  | _ => 0

/-- What the events together do. -/
def total (part : QuantityEvent κ → ℕ) (events : List (QuantityEvent κ)) : ℕ := (events.map part).sum

omit [DecidableEq κ] in
@[simp] theorem total_nil {part : QuantityEvent κ → ℕ} : total part [] = 0 := rfl

omit [DecidableEq κ] in
@[simp] theorem total_cons {part : QuantityEvent κ → ℕ} :
    total part (e :: events) = part e + total part events := by
  simp [total]

omit [DecidableEq κ] in
theorem total_append {part : QuantityEvent κ → ℕ} :
    total part (events ++ rest) = total part events + total part rest := by
  simp [total]

/-- What an event needs of the quantities that are left. Nothing is known of a key before it is
opened. -/
def Allowed (s : κ → Option ℕ) : QuantityEvent κ → Prop
  | opened k _ => s k = none
  | traded maker taker amount => maker ≠ taker ∧ 0 < amount ∧
    (∃ left, s maker = some left ∧ amount ≤ left) ∧ ∃ left, s taker = some left ∧ amount ≤ left
  | closed k amount => s k = some amount

def apply (s : κ → Option ℕ) : QuantityEvent κ → κ → Option ℕ
  | opened k amount => Function.update s k (some amount)
  | traded maker taker amount =>
    Function.update (Function.update s maker ((s maker).map (· - amount))) taker
      ((s taker).map (· - amount))
  | closed k _ => Function.update s k (some 0)

def after (s : κ → Option ℕ) (events : List (QuantityEvent κ)) : κ → Option ℕ := events.foldl apply s

/-- Every event is allowed when its turn comes. -/
def Sound (s : κ → Option ℕ) : List (QuantityEvent κ) → Prop
  | [] => True
  | e :: rest => Allowed s e ∧ Sound (apply s e) rest

theorem sound_append :
    Sound s (events ++ rest) ↔ Sound s events ∧ Sound (after s events) rest := by
  induction events generalizing s with
  | nil => simp [Sound, after]
  | cons e events ih => simp [Sound, after, ih, and_assoc]

theorem after_append : after s (events ++ rest) = after (after s events) rest := List.foldl_append

/-- What is left and what the event opens is what is left then and what it trades and closes. -/
theorem apply_conserves (allowed : Allowed s e) (k : κ) :
    (s k).getD 0 + openedBy k e =
      (apply s e k).getD 0 + tradedBy k e + closedBy k e := by
  cases e with
  | opened j amount =>
    have unknown : s j = none := allowed
    by_cases same : j = k
    · subst same
      simp [openedBy, tradedBy, closedBy, apply, unknown]
    · simp [openedBy, tradedBy, closedBy, apply, same, Ne.symm same]
  | traded maker taker amount =>
    obtain ⟨apart, _, ⟨left, makerLeft, within⟩, rest, takerLeft, enough⟩ := allowed
    by_cases isTaker : taker = k
    · subst isTaker
      simp [openedBy, tradedBy, closedBy, apply, takerLeft, apart]
      omega
    · by_cases isMaker : maker = k
      · subst isMaker
        simp [openedBy, tradedBy, closedBy, apply, makerLeft, isTaker, Ne.symm isTaker]
        omega
      · simp [openedBy, tradedBy, closedBy, apply, isTaker, isMaker, Ne.symm isTaker, Ne.symm isMaker]
  | closed j amount =>
    have left : s j = some amount := allowed
    by_cases same : j = k
    · subst same
      simp [openedBy, tradedBy, closedBy, apply, left]
    · simp [openedBy, tradedBy, closedBy, apply, same, Ne.symm same]

theorem conserved (sound : Sound s events) (k : κ) :
    (s k).getD 0 + total (openedBy k) events =
      (after s events k).getD 0 + total (tradedBy k) events + total (closedBy k) events := by
  induction events generalizing s with
  | nil => simp [after]
  | cons e events ih =>
    obtain ⟨allowed, sound⟩ := sound
    have first := apply_conserves allowed k
    have rest := ih sound
    have unfolded : after s (e :: events) = after (apply s e) events := rfl
    rw [unfolded, total_cons, total_cons, total_cons]
    omega

/-- A key under which nothing is left stays so. -/
theorem apply_done (allowed : Allowed s e) (done : s k = some 0) : apply s e k = some 0 := by
  cases e with
  | opened j amount =>
    have unknown : s j = none := allowed
    by_cases same : k = j
    · subst same
      cases unknown.symm.trans done
    · simp [apply, same, done]
  | traded maker taker amount =>
    by_cases isTaker : k = taker
    · subst isTaker
      simp [apply, done]
    · by_cases isMaker : k = maker
      · subst isMaker
        simp [apply, isTaker, done]
      · simp [apply, isTaker, isMaker, done]
  | closed j amount =>
    by_cases same : k = j
    · subst same
      simp [apply]
    · simp [apply, same, done]

theorem after_done (sound : Sound s events) (done : s k = some 0) : after s events k = some 0 := by
  induction events generalizing s with
  | nil => exact done
  | cons e events ih => exact ih sound.2 (apply_done sound.1 done)

theorem after_closed (sound : Sound s events) (member : closed k amount ∈ events) :
    after s events k = some 0 := by
  obtain ⟨earlier, later, rfl⟩ := List.append_of_mem member
  obtain ⟨_, _, soundLater⟩ := sound_append.mp sound
  have closes : apply (after s earlier) (closed k amount) k = some 0 := by simp [apply]
  have stays := after_done soundLater closes
  rw [after_append]
  exact stays

/-- A key that is known stays known, and is not opened again. -/
theorem apply_known (allowed : Allowed s e) (known : s k ≠ none) :
    apply s e k ≠ none ∧ openedBy k e = 0 := by
  cases e with
  | opened j amount =>
    have unknown : s j = none := allowed
    have other : k ≠ j := fun same => known (same ▸ unknown)
    simp [apply, openedBy, other, Ne.symm other, known]
  | traded maker taker amount =>
    refine ⟨?_, rfl⟩
    by_cases isTaker : k = taker
    · subst isTaker
      simp [apply, known]
    · by_cases isMaker : k = maker
      · subst isMaker
        simp [apply, isTaker, known]
      · simp [apply, isTaker, isMaker, known]
  | closed j amount =>
    refine ⟨?_, rfl⟩
    by_cases same : k = j
    · subst same
      simp [apply]
    · simp [apply, same, known]

theorem after_known (sound : Sound s events) (known : s k ≠ none) :
    after s events k ≠ none ∧ total (openedBy k) events = 0 := by
  induction events generalizing s with
  | nil => exact ⟨known, rfl⟩
  | cons e events ih =>
    obtain ⟨kept, nothing⟩ := apply_known sound.1 known
    obtain ⟨keptLater, nothingLater⟩ := ih sound.2 kept
    exact ⟨keptLater, by rw [total_cons, nothing, nothingLater]⟩

/-- Until a key is known nothing has been opened under it. -/
theorem openedBy_of_unknown (sound : Sound s events) (unknown : after s events k = none) :
    total (openedBy k) events = 0 := by
  induction events generalizing s with
  | nil => rfl
  | cons e events ih =>
    rw [total_cons, ih sound.2 unknown, Nat.add_zero]
    cases e with
    | opened j amount =>
      have other : j ≠ k := by
        rintro rfl
        have opens : apply s (opened j amount) j ≠ none := by simp [apply]
        exact (after_known sound.2 opens).1 unknown
      exact if_neg other
    | traded maker taker amount => rfl
    | closed j amount => rfl

/-- A key is opened once. -/
theorem total_openedBy (sound : Sound s events) (member : opened k amount ∈ events) :
    total (openedBy k) events = amount ∧ after s events k ≠ none := by
  obtain ⟨earlier, later, rfl⟩ := List.append_of_mem member
  obtain ⟨soundEarlier, unknown, soundLater⟩ := sound_append.mp sound
  have opens : apply (after s earlier) (opened k amount) k ≠ none := by simp [apply]
  obtain ⟨known, nothing⟩ := after_known soundLater opens
  have before := openedBy_of_unknown soundEarlier unknown
  refine ⟨?_, ?_⟩
  · rw [total_append, before, total_cons, nothing]
    simp [openedBy]
  · rw [after_append]
    exact known

/-- A trade takes from both of its keys no more than has been opened and neither traded nor closed,
and names no key that has been closed or traded away. -/
theorem traded_within (fresh : ∀ k, s k = none)
    (sound : Sound s (before ++ traded maker taker amount :: rest)) (named : k = maker ∨ k = taker) :
    0 < amount ∧
      total (tradedBy k) before + total (closedBy k) before + amount ≤ total (openedBy k) before ∧
      ∀ left, closed k left ∉ before := by
  obtain ⟨soundBefore, ⟨_, positive, makerLeft, takerLeft⟩, _⟩ := sound_append.mp sound
  have open_ : ∃ left, after s before k = some left ∧ amount ≤ left := by
    rcases named with rfl | rfl
    · exact makerLeft
    · exact takerLeft
  obtain ⟨left, stands, within⟩ := open_
  have balance := conserved soundBefore k
  rw [fresh k, stands] at balance
  simp only [Option.getD_none, Option.getD_some] at balance
  refine ⟨positive, by omega, fun closedWith member => ?_⟩
  have done := after_closed soundBefore member
  rw [stands] at done
  cases done
  omega

end QuantityEvent
