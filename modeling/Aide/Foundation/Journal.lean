import Mathlib.Data.List.Induction
import Mathlib.Tactic.Common

/-- How the entries of a journal are read: which entry is admitted in which state, and the state that
it leads to. -/
structure Journal (β ι : Type*) where
  admits : β → ι → Prop
  read : β → ι → β

namespace Journal
variable {β ι β' ι' σ : Type*} {j : Journal β ι} {j' : Journal β' ι'}

/-- The state that a list of entries leads to. -/
def replay (j : Journal β ι) (b : β) (entries : List ι) : β := entries.foldl j.read b

/-- Every entry is admitted in the state that the entries before it lead to. -/
def Admitted (j : Journal β ι) : β → List ι → Prop
  | _, [] => True
  | b, e :: rest => j.admits b e ∧ Admitted j (j.read b e) rest

variable {b mid final : β} {e : ι} {entries rest : List ι}

@[simp] theorem replay_nil : j.replay b [] = b := rfl

@[simp] theorem replay_cons : j.replay b (e :: rest) = j.replay (j.read b e) rest := rfl

@[simp] theorem replay_append : j.replay b (entries ++ rest) = j.replay (j.replay b entries) rest :=
  List.foldl_append

@[simp] theorem admitted_nil : j.Admitted b [] ↔ True := Iff.rfl

@[simp] theorem admitted_cons :
    j.Admitted b (e :: rest) ↔ j.admits b e ∧ j.Admitted (j.read b e) rest := Iff.rfl

theorem admitted_append :
    j.Admitted b (entries ++ rest) ↔ j.Admitted b entries ∧ j.Admitted (j.replay b entries) rest := by
  induction entries generalizing b with
  | nil => simp
  | cons e entries ih => simp [ih, and_assoc]

/-- An entry anywhere in a journal is admitted in the state that those before it lead to. -/
theorem Admitted.admits (admitted : j.Admitted b (entries ++ e :: rest)) :
    j.admits (j.replay b entries) e :=
  (admitted_append.mp admitted).2.1

/-- The entries tell how one state has come from another. -/
structure Tells (j : Journal β ι) (b : β) (entries : List ι) (final : β) : Prop where
  admitted : j.Admitted b entries
  replayed : j.replay b entries = final

theorem Tells.nil : j.Tells b [] b := ⟨trivial, rfl⟩

theorem Tells.single (admits : j.admits b e) (leads : j.read b e = final) : j.Tells b [e] final :=
  ⟨⟨admits, trivial⟩, leads⟩

theorem Tells.append (first : j.Tells b entries mid) (second : j.Tells mid rest final) :
    j.Tells b (entries ++ rest) final := by
  obtain ⟨admitted, rfl⟩ := first
  exact ⟨admitted_append.mpr ⟨admitted, second.admitted⟩, replay_append.trans second.replayed⟩

/-- The invariant rule. What every admitted entry keeps holds in the end. -/
theorem Tells.preserves {I : β → Prop} (keeps : ∀ b e, I b → j.admits b e → I (j.read b e))
    (tells : j.Tells b entries final) (start : I b) : I final := by
  obtain ⟨admitted, rfl⟩ := tells
  induction entries generalizing b with
  | nil => exact start
  | cons e entries ih => exact ih (keeps b e start admitted.1) admitted.2

/-- Of each entry a coarser journal either reads nothing, and then its state stays, or one entry that it
admits. -/
structure Projects (j : Journal β ι) (j' : Journal β' ι') (I : β → Prop) (view : β → β')
    (reads : ι → Option ι') : Prop where
  skips : ∀ b e, I b → j.admits b e → reads e = none → view (j.read b e) = view b
  admits : ∀ b e e', I b → j.admits b e → reads e = some e' →
    j'.admits (view b) e' ∧ view (j.read b e) = j'.read (view b) e'

/-- What a coarser journal reads of a journal tells how its own state has come about. -/
theorem Tells.project {I : β → Prop} {view : β → β'} {reads : ι → Option ι'}
    (projects : Projects j j' I view reads) (keeps : ∀ b e, I b → j.admits b e → I (j.read b e))
    (tells : j.Tells b entries final) (start : I b) :
    j'.Tells (view b) (entries.filterMap reads) (view final) := by
  obtain ⟨admitted, rfl⟩ := tells
  induction entries generalizing b with
  | nil => exact .nil
  | cons e entries ih =>
    have tail := ih (keeps b e start admitted.1) admitted.2
    cases read : reads e with
    | none =>
      rw [projects.skips b e start admitted.1 read] at tail
      simpa [read] using tail
    | some e' =>
      obtain ⟨admits, leads⟩ := projects.admits b e e' start admitted.1 read
      rw [leads] at tail
      simpa [read] using (Tells.single admits rfl).append tail

/-- Among the entries one sets a switch, and none after it clears it. -/
def LastSet (sets clears : ι → Prop) (entries : List ι) : Prop :=
  ∃ before e after, entries = before ++ e :: after ∧ sets e ∧ ∀ e' ∈ after, ¬ clears e'

/-- A property of the state that some entries bring about, some end, and that the others leave as it is. -/
structure Latch (j : Journal β ι) (on : β → Prop) (sets clears : ι → Prop) : Prop where
  set : ∀ b e, j.admits b e → sets e → on (j.read b e)
  clear : ∀ b e, j.admits b e → clears e → ¬ on (j.read b e)
  keep : ∀ b e, j.admits b e → ¬ sets e → ¬ clears e → (on (j.read b e) ↔ on b)

section
variable {on : β → Prop} {sets clears : ι → Prop}

theorem not_lastSet_nil : ¬ LastSet sets clears [] := by
  rintro ⟨before, e, after, split, _⟩
  simp at split

theorem LastSet.of_sets (set : sets e) : LastSet sets clears (entries ++ [e]) :=
  ⟨entries, e, [], rfl, set, by simp⟩

/-- An entry that does not set the switch leaves it set unless it clears it. -/
theorem lastSet_concat (unset : ¬ sets e) :
    LastSet sets clears (entries ++ [e]) ↔ LastSet sets clears entries ∧ ¬ clears e := by
  constructor
  · rintro ⟨before, first, after, split, set, kept⟩
    rcases List.eq_nil_or_concat after with rfl | ⟨after, last, rfl⟩
    · obtain ⟨_, same⟩ := List.append_inj' split rfl
      cases same
      exact absurd set unset
    · have longer : entries ++ [e] = (before ++ first :: after) ++ [last] := by simpa using split
      obtain ⟨rfl, same⟩ := List.append_inj' longer rfl
      cases same
      exact ⟨⟨before, first, after, rfl, set, fun e' member => kept e' (by simp [member])⟩, kept _ (by simp)⟩
  · rintro ⟨⟨before, first, after, rfl, set, kept⟩, uncleared⟩
    refine ⟨before, first, after ++ [e], by simp, set, fun e' member => ?_⟩
    rcases List.mem_append.mp member with earlier | last
    · exact kept e' earlier
    · cases List.mem_singleton.mp last
      exact uncleared

/-- A switch that is off at first is on where the entries have set it last. -/
theorem Latch.on_iff (latch : Latch j on sets clears) (off : ¬ on b) (admitted : j.Admitted b entries) :
    on (j.replay b entries) ↔ LastSet sets clears entries := by
  induction entries using List.reverseRecOn with
  | nil => exact iff_of_false off not_lastSet_nil
  | append_singleton entries e ih =>
    obtain ⟨earlier, admits, _⟩ := admitted_append.mp admitted
    rw [replay_append, replay_cons, replay_nil]
    by_cases set : sets e
    · exact iff_of_true (latch.set _ _ admits set) (.of_sets set)
    · rw [lastSet_concat set, ← ih earlier]
      by_cases cleared : clears e
      · exact iff_of_false (latch.clear _ _ admits cleared) fun still => still.2 cleared
      · rw [latch.keep _ _ admits set cleared, and_iff_left cleared]

/-- It is so before every entry. -/
theorem Latch.before (latch : Latch j on sets clears) (off : ¬ on b)
    (admitted : j.Admitted b (entries ++ e :: rest)) :
    on (j.replay b entries) ↔ LastSet sets clears entries :=
  latch.on_iff off (admitted_append.mp admitted).1

end

section
variable (j : Journal β ι) (log : σ → List ι) (view : σ → β)

/-- A step that writes into the journal what it does to the state. -/
def Kept (s next : σ) : Prop :=
  ∃ entries, log next = log s ++ entries ∧ j.Tells (view s) entries (view next)

variable {j log view} {s between next : σ}

theorem Kept.refl (s : σ) : Kept j log view s s := ⟨[], (List.append_nil _).symm, .nil⟩

theorem Kept.trans (first : Kept j log view s between) (second : Kept j log view between next) :
    Kept j log view s next := by
  obtain ⟨entries, logs, tells⟩ := first
  obtain ⟨more, logs', tells'⟩ := second
  exact ⟨entries ++ more, by rw [logs', logs, List.append_assoc], tells.append tells'⟩

/-- A step that logs nothing and leaves what the journal is about. -/
theorem Kept.silent (logs : log next = log s) (same : view next = view s) : Kept j log view s next :=
  ⟨[], by rw [logs, List.append_nil], trivial, same.symm⟩

theorem Kept.single (logs : log next = log s ++ [e]) (admits : j.admits (view s) e)
    (leads : view next = j.read (view s) e) : Kept j log view s next :=
  ⟨[e], logs, .single admits leads.symm⟩

theorem Kept.last (kept : Kept j log view s between) (logs : log next = log between ++ [e])
    (admits : j.admits (view between) e) (leads : view next = j.read (view between) e) :
    Kept j log view s next :=
  kept.trans (.single logs admits leads)

theorem Kept.preserves {I : β → Prop} (keeps : ∀ b e, I b → j.admits b e → I (j.read b e))
    (kept : Kept j log view s next) (start : I (view s)) : I (view next) := by
  obtain ⟨_, _, tells⟩ := kept
  exact tells.preserves keeps start

end

end Journal
