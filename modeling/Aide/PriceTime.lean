import Aide.Engine.MatchingRefinement

namespace Aide

open Engine NaiveBook MatchEngine

namespace Engine.MatchEngine

/-- The order that a call brings to the engine. -/
def Call.submitted : Call → Option OrderRecord
  | .ingestChainOrder record => some record
  | .limitOrderPlacement incoming => some incoming
  | .ingestCancel .. | .pauseMatching | .resumeMatching => none

def submittedIds (calls : List Call) : List ℕ :=
  (calls.filterMap Call.submitted).map OrderRecord.orderId

end Engine.MatchEngine

/-- Every book of the engine represents the resting orders of the reference. -/
structure Refines (engine : MatchEngine) (naive : NaiveEngine) : Prop where
  books : ∀ companyId, Represents (engine.books companyId) (naive.books companyId)
  paused : engine.matchingPaused = naive.matchingPaused

namespace Refines

theorem new : Refines MatchEngine.new NaiveEngine.new where
  books _ := {
    orders := ⟨List.nodup_nil, fun _ _ => by simp [NaiveEngine.new, MatchEngine.new, default]⟩
    asks := fun _ => rfl
    bids := fun _ => rfl }
  paused := rfl

variable {engine : MatchEngine} {naive : NaiveEngine} {companyId : ℕ} {call : Call}

theorem setBook (refines : Refines engine naive) {book : OrderBook} {resting : List OrderRecord}
    (rep : Represents book resting) :
    Refines (engine.setBook companyId book) (naive.setBook companyId resting) where
  books other := by
    by_cases same : other = companyId
    · subst same
      simpa [MatchEngine.setBook, NaiveEngine.setBook] using rep
    · simpa [MatchEngine.setBook, NaiveEngine.setBook, same] using refines.books other
  paused := refines.paused

theorem ingestChainOrder (refines : Refines engine naive) {record : OrderRecord}
    (fresh : ∀ r ∈ naive.books record.companyId, r.orderId ≠ record.orderId) :
    ∃ next, engine.exec (.ingestChainOrder record) =
        .ok ((naive.exec (.ingestChainOrder record)).1, next) ∧
      Refines next (naive.exec (.ingestChainOrder record)).2 := by
  obtain ⟨book, inserted, rep⟩ := (refines.books record.companyId).insertLimitOrder fresh
  refine ⟨engine.setBook record.companyId book, ?_, refines.setBook rep⟩
  simp only [MatchEngine.exec, MatchEngine.ingestChainOrder, inserted, NaiveEngine.exec]

theorem ingestCancel (refines : Refines engine naive) (companyId orderId : ℕ) :
    ∃ next, engine.exec (.ingestCancel companyId orderId) =
        .ok ((naive.exec (.ingestCancel companyId orderId)).1, next) ∧
      Refines next (naive.exec (.ingestCancel companyId orderId)).2 := by
  by_cases rests : (naive.books companyId).any (·.orderId == orderId)
  · obtain ⟨mo, member, named⟩ := List.any_eq_true.mp rests
    cases eq_of_beq named
    obtain ⟨book, cancelled, rep⟩ := (refines.books companyId).cancelOrder member
    refine ⟨engine.setBook companyId book, ?_, ?_⟩
    · simp only [MatchEngine.exec, MatchEngine.ingestCancel, cancelled, NaiveEngine.exec, rests,
        if_true]
    · simp only [NaiveEngine.exec, rests, if_true]
      exact refines.setBook rep
  · have absent : ∀ r ∈ naive.books companyId, r.orderId ≠ orderId := fun r member named =>
      rests (List.any_eq_true.mpr ⟨r, member, beq_iff_eq.mpr named⟩)
    have unknown := (refines.books companyId).cancelOrder_unknown absent
    refine ⟨engine, ?_, ?_⟩
    · simp only [MatchEngine.exec, MatchEngine.ingestCancel, unknown, NaiveEngine.exec, rests,
        if_false, Bool.false_eq_true]
    · simpa only [NaiveEngine.exec, rests, if_false, Bool.false_eq_true] using refines

/-- The incoming order sweeps the book, and its rest is inserted. -/
theorem limitOrderPlacement (refines : Refines engine naive) (incoming : OrderRecord)
    (fresh : ∀ r ∈ naive.books incoming.companyId, r.orderId ≠ incoming.orderId) :
    ∃ next, engine.exec (.limitOrderPlacement incoming) =
        .ok ((naive.exec (.limitOrderPlacement incoming)).1, next) ∧
      Refines next (naive.exec (.limitOrderPlacement incoming)).2 := by
  by_cases paused : naive.matchingPaused = true
  · refine ⟨engine, ?_, ?_⟩
    · simp [MatchEngine.exec, MatchEngine.limitOrderPlacement, NaiveEngine.exec, refines.paused,
        paused]
    · simpa [NaiveEngine.exec, paused] using refines
  · have running : engine.matchingPaused = false := by simpa [refines.paused] using paused
    obtain ⟨verdict, next, runs, swept⟩ :=
      limitOrderPlacement_sweeps incoming (refines.books _) running
    simp only [MatchEngine.exec, runs, NaiveEngine.exec, paused, if_false, Bool.false_eq_true]
    cases swept with
    | filled done rep =>
      refine ⟨_, rfl, ?_⟩
      rw [if_neg done.not_gt]
      exact refines.setBook rep
    | refused left named rep =>
      obtain ⟨o, rests, same⟩ := mem_sweep left
      rw [same] at named
      exact absurd named (fresh o rests)
    | rests unfilled rep =>
      refine ⟨_, rfl, ?_⟩
      rw [if_pos unfilled]
      exact refines.setBook rep

/-- One call of the engine is one call of the reference. -/
theorem exec (refines : Refines engine naive) (call : Call)
    (fresh : ∀ record ∈ call.submitted, ∀ r ∈ naive.books record.companyId,
      r.orderId ≠ record.orderId) :
    ∃ next, engine.exec call = .ok ((naive.exec call).1, next) ∧ Refines next (naive.exec call).2 := by
  cases call with
  | ingestChainOrder record => exact refines.ingestChainOrder (fresh record rfl)
  | ingestCancel companyId orderId => exact refines.ingestCancel companyId orderId
  | limitOrderPlacement incoming => exact refines.limitOrderPlacement incoming (fresh incoming rfl)
  | pauseMatching => exact ⟨_, rfl, refines.books, rfl⟩
  | resumeMatching => exact ⟨_, rfl, refines.books, rfl⟩

end Refines

/-- An order that rests after a call rested before it or was submitted by it. -/
theorem mem_exec {naive : NaiveEngine} {call : Call} {companyId : ℕ} {r : OrderRecord}
    (rests : r ∈ (naive.exec call).2.books companyId) :
    (∃ o ∈ naive.books companyId, o.orderId = r.orderId) ∨
      ∃ record ∈ call.submitted, record.orderId = r.orderId := by
  have elsewhere : ∀ {other : ℕ} {resting : List OrderRecord}, companyId ≠ other →
      r ∈ (naive.setBook other resting).books companyId →
      ∃ o ∈ naive.books companyId, o.orderId = r.orderId := fun apart rests =>
    ⟨r, by simpa [NaiveEngine.setBook, apart] using rests, rfl⟩
  cases call with
  | ingestChainOrder record =>
    by_cases same : companyId = record.companyId
    · subst same
      simp only [NaiveEngine.exec, NaiveEngine.setBook, Function.update_self, List.mem_append,
        List.mem_singleton] at rests
      rcases rests with rests | rfl
      · exact Or.inl ⟨r, rests, rfl⟩
      · exact Or.inr ⟨r, rfl, rfl⟩
    · exact Or.inl (elsewhere same rests)
  | ingestCancel other orderId =>
    simp only [NaiveEngine.exec] at rests
    split at rests
    · by_cases same : companyId = other
      · subst same
        simp only [NaiveEngine.setBook, Function.update_self] at rests
        exact Or.inl ⟨r, List.mem_of_mem_filter rests, rfl⟩
      · exact Or.inl (elsewhere same rests)
    · exact Or.inl ⟨r, rests, rfl⟩
  | limitOrderPlacement incoming =>
    simp only [NaiveEngine.exec] at rests
    split at rests
    · exact Or.inl ⟨r, rests, rfl⟩
    · by_cases same : companyId = incoming.companyId
      · subst same
        simp only [NaiveEngine.setBook, Function.update_self] at rests
        obtain ⟨remaining, rest⟩ := sweep_incoming incoming (naive.books incoming.companyId)
        split at rests
        · rcases List.mem_append.mp rests with rests | rests
          · exact Or.inl (mem_sweep_id rests)
          · cases List.mem_singleton.mp rests
            exact Or.inr ⟨incoming, rfl, by rw [rest]⟩
        · exact Or.inl (mem_sweep_id rests)
      · exact Or.inl (elsewhere same rests)
  | pauseMatching => exact Or.inl ⟨r, rests, rfl⟩
  | resumeMatching => exact Or.inl ⟨r, rests, rfl⟩

theorem submittedIds_cons (call : Call) (rest : List Call) :
    submittedIds (call :: rest) =
      call.submitted.toList.map OrderRecord.orderId ++ submittedIds rest := by
  unfold submittedIds
  cases submitted : call.submitted <;> simp [submitted]

/-- No id is submitted twice, and none that rests is submitted. -/
structure Fresh (naive : NaiveEngine) (calls : List Call) : Prop where
  unique : (submittedIds calls).Nodup
  absent : ∀ companyId, ∀ r ∈ naive.books companyId, r.orderId ∉ submittedIds calls

namespace Fresh
variable {naive : NaiveEngine} {call : Call} {calls rest : List Call}

theorem new (unique : (submittedIds calls).Nodup) : Fresh NaiveEngine.new calls where
  unique := unique
  absent _ _ rests := absurd rests List.not_mem_nil

theorem head (fresh : Fresh naive (call :: rest)) {record : OrderRecord}
    (submitted : record ∈ call.submitted) (companyId : ℕ) :
    ∀ r ∈ naive.books companyId, r.orderId ≠ record.orderId := by
  intro r rests same
  refine fresh.absent companyId r rests ?_
  rw [submittedIds_cons, same]
  exact List.mem_append_left _ (List.mem_map.mpr ⟨record, Option.mem_toList.mpr submitted, rfl⟩)

/-- What a call submits is not submitted again. -/
theorem apart (fresh : Fresh naive (call :: rest)) {record : OrderRecord}
    (submitted : record ∈ call.submitted) : record.orderId ∉ submittedIds rest := by
  have unique := fresh.unique
  rw [submittedIds_cons] at unique
  obtain ⟨_, _, apart⟩ := List.nodup_append.mp unique
  exact fun later =>
    apart _ (List.mem_map.mpr ⟨record, Option.mem_toList.mpr submitted, rfl⟩) _ later rfl

theorem tail (fresh : Fresh naive (call :: rest)) : Fresh (naive.exec call).2 rest where
  unique := by
    have unique := fresh.unique
    rw [submittedIds_cons] at unique
    exact (List.nodup_append.mp unique).2.1
  absent companyId r rests := by
    rcases mem_exec rests with ⟨o, rested, same⟩ | ⟨record, submitted, same⟩
    · intro later
      refine fresh.absent companyId o rested ?_
      rw [submittedIds_cons, same]
      exact List.mem_append_right _ later
    · rw [← same]
      exact fresh.apart submitted

end Fresh

/-- A run of the engine is a run of the reference as long as no submitted id rests already. -/
theorem Refines.run {engine : MatchEngine} {naive : NaiveEngine} {calls : List Call}
    (refines : Refines engine naive) (unique : (submittedIds calls).Nodup)
    (fresh : ∀ companyId, ∀ r ∈ naive.books companyId, r.orderId ∉ submittedIds calls) :
    ∃ next, engine.run calls = .ok ((naive.run calls).1, next) ∧ Refines next (naive.run calls).2 := by
  have fresh : Fresh naive calls := ⟨unique, fresh⟩
  clear unique
  induction calls generalizing engine naive with
  | nil => exact ⟨engine, rfl, refines⟩
  | cons call rest ih =>
    obtain ⟨next, runs, refinesNext⟩ :=
      refines.exec call fun record submitted => fresh.head submitted _
    obtain ⟨final, ran, refinesFinal⟩ := ih refinesNext fresh.tail.absent fresh.tail
    refine ⟨final, ?_, refinesFinal⟩
    simp [MatchEngine.run, runs, ran, bind, Except.bind, pure, Except.pure, NaiveEngine.run]

/-- The engine and the list of resting orders answer every sequence of calls alike, and are left
with the same resting orders. -/
theorem engine_refines_naive_book (calls : List Call) (unique : (submittedIds calls).Nodup) :
    ∃ engine, MatchEngine.new.run calls = .ok ((NaiveEngine.new.run calls).1, engine) ∧
      ∀ companyId, Represents (engine.books companyId)
        ((NaiveEngine.new.run calls).2.books companyId) := by
  obtain ⟨engine, runs, refines⟩ := Refines.new.run unique (by simp [NaiveEngine.new])
  exact ⟨engine, runs, refines.books⟩

/-- Two asks of five shares at ten and at eight, and a bid for seven that takes the better one first. -/
def twoLevels : List Call :=
  [.ingestChainOrder ⟨1, 7, 1, .sell, 10, 5, 0⟩, .ingestChainOrder ⟨2, 7, 2, .sell, 8, 5, 0⟩,
    .limitOrderPlacement ⟨3, 7, 3, .buy, 10, 7, 0⟩, .ingestCancel 7 1, .ingestCancel 7 2]

theorem engine_refines_naive_book_on_two_levels :
    ∃ engine, MatchEngine.new.run twoLevels = .ok ((NaiveEngine.new.run twoLevels).1, engine) ∧
      ∀ companyId, Represents (engine.books companyId)
        ((NaiveEngine.new.run twoLevels).2.books companyId) :=
  engine_refines_naive_book twoLevels (by decide)

example : (MatchEngine.new.run twoLevels).map Prod.fst = .ok
    [.ok [], .ok [], .ok [⟨7, 2, 3, 3, 2, 5, 0⟩, ⟨7, 1, 3, 3, 1, 2, 0⟩], .ok [],
      .error (.book (.unknownOrder 2))] := by
  decide +kernel

end Aide
