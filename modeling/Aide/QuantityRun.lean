import Aide.Engine.Conservation
import Aide.Engine.Stock
import Aide.Foundation.OpenQuantities

namespace Aide.Engine

open NaiveBook MatchEngine QuantityEvent

/-- The trade that a fill books. -/
def Fill.quantity (f : Fill) : QuantityEvent ℕ :=
  .traded f.makerOrderId f.takerOrderId f.vstkAmount

namespace MatchEngine

/-- What remains of an order in the book of a company, and nothing where the book has no such order. -/
def remaining (engine : MatchEngine) (companyId orderId : ℕ) : ℕ :=
  ((engine.books companyId).orders orderId).elim 0 OrderRecord.remaining

/-- What an answered call has done to the quantities of orders. -/
def happened (engine : MatchEngine) : Call → Verdict → List (QuantityEvent ℕ)
  | .ingestChainOrder record, .ok _ => [.opened record.orderId record.remaining]
  | .limitOrderPlacement incoming, .ok fills =>
    .opened incoming.orderId incoming.remaining :: fills.map Fill.quantity
  | .ingestCancel companyId orderId, .ok _ =>
    [.closed orderId (engine.remaining companyId orderId)]
  | _, _ => []

/-- All that a list of calls does to the quantities, and the engine it leaves behind. -/
def history (engine : MatchEngine) : List Call → Except Fault (List (QuantityEvent ℕ) × MatchEngine)
  | [] => .ok ([], engine)
  | call :: rest => do
    let (verdict, next) ← engine.exec call
    let (events, final) ← history next rest
    pure (engine.happened call verdict ++ events, final)

end MatchEngine

/-- What is left under the id of a resting order is what remains of it. -/
def Stands (s : ℕ → Option ℕ) (resting : List OrderRecord) : Prop :=
  ∀ r ∈ resting, s r.orderId = some r.remaining ∧ 0 < r.remaining

section Sweep
variable {s : ℕ → Option ℕ} {resting : List OrderRecord} {incoming mo r : OrderRecord} {qty : ℕ}

theorem mem_reduce_of_mem (rests : r ∈ resting) (left : r.orderId ≠ mo.orderId ∨ mo.remaining ≠ qty) :
    ∃ o ∈ reduce mo qty resting, o.orderId = r.orderId := by
  unfold reduce
  split
  · rename_i all
    have apart : r.orderId ≠ mo.orderId := left.resolve_right fun part => part all
    exact ⟨r, List.mem_filter.mpr ⟨rests, by simpa using apart⟩, rfl⟩
  · refine ⟨_, List.mem_map_of_mem rests, ?_⟩
    split <;> rfl

/-- The ledger after one trade with a resting order. -/
theorem apply_trade (qty : ℕ) (apart : mo.orderId ≠ incoming.orderId)
    (maker : s mo.orderId = some mo.remaining) (taker : s incoming.orderId = some incoming.remaining)
    (id : ℕ) : apply s (.traded mo.orderId incoming.orderId qty) id =
      if id = incoming.orderId then some (incoming.remaining - qty)
      else if id = mo.orderId then some (mo.remaining - qty) else s id := by
  by_cases isTaker : id = incoming.orderId
  · subst isTaker
    simp [apply, taker]
  · by_cases isMaker : id = mo.orderId
    · subst isMaker
      simp [apply, apart, maker]
    · simp [apply, isTaker, isMaker]

theorem Stands.reduce (stands : Stands s resting) (nodup : (resting.map OrderRecord.orderId).Nodup)
    (apart : ∀ r ∈ resting, r.orderId ≠ incoming.orderId) (member : mo ∈ resting)
    (within : qty ≤ mo.remaining) (taker : s incoming.orderId = some incoming.remaining) :
    Stands (apply s (.traded mo.orderId incoming.orderId qty)) (reduce mo qty resting) := by
  intro r left
  have ledger := apply_trade qty (apart mo member) (stands mo member).1 taker r.orderId
  unfold NaiveBook.reduce at left
  split at left
  · obtain ⟨rests, other⟩ := List.mem_filter.mp left
    have notMaker : r.orderId ≠ mo.orderId := by simpa using other
    rw [ledger, if_neg (apart r rests), if_neg notMaker]
    exact stands r rests
  · rename_i part
    obtain ⟨o, rests, rfl⟩ := List.mem_map.mp left
    by_cases same : o.orderId = mo.orderId
    · cases List.inj_on_of_nodup_map nodup rests member same
      rw [if_pos rfl] at ledger ⊢
      rw [ledger, if_neg (apart mo rests), if_pos rfl]
      exact ⟨rfl, by simp only; omega⟩
    · rw [if_neg same] at ledger ⊢
      rw [ledger, if_neg (apart o rests), if_neg same]
      exact stands o rests

/-- A sweep as a list of trades: all are allowed, and the ledger follows the book. -/
structure Swept (s : ℕ → Option ℕ) (incoming : OrderRecord) (resting : List OrderRecord) : Prop where
  sound : Sound s ((sweep incoming resting).1.map Fill.quantity)
  stands : Stands (after s ((sweep incoming resting).1.map Fill.quantity)) (sweep incoming resting).2.2
  taker : after s ((sweep incoming resting).1.map Fill.quantity) incoming.orderId =
    some (sweep incoming resting).2.1.remaining
  gone : ∀ r ∈ resting, (∀ o ∈ (sweep incoming resting).2.2, o.orderId ≠ r.orderId) →
    after s ((sweep incoming resting).1.map Fill.quantity) r.orderId = some 0
  others : ∀ id, id ≠ incoming.orderId → (∀ r ∈ resting, r.orderId ≠ id) →
    after s ((sweep incoming resting).1.map Fill.quantity) id = s id

/-- A sweep that trades nothing. -/
theorem Swept.idle (stands : Stands s resting) (taker : s incoming.orderId = some incoming.remaining)
    (idle : sweep incoming resting = ([], incoming, resting)) : Swept s incoming resting where
  sound := by simp [idle, Sound]
  stands := by simpa [idle, after] using stands
  taker := by simpa [idle, after] using taker
  gone r rests left := by
    rw [idle] at left
    exact absurd rfl (left r rests)
  others id _ _ := by simp [idle, after]

/-- An order with a quantity left is still in the book after the sweep. -/
theorem Swept.stays {id amount : ℕ} (swept : Swept s incoming resting)
    (rests : ∃ r ∈ resting, r.orderId = id)
    (known : after s ((sweep incoming resting).1.map Fill.quantity) id = some amount)
    (positive : 0 < amount) : ∃ r ∈ (sweep incoming resting).2.2, r.orderId = id := by
  by_contra absent
  obtain ⟨r, rested, rfl⟩ := rests
  have gone := swept.gone r rested fun o left named => absent ⟨o, left, named⟩
  cases gone.symm.trans known
  exact absurd positive (Nat.lt_irrefl 0)

/-- What rests after a sweep, with what is left of the order. -/
theorem mem_appended_rest {rest r : OrderRecord} :
    r ∈ (if 0 < rest.remaining then resting ++ [rest] else resting) ↔
      r ∈ resting ∨ 0 < rest.remaining ∧ r = rest := by
  split
  · rename_i unfilled
    simp [unfilled]
  · rename_i filled
    simp [filled]

theorem sweep_swept (nodup : (resting.map OrderRecord.orderId).Nodup)
    (apart : ∀ r ∈ resting, r.orderId ≠ incoming.orderId) (stands : Stands s resting)
    (taker : s incoming.orderId = some incoming.remaining) : Swept s incoming resting := by
  induction incoming, resting using sweep.induct generalizing s with
  | case1 incoming resting filled => exact .idle stands taker (sweep_of_filled resting filled)
  | case2 incoming resting unfilled none => exact .idle stands taker (sweep_of_none none)
  | case3 incoming resting unfilled mo found _ =>
    rename_i ih
    let qty := min incoming.remaining mo.remaining
    have member := (best_mem found).1
    obtain ⟨maker, positive⟩ := stands mo member
    have within : qty ≤ mo.remaining := Nat.min_le_right ..
    have ledger := apply_trade qty (apart mo member) maker taker
    have taken := ledger incoming.orderId
    rw [if_pos rfl] at taken
    have rest : Swept (apply s (.traded mo.orderId incoming.orderId qty))
        { incoming with remaining := incoming.remaining - qty } (reduce mo qty resting) := by
      refine ih (nodup.sublist reduce_ids) (fun r left => ?_)
        (stands.reduce nodup apart member within taker) taken
      obtain ⟨o, rests, same⟩ := mem_reduce left
      rw [same]
      exact apart o rests
    have unfolded := sweep_of_best unfilled found
    refine ⟨?_, ?_, ?_, fun r rests left => ?_, fun id notTaker absent => ?_⟩
    · rw [unfolded]
      refine ⟨⟨apart mo member, ?_, ⟨_, maker, within⟩, _, taker, Nat.min_le_left ..⟩, rest.sound⟩
      exact Nat.lt_min.mpr ⟨Nat.pos_of_ne_zero unfilled, positive⟩
    · rw [unfolded]
      exact rest.stands
    · rw [unfolded]
      exact rest.taker
    · rw [unfolded] at left ⊢
      by_cases drops : r.orderId = mo.orderId ∧ mo.remaining = qty
      · have done : apply s (.traded mo.orderId incoming.orderId qty) r.orderId = some 0 := by
          rw [ledger, if_neg (apart r rests), if_pos drops.1, drops.2, Nat.sub_self]
        have stays := after_done rest.sound done
        exact stays
      · obtain ⟨o, reduced, same⟩ := mem_reduce_of_mem rests
          (not_and_or.mp drops)
        have ended := rest.gone o reduced fun p final => same ▸ left p final
        rw [← same]
        exact ended
    · rw [unfolded]
      have kept := rest.others id notTaker fun r left => by
        obtain ⟨o, rests, same⟩ := mem_reduce left
        rw [same]
        exact absent o rests
      refine kept.trans ?_
      rw [ledger, if_neg notTaker, if_neg fun same => absent mo member same.symm]

end Sweep

/-- The ledger stands for the books of the reference. `home` tells the company of every id. -/
structure Booked (home : ℕ → ℕ) (naive : NaiveEngine) (s : ℕ → Option ℕ) : Prop where
  nodup : ∀ companyId, ((naive.books companyId).map OrderRecord.orderId).Nodup
  stands : ∀ companyId, Stands s (naive.books companyId)
  homes : ∀ companyId, ∀ r ∈ naive.books companyId, home r.orderId = companyId
  rests : ∀ id left, s id = some left → 0 < left → ∃ r ∈ naive.books (home id), r.orderId = id

namespace Booked
variable {home : ℕ → ℕ} {naive : NaiveEngine} {s : ℕ → Option ℕ} {engine : MatchEngine}
  {record incoming : OrderRecord} {companyId orderId : ℕ}

theorem new : Booked home NaiveEngine.new fun _ => none where
  nodup _ := List.nodup_nil
  stands _ _ rests := absurd rests List.not_mem_nil
  homes _ _ rests := absurd rests List.not_mem_nil
  rests _ _ known := nomatch known

/-- What remains in the engine is what is left in the ledger. -/
theorem remaining (booked : Booked home naive s) (refines : Refines engine naive)
    (known : s orderId ≠ none) :
    s orderId = some (engine.remaining (home orderId) orderId) := by
  obtain ⟨left, stands⟩ := Option.ne_none_iff_exists'.mp known
  have hold := (refines.books (home orderId)).orders
  unfold MatchEngine.remaining
  by_cases rests : ∃ r ∈ naive.books (home orderId), r.orderId = orderId
  · obtain ⟨r, member, rfl⟩ := rests
    rw [(hold.lookup ..).mpr ⟨member, rfl⟩]
    exact (booked.stands _ r member).1
  · have absent : (engine.books (home orderId)).orders orderId = none := by
      rw [Option.eq_none_iff_forall_ne_some]
      intro r found
      exact rests ⟨r, (hold.lookup ..).mp found⟩
    have nothing : left = 0 := by
      by_contra something
      exact rests (booked.rests orderId left stands (Nat.pos_of_ne_zero something))
    rw [absent, stands, nothing]
    rfl

theorem fresh (booked : Booked home naive s) (unknown : s record.orderId = none) :
    ∀ companyId, ∀ r ∈ naive.books companyId, r.orderId ≠ record.orderId := by
  intro companyId r rests same
  have stands := (booked.stands companyId r rests).1
  rw [same, unknown] at stands
  cases stands

/-- The book of one company and the ledger change, and neither the other books nor what the ledger
has of them. -/
theorem setBook (booked : Booked home naive s) {resting : List OrderRecord} {next : ℕ → Option ℕ}
    (nodup : (resting.map OrderRecord.orderId).Nodup) (stands : Stands next resting)
    (homes : ∀ r ∈ resting, home r.orderId = companyId)
    (others : ∀ id, home id ≠ companyId → next id = s id)
    (rests : ∀ id left, home id = companyId → next id = some left → 0 < left →
      ∃ r ∈ resting, r.orderId = id) :
    Booked home (naive.setBook companyId resting) next where
  nodup other := by
    by_cases same : other = companyId
    · subst same
      simpa [NaiveEngine.setBook] using nodup
    · simpa [NaiveEngine.setBook, same] using booked.nodup other
  stands other := by
    by_cases same : other = companyId
    · subst same
      simpa [NaiveEngine.setBook] using stands
    · intro r member
      have member : r ∈ naive.books other := by simpa [NaiveEngine.setBook, same] using member
      rw [others r.orderId (booked.homes other r member ▸ same)]
      exact booked.stands other r member
  homes other := by
    by_cases same : other = companyId
    · subst same
      simpa [NaiveEngine.setBook] using homes
    · simpa [NaiveEngine.setBook, same] using booked.homes other
  rests id left known positive := by
    by_cases same : home id = companyId
    · simpa [NaiveEngine.setBook, same] using rests id left same known positive
    · rw [others id same] at known
      simpa [NaiveEngine.setBook, same] using booked.rests id left known positive

theorem ingestChainOrder (booked : Booked home naive s) (unknown : s record.orderId = none)
    (positive : 0 < record.remaining) (atHome : home record.orderId = record.companyId) :
    Booked home (naive.exec (.ingestChainOrder record)).2
      (apply s (.opened record.orderId record.remaining)) := by
  have fresh := booked.fresh unknown record.companyId
  have old : ∀ id, id ≠ record.orderId →
      apply s (.opened record.orderId record.remaining) id = s id := fun id apart => by
    simp [apply, apart]
  refine booked.setBook ?_ (fun r rests => ?_) (fun r rests => ?_) (fun id away => ?_)
    fun id left here known positive => ?_
  · exact nodup_append_fresh (booked.nodup _) fresh
  · rcases List.mem_append.mp rests with rested | new
    · rw [old r.orderId (fresh r rested)]
      exact booked.stands _ r rested
    · cases List.mem_singleton.mp new
      exact ⟨by simp [apply], positive⟩
  · rcases List.mem_append.mp rests with rested | new
    · exact booked.homes _ r rested
    · cases List.mem_singleton.mp new
      exact atHome
  · exact old id fun same => away (same ▸ atHome)
  · by_cases same : id = record.orderId
    · exact ⟨record, by simp, same.symm⟩
    · rw [old id same] at known
      obtain ⟨r, rests, named⟩ := booked.rests id left known positive
      rw [here] at rests
      exact ⟨r, List.mem_append_left _ rests, named⟩

/-- A cancelled order is closed with what remains of it. -/
theorem ingestCancel (booked : Booked home naive s) {mo : OrderRecord}
    (member : mo ∈ naive.books companyId) :
    Allowed s (.closed mo.orderId mo.remaining) ∧
    Booked home (naive.setBook companyId
        ((naive.books companyId).filter (·.orderId != mo.orderId)))
      (apply s (.closed mo.orderId mo.remaining)) := by
  have old : ∀ id, id ≠ mo.orderId → apply s (.closed mo.orderId mo.remaining) id = s id :=
    fun id apart => by simp [apply, apart]
  refine ⟨(booked.stands companyId mo member).1, booked.setBook ?_ (fun r left => ?_)
    (fun r left => ?_) (fun id away => ?_) fun id left here known positive => ?_⟩
  · exact (booked.nodup companyId).sublist (List.filter_sublist.map _)
  · obtain ⟨rests, apart⟩ := List.mem_filter.mp left
    rw [old r.orderId (by simpa using apart)]
    exact booked.stands companyId r rests
  · exact booked.homes companyId r (List.mem_of_mem_filter left)
  · exact old id fun same => away (same ▸ booked.homes companyId mo member)
  · by_cases same : id = mo.orderId
    · subst same
      simp only [apply, Function.update_self, Option.some.injEq] at known
      omega
    · rw [old id same] at known
      obtain ⟨r, rests, rfl⟩ := booked.rests id left known positive
      rw [here] at rests
      exact ⟨r, List.mem_filter.mpr ⟨rests, by simpa using same⟩, rfl⟩

/-- An order that is placed is opened, trades, and rests with what is left of it. -/
theorem limitOrderPlacement (booked : Booked home naive s) (unknown : s incoming.orderId = none)
    (atHome : home incoming.orderId = incoming.companyId) :
    let swept := sweep incoming (naive.books incoming.companyId)
    let events := .opened incoming.orderId incoming.remaining :: swept.1.map Fill.quantity
    Sound s events ∧
    Booked home (naive.setBook incoming.companyId
      (if 0 < swept.2.1.remaining then swept.2.2 ++ [swept.2.1] else swept.2.2)) (after s events) ∧
    ∀ id, id ≠ incoming.orderId → s id = none → after s events id = none := by
  intro swept events
  have fresh := booked.fresh unknown incoming.companyId
  let s' := apply s (.opened incoming.orderId incoming.remaining)
  have old : ∀ id, id ≠ incoming.orderId → s' id = s id := fun id apart => by simp [s', apply, apart]
  have stands : Stands s' (naive.books incoming.companyId) := fun r rests => by
    rw [old r.orderId (fresh r rests)]
    exact booked.stands _ r rests
  have sweeps : Swept s' incoming (naive.books incoming.companyId) :=
    sweep_swept (booked.nodup _) fresh stands (by simp [s', apply])
  have afterIs : after s events = after s' (swept.1.map Fill.quantity) := rfl
  have away : ∀ id, id ≠ incoming.orderId → (∀ r ∈ naive.books incoming.companyId, r.orderId ≠ id) →
      after s events id = s id := fun id apart absent =>
    (sweeps.others id apart absent).trans (old id apart)
  obtain ⟨remaining, rest⟩ := sweep_incoming incoming (naive.books incoming.companyId)
  have restId : swept.2.1.orderId = incoming.orderId := by rw [rest]
  have left : ∀ r ∈ swept.2.2, ∃ o ∈ naive.books incoming.companyId, o.orderId = r.orderId :=
    fun r => mem_sweep_id
  refine ⟨⟨unknown, sweeps.sound⟩, booked.setBook ?_ (fun r member => ?_) (fun r member => ?_)
    (fun id elsewhere => ?_) fun id amount here known positive => ?_, fun id apart none => ?_⟩
  · have nodup : (swept.2.2.map OrderRecord.orderId).Nodup := (booked.nodup _).sublist sweep_ids
    split
    · refine nodup_append_fresh nodup fun r rests => ?_
      obtain ⟨o, rested, named⟩ := left r rests
      rw [restId, ← named]
      exact fresh o rested
    · exact nodup
  · rcases mem_appended_rest.mp member with rested | ⟨unfilled, rfl⟩
    · exact sweeps.stands r rested
    · rw [restId]
      exact ⟨sweeps.taker, unfilled⟩
  · rcases mem_appended_rest.mp member with rested | ⟨_, rfl⟩
    · obtain ⟨o, rests, named⟩ := left r rested
      rw [← named]
      exact booked.homes _ o rests
    · rw [restId]
      exact atHome
  · refine away id (fun same => elsewhere (same ▸ atHome)) fun r rests same => elsewhere ?_
    exact same ▸ booked.homes _ r rests
  · by_cases same : id = incoming.orderId
    · subst same
      have amountIs : swept.2.1.remaining = amount := Option.some.inj (sweeps.taker.symm.trans known)
      exact ⟨swept.2.1, mem_appended_rest.mpr (Or.inr ⟨amountIs ▸ positive, rfl⟩), restId⟩
    · have rests : ∃ r ∈ naive.books incoming.companyId, r.orderId = id := by
        by_contra absent
        rw [away id same fun r rested named => absent ⟨r, rested, named⟩] at known
        obtain ⟨r, rested, named⟩ := booked.rests id amount known positive
        exact absent ⟨r, here ▸ rested, named⟩
      obtain ⟨r, rested, named⟩ := sweeps.stays rests known positive
      exact ⟨r, mem_appended_rest.mpr (Or.inl rested), named⟩
  · refine (away id apart fun r rests same => ?_).trans none
    have stands := (booked.stands _ r rests).1
    rw [same, none] at stands
    cases stands

/-- One call of the engine, seen by the ledger. -/
theorem exec (booked : Booked home naive s) (refines : Refines engine naive) (call : Call)
    (submits : ∀ record ∈ call.submitted, s record.orderId = none ∧ 0 < record.remaining ∧
      home record.orderId = record.companyId) :
    let events := engine.happened call (naive.exec call).1
    Sound s events ∧ Booked home (naive.exec call).2 (after s events) ∧
      ∀ id, (∀ record ∈ call.submitted, record.orderId ≠ id) → s id = none →
        after s events id = none := by
  cases call with
  | ingestChainOrder record =>
    obtain ⟨unknown, positive, atHome⟩ := submits record rfl
    refine ⟨⟨unknown, trivial⟩, booked.ingestChainOrder unknown positive atHome,
      fun id apart none => ?_⟩
    have other : id ≠ record.orderId := fun same => apart record rfl same.symm
    simp [MatchEngine.happened, NaiveEngine.exec, after, apply, other, none]
  | ingestCancel companyId orderId =>
    by_cases rests : (naive.books companyId).any (·.orderId == orderId)
    · obtain ⟨mo, member, named⟩ := List.any_eq_true.mp rests
      cases eq_of_beq named
      have found : engine.remaining companyId mo.orderId = mo.remaining := by
        unfold MatchEngine.remaining
        rw [((refines.books companyId).orders.lookup ..).mpr ⟨member, rfl⟩]
        rfl
      obtain ⟨allowed, closed⟩ := booked.ingestCancel member
      simp only [NaiveEngine.exec, rests, if_true, MatchEngine.happened, found]
      refine ⟨⟨allowed, trivial⟩, closed, fun id _ none => ?_⟩
      have other : id ≠ mo.orderId := by
        rintro rfl
        cases none.symm.trans (booked.stands companyId mo member).1
      simp [after, apply, other, none]
    · simp only [NaiveEngine.exec, rests, if_false, Bool.false_eq_true, MatchEngine.happened]
      exact ⟨trivial, booked, fun _ _ none => none⟩
  | limitOrderPlacement incoming =>
    obtain ⟨unknown, _, atHome⟩ := submits incoming rfl
    by_cases paused : naive.matchingPaused = true
    · simp only [NaiveEngine.exec, paused, if_true, MatchEngine.happened]
      exact ⟨trivial, booked, fun _ _ none => none⟩
    · obtain ⟨sound, next, others⟩ := booked.limitOrderPlacement unknown atHome
      simp only [NaiveEngine.exec, paused, if_false, Bool.false_eq_true, MatchEngine.happened]
      exact ⟨sound, next, fun id apart none => others id (fun same => apart incoming rfl same.symm) none⟩
  | pauseMatching =>
    exact ⟨trivial, ⟨booked.nodup, booked.stands, booked.homes, booked.rests⟩, fun _ _ none => none⟩
  | resumeMatching =>
    exact ⟨trivial, ⟨booked.nodup, booked.stands, booked.homes, booked.rests⟩, fun _ _ none => none⟩

/-- A run of the engine, seen by the ledger. -/
theorem history {calls : List Call} (booked : Booked home naive s) (refines : Refines engine naive)
    (fresh : Fresh naive calls)
    (submits : ∀ call ∈ calls, ∀ record ∈ call.submitted, s record.orderId = none ∧
      0 < record.remaining ∧ home record.orderId = record.companyId) :
    ∃ events next final, engine.history calls = .ok (events, next) ∧ Refines next final ∧
      Sound s events ∧ Booked home final (after s events) := by
  induction calls generalizing engine naive s with
  | nil => exact ⟨[], engine, naive, rfl, refines, trivial, booked⟩
  | cons call rest ih =>
    have own := submits call (List.mem_cons_self ..)
    obtain ⟨next, runs, refinesNext⟩ := refines.exec call fun record submitted =>
      booked.fresh (own record submitted).1 _
    obtain ⟨sound, bookedNext, unknown⟩ := booked.exec refines call own
    obtain ⟨events, last, final, ran, refinesLast, soundRest, bookedLast⟩ :=
      ih bookedNext refinesNext fresh.tail fun later member record submitted => by
        obtain ⟨none, positive, atHome⟩ :=
          submits later (List.mem_cons_of_mem _ member) record submitted
        refine ⟨unknown record.orderId (fun mine submitting same => ?_) none, positive, atHome⟩
        refine fresh.apart submitting (same ▸ ?_)
        exact List.mem_map.mpr ⟨record, List.mem_filterMap.mpr ⟨later, member, submitted⟩, rfl⟩
    refine ⟨engine.happened call (naive.exec call).1 ++ events, last, final, ?_, refinesLast,
      sound_append.mpr ⟨sound, soundRest⟩, ?_⟩
    · simp [MatchEngine.history, runs, ran, bind, Except.bind, pure, Except.pure]
    · rw [after_append]
      exact bookedLast

end Booked

/-- Where no id is submitted twice, every id has one company. -/
theorem exists_home {calls : List Call} (unique : (submittedIds calls).Nodup) :
    ∃ home : ℕ → ℕ, ∀ call ∈ calls, ∀ record ∈ call.submitted,
      home record.orderId = record.companyId := by
  let records := calls.filterMap Call.submitted
  refine ⟨fun id => ((records.find? fun r => r.orderId == id).map OrderRecord.companyId).getD 0,
    fun call member record submitted => ?_⟩
  have known : record ∈ records := List.mem_filterMap.mpr ⟨call, member, submitted⟩
  cases found : records.find? fun r => r.orderId == record.orderId with
  | none =>
    have absent := List.find?_eq_none.mp found record known
    simp at absent
  | some r =>
    have named : r.orderId = record.orderId := by simpa using List.find?_some found
    cases List.inj_on_of_nodup_map unique (List.mem_of_find?_eq_some found) known named
    simp [found]

/-- In every run that submits no id twice, what an accepted order brought is what its fills have
taken, what remains of it in its book and what was left of it when it was cancelled. A fill takes
no more than was left of both orders, and names no order that is cancelled or filled. -/
theorem quantities_conserved {calls : List Call} (unique : (submittedIds calls).Nodup)
    (positive : ∀ call ∈ calls, ∀ record ∈ call.submitted, 0 < record.remaining) :
    ∃ events engine, MatchEngine.new.history calls = .ok (events, engine) ∧
      (∀ call ∈ calls, ∀ record ∈ call.submitted,
        .opened record.orderId record.remaining ∈ events →
        record.remaining = total (tradedBy record.orderId) events +
          engine.remaining record.companyId record.orderId +
          total (closedBy record.orderId) events) ∧
      ∀ before maker taker amount rest, events = before ++ .traded maker taker amount :: rest →
        ∀ id, id = maker ∨ id = taker →
          0 < amount ∧
          total (tradedBy id) before + total (closedBy id) before + amount ≤
            total (openedBy id) before ∧
          ∀ left, .closed id left ∉ before := by
  obtain ⟨home, homes⟩ := exists_home unique
  obtain ⟨events, engine, naive, ran, refines, sound, booked⟩ :=
    @Booked.history home _ _ _ _ Booked.new Refines.new (Fresh.new unique) fun call member record submitted =>
      ⟨rfl, positive call member record submitted, homes call member record submitted⟩
  refine ⟨events, engine, ran, fun call member record submitted accepted => ?_,
    fun before maker taker amount rest split id named => ?_⟩
  · obtain ⟨brought, known⟩ := total_openedBy sound accepted
    have stands := booked.remaining refines known
    rw [homes call member record submitted] at stands
    have balance := conserved sound record.orderId
    rw [brought, stands] at balance
    simp only [Option.getD_none, Option.getD_some] at balance
    omega
  · subst split
    exact traded_within (fun _ => rfl) sound named

theorem quantities_conserved_on_two_levels :
    ∃ events engine, MatchEngine.new.history twoLevels = .ok (events, engine) ∧
      (∀ call ∈ twoLevels, ∀ record ∈ call.submitted,
        .opened record.orderId record.remaining ∈ events →
        record.remaining = total (tradedBy record.orderId) events +
          engine.remaining record.companyId record.orderId +
          total (closedBy record.orderId) events) ∧
      ∀ before maker taker amount rest, events = before ++ .traded maker taker amount :: rest →
        ∀ id, id = maker ∨ id = taker →
          0 < amount ∧
          total (tradedBy id) before + total (closedBy id) before + amount ≤
            total (openedBy id) before ∧
          ∀ left, .closed id left ∉ before :=
  quantities_conserved (by decide) (by decide)

/-- What the run of `twoLevels` does: the bid takes five of the better ask and two of the other, of
which three are left when it is cancelled. -/
example : (MatchEngine.new.history twoLevels).map Prod.fst = .ok
    [.opened 1 5, .opened 2 5, .opened 3 7, .traded 2 3 5, .traded 1 3 2, .closed 1 3] := by
  rfl

end Aide.Engine
