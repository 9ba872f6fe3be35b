import Aide.Engine.Matching
import Mathlib.Data.List.MinMax
import Mathlib.Data.List.Nodup

/-!
The purpose of the book, stated without its data structure: a plain list of the resting orders in
arrival order, in which an incoming order trades with the best price and, among equal prices, with
the earliest arrival.
-/

namespace Aide.Engine.NaiveBook

/-- The incoming order accepts the price of a resting order of the other side. -/
def crosses (incoming resting : OrderRecord) : Bool :=
  match incoming.side with
  | .buy => resting.side = .sell ∧ resting.priceRay ≤ incoming.priceRay
  | .sell => resting.side = .buy ∧ incoming.priceRay ≤ resting.priceRay

theorem crosses_side {incoming mo : OrderRecord} (crossing : crosses incoming mo = true) :
    mo.side ≠ incoming.side := by
  unfold crosses at crossing
  intro same
  split at crossing <;> simp_all

/-- The order to trade with next. Of equally good ones, `argmin` and `argmax` take the first. -/
def best (incoming : OrderRecord) (resting : List OrderRecord) : Option OrderRecord :=
  match incoming.side with
  | .buy => (resting.filter (crosses incoming)).argmin OrderRecord.priceRay
  | .sell => (resting.filter (crosses incoming)).argmax OrderRecord.priceRay

/-- What is left of the resting orders once `qty` of `mo` is traded. -/
def reduce (mo : OrderRecord) (qty : ℕ) (resting : List OrderRecord) : List OrderRecord :=
  if mo.remaining = qty then
    resting.filter (·.orderId != mo.orderId)
  else
    resting.map fun o =>
      if o.orderId = mo.orderId then { o with remaining := o.remaining - qty } else o

theorem best_mem {incoming mo : OrderRecord} {resting : List OrderRecord}
    (found : best incoming resting = some mo) : mo ∈ resting ∧ crosses incoming mo := by
  unfold best at found
  split at found
  · exact List.mem_filter.mp (List.argmin_mem found)
  · exact List.mem_filter.mp (List.argmax_mem found)

theorem reduce_shorter {mo : OrderRecord} {qty : ℕ} {resting : List OrderRecord}
    (member : mo ∈ resting) (all : mo.remaining = qty) :
    (reduce mo qty resting).length < resting.length := by
  rw [reduce, if_pos all]
  exact List.length_filter_lt_length_iff_exists.mpr ⟨mo, member, by simp⟩

theorem reduce_length_le (mo : OrderRecord) (qty : ℕ) (resting : List OrderRecord) :
    (reduce mo qty resting).length ≤ resting.length := by
  unfold reduce
  split
  · exact List.length_filter_le ..
  · exact (List.length_map _).le

/-- What is recorded of a trade. The resting order is the maker and sets the price, the incoming order is
the taker, and shares go from the one that sells to the one that buys. The price of the shares is worked out
on 256 bits. -/
def recorded (incoming mo : OrderRecord) (qty : ℕ) : Fill :=
  match incoming.side with
  | .buy => {
      companyId := incoming.companyId
      makerOrderId := mo.orderId
      takerOrderId := incoming.orderId
      buyer := incoming.maker
      seller := mo.maker
      vstkAmount := qty
      aitNotional := qty * mo.priceRay % 2 ^ 256 / 10 ^ 18 }
  | .sell => {
      companyId := incoming.companyId
      makerOrderId := mo.orderId
      takerOrderId := incoming.orderId
      buyer := mo.maker
      seller := incoming.maker
      vstkAmount := qty
      aitNotional := qty * mo.priceRay % 2 ^ 256 / 10 ^ 18 }

/-- The fill that the engine makes of a trade is what is recorded of it. -/
theorem recorded_eq_fill (incoming mo : OrderRecord) (qty : ℕ) :
    recorded incoming mo qty = Matching.fill incoming mo mo.orderId mo.priceRay qty := by
  unfold recorded Matching.fill mulDivRay
  cases incoming.side with
  | buy => simp only [if_true]
  | sell => simp only [reduceCtorEq, if_false]

/-- The fills of an incoming order, what is left of it, and what is left of the resting orders. -/
def sweep (incoming : OrderRecord) (resting : List OrderRecord) :
    List Fill × OrderRecord × List OrderRecord :=
  if _filled : incoming.remaining = 0 then
    ([], incoming, resting)
  else
    match _found : best incoming resting with
    | none => ([], incoming, resting)
    | some mo =>
      let qty := min incoming.remaining mo.remaining
      let swept := sweep { incoming with remaining := incoming.remaining - qty }
        (reduce mo qty resting)
      (recorded incoming mo qty :: swept.1, swept.2)
termination_by incoming.remaining + resting.length
decreasing_by
  have shorter := reduce_length_le mo (min incoming.remaining mo.remaining) resting
  by_cases all : mo.remaining = min incoming.remaining mo.remaining
  · have strictly := reduce_shorter (best_mem _found).1 all
    omega
  · have part : min incoming.remaining mo.remaining = incoming.remaining := by omega
    simp only [part] at shorter ⊢
    omega

theorem sweep_of_filled {incoming : OrderRecord} (resting : List OrderRecord)
    (filled : incoming.remaining = 0) : sweep incoming resting = ([], incoming, resting) := by
  rw [sweep, dif_pos filled]

theorem sweep_of_none {incoming : OrderRecord} {resting : List OrderRecord}
    (none : best incoming resting = none) : sweep incoming resting = ([], incoming, resting) := by
  rw [sweep]
  split
  · rfl
  · split
    · rfl
    · rename_i found
      cases none.symm.trans found

theorem sweep_of_best {incoming mo : OrderRecord} {resting : List OrderRecord}
    (unfilled : incoming.remaining ≠ 0) (found : best incoming resting = some mo) :
    let qty := min incoming.remaining mo.remaining
    let swept := sweep { incoming with remaining := incoming.remaining - qty }
      (reduce mo qty resting)
    sweep incoming resting =
      (Matching.fill incoming mo mo.orderId mo.priceRay qty :: swept.1, swept.2) := by
  rw [sweep, dif_neg unfilled]
  split
  · rename_i none
    cases none.symm.trans found
  · rename_i other same
    cases same.symm.trans found
    simp only [recorded_eq_fill]

/-- Sweeping changes what remains of the incoming order and nothing else about it. -/
theorem sweep_incoming (incoming : OrderRecord) (resting : List OrderRecord) :
    ∃ remaining, (sweep incoming resting).2.1 = { incoming with remaining } := by
  induction incoming, resting using sweep.induct with
  | case1 incoming resting filled =>
    exact ⟨incoming.remaining, by rw [sweep_of_filled resting filled]⟩
  | case2 incoming resting unfilled none =>
    exact ⟨incoming.remaining, by rw [sweep_of_none none]⟩
  | case3 incoming resting unfilled mo found qty ih =>
    obtain ⟨remaining, same⟩ := ih
    exact ⟨remaining, by rw [sweep_of_best unfilled found]; exact same⟩

/-- Every order that goes on resting was resting before. -/
theorem mem_reduce {mo r : OrderRecord} {qty : ℕ} {resting : List OrderRecord}
    (member : r ∈ reduce mo qty resting) :
    ∃ o ∈ resting, r = { o with remaining := r.remaining } := by
  unfold reduce at member
  split at member
  · exact ⟨r, (List.mem_filter.mp member).1, rfl⟩
  · obtain ⟨o, rests, rfl⟩ := List.mem_map.mp member
    refine ⟨o, rests, ?_⟩
    split <;> rfl

theorem mem_sweep {incoming r : OrderRecord} {resting : List OrderRecord}
    (member : r ∈ (sweep incoming resting).2.2) :
    ∃ o ∈ resting, r = { o with remaining := r.remaining } := by
  induction incoming, resting using sweep.induct with
  | case1 incoming resting filled =>
    rw [sweep_of_filled resting filled] at member
    exact ⟨r, member, rfl⟩
  | case2 incoming resting unfilled none =>
    rw [sweep_of_none none] at member
    exact ⟨r, member, rfl⟩
  | case3 incoming resting unfilled mo found qty ih =>
    rw [sweep_of_best unfilled found] at member
    obtain ⟨o, reduced, same⟩ := ih member
    obtain ⟨p, rests, before⟩ := mem_reduce reduced
    refine ⟨p, rests, ?_⟩
    rw [same, before]

theorem mem_sweep_id {incoming r : OrderRecord} {resting : List OrderRecord}
    (member : r ∈ (sweep incoming resting).2.2) : ∃ o ∈ resting, o.orderId = r.orderId := by
  obtain ⟨o, rests, same⟩ := mem_sweep member
  exact ⟨o, rests, by rw [same]⟩

/-- An order of a new id keeps the ids apart. -/
theorem nodup_append_fresh {incoming : OrderRecord} {resting : List OrderRecord}
    (nodup : (resting.map OrderRecord.orderId).Nodup)
    (fresh : ∀ r ∈ resting, r.orderId ≠ incoming.orderId) :
    ((resting ++ [incoming]).map OrderRecord.orderId).Nodup := by
  rw [List.map_append, List.nodup_append]
  refine ⟨nodup, List.nodup_singleton _, fun id left other right => ?_⟩
  obtain ⟨r, rests, rfl⟩ := List.mem_map.mp left
  cases List.mem_singleton.mp right
  exact fresh r rests

/-- The first of the smallest elements. -/
theorem argmin_of_first {α β : Type*} [LinearOrder β] {f : α → β} {before after : List α} {a : α}
    (strict : ∀ x ∈ before, f a < f x) (weak : ∀ x ∈ after, f a ≤ f x) :
    (before ++ a :: after).argmin f = some a := by
  induction before with
  | nil =>
    rw [List.nil_append, List.argmin_cons]
    cases least : after.argmin f with
    | none => rfl
    | some c => exact if_neg (not_lt_of_ge (weak c (List.argmin_mem least)))
  | cons x before ih =>
    have rest := ih fun y member => strict y (List.mem_cons_of_mem _ member)
    rw [List.cons_append, List.argmin_cons, rest]
    exact if_pos (strict x (List.mem_cons_self ..))

/-- The reference engine: for each company the resting orders in arrival order. -/
structure NaiveEngine where
  books : ℕ → List OrderRecord
  matchingPaused : Bool

namespace NaiveEngine

def new : NaiveEngine := ⟨fun _ => [], false⟩

def setBook (engine : NaiveEngine) (companyId : ℕ) (resting : List OrderRecord) : NaiveEngine :=
  { engine with books := Function.update engine.books companyId resting }

def exec (engine : NaiveEngine) : MatchEngine.Call → MatchEngine.Verdict × NaiveEngine
  | .ingestChainOrder record =>
    (.ok [], engine.setBook record.companyId (engine.books record.companyId ++ [record]))
  | .ingestCancel companyId orderId =>
    if (engine.books companyId).any (·.orderId == orderId) then
      (.ok [], engine.setBook companyId ((engine.books companyId).filter (·.orderId != orderId)))
    else
      (.error (.book (.unknownOrder orderId)), engine)
  | .limitOrderPlacement incoming =>
    if engine.matchingPaused then
      (.error .matchingPaused, engine)
    else
      let (fills, rest, resting) := sweep incoming (engine.books incoming.companyId)
      (.ok fills, engine.setBook incoming.companyId
        (if 0 < rest.remaining then resting ++ [rest] else resting))
  | .pauseMatching => (.ok [], { engine with matchingPaused := true })
  | .resumeMatching => (.ok [], { engine with matchingPaused := false })

def run (engine : NaiveEngine) : List MatchEngine.Call → List MatchEngine.Verdict × NaiveEngine
  | [] => ([], engine)
  | call :: rest =>
    let (verdict, next) := engine.exec call
    let (verdicts, final) := run next rest
    (verdict :: verdicts, final)

end NaiveEngine

end Aide.Engine.NaiveBook
