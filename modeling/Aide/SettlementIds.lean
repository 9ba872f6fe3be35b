import Aide.Engine.Conservation
import Aide.Engine.Settler
import Aide.Engine.Stock

namespace Aide.Engine

open NaiveBook MatchEngine

/-- The fills that an answer returns. -/
def fillsOf : Verdict → List Fill
  | .ok fills => fills
  | .error _ => []

/-- The two orders that a fill trades. -/
def Fill.orders (f : Fill) : ℕ × ℕ := (f.makerOrderId, f.takerOrderId)

section Sweep
variable {resting : List OrderRecord}

/-- A sweep trades with every resting order at most once: after a trade either the resting order
is gone or nothing is left to trade. -/
theorem sweep_makers_nodup (incoming : OrderRecord)
    (nodup : (resting.map OrderRecord.orderId).Nodup) :
    ((sweep incoming resting).1.map Fill.makerOrderId).Nodup := by
  induction incoming, resting using sweep.induct with
  | case1 incoming resting filled =>
    rw [sweep_of_filled resting filled]
    exact List.nodup_nil
  | case2 incoming resting unfilled none =>
    rw [sweep_of_none none]
    exact List.nodup_nil
  | case3 incoming resting unfilled mo found qty ih =>
    rw [sweep_of_best unfilled found]
    refine List.nodup_cons.mpr ⟨fun again => ?_, ih (nodup.sublist reduce_ids)⟩
    obtain ⟨f, later, same⟩ := List.mem_map.mp again
    by_cases all : mo.remaining = min incoming.remaining mo.remaining
    · obtain ⟨_, o, reduced, maker⟩ := sweep_fills later
      rw [reduce, if_pos all] at reduced
      have apart : o.orderId ≠ mo.orderId := by simpa using (List.mem_filter.mp reduced).2
      exact apart (maker.trans same)
    · have nothing : incoming.remaining - min incoming.remaining mo.remaining = 0 := by omega
      rw [sweep_of_filled _ nothing] at later
      cases later

/-- A call fills no pair of orders twice, and all its fills have the order it submits as taker. -/
theorem exec_orders {naive : NaiveEngine} (call : Call)
    (nodup : ∀ companyId, ((naive.books companyId).map OrderRecord.orderId).Nodup) :
    ((fillsOf (naive.exec call).1).map Fill.orders).Nodup ∧
      ∀ f ∈ fillsOf (naive.exec call).1, ∃ record ∈ call.submitted,
        f.takerOrderId = record.orderId ∧
        ∃ o ∈ naive.books record.companyId, o.orderId = f.makerOrderId := by
  cases call with
  | limitOrderPlacement incoming =>
    by_cases paused : naive.matchingPaused = true
    · simp [NaiveEngine.exec, paused, fillsOf]
    · have makers := sweep_makers_nodup incoming (nodup incoming.companyId)
      simp only [NaiveEngine.exec, paused, if_false, Bool.false_eq_true, fillsOf]
      refine ⟨?_, fun f member => ?_⟩
      · refine List.Nodup.of_map Prod.fst ?_
        rw [List.map_map]
        exact makers
      · obtain ⟨taker, maker⟩ := sweep_fills member
        exact ⟨incoming, rfl, taker, maker⟩
  | ingestCancel companyId orderId =>
    by_cases rests : (naive.books companyId).any (·.orderId == orderId)
    · simp [NaiveEngine.exec, rests, fillsOf]
    · simp [NaiveEngine.exec, rests, fillsOf]
  | ingestChainOrder record => simp [NaiveEngine.exec, fillsOf]
  | pauseMatching => simp [NaiveEngine.exec, fillsOf]
  | resumeMatching => simp [NaiveEngine.exec, fillsOf]

end Sweep

/-- Where no id is submitted twice, no pair of orders is filled twice: the takers of different
calls differ, and one call fills each maker at most once. -/
theorem run_orders {engine : MatchEngine} {naive : NaiveEngine} {calls : List Call}
    (refines : Refines engine naive) (fresh : Fresh naive calls) :
    (((naive.run calls).1.flatMap fillsOf).map Fill.orders).Nodup ∧
      ∀ f ∈ (naive.run calls).1.flatMap fillsOf, f.takerOrderId ∈ submittedIds calls := by
  induction calls generalizing engine naive with
  | nil => exact ⟨List.nodup_nil, fun f member => absurd member List.not_mem_nil⟩
  | cons call rest ih =>
    obtain ⟨next, _, refinesNext⟩ := refines.exec call fun record submitted => fresh.head submitted _
    obtain ⟨nodupRest, takersRest⟩ := ih refinesNext fresh.tail
    obtain ⟨nodup, takers⟩ :=
      exec_orders call fun companyId => (refines.books companyId).orders.nodup
    have unfolded : (naive.run (call :: rest)).1.flatMap fillsOf =
        fillsOf (naive.exec call).1 ++ ((naive.exec call).2.run rest).1.flatMap fillsOf := by
      simp [NaiveEngine.run]
    rw [unfolded]
    refine ⟨?_, fun f member => ?_⟩
    · rw [List.map_append, List.nodup_append]
      refine ⟨nodup, nodupRest, fun pair now other later same => ?_⟩
      obtain ⟨f, filled, rfl⟩ := List.mem_map.mp now
      obtain ⟨g, filledLater, rfl⟩ := List.mem_map.mp later
      obtain ⟨record, submitted, taker, _⟩ := takers f filled
      have again : g.takerOrderId = f.takerOrderId := (congrArg Prod.snd same).symm
      have submittedAgain := takersRest g filledLater
      rw [again, taker] at submittedAgain
      exact fresh.apart submitted submittedAgain
    · rw [submittedIds_cons]
      rcases List.mem_append.mp member with now | later
      · obtain ⟨record, submitted, taker, _⟩ := takers f now
        rw [taker]
        exact List.mem_append_left _
          (List.mem_map.mpr ⟨record, Option.mem_toList.mpr submitted, rfl⟩)
      · exact List.mem_append_right _ (takersRest f later)

/-- An order that is filled, as maker or as taker, has been submitted. -/
theorem run_submitted {engine : MatchEngine} {calls : List Call} {verdicts : List Verdict}
    (ran : MatchEngine.new.run calls = .ok (verdicts, engine)) :
    ∀ f ∈ verdicts.flatMap fillsOf, f.makerOrderId ∈ submittedIds calls ∧
      f.takerOrderId ∈ submittedIds calls := by
  have lasting : Lasting fun r => r.orderId ∈ submittedIds calls := fun _ _ known => known
  obtain ⟨_, _, runs, _, trades⟩ := Stocked.new.run lasting fun call member record submitted =>
    List.mem_map.mpr ⟨record, List.mem_filterMap.mpr ⟨call, member, submitted⟩, rfl⟩
  cases ran.symm.trans runs
  intro f member
  obtain ⟨verdict, returned, filled⟩ := List.mem_flatMap.mp member
  cases verdict with
  | error e => cases filled
  | ok fills =>
    obtain ⟨maker, taker, makerKnown, takerKnown, between⟩ := trades fills returned f filled
    have trade := between.trades
    rw [trade]
    exact ⟨makerKnown, takerKnown⟩

theorem hashed_nodup {fills : List Fill} {batches : List (List Fill)} (batchEntropy : Bytes32)
    (cut : batches.flatten = fills) (pairs : (fills.map Fill.orders).Nodup)
    (fit : ∀ f ∈ fills, f.makerOrderId < 2 ^ 64 ∧ f.takerOrderId < 2 ^ 64) :
    (batches.flatMap (hashed · batchEntropy)).Nodup := by
  refine List.Nodup.of_map (List.drop 40) ?_
  have orders : (batches.flatMap (hashed · batchEntropy)).map (List.drop 40) =
      fills.map fun f => beBytes 8 f.makerOrderId ++ beBytes 8 f.takerOrderId := by
    subst cut
    simp only [List.flatMap_def, List.map_flatten, List.map_map, Function.comp_def, hashed_orders]
  rw [orders]
  refine (List.pairwise_map.mpr ?_)
  refine List.Pairwise.imp_of_mem (fun {f g} left right apart same => apart ?_) (List.pairwise_map.mp pairs)
  obtain ⟨makers, takers⟩ := List.append_inj same (by simp)
  obtain ⟨fMaker, fTaker⟩ := fit f left
  obtain ⟨gMaker, gTaker⟩ := fit g right
  exact Prod.ext (beBytes_inj fMaker gMaker makers) (beBytes_inj fTaker gTaker takers)

/-- However the fills of a run are cut into batches, no two settlement ids are equal, as long as
the hash tells apart what it is given. -/
theorem settlement_ids_unique {keccak256 : List UInt8 → Bytes32} {calls : List Call}
    {verdicts : List Verdict} {engine : MatchEngine} {batches : List (List Fill)}
    (unique : (submittedIds calls).Nodup) (fit : ∀ id ∈ submittedIds calls, id < 2 ^ 64)
    (ran : MatchEngine.new.run calls = .ok (verdicts, engine))
    (cut : batches.flatten = verdicts.flatMap fillsOf)
    (injective : ∀ left ∈ batches.flatMap (hashed · 0), ∀ right ∈ batches.flatMap (hashed · 0),
      keccak256 left = keccak256 right → left = right) :
    ((batches.flatMap (batchFromFills keccak256 · 0)).map SettleTradeCall.settlementId).Nodup := by
  have known := run_submitted ran
  obtain ⟨_, runs, _⟩ := Refines.new.run unique (Fresh.new unique).absent
  cases ran.symm.trans runs
  obtain ⟨pairs, _⟩ := run_orders Refines.new (Fresh.new unique)
  have distinct := hashed_nodup 0 cut pairs fun f member =>
    ⟨fit _ (known f member).1, fit _ (known f member).2⟩
  have ids : (batches.flatMap (batchFromFills keccak256 · 0)).map SettleTradeCall.settlementId =
      (batches.flatMap (hashed · 0)).map keccak256 := by
    simp only [List.map_flatMap, settlementIds]
  rw [ids]
  exact distinct.map_on injective

/-- The two fills of `twoLevels`, each in a batch of its own, so that both stand at place zero. -/
def twoBatches : List (List Fill) := [[⟨7, 2, 3, 3, 2, 5, 0⟩], [⟨7, 1, 3, 3, 1, 2, 0⟩]]

/-- The hash on the two inputs of `twoBatches`. -/
def keccakOfTwo (bytes : List UInt8) : Bytes32 :=
  if bytes = hdata 0 0 ⟨7, 2, 3, 3, 2, 5, 0⟩ then
    0xbc3c006d98403b1b7649768d58eb79732fe573e4bc4a9f9848ab9971dfef2432
  else if bytes = hdata 0 0 ⟨7, 1, 3, 3, 1, 2, 0⟩ then
    0x6e33b6664478b2f42632cf7bb0352e083fb4c2afd53848b6034f9ba87e867e50
  else 0

theorem settlement_ids_unique_of_two_batches :
    ((twoBatches.flatMap (batchFromFills keccakOfTwo · 0)).map SettleTradeCall.settlementId).Nodup := by
  obtain ⟨engine, ran, _⟩ := @Refines.run _ _ twoLevels Refines.new (by decide) (Fresh.new (by decide)).absent
  exact settlement_ids_unique (by decide) (by decide) ran (by decide +kernel) (by decide +kernel)

end Aide.Engine
