import Aide.TradeMetrics
import Mathlib.Data.List.Dedup

namespace Aide

open Engine

namespace Engine.Last1000BlocksAit

def heights (blocks : List (ℕ × ℕ)) : List ℕ := blocks.map Prod.fst

/-- The entries that stay in the list when a height is recorded. A merge takes no entry from the front. -/
def stays (l : Last1000BlocksAit) (blockNumber : ℕ) : List (ℕ × ℕ) :=
  if l.blocks.getLast?.map Prod.fst = some blockNumber then
    l.blocks
  else
    l.blocks.drop (l.blocks.length + 1 - l.maxBlocks)

variable {l : Last1000BlocksAit} {blockNumber aitNotional sum : ℕ} {init : List (ℕ × ℕ)}

theorem exists_last (last : l.blocks.getLast?.map Prod.fst = some blockNumber) :
    ∃ init sum, l.blocks = init ++ [(blockNumber, sum)] := by
  obtain ⟨⟨height, sum⟩, final, same⟩ := Option.map_eq_some_iff.mp last
  obtain ⟨init, blocks⟩ := List.getLast?_eq_some_iff.mp final
  change height = blockNumber at same
  exact ⟨init, sum, same ▸ blocks⟩

theorem record_merge (last : l.blocks = init ++ [(blockNumber, sum)]) :
    l.record blockNumber aitNotional =
      { l with blocks := init ++ [(blockNumber, saturatingAdd sum aitNotional)] } := by
  have final : l.blocks.getLast? = some (blockNumber, sum) := by
    rw [last, List.getLast?_concat]
  have front : l.blocks.dropLast = init := by
    rw [last, List.dropLast_concat]
  simp only [record, final, if_true, front]

theorem record_push (other : l.blocks.getLast?.map Prod.fst ≠ some blockNumber) (room : 0 < l.maxBlocks) :
    l.record blockNumber aitNotional =
      { l with blocks := l.stays blockNumber ++ [(blockNumber, aitNotional)] } := by
  have pushed : l.record blockNumber aitNotional = l.push blockNumber aitNotional := by
    unfold record
    cases final : l.blocks.getLast? with
    | none => rfl
    | some entry =>
      have different : entry.1 ≠ blockNumber := by simpa [final] using other
      exact if_neg different
  have within : l.blocks.length + 1 - l.maxBlocks ≤ l.blocks.length := by omega
  rw [pushed, push, stays, if_neg other, List.length_append, List.length_singleton,
    List.drop_append_of_le_length within]

theorem stays_sublist (l : Last1000BlocksAit) (blockNumber : ℕ) :
    (l.stays blockNumber).Sublist l.blocks := by
  unfold stays
  split
  · exact List.Sublist.refl _
  · exact List.drop_sublist ..

theorem maxBlocks_record (l : Last1000BlocksAit) (blockNumber aitNotional : ℕ) :
    (l.record blockNumber aitNotional).maxBlocks = l.maxBlocks := by
  unfold record
  split
  · split <;> rfl
  · rfl

/-- After a record the last entry has its height. -/
theorem getLast?_record (room : 0 < l.maxBlocks) :
    (l.record blockNumber aitNotional).blocks.getLast?.map Prod.fst = some blockNumber := by
  by_cases last : l.blocks.getLast?.map Prod.fst = some blockNumber
  · obtain ⟨init, sum, blocks⟩ := exists_last last
    rw [record_merge blocks, List.getLast?_concat]
    rfl
  · rw [record_push last room, List.getLast?_concat]
    rfl

theorem mem_heights_record (room : 0 < l.maxBlocks) {height : ℕ}
    (member : height ∈ heights (l.record blockNumber aitNotional).blocks) :
    height ∈ heights l.blocks ∨ height = blockNumber := by
  by_cases last : l.blocks.getLast?.map Prod.fst = some blockNumber
  · obtain ⟨init, sum, blocks⟩ := exists_last last
    rw [record_merge blocks, heights, List.map_append, List.mem_append] at member
    rw [blocks, heights, List.map_append, List.mem_append]
    exact member.imp Or.inl List.mem_singleton.mp
  · rw [record_push last room, heights, List.map_append, List.mem_append] at member
    exact member.imp (fun old => ((stays_sublist l blockNumber).map _).subset old) List.mem_singleton.mp

end Engine.Last1000BlocksAit

open Engine.Last1000BlocksAit

/-- The blocks of the dashboard. For each height `since` is what was recorded while an entry for it was
in the list. -/
structure BlockRun where
  blockAit : Last1000BlocksAit
  since : ℕ → ℕ

namespace BlockRun

def new : BlockRun := ⟨.new, fun _ => 0⟩

/-- A height and an amount are recorded. What was recorded for the heights whose entries leave the list
does not count any more. -/
def exec (s : BlockRun) (call : ℕ × ℕ) : Except Unit BlockRun :=
  .ok ⟨s.blockAit.record call.1 call.2, fun height =>
    (if height ∈ heights (s.blockAit.stays call.1) then s.since height else 0) +
      if height = call.1 then call.2 else 0⟩

/-- At most a thousand heights, no two of them the same, each with what was recorded for it, and the
average over them. -/
structure Accurate (s : BlockRun) : Prop where
  bounded : s.blockAit.blocks.length ≤ 1000
  distinct : (heights s.blockAit.blocks).Nodup
  sums : ∀ entry ∈ s.blockAit.blocks, entry.2 = min uint256Max (s.since entry.1)
  average : s.blockAit.velocityPerBlockAvg =
    min uint256Max (((heights s.blockAit.blocks).dedup.map s.since).sum) /
      (heights s.blockAit.blocks).dedup.length

/-- A height is recorded that the last entry has, or none of the entries that stay. -/
def Separate (s : BlockRun) (call : ℕ × ℕ) : Prop :=
  s.blockAit.blocks.getLast?.map Prod.fst = some call.1 ∨
    call.1 ∉ heights (s.blockAit.stays call.1)

instance (s : BlockRun) : DecidablePred s.Separate :=
  fun _ => inferInstanceAs (Decidable (_ = _ ∨ ¬ _ ∈ _))

variable {s : BlockRun} {call : ℕ × ℕ} {calls : List (ℕ × ℕ)}

/-- The entries are added up without a loss that the amounts behind them would not have. -/
theorem foldl_saturatingAdd (since : ℕ → ℕ) (blocks : List (ℕ × ℕ)) (total : ℕ)
    (sums : ∀ entry ∈ blocks, entry.2 = min uint256Max (since entry.1)) :
    blocks.foldl (fun acc block => saturatingAdd acc block.2) (min uint256Max total) =
      min uint256Max (total + ((heights blocks).map since).sum) := by
  induction blocks generalizing total with
  | nil => rfl
  | cons entry blocks ih =>
    obtain ⟨first, rest⟩ := List.forall_mem_cons.mp sums
    have added : saturatingAdd (min uint256Max total) entry.2 = min uint256Max (total + since entry.1) := by
      rw [saturatingAdd_min, first]
      omega
    rw [List.foldl_cons, added, ih _ rest, Nat.add_assoc]
    rfl

theorem average_of_sums (distinct : (heights s.blockAit.blocks).Nodup)
    (sums : ∀ entry ∈ s.blockAit.blocks, entry.2 = min uint256Max (s.since entry.1)) :
    s.blockAit.velocityPerBlockAvg =
      min uint256Max (((heights s.blockAit.blocks).dedup.map s.since).sum) /
        (heights s.blockAit.blocks).dedup.length := by
  have total := foldl_saturatingAdd s.since s.blockAit.blocks 0 sums
  rw [Nat.zero_add] at total
  have length : (heights s.blockAit.blocks).length = s.blockAit.blocks.length := List.length_map _
  rw [distinct.dedup, length, Last1000BlocksAit.velocityPerBlockAvg]
  split
  · rename_i none
    rw [none, Nat.div_zero]
  · exact congrArg (· / _) total

/-- What holds of the list as long as the heights are separate. -/
structure Sound (s : BlockRun) : Prop extends s.Accurate where
  size : s.blockAit.maxBlocks = 1000

theorem since_of_other {height : ℕ} (stays : height ∈ heights (s.blockAit.stays call.1))
    (other : height ≠ call.1) : (TransitionRun.after exec s call).since height = s.since height := by
  change (if _ then _ else _) + (if _ then _ else _) = _
  rw [if_pos stays, if_neg other, Nat.add_zero]

theorem since_of_stays (stays : call.1 ∈ heights (s.blockAit.stays call.1)) :
    (TransitionRun.after exec s call).since call.1 = s.since call.1 + call.2 := by
  change (if _ then _ else _) + (if _ then _ else _) = _
  rw [if_pos stays, if_pos rfl]

theorem since_of_absent (absent : call.1 ∉ heights (s.blockAit.stays call.1)) :
    (TransitionRun.after exec s call).since call.1 = call.2 := by
  change (if _ then _ else _) + (if _ then _ else _) = _
  rw [if_neg absent, if_pos rfl, Nat.zero_add]

/-- An amount for the height of the last entry is added to it. -/
theorem Sound.merge (sound : s.Sound)
    (last : s.blockAit.blocks.getLast?.map Prod.fst = some call.1) :
    (TransitionRun.after exec s call).Accurate := by
  obtain ⟨init, sum, blocks⟩ := exists_last last
  have stays : s.blockAit.stays call.1 = init ++ [(call.1, sum)] := (if_pos last).trans blocks
  have left : (TransitionRun.after exec s call).blockAit.blocks =
      init ++ [(call.1, saturatingAdd sum call.2)] :=
    congrArg Last1000BlocksAit.blocks (record_merge blocks)
  have sameHeights : heights (init ++ [(call.1, saturatingAdd sum call.2)]) =
      heights (init ++ [(call.1, sum)]) := by
    simp [heights]
  have bounded := sound.bounded
  have distinct := sound.distinct
  have sums := sound.sums
  rw [blocks] at bounded distinct sums
  have distinctAfter : (heights (TransitionRun.after exec s call).blockAit.blocks).Nodup := by
    rw [left, sameHeights]
    exact distinct
  have sumsAfter : ∀ entry ∈ (TransitionRun.after exec s call).blockAit.blocks,
      entry.2 = min uint256Max ((TransitionRun.after exec s call).since entry.1) := by
    intro entry member
    rw [left] at member
    rcases List.mem_append.mp member with old | new
    · have other : entry.1 ≠ call.1 := by
        rw [heights, List.map_append] at distinct
        exact (List.nodup_append.mp distinct).2.2 _ (List.mem_map_of_mem old) _ (List.mem_singleton_self _)
      have kept : entry.1 ∈ heights (s.blockAit.stays call.1) := by
        rw [stays]
        exact List.mem_map_of_mem (List.mem_append_left _ old)
      rw [since_of_other kept other]
      exact sums entry (List.mem_append_left _ old)
    · cases List.mem_singleton.mp new
      have kept : call.1 ∈ heights (s.blockAit.stays call.1) := by
        rw [stays]
        simp [heights]
      have before := sums _ (List.mem_append_right _ (List.mem_singleton_self _))
      change sum = _ at before
      rw [since_of_stays kept, before, saturatingAdd_min]
  refine ⟨?_, distinctAfter, sumsAfter, average_of_sums distinctAfter sumsAfter⟩
  rw [left, List.length_append]
  rwa [List.length_append] at bounded

/-- Another height gets an entry of its own. -/
theorem Sound.after_push (sound : s.Sound)
    (other : s.blockAit.blocks.getLast?.map Prod.fst ≠ some call.1) :
    (TransitionRun.after exec s call).blockAit.blocks = s.blockAit.stays call.1 ++ [call] :=
  congrArg Last1000BlocksAit.blocks (record_push other (sound.size ▸ (by decide)))

theorem Sound.push (sound : s.Sound)
    (other : s.blockAit.blocks.getLast?.map Prod.fst ≠ some call.1)
    (absent : call.1 ∉ heights (s.blockAit.stays call.1)) (fits : call.2 ≤ uint256Max) :
    (TransitionRun.after exec s call).Accurate := by
  have left := sound.after_push other
  have sublist := stays_sublist s.blockAit call.1
  have distinctAfter : (heights (TransitionRun.after exec s call).blockAit.blocks).Nodup := by
    rw [left, heights, List.map_append]
    refine List.nodup_append.mpr ⟨sound.distinct.sublist (sublist.map _), List.nodup_singleton _, ?_⟩
    intro height old height' new same
    cases List.mem_singleton.mp new
    exact absent (same ▸ old)
  have sumsAfter : ∀ entry ∈ (TransitionRun.after exec s call).blockAit.blocks,
      entry.2 = min uint256Max ((TransitionRun.after exec s call).since entry.1) := by
    intro entry member
    rw [left] at member
    rcases List.mem_append.mp member with old | new
    · have kept : entry.1 ∈ heights (s.blockAit.stays call.1) := List.mem_map_of_mem old
      rw [since_of_other kept fun same => absent (same ▸ kept)]
      exact sound.sums entry (sublist.subset old)
    · cases List.mem_singleton.mp new
      rw [since_of_absent absent, Nat.min_eq_right fits]
  refine ⟨?_, distinctAfter, sumsAfter, average_of_sums distinctAfter sumsAfter⟩
  have bounded := sound.bounded
  have length : (s.blockAit.stays call.1).length + 1 ≤ 1000 := by
    rw [Last1000BlocksAit.stays, if_neg other, List.length_drop, sound.size]
    omega
  rwa [left, List.length_append]

/-- After a sound state a record is accurate exactly if its height is separate. -/
theorem Sound.accurate_iff (sound : s.Sound) (fits : call.2 ≤ uint256Max) :
    (TransitionRun.after exec s call).Accurate ↔ s.Separate call := by
  by_cases last : s.blockAit.blocks.getLast?.map Prod.fst = some call.1
  · exact ⟨fun _ => Or.inl last, fun _ => sound.merge last⟩
  constructor
  · intro accurate
    refine Or.inr fun again => ?_
    have distinct := accurate.distinct
    rw [sound.after_push last, heights, List.map_append] at distinct
    exact (List.nodup_append.mp distinct).2.2 _ again _ (List.mem_singleton_self _) rfl
  · intro separate
    exact sound.push last (separate.resolve_left last) fits

theorem Sound.next (sound : s.Sound) (accurate : (TransitionRun.after exec s call).Accurate) :
    (TransitionRun.after exec s call).Sound :=
  ⟨accurate, (maxBlocks_record ..).trans sound.size⟩

theorem Sound.meets_iff (sound : s.Sound) (fits : ∀ call ∈ calls, call.2 ≤ uint256Max) :
    TransitionRun.Meets exec (fun s call => (TransitionRun.after exec s call).Accurate) s calls ↔
      TransitionRun.Meets exec Separate s calls := by
  refine TransitionRun.meets_congr
    (I := fun s calls => s.Sound ∧ ∀ call ∈ calls, call.2 ≤ uint256Max) ?_ ?_ ⟨sound, fits⟩
  · rintro s call rest ⟨sound, fits⟩
    exact sound.accurate_iff (fits call (List.mem_cons_self ..))
  · rintro s call rest ⟨sound, fits⟩ accurate
    exact ⟨sound.next accurate, (List.forall_mem_cons.mp fits).2⟩

/-- No height is above a bound, and only the last entry may reach it. -/
structure Climbs (s : BlockRun) (bound : ℕ) : Prop where
  room : 0 < s.blockAit.maxBlocks
  below : ∀ height ∈ heights s.blockAit.blocks, height ≤ bound
  last : bound ∈ heights s.blockAit.blocks → s.blockAit.blocks.getLast?.map Prod.fst = some bound

variable {bound : ℕ}

theorem Climbs.separate (climbs : s.Climbs bound) (higher : bound ≤ call.1) : s.Separate call := by
  by_cases last : s.blockAit.blocks.getLast?.map Prod.fst = some call.1
  · exact Or.inl last
  refine Or.inr fun again => last ?_
  have member : call.1 ∈ heights s.blockAit.blocks := ((stays_sublist _ _).map _).subset again
  have same : bound = call.1 := higher.antisymm (climbs.below _ member)
  subst same
  exact climbs.last member

theorem Climbs.next (climbs : s.Climbs bound) (higher : bound ≤ call.1) :
    (TransitionRun.after exec s call).Climbs call.1 := by
  obtain ⟨room, below, -⟩ := climbs
  refine ⟨(maxBlocks_record ..).symm ▸ room, fun height member => ?_, fun _ => getLast?_record room⟩
  rcases mem_heights_record room member with old | new
  · exact (below height old).trans higher
  · exact new.le

/-- Heights that do not go down are separate. -/
theorem Climbs.meets (climbs : s.Climbs bound) (ordered : (bound :: calls.map Prod.fst).Pairwise (· ≤ ·)) :
    TransitionRun.Meets exec Separate s calls := by
  induction calls generalizing s bound with
  | nil => trivial
  | cons call calls ih =>
    obtain ⟨first, rest⟩ := List.pairwise_cons.mp ordered
    have higher : bound ≤ call.1 := first _ (List.mem_cons_self ..)
    exact ⟨climbs.separate higher, ih (climbs.next higher) rest⟩

theorem new_sound : new.Sound :=
  ⟨⟨Nat.zero_le _, .nil, (fun _ member => nomatch member), rfl⟩, rfl⟩

theorem new_climbs : new.Climbs 0 :=
  ⟨by decide, (fun _ member => nomatch member), fun member => nomatch member⟩

/-- The list is accurate after each record as long as the heights do not go down. -/
theorem accurate_of_ordered (ordered : (calls.map Prod.fst).Pairwise (· ≤ ·))
    (fits : ∀ call ∈ calls, call.2 ≤ uint256Max) :
    TransitionRun.Meets exec (fun s call => (TransitionRun.after exec s call).Accurate) new calls :=
  (new_sound.meets_iff fits).mpr
    (new_climbs.meets (List.pairwise_cons.mpr ⟨fun _ _ => Nat.zero_le _, ordered⟩))

end BlockRun

open BlockRun

/-- The list is accurate after each record if and only if each height is that of the last entry or of
none of the entries that stay. -/
theorem blocks_accurate_iff {calls : List (ℕ × ℕ)} (fits : ∀ call ∈ calls, call.2 ≤ uint256Max) :
    TransitionRun.Meets BlockRun.exec (fun s call => (TransitionRun.after BlockRun.exec s call).Accurate)
        .new calls ↔
      TransitionRun.Meets BlockRun.exec Separate .new calls :=
  new_sound.meets_iff fits

theorem blocks_accurate_iff_of_two_in_order :
    TransitionRun.Meets BlockRun.exec Separate .new [(103, 5), (103, 4), (104, 2)] ∧
      TransitionRun.Meets BlockRun.exec (fun s call => (TransitionRun.after BlockRun.exec s call).Accurate)
        .new [(103, 5), (103, 4), (104, 2)] := by
  have separate : TransitionRun.Meets BlockRun.exec Separate .new [(103, 5), (103, 4), (104, 2)] := by
    decide +kernel
  exact ⟨separate, (blocks_accurate_iff (by decide)).mpr separate⟩

/-- A block, the next one, and the first again when a trade comes back from it. -/
def backAndForth : List (ℕ × ℕ) := [(103, 5), (104, 2), (103, 4)]

/-- The first block has two entries. -/
theorem block_listed_twice :
    ¬ ∀ calls : List (ℕ × ℕ), (∀ call ∈ calls, call.2 ≤ uint256Max) →
      TransitionRun.Meets BlockRun.exec (fun s call => (TransitionRun.after BlockRun.exec s call).Accurate)
        .new calls := by
  intro always
  have last := (always backAndForth (by decide)).2.2.1
  exact absurd last.distinct (by decide)

namespace Engine.TelemetryHub

/-- A batch is recorded at one height. -/
theorem blockAit_recordFills (hub : TelemetryHub) (blockNumber taxBps : ℕ) (clock : ℕ → ℕ) (fills : List Fill) :
    (hub.recordFills blockNumber taxBps clock fills).blockAit =
      fills.foldl (fun l f => l.record blockNumber f.aitNotional) hub.blockAit := by
  induction fills generalizing hub clock with
  | nil => rfl
  | cons f fills ih =>
    have first : (hub.recordFill blockNumber taxBps clock f).blockAit =
        hub.blockAit.record blockNumber f.aitNotional := by
      unfold recordFill
      dsimp only
      split <;> rfl
    rw [recordFills, ih, first]
    rfl

end Engine.TelemetryHub

/-- An offer is bought in three parts, and a batch is flushed after each: at one block, at the next, and
when a trade comes back from the first. -/
example : heights (TransitionRun.exec Metered.exec (.started .new .new)
    [.event (.orderPlaced 101 1 7 11 .sell (5 * 10 ^ 17) 6 0),
      .event (.newBlock 103), .event (.orderPlaced 102 2 7 12 .buy (10 ^ 18) 2 0), .receive, .flush fun _ => 0,
      .event (.newBlock 104), .event (.orderPlaced 102 3 7 12 .buy (10 ^ 18) 2 0), .receive, .flush fun _ => 0,
      .event (.tradeSettled 103 7 12 11 2 1), .event (.orderPlaced 103 4 7 12 .buy (10 ^ 18) 2 0), .receive,
      .flush fun _ => 0]).telemetry.blockAit.blocks = [103, 104, 103] := by decide +kernel

end Aide
