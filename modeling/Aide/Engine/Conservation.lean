import Aide.Engine.NaiveBook

namespace Aide.Engine.NaiveBook

/-- What rests under an id. -/
def quantity (resting : List OrderRecord) (id : ℕ) : ℕ :=
  (resting.map fun r => if r.orderId = id then r.remaining else 0).sum

/-- What fills take from an id, as maker or as taker. -/
def filled (fills : List Fill) (id : ℕ) : ℕ :=
  (fills.map fun f => (if f.makerOrderId = id then f.vstkAmount else 0) +
    if f.takerOrderId = id then f.vstkAmount else 0).sum

variable {resting more : List OrderRecord} {incoming mo r : OrderRecord} {fills : List Fill} {f : Fill}
  {id qty : ℕ}

theorem quantity_append : quantity (resting ++ more) id = quantity resting id + quantity more id := by
  simp [quantity]

theorem quantity_singleton : quantity [r] id = if r.orderId = id then r.remaining else 0 := by
  simp [quantity]

theorem filled_append (fills more : List Fill) (id : ℕ) :
    filled (fills ++ more) id = filled fills id + filled more id := by
  simp [filled]

theorem filled_cons : filled (f :: fills) id = (if f.makerOrderId = id then f.vstkAmount else 0) +
    (if f.takerOrderId = id then f.vstkAmount else 0) + filled fills id := by
  simp [filled]

theorem quantity_rest (r : OrderRecord) (id : ℕ) :
    quantity (if 0 < r.remaining then [r] else []) id = if r.orderId = id then r.remaining else 0 := by
  split
  · exact quantity_singleton
  · rename_i filled
    rw [Nat.eq_zero_of_not_pos filled]
    simp [quantity]

theorem quantity_of_absent (absent : ∀ r ∈ resting, r.orderId ≠ id) : quantity resting id = 0 := by
  refine List.sum_eq_zero_iff_forall_eq_nat.mpr fun n member => ?_
  obtain ⟨r, rests, rfl⟩ := List.mem_map.mp member
  exact if_neg (absent r rests)

theorem filled_of_absent (absent : ∀ f ∈ fills, f.makerOrderId ≠ id ∧ f.takerOrderId ≠ id) :
    filled fills id = 0 := by
  refine List.sum_eq_zero_iff_forall_eq_nat.mpr fun n member => ?_
  obtain ⟨f, filled, rfl⟩ := List.mem_map.mp member
  rw [if_neg (absent f filled).1, if_neg (absent f filled).2]

/-- No id rests twice, so what rests under an id is what remains of its order. -/
theorem quantity_of_mem (nodup : (resting.map OrderRecord.orderId).Nodup) (member : r ∈ resting) :
    quantity resting r.orderId = r.remaining := by
  obtain ⟨before, after, rfl⟩ := List.append_of_mem member
  simp only [List.map_append, List.map_cons, List.nodup_append, List.nodup_cons, List.mem_cons,
    List.mem_map] at nodup
  obtain ⟨_, ⟨notAfter, _⟩, apart⟩ := nodup
  have left : quantity before r.orderId = 0 :=
    quantity_of_absent fun o rests same => apart _ ⟨o, rests, rfl⟩ _ (Or.inl rfl) same
  have right : quantity after r.orderId = 0 :=
    quantity_of_absent fun o rests same => notAfter ⟨o, rests, same⟩
  rw [← List.singleton_append, quantity_append, quantity_append, left, right, quantity_singleton,
    if_pos rfl]
  omega

theorem reduce_ids : ((reduce mo qty resting).map OrderRecord.orderId).Sublist
    (resting.map OrderRecord.orderId) := by
  unfold reduce
  split
  · exact List.filter_sublist.map _
  · rw [List.map_map]
    have same : resting.map (OrderRecord.orderId ∘ fun o =>
        if o.orderId = mo.orderId then { o with remaining := o.remaining - qty } else o) =
        resting.map OrderRecord.orderId := by
      refine List.map_congr_left fun r _ => ?_
      simp only [Function.comp_apply]
      split <;> rfl
    rw [same]

/-- An order is left as it was but for what remains of it. -/
theorem mem_reduce_keeps (nodup : (resting.map OrderRecord.orderId).Nodup) (member : mo ∈ resting)
    (within : qty ≤ mo.remaining) (left : r ∈ reduce mo qty resting) :
    ∃ o ∈ resting, r = { o with remaining := r.remaining } ∧ (0 < o.remaining → 0 < r.remaining) := by
  unfold reduce at left
  split at left
  · exact ⟨r, (List.mem_filter.mp left).1, rfl, id⟩
  · rename_i part
    obtain ⟨o, rests, rfl⟩ := List.mem_map.mp left
    refine ⟨o, rests, ?_⟩
    split
    · rename_i same
      cases List.inj_on_of_nodup_map nodup rests member same
      exact ⟨rfl, fun positive => by simp only; omega⟩
    · exact ⟨rfl, id⟩

theorem quantity_filter_ne {other : ℕ} (apart : other ≠ id) :
    quantity (resting.filter (·.orderId != other)) id = quantity resting id := by
  induction resting with
  | nil => rfl
  | cons r resting ih =>
    rw [List.filter_cons]
    split
    · simp only [quantity, List.map_cons, List.sum_cons] at ih ⊢
      rw [ih]
    · rename_i dropped
      have same : r.orderId = other := by simpa using dropped
      simp only [quantity, List.map_cons, List.sum_cons] at ih ⊢
      rw [ih, if_neg fun isId => apart (same.symm.trans isId), Nat.zero_add]

theorem quantity_reduce_of_ne (other : mo.orderId ≠ id) :
    quantity (reduce mo qty resting) id = quantity resting id := by
  unfold reduce
  split
  · exact quantity_filter_ne other
  · unfold quantity
    rw [List.map_map]
    refine congrArg List.sum (List.map_congr_left fun r _ => ?_)
    simp only [Function.comp_apply]
    split
    · rename_i same
      have apart : r.orderId ≠ id := fun isId => other (same.symm.trans isId)
      rw [if_neg apart, if_neg apart]
    · rfl

/-- A trade takes its quantity from the traded order. -/
theorem quantity_reduce (nodup : (resting.map OrderRecord.orderId).Nodup) (member : mo ∈ resting)
    (within : qty ≤ mo.remaining) :
    quantity (reduce mo qty resting) mo.orderId + qty = quantity resting mo.orderId := by
  rw [quantity_of_mem nodup member]
  by_cases all : mo.remaining = qty
  · rw [quantity_of_absent]
    · omega
    · intro r left
      rw [reduce, if_pos all] at left
      simpa using (List.mem_filter.mp left).2
  · have left : { mo with remaining := mo.remaining - qty } ∈ reduce mo qty resting := by
      rw [reduce, if_neg all]
      exact List.mem_map.mpr ⟨mo, member, if_pos rfl⟩
    have rests := quantity_of_mem (nodup.sublist reduce_ids) left
    simp only at rests
    omega

/-- A sweep moves quantity from the resting orders and the incoming order into fills. -/
theorem sweep_conserves (incoming : OrderRecord)
    (nodup : (resting.map OrderRecord.orderId).Nodup) (id : ℕ) :
    quantity (sweep incoming resting).2.2 id +
        (if incoming.orderId = id then (sweep incoming resting).2.1.remaining else 0) +
        filled (sweep incoming resting).1 id =
      quantity resting id + if incoming.orderId = id then incoming.remaining else 0 := by
  induction incoming, resting using sweep.induct with
  | case1 incoming resting filled =>
    rw [sweep_of_filled resting filled]
    rfl
  | case2 incoming resting unfilled none =>
    rw [sweep_of_none none]
    rfl
  | case3 incoming resting unfilled mo found qty ih =>
    have member := (best_mem found).1
    have conserved := ih (nodup.sublist reduce_ids)
    have taken := quantity_reduce nodup member (Nat.min_le_right incoming.remaining mo.remaining)
    have within := Nat.min_le_left incoming.remaining mo.remaining
    rw [sweep_of_best unfilled found]
    simp only [qty] at conserved
    simp only [filled_cons, Matching.fill]
    generalize min incoming.remaining mo.remaining = traded at conserved taken within ⊢
    by_cases same : mo.orderId = id
    · subst same
      rw [if_pos rfl]
      split at conserved <;> split <;> omega
    · rw [if_neg same]
      rw [quantity_reduce_of_ne same] at conserved
      split at conserved <;> split <;> omega

theorem sweep_ids : ((sweep incoming resting).2.2.map OrderRecord.orderId).Sublist
    (resting.map OrderRecord.orderId) := by
  induction incoming, resting using sweep.induct with
  | case1 incoming resting filled => rw [sweep_of_filled resting filled]
  | case2 incoming resting unfilled none => rw [sweep_of_none none]
  | case3 incoming resting unfilled mo found qty ih =>
    rw [sweep_of_best unfilled found]
    exact ih.trans reduce_ids

theorem mem_sweep_keeps (nodup : (resting.map OrderRecord.orderId).Nodup)
    (left : r ∈ (sweep incoming resting).2.2) :
    ∃ o ∈ resting, r = { o with remaining := r.remaining } ∧ (0 < o.remaining → 0 < r.remaining) := by
  induction incoming, resting using sweep.induct with
  | case1 incoming resting filled =>
    rw [sweep_of_filled resting filled] at left
    exact ⟨r, left, rfl, id⟩
  | case2 incoming resting unfilled none =>
    rw [sweep_of_none none] at left
    exact ⟨r, left, rfl, id⟩
  | case3 incoming resting unfilled mo found qty ih =>
    rw [sweep_of_best unfilled found] at left
    obtain ⟨o, reduced, same, positive⟩ := ih (nodup.sublist reduce_ids) left
    obtain ⟨p, rests, before, positiveBefore⟩ :=
      mem_reduce_keeps nodup (best_mem found).1 (Nat.min_le_right ..) reduced
    refine ⟨p, rests, ?_, fun was => positive (positiveBefore was)⟩
    rw [same, before]

/-- Every fill trades the incoming order with one that rested. -/
theorem sweep_fills (member : f ∈ (sweep incoming resting).1) :
    f.takerOrderId = incoming.orderId ∧ ∃ o ∈ resting, o.orderId = f.makerOrderId := by
  induction incoming, resting using sweep.induct with
  | case1 incoming resting filled =>
    rw [sweep_of_filled resting filled] at member
    cases member
  | case2 incoming resting unfilled none =>
    rw [sweep_of_none none] at member
    cases member
  | case3 incoming resting unfilled mo found qty ih =>
    rw [sweep_of_best unfilled found] at member
    rcases List.mem_cons.mp member with rfl | later
    · exact ⟨rfl, mo, (best_mem found).1, rfl⟩
    · obtain ⟨taker, o, reduced, maker⟩ := ih later
      obtain ⟨p, rests, same⟩ := mem_reduce reduced
      rw [same] at maker
      exact ⟨taker, p, rests, maker⟩

end Aide.Engine.NaiveBook
