import Aide.Engine.BookOffers
import Aide.LimitPrices

namespace Aide

open Engine NaiveBook MatchEngine
open InternalMarket (one)

namespace Engine

/-- A product that wraps is short by far more than one unit, so the notional shows it. -/
theorem mulDivRay_eq_iff (qty priceRay : ℕ) :
    mulDivRay qty priceRay = qty * priceRay / one ↔ qty * priceRay < 2 ^ 256 := by
  refine ⟨fun exact => ?_, mulDivRay_of_fits⟩
  by_contra wraps
  have reduced := Nat.mod_add_div (qty * priceRay) (2 ^ 256)
  have quotient : 0 < qty * priceRay / 2 ^ 256 := Nat.div_pos (Nat.not_lt.mp wraps) (by decide)
  have less : qty * priceRay % 2 ^ 256 + one ≤ qty * priceRay := by
    have scale : one ≤ 2 ^ 256 := by decide
    have multiple := Nat.mul_le_mul_left (2 ^ 256) quotient
    omega
  have short : mulDivRay qty priceRay + 1 ≤ qty * priceRay / one := by
    have shifted := Nat.div_le_div_right (c := one) less
    rw [Nat.add_div_right _ (by decide)] at shifted
    exact shifted
  omega

theorem mulDivRay_pos_iff (qty priceRay : ℕ) :
    0 < mulDivRay qty priceRay ↔ 10 ^ 18 ≤ qty * priceRay % 2 ^ 256 :=
  Nat.div_pos_iff.trans (and_iff_right (by decide))

/-- The limit of the buyer of a trade, and that of its seller. -/
def buyLimit (incoming maker : OrderRecord) : ℕ :=
  if incoming.side = .buy then incoming.priceRay else maker.priceRay

def sellLimit (incoming maker : OrderRecord) : ℕ :=
  if incoming.side = .buy then maker.priceRay else incoming.priceRay

theorem limits_of_crosses {incoming maker : OrderRecord} (crossing : crosses incoming maker = true) :
    sellLimit incoming maker ≤ maker.priceRay ∧ maker.priceRay ≤ buyLimit incoming maker := by
  unfold crosses at crossing
  unfold sellLimit buyLimit
  cases onSide : incoming.side with
  | buy =>
    simp only [onSide, decide_eq_true_eq] at crossing
    exact ⟨le_rfl, crossing.2⟩
  | sell =>
    simp only [onSide, decide_eq_true_eq] at crossing
    exact ⟨crossing.2, le_rfl⟩

/-- The notional of a fill is the quantity at the price of the maker, rounded down, and so within the
limits of both. -/
structure Fill.Exact (incoming maker : OrderRecord) (f : Fill) : Prop where
  notional : f.aitNotional = f.vstkAmount * maker.priceRay / one
  buyer : f.aitNotional ≤ f.vstkAmount * buyLimit incoming maker / one
  seller : f.vstkAmount * sellLimit incoming maker / one ≤ f.aitNotional

theorem fill_exact_iff {incoming maker : OrderRecord} (crossing : crosses incoming maker = true)
    (qty : ℕ) : (Matching.fill incoming maker maker.orderId maker.priceRay qty).Exact incoming maker ↔
      qty * maker.priceRay < 2 ^ 256 := by
  rw [← mulDivRay_eq_iff]
  refine ⟨fun exact => exact.notional, fun notional => ?_⟩
  obtain ⟨lower, upper⟩ := limits_of_crosses crossing
  refine ⟨notional, ?_, ?_⟩
  · show mulDivRay qty maker.priceRay ≤ _
    rw [notional]
    exact Nat.div_le_div_right (Nat.mul_le_mul_left qty upper)
  · show _ ≤ mulDivRay qty maker.priceRay
    rw [notional]
    exact Nat.div_le_div_right (Nat.mul_le_mul_left qty lower)

theorem mem_takings {amount : ℕ} {offers : List OrderRecord} {taking : OrderRecord × ℕ}
    (member : taking ∈ takings amount offers) : taking.1 ∈ offers := by
  induction offers generalizing amount with
  | nil => cases member
  | cons mo rest ih =>
    unfold takings at member
    split at member
    · cases member
    · rcases List.mem_cons.mp member with rfl | later
      · exact List.mem_cons_self ..
      · exact List.mem_cons_of_mem _ (ih later)

/-- An order takes only from orders that rest in the book and that it accepts. -/
theorem Represents.taken_rests {book : OrderBook} {resting : List OrderRecord} {incoming : OrderRecord}
    {taking : OrderRecord × ℕ} (rep : Represents book resting) (member : taking ∈ book.taken incoming) :
    book.orders taking.1.orderId = some taking.1 ∧ crosses incoming taking.1 = true := by
  have offered := mem_takings member
  rw [rep.offers_eq] at offered
  obtain ⟨rests, crossing⟩ := mem_offers.mp offered
  exact ⟨(rep.orders.lookup ..).mpr ⟨rests, rfl⟩, crossing⟩

/-- What `placeOrder` admits: a positive price and a positive amount. -/
def OrderRecord.Admitted (r : OrderRecord) : Prop :=
  (0 < r.priceRay ∧ r.priceRay ≤ uint256Max) ∧ 0 < r.remaining ∧ r.remaining ≤ uint256Max

instance (r : OrderRecord) : Decidable r.Admitted := inferInstanceAs (Decidable (_ ∧ _))

end Engine

variable {calls : List Call} {verdicts : List Verdict} {engine next : MatchEngine}
  {incoming : OrderRecord} {fills : List Fill}

/-- All fills of a placement are exact, if and only if no product of a quantity that is taken and its
price wraps. -/
theorem notionals_exact_iff (reached : MatchEngine.new.run calls = .ok (verdicts, engine))
    (returned : engine.limitOrderPlacement incoming = .ok (.ok fills, next)) :
    (∀ f ∈ fills, ∃ maker, (engine.books incoming.companyId).orders f.makerOrderId = some maker ∧
      f.Exact incoming maker) ↔
    ∀ taking ∈ (engine.books incoming.companyId).taken incoming,
      taking.2 * taking.1.priceRay < 2 ^ 256 := by
  obtain ⟨resting, rep⟩ := reached_represents reached incoming.companyId
  rw [rep.fills_eq_taken returned, List.forall_mem_map]
  refine forall₂_congr fun taking member => ?_
  obtain ⟨found, crossing⟩ := rep.taken_rests member
  rw [← fill_exact_iff crossing]
  constructor
  · rintro ⟨maker, same, exact⟩
    cases found.symm.trans same
    exact exact
  · intro exact
    exact ⟨taking.1, found, exact⟩

/-- A large bid. -/
def largeBid : List Call := [.limitOrderPlacement ⟨1, 7, 1, .buy, 2 ^ 200, 2 ^ 60, 0⟩]

/-- The engine that holds it. -/
def largeBidEngine : MatchEngine := ((MatchEngine.new.run largeBid).toOption.getD ([], .new)).2

/-- The offer takes sixteen units of the bid. -/
theorem notionals_exact_iff_of_sixteen :
    (∀ f ∈ [(⟨7, 1, 2, 1, 2, 16, 16 * 2 ^ 200 / 10 ^ 18⟩ : Fill)], ∃ maker,
      (largeBidEngine.books 7).orders f.makerOrderId = some maker ∧
        f.Exact ⟨2, 7, 2, .sell, 1, 16, 0⟩ maker) ↔
    ∀ taking ∈ (largeBidEngine.books 7).taken ⟨2, 7, 2, .sell, 1, 16, 0⟩,
      taking.2 * taking.1.priceRay < 2 ^ 256 :=
  @notionals_exact_iff largeBid [.ok []] _ _ ⟨2, 7, 2, .sell, 1, 16, 0⟩ _ rfl rfl

/-- Whoever sells all of it gets nothing. -/
theorem notional_wraps_to_zero :
    ¬ ∀ (calls : List Call) (verdicts : List Verdict) (engine next : MatchEngine) (incoming : OrderRecord)
      (fills : List Fill), (∀ call ∈ calls, ∀ record ∈ call.submitted, record.Admitted) →
      incoming.Admitted → MatchEngine.new.run calls = .ok (verdicts, engine) →
      engine.limitOrderPlacement incoming = .ok (.ok fills, next) →
      ∀ f ∈ fills, ∃ maker, (engine.books incoming.companyId).orders f.makerOrderId = some maker ∧
        f.Exact incoming maker := by
  intro always
  obtain ⟨maker, found, exact⟩ := always largeBid [.ok []] largeBidEngine _ ⟨2, 7, 2, .sell, 1, 2 ^ 60, 0⟩
    [⟨7, 1, 2, 1, 2, 2 ^ 60, 0⟩] (by decide) (by decide) rfl rfl _ (List.mem_singleton_self _)
  have bid : (largeBidEngine.books 7).orders 1 = some ⟨1, 7, 1, .buy, 2 ^ 200, 2 ^ 60, 0⟩ := rfl
  cases bid.symm.trans found
  exact absurd exact.notional (by decide)

/-- All fills of a placement can be settled for their amounts, if and only if every quantity that is
taken is worth at least one unit. -/
theorem fills_are_no_dust_iff (reached : MatchEngine.new.run calls = .ok (verdicts, engine))
    (returned : engine.limitOrderPlacement incoming = .ok (.ok fills, next)) :
    (∀ f ∈ fills, 0 < f.vstkAmount ∧ 0 < f.aitNotional) ↔
    ∀ taking ∈ (engine.books incoming.companyId).taken incoming,
      10 ^ 18 ≤ taking.2 * taking.1.priceRay % 2 ^ 256 := by
  obtain ⟨resting, rep⟩ := reached_represents reached incoming.companyId
  rw [rep.fills_eq_taken returned, List.forall_mem_map]
  refine forall₂_congr fun taking member => ?_
  show 0 < taking.2 ∧ 0 < mulDivRay taking.2 taking.1.priceRay ↔ _
  rw [mulDivRay_pos_iff]
  refine and_iff_right_of_imp fun worth => Nat.pos_of_ne_zero fun none => ?_
  rw [none, Nat.zero_mul] at worth
  exact absurd worth (by decide)

/-- Three units at half a token each. -/
def smallBid : List Call := [.limitOrderPlacement ⟨1, 7, 1, .buy, 5 * 10 ^ 17, 3, 0⟩]

/-- The engine that holds the bid. -/
def smallBidEngine : MatchEngine := ((MatchEngine.new.run smallBid).toOption.getD ([], .new)).2

theorem fills_are_no_dust_iff_of_two :
    (∀ f ∈ [(⟨7, 1, 2, 1, 2, 2, 1⟩ : Fill)], 0 < f.vstkAmount ∧ 0 < f.aitNotional) ↔
    ∀ taking ∈ (smallBidEngine.books 7).taken ⟨2, 7, 2, .sell, 1, 2, 0⟩,
      10 ^ 18 ≤ taking.2 * taking.1.priceRay % 2 ^ 256 :=
  @fills_are_no_dust_iff smallBid [.ok []] _ _ ⟨2, 7, 2, .sell, 1, 2, 0⟩ _ rfl rfl

/-- One unit of the bid is worth half a unit of the token, which is rounded to nothing. -/
theorem single_unit_is_dust :
    ¬ ∀ (calls : List Call) (verdicts : List Verdict) (engine next : MatchEngine) (incoming : OrderRecord)
      (fills : List Fill), (∀ call ∈ calls, ∀ record ∈ call.submitted, record.Admitted) →
      incoming.Admitted → MatchEngine.new.run calls = .ok (verdicts, engine) →
      engine.limitOrderPlacement incoming = .ok (.ok fills, next) →
      ∀ f ∈ fills, 0 < f.vstkAmount ∧ 0 < f.aitNotional := by
  intro always
  have worth := always smallBid [.ok []] smallBidEngine _ ⟨2, 7, 2, .sell, 1, 1, 0⟩
    [⟨7, 1, 2, 1, 2, 1, 0⟩] (by decide) (by decide) rfl rfl _ (List.mem_singleton_self _)
  exact absurd worth.2 (by decide)

end Aide
