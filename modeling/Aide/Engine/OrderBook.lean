import Aide.Contracts.Basic
import Mathlib.Order.OrderDual
import Mathlib.Order.Compare
import Mathlib.Data.List.Nodup

namespace Aide.Engine

/-- A resting or incoming order. -/
structure OrderRecord where
  orderId : ℕ
  companyId : ℕ
  maker : Address
  side : Side
  priceRay : ℕ
  remaining : ℕ
  timestamp : ℕ := 0
  deriving DecidableEq

inductive BookError
  | duplicateOrderId (id : ℕ)
  | unknownOrder (id : ℕ)
  deriving DecidableEq

/-- The levels of one side of a book: a sorted map from prices to queues of order ids. -/
abbrev Levels (K : Type) [LinearOrder K] := Std.ExtTreeMap K (List ℕ) compare

namespace Levels
variable {K : Type} [LinearOrder K]

instance transCmp : Std.TransCmp (compare : K → K → Ordering) := inferInstance

/-- The key that comes first in the order of the map. -/
def best (levels : Levels K) : Option K := levels.keys.head?

/-- The ids at a level, and none where there is no level. -/
def ids (levels : Levels K) (key : K) : List ℕ := levels[key]?.getD []

/-- The ids of all levels, in the order of the map. -/
def allIds (levels : Levels K) : List ℕ := levels.keys.flatMap levels.ids

/-- `entry(key).or_default().push_back(id)`. -/
def pushBack (levels : Levels K) (key : K) (id : ℕ) : Levels K :=
  levels.insert key (levels[key]?.getD [] ++ [id])

/-- Take one id out of a level, and the level out of the map once it is empty. -/
def remove (levels : Levels K) (key : K) (id : ℕ) : Levels K :=
  match levels[key]? with
  | none => levels
  | some queue =>
    if (queue.erase id).isEmpty then levels.erase key else levels.insert key (queue.erase id)

theorem getElem?_pushBack (levels : Levels K) (key other : K) (id : ℕ) :
    (levels.pushBack key id)[other]? =
      if key = other then some (levels[key]?.getD [] ++ [id]) else levels[other]? := by
  simp [pushBack, Std.ExtTreeMap.getElem?_insert]

theorem getElem?_remove (levels : Levels K) (key other : K) (id : ℕ) :
    (levels.remove key id)[other]? =
      if key = other then (levels[key]?.map (List.erase · id)).filter (¬ ·.isEmpty)
      else levels[other]? := by
  unfold remove
  cases level : levels[key]? with
  | none =>
    by_cases same : key = other
    · subst same
      simp [level]
    · simp [same]
  | some queue =>
    by_cases same : key = other
    · subst same
      by_cases empty : (queue.erase id).isEmpty
      · simp [empty, Option.filter]
      · simp [empty, Option.filter]
    · by_cases empty : (queue.erase id).isEmpty
      · simp [empty, same, Std.ExtTreeMap.getElem?_erase]
      · simp [empty, same, Std.ExtTreeMap.getElem?_insert]

/-- The best key has a level, and no level has a smaller key. -/
theorem best_eq_some {levels : Levels K} {key : K} :
    levels.best = some key ↔
      levels[key]?.isSome ∧ ∀ other : K, levels[other]?.isSome → key ≤ other := by
  have isLE : ∀ a b : K, (compare a b).isLE = true ↔ a ≤ b := fun a b =>
    Ordering.ne_gt_iff_isLE.symm.trans compare_le_iff_le
  rw [best, ← Std.ExtTreeMap.minKey?_eq_head?_keys,
    Std.ExtTreeMap.minKey?_eq_some_iff_mem_and_forall]
  simp only [Std.ExtTreeMap.mem_iff_isSome_getElem?, isLE]

theorem best_eq_none {levels : Levels K} :
    levels.best = none ↔ ∀ key : K, levels[key]? = none := by
  rw [best, ← Std.ExtTreeMap.minKey?_eq_head?_keys, Std.ExtTreeMap.minKey?_eq_none_iff,
    Std.ExtTreeMap.eq_empty_iff_forall_not_mem]
  simp only [Std.ExtTreeMap.mem_iff_isSome_getElem?, Option.not_isSome_iff_eq_none]

/-- A map that has lost the level at `best` and nothing else has fewer keys. -/
theorem keys_length_lt {levels next : Levels K} {best : K} (was : levels[best]?.isSome)
    (gone : next[best]? = none) (others : ∀ key : K, key ≠ best → next[key]? = levels[key]?) :
    next.keys.length < levels.keys.length := by
  have absent : best ∉ next.keys := by
    rw [Std.ExtTreeMap.mem_keys, Std.ExtTreeMap.mem_iff_isSome_getElem?, gone]
    simp
  have subset : best :: next.keys ⊆ levels.keys := by
    intro key member
    rw [Std.ExtTreeMap.mem_keys, Std.ExtTreeMap.mem_iff_isSome_getElem?]
    rcases List.mem_cons.mp member with rfl | member
    · exact was
    · have apart : key ≠ best := fun same => absent (same ▸ member)
      rwa [← others key apart, ← Std.ExtTreeMap.mem_iff_isSome_getElem?, ← Std.ExtTreeMap.mem_keys]
  have subperm := List.subperm_of_subset (List.nodup_cons.mpr ⟨absent, Std.ExtTreeMap.nodup_keys⟩) subset
  exact Nat.lt_of_succ_le subperm.length_le

end Levels

/-- The book of one company. Bids are kept under the reversed order of prices. -/
structure OrderBook where
  bids : Levels ℕᵒᵈ
  asks : Levels ℕ
  orders : ℕ → Option OrderRecord

namespace OrderBook

instance : Inhabited OrderBook := ⟨⟨∅, ∅, fun _ => none⟩⟩

def insertLimitOrder (book : OrderBook) (record : OrderRecord) : Except BookError OrderBook :=
  if (book.orders record.orderId).isSome then
    .error (.duplicateOrderId record.orderId)
  else
    let orders := Function.update book.orders record.orderId (some record)
    match record.side with
    | .buy => .ok { book with
        bids := book.bids.pushBack (OrderDual.toDual record.priceRay) record.orderId, orders }
    | .sell => .ok { book with asks := book.asks.pushBack record.priceRay record.orderId, orders }

def cancelOrder (book : OrderBook) (orderId : ℕ) : Except BookError OrderBook :=
  match book.orders orderId with
  | none => .error (.unknownOrder orderId)
  | some o =>
    let orders := Function.update book.orders orderId none
    match o.side with
    | .buy => .ok { book with
        bids := book.bids.remove (OrderDual.toDual o.priceRay) orderId, orders }
    | .sell => .ok { book with asks := book.asks.remove o.priceRay orderId, orders }

def bestAsk (book : OrderBook) : Option ℕ := book.asks.best

def bestBid (book : OrderBook) : Option ℕ := book.bids.best.map OrderDual.ofDual

end OrderBook

end Aide.Engine
