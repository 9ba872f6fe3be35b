import Aide.Engine.OrderBook
import Mathlib.Logic.Equiv.Defs

namespace Aide.Engine

structure Fill where
  companyId : ℕ
  makerOrderId : ℕ
  takerOrderId : ℕ
  buyer : Address
  seller : Address
  vstkAmount : ℕ
  aitNotional : ℕ
  deriving DecidableEq

inductive MatchError
  | book (error : BookError)
  | matchingPaused
  deriving DecidableEq

/-- The two `expect`s of the matching loops, and a loop that outlives its fuel. -/
inductive Fault
  | level
  | order
  | outOfFuel
  deriving DecidableEq

/-- `(qty * price_ray) / 10^18`, where the product of two `U256` wraps. -/
def mulDivRay (qty priceRay : ℕ) : ℕ := qty * priceRay % 2 ^ 256 / 10 ^ 18

/-- The variables that the matching loops mutate: one side of the book, the orders of the book,
the incoming order and the fills so far. -/
structure Matching (K : Type) [LinearOrder K] where
  levels : Levels K
  orders : ℕ → Option OrderRecord
  incoming : OrderRecord
  fills : List Fill

namespace Matching
variable {K : Type} [LinearOrder K]

/-- The trade of `qty` between the incoming order and the resting order `mo`. -/
def fill (incoming mo : OrderRecord) (oid price qty : ℕ) : Fill where
  companyId := incoming.companyId
  makerOrderId := oid
  takerOrderId := incoming.orderId
  buyer := if incoming.side = .buy then incoming.maker else mo.maker
  seller := if incoming.side = .buy then mo.maker else incoming.maker
  vstkAmount := qty
  aitNotional := mulDivRay qty price

/-- `if q.front() == Some(&oid) { q.pop_front() } else { q.retain(|&x| x != oid) }`. -/
def popOrder (queue : List ℕ) (oid : ℕ) : List ℕ :=
  if queue.head? = some oid then queue.tail else queue.filter (· != oid)

/-- The incoming order trades with the resting order `mo`, whose id is in the level at `best`. -/
def trade (key : ℕ ≃ K) (best : K) (queue : List ℕ) (oid : ℕ) (mo : OrderRecord)
    (s : Matching K) : Matching K :=
  let qty := min s.incoming.remaining mo.remaining
  let filled := mo.remaining - qty = 0
  { levels := if filled then s.levels.insert best (popOrder queue oid) else s.levels
    orders := Function.update s.orders oid
      (if filled then none else some { mo with remaining := mo.remaining - qty })
    incoming := { s.incoming with remaining := s.incoming.remaining - qty }
    fills := s.fills ++ [fill s.incoming mo oid (key.symm best) qty] }

/-- One pass of the inner loop over the level at `best`, and whether the loop goes on. -/
def tradeFront (key : ℕ ≃ K) (best : K) (s : Matching K) : Except Fault (Bool × Matching K) :=
  match s.levels[best]? with
  | none => .error .level
  | some [] => .ok (false, { s with levels := s.levels.erase best })
  | some (oid :: queue) =>
    if s.incoming.remaining = 0 then
      .ok (false, s)
    else
      match s.orders oid with
      | none => .error .order
      | some mo =>
        let next := s.trade key best (oid :: queue) oid mo
        .ok (next.incoming.remaining ≠ 0, next)

/-- The inner loop. -/
def tradeLevel (key : ℕ ≃ K) (best : K) : ℕ → Matching K → Except Fault (Matching K)
  | 0, _ => .error .outOfFuel
  | fuel + 1, s =>
    match s.tradeFront key best with
    | .error fault => .error fault
    | .ok (false, next) => .ok next
    | .ok (true, next) => tradeLevel key best fuel next

/-- `if levels.get(&best).map(|q| q.is_empty()).unwrap_or(true) { levels.remove(&best); }`. -/
def dropEmpty (best : K) (s : Matching K) : Matching K :=
  if (s.levels[best]?.map List.isEmpty).getD true then { s with levels := s.levels.erase best } else s

/-- The outer loop. A level at `best` is out of reach when it comes after the limit of the
incoming order in the order of the side. -/
def tradeSide (key : ℕ ≃ K) : ℕ → Matching K → Except Fault (Matching K)
  | 0, _ => .error .outOfFuel
  | fuel + 1, s =>
    match s.levels.best with
    | none => .ok s
    | some best =>
      if key s.incoming.priceRay < best then
        .ok s
      else
        match tradeLevel key best ((s.levels[best]?.getD []).length + 1) s with
        | .error fault => .error fault
        | .ok traded =>
          let next := traded.dropEmpty best
          if next.incoming.remaining = 0 then .ok next else tradeSide key fuel next

end Matching

/-- The keys of both sides: asks in the order of prices, bids in the reversed order. -/
def askKey : ℕ ≃ ℕ := Equiv.refl ℕ

def bidKey : ℕ ≃ ℕᵒᵈ := OrderDual.toDual

def matchBuy (book : OrderBook) (incoming : OrderRecord) :
    Except Fault (OrderBook × OrderRecord × List Fill) := do
  let s ← Matching.tradeSide askKey (book.asks.keys.length + 1)
    { levels := book.asks, orders := book.orders, incoming, fills := [] }
  pure ({ book with asks := s.levels, orders := s.orders }, s.incoming, s.fills)

def matchSell (book : OrderBook) (incoming : OrderRecord) :
    Except Fault (OrderBook × OrderRecord × List Fill) := do
  let s ← Matching.tradeSide bidKey (book.bids.keys.length + 1)
    { levels := book.bids, orders := book.orders, incoming, fills := [] }
  pure ({ book with bids := s.levels, orders := s.orders }, s.incoming, s.fills)

def matchIncoming (book : OrderBook) (incoming : OrderRecord) :
    Except Fault (OrderBook × OrderRecord × List Fill) :=
  match incoming.side with
  | .buy => matchBuy book incoming
  | .sell => matchSell book incoming

/-- The books of all companies. A company without a book reads as an empty one. -/
structure MatchEngine where
  books : ℕ → OrderBook
  matchingPaused : Bool
  taxRateBps : ℕ

namespace MatchEngine

def new : MatchEngine where
  books _ := default
  matchingPaused := false
  taxRateBps := 0

def setBook (engine : MatchEngine) (companyId : ℕ) (book : OrderBook) : MatchEngine :=
  { engine with books := Function.update engine.books companyId book }

abbrev Verdict := Except MatchError (List Fill)

def ingestChainOrder (engine : MatchEngine) (record : OrderRecord) : Verdict × MatchEngine :=
  match (engine.books record.companyId).insertLimitOrder record with
  | .error e => (.error (.book e), engine)
  | .ok book => (.ok [], engine.setBook record.companyId book)

def ingestCancel (engine : MatchEngine) (companyId orderId : ℕ) : Verdict × MatchEngine :=
  match (engine.books companyId).cancelOrder orderId with
  | .error e => (.error (.book e), engine)
  | .ok book => (.ok [], engine.setBook companyId book)

/-- The book keeps the trades even where the rest of the order cannot be inserted. -/
def limitOrderPlacement (engine : MatchEngine) (incoming : OrderRecord) :
    Except Fault (Verdict × MatchEngine) :=
  if engine.matchingPaused then
    .ok (.error .matchingPaused, engine)
  else do
    let (book, incoming, fills) ← matchIncoming (engine.books incoming.companyId) incoming
    if 0 < incoming.remaining then
      match book.insertLimitOrder incoming with
      | .error e => pure (.error (.book e), engine.setBook incoming.companyId book)
      | .ok book => pure (.ok fills, engine.setBook incoming.companyId book)
    else
      pure (.ok fills, engine.setBook incoming.companyId book)

inductive Call
  | ingestChainOrder (record : OrderRecord)
  | ingestCancel (companyId orderId : ℕ)
  | limitOrderPlacement (incoming : OrderRecord)
  | pauseMatching
  | resumeMatching

def exec (engine : MatchEngine) : Call → Except Fault (Verdict × MatchEngine)
  | .ingestChainOrder record => .ok (engine.ingestChainOrder record)
  | .ingestCancel companyId orderId => .ok (engine.ingestCancel companyId orderId)
  | .limitOrderPlacement incoming => engine.limitOrderPlacement incoming
  | .pauseMatching => .ok (.ok [], { engine with matchingPaused := true })
  | .resumeMatching => .ok (.ok [], { engine with matchingPaused := false })

/-- The verdicts of a list of calls and the engine they leave behind. -/
def run (engine : MatchEngine) : List Call → Except Fault (List Verdict × MatchEngine)
  | [] => .ok ([], engine)
  | call :: rest => do
    let (verdict, next) ← engine.exec call
    let (verdicts, final) ← run next rest
    pure (verdict :: verdicts, final)

end MatchEngine

end Aide.Engine
