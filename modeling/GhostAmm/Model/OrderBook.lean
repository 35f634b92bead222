/-
The order book (`market/orderbook.py`).

A side is a dictionary from price to amount.  `applySnapshot` and `applyDelta`
return the book they leave together with what `float` raised, if it did: a payload
with a malformed entry leaves the entries before it applied.
-/
import GhostAmm.Model.Events

namespace GhostAmm

/-- One side of a book: `dict[float, float]`, price to amount. -/
abbrev Levels := Py.Table (Prod.fst : ℚ × ℚ → ℚ)

structure OrderBook where
  bids : Levels := Py.Table.empty
  asks : Levels := Py.Table.empty
  lastSequence : Option ℤ := none
  lastTs : Option ℚ := none
  stale : Bool := true
  staleReason : Option String := some "no_snapshot"
  deriving DecidableEq

/-- The levels a snapshot keeps.  The amount is parsed first, and a level that is
filtered out never has its price parsed. -/
def parseSnapshot : List (Scalar × Scalar) → Except Py.Error (List (ℚ × ℚ))
  | [] => .ok []
  | (price, amount) :: rest => do
      let amount ← amount.float
      if 0 < amount then
        let price ← price.float
        let more ← parseSnapshot rest
        return (price, amount) :: more
      else parseSnapshot rest

/-- `_set_level`. -/
def setLevel (side : Levels) (price amount : ℚ) : Levels :=
  if amount = 0 then side.erase price else side.put (price, amount)

/-- The loop of `apply_delta` over one side. -/
def setLevels (side : Levels) : List (Scalar × Scalar) → Levels × Except Py.Error Unit
  | [] => (side, .ok ())
  | (price, amount) :: rest =>
      match price.float, amount.float with
      | .error e, _ => (side, .error e)
      | .ok _, .error e => (side, .error e)
      | .ok p, .ok a => setLevels (setLevel side p a) rest

namespace OrderBook

def applySnapshot (book : OrderBook) (payload : BookPayload) (sequence : Sequence) (ts : ℚ) :
    OrderBook × Except Py.Error Unit :=
  match parseSnapshot payload.bids with
  | .error e => (book, .error e)
  | .ok bids =>
      match parseSnapshot payload.asks with
      | .error e => ({ book with bids := Py.Table.ofList bids }, .error e)
      | .ok asks =>
          ({ bids := Py.Table.ofList bids, asks := Py.Table.ofList asks,
             lastSequence := sequence.toInt, lastTs := some ts,
             stale := false, staleReason := none }, .ok ())

/-- `seq is not None and self.last_sequence is not None and seq <= self.last_sequence`. -/
def outOfOrder (book : OrderBook) (seq : Option ℤ) : Bool :=
  match seq, book.lastSequence with
  | some s, some l => decide (s ≤ l)
  | _, _ => false

def applyDelta (book : OrderBook) (payload : BookPayload) (sequence : Sequence) (ts : ℚ) :
    OrderBook × Except Py.Error Unit :=
  let seq := sequence.toInt
  if book.stale then (book, .ok ())
  else if book.outOfOrder seq then
    ({ book with stale := true, staleReason := some "sequence_not_monotonic" }, .ok ())
  else
    match setLevels book.bids payload.bids with
    | (bids, .error e) => ({ book with bids := bids }, .error e)
    | (bids, .ok ()) =>
        match setLevels book.asks payload.asks with
        | (asks, .error e) => ({ book with bids := bids, asks := asks }, .error e)
        | (asks, .ok ()) =>
            ({ book with bids := bids, asks := asks,
                         lastSequence := seq.or book.lastSequence,
                         lastTs := some ts }, .ok ())

def applyEvent (book : OrderBook) (event : Event) : OrderBook × Except Py.Error Unit :=
  match event.body with
  | .orderBookSnapshot payload => book.applySnapshot payload event.sequence event.tsExchange
  | .orderBookDelta payload => book.applyDelta payload event.sequence event.tsExchange
  | _ => (book, .ok ())

def bestBid (book : OrderBook) : Option ℚ := (book.bids.rows.map Prod.fst).max?

def bestAsk (book : OrderBook) : Option ℚ := (book.asks.rows.map Prod.fst).min?

def mid (book : OrderBook) : Option ℚ :=
  match book.bestBid, book.bestAsk with
  | some bid, some ask => if ask ≤ bid then none else some ((bid + ask) / 2)
  | _, _ => none

def spreadBps (book : OrderBook) : Option ℚ :=
  match book.bestBid, book.bestAsk with
  | some bid, some ask =>
      let mid := (bid + ask) / 2
      if mid ≤ 0 then none else some ((ask - bid) / mid * 10000)
  | _, _ => none

def depthAroundMid (book : OrderBook) (bps : ℚ) : ℚ :=
  match book.mid with
  | none => 0
  | some mid =>
      let bidFloor := mid * (1 - bps / 10000)
      let askCeiling := mid * (1 + bps / 10000)
      let bidNotional :=
        ((book.bids.rows.filter fun l => decide (bidFloor ≤ l.1)).map fun l => l.1 * l.2).sum
      let askNotional :=
        ((book.asks.rows.filter fun l => decide (l.1 ≤ askCeiling)).map fun l => l.1 * l.2).sum
      bidNotional + askNotional

def queueAt (book : OrderBook) (side : Side) (price : ℚ) : ℚ :=
  let levels := match side with
    | .buy => book.bids
    | .sell => book.asks
  ((levels.get? price).map Prod.snd).getD 0

end OrderBook

end GhostAmm
