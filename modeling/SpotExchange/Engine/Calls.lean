import SpotExchange.Engine.Matching

namespace SpotExchange.Engine

open SpotExchange.Lib

/-!
# The book-keeping calls

`reset`, `add_passive_order`, `cancel_order` and `snapshot` of `engine.pyx`.
-/

/-! ### `reset` -/

/-- Clear the levels in use and forget them. -/
def OrderBookSide.reset (side : OrderBookSide) : OrderBookSide :=
  { side with
    levels := fun i => if i < side.size then (side.levels i).cleared else side.levels i
    size := 0 }

/-- `reset`: the memory stays as it is, only the counters go back to zero. -/
def reset (e : CMatchingEngine) : CMatchingEngine :=
  { e with bids := e.bids.reset, asks := e.asks.reset, nodePoolSize := 0, tradesCount := 0 }

/-! ### `add_passive_order` -/

/-- The arguments of `add_passive_order`. -/
structure PassiveOrder where
  orderId : OrderId
  side : CSide
  price : ℚ
  qty : ℚ
  isIceberg : Bool
  visibleQty : ℚ
  hiddenQty : ℚ
  deriving DecidableEq, Repr

/-- The node that `add_passive_order` fills in. -/
def PassiveOrder.node (o : PassiveOrder) : OrderNode where
  orderId := o.orderId
  remainingQty := o.qty
  visibleQty := if o.isIceberg then o.visibleQty else o.qty
  isIceberg := o.isIceberg
  next := none

/-- The level of `price` on a side, inserted if there is none yet. -/
def findOrInsertLevel (side : OrderBookSide) (price : ℚ) :
    Except EngineError (ℕ × OrderBookSide) :=
  match findLevelIdx side price with
  | .error err => .error err
  | .ok (some i) => .ok (i, side)
  | .ok none => .ok (insertLevel side price)

/-- `add_passive_order`.  The exhausted pool raises before `_alloc_node` could fail, so a call
    that returns returns `True`. -/
def addPassiveOrder (e : CMatchingEngine) (o : PassiveOrder) : Except EngineError CMatchingEngine :=
  if o.qty ≤ 0 then .error .valueError
  else if e.nodePoolSize + 1 > e.nodePoolCap then .error .memoryError
  else
    let node := e.nodePoolSize
    let pool := Function.update e.nodePool node o.node
    match findOrInsertLevel (e.bookSide o.side) o.price with
    | .error err => .error err
    | .ok (i, side) =>
        let (pool, lvl) := appendOrderToLevel pool (side.levels i) node
        let side := { side with levels := Function.update side.levels i lvl }
        .ok { e.setBookSide o.side side with nodePool := pool, nodePoolSize := e.nodePoolSize + 1 }

/-! ### `cancel_order` -/

/-- The locals of the search for the order; `found` is set by the `break`. -/
structure CancelWalk where
  pool : ℕ → OrderNode
  lvl : PriceLevel
  prev : Option ℕ
  cur : Option ℕ
  found : Bool

/-- `while cur != NULL`, left by `break` when the order is found. -/
def CancelWalk.running (w : CancelWalk) : Bool := w.cur.isSome && !w.found

/-- Unlink the order in slot `i`, behind `prev`. -/
def CancelWalk.unlink (w : CancelWalk) (i : ℕ) : CancelWalk :=
  let (pool, head) := match w.prev with
    | none => (w.pool, (w.pool i).next)
    | some p => (setNext w.pool p (w.pool i).next, w.lvl.head)
  { w with
    pool := pool
    lvl := { w.lvl with
             head := head
             tail := if w.lvl.tail = some i then w.prev else w.lvl.tail
             totalVolume := w.lvl.totalVolume - (w.pool i).remainingQty
             orderCount := w.lvl.orderCount - 1 }
    found := true }

/-- The body of the search: unlink the order if it is the one, else advance. -/
def CancelWalk.step (orderId : OrderId) (w : CancelWalk) : Option CancelWalk :=
  match w.cur with
  | none => some w
  | some i =>
      if (w.pool i).orderId = orderId then some (w.unlink i)
      else some { w with prev := some i, cur := (w.pool i).next }

/-- `cancel_order`: whether the order was found, and the engine afterwards. -/
def cancelOrder (e : CMatchingEngine) (orderId : OrderId) (side : CSide) (price : ℚ) :
    Except EngineError (Bool × CMatchingEngine) :=
  let book := e.bookSide side
  match findLevelIdx book price with
  | .error err => .error err
  | .ok none => .ok (false, e)
  | .ok (some i) =>
      match whileFuel CancelWalk.running (CancelWalk.step orderId) e.nodePoolSize
          { pool := e.nodePool, lvl := book.levels i, prev := none, cur := (book.levels i).head,
            found := false } with
      | none => .error .diverged
      | some w =>
          let book := { book with levels := Function.update book.levels i w.lvl }
          let book := if w.found then maybeCompactLevel book i else book
          .ok (w.found, { e.setBookSide side book with nodePool := w.pool })

/-! ### `snapshot` -/

/-- `snapshot`: the prices and volumes of the first `depth` levels. -/
def snapshot (e : CMatchingEngine) (side : CSide) (depth : ℕ) : List ℚ × List ℚ :=
  let book := e.bookSide side
  let top := slice book.levels (min book.size depth)
  (top.map PriceLevel.price, top.map PriceLevel.totalVolume)

end SpotExchange.Engine
