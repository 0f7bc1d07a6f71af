import Mathlib.Algebra.Order.Ring.Rat
import SpotExchange.Lib.CArray

namespace SpotExchange.Engine

/-!
# The matcher's data types

The C enums and structs of `engine.pxd`.  Prices and quantities (`double` in the source) are
exact rationals; a taker's missing price (`NaN`) is `none`.  A pointer into the node pool is
the index of its slot, `NULL` is `none`, and the pool, the level arrays and the trade buffer
are blocks of memory `ℕ → _` of which a counter says how much is in use.
-/

/-- The identifier of an order (a row of `orders`; `int64_t` in the structs). -/
abbrev OrderId := ℕ

/-- `CSide`. -/
inductive CSide
  | buy
  | sell
  deriving DecidableEq, Repr, Inhabited

/-- `CType`. -/
inductive CType
  | market
  | limit
  | ioc
  | fok
  | postOnly
  deriving DecidableEq, Repr, Inhabited

/-- `CMatchOutcome`. -/
inductive CMatchOutcome
  | ok
  | fokRejected
  | postOnlyCross
  | noLiquidity
  deriving DecidableEq, Repr, Inhabited

/-- The side a taker is matched against. -/
def CSide.opp : CSide → CSide
  | .buy => .sell
  | .sell => .buy

/-- One order at a price level, a node of a singly linked list. -/
structure OrderNode where
  orderId : OrderId
  /-- What is left to fill, the hidden part of an iceberg included. -/
  remainingQty : ℚ
  /-- The part exposed in the book. -/
  visibleQty : ℚ
  isIceberg : Bool
  /-- The next younger order at this price. -/
  next : Option ℕ
  deriving DecidableEq, Repr, Inhabited

/-- A price bucket: the linked list of its orders, oldest first, with its cached totals. -/
structure PriceLevel where
  price : ℚ
  head : Option ℕ
  tail : Option ℕ
  totalVolume : ℚ
  orderCount : ℤ
  deriving DecidableEq, Repr, Inhabited

/-- The price levels of one side, sorted with the best price at index 0. -/
structure OrderBookSide where
  levels : ℕ → PriceLevel
  size : ℕ
  capacity : ℕ
  /-- Bids are sorted by descending price, asks by ascending price. -/
  isDescending : Bool

/-- An incoming order. -/
structure COrder where
  orderId : OrderId
  side : CSide
  type : CType
  /-- `none` is `NaN`: no limit. -/
  price : Option ℚ
  quantity : ℚ
  remainingQty : ℚ
  isIceberg : Bool
  visibleQty : ℚ
  hiddenQty : ℚ
  deriving DecidableEq, Repr

/-- One execution between the taker and a maker, at the maker's price. -/
structure TradeResult where
  takerOrderId : OrderId
  makerOrderId : OrderId
  price : ℚ
  quantity : ℚ
  takerSide : CSide
  deriving DecidableEq, Repr, Inhabited

/-- The engine object: two sides, the node pool and the trade buffer. -/
structure CMatchingEngine where
  bids : OrderBookSide
  asks : OrderBookSide
  nodePool : ℕ → OrderNode
  nodePoolSize : ℕ
  nodePoolCap : ℕ
  tradesBuf : ℕ → TradeResult
  tradesCount : ℕ
  tradesCap : ℕ

/-- The ways in which an engine call does not return: an invalid argument, an exhausted node
    pool, or a loop that has not left within the bound it runs under. -/
inductive EngineError
  | valueError
  | memoryError
  | diverged
  deriving DecidableEq, Repr

namespace CMatchingEngine

/-- `&self._bids if side == C_BUY else &self._asks`. -/
def bookSide (e : CMatchingEngine) : CSide → OrderBookSide
  | .buy => e.bids
  | .sell => e.asks

/-- Write back one side. -/
def setBookSide (e : CMatchingEngine) : CSide → OrderBookSide → CMatchingEngine
  | .buy, b => { e with bids := b }
  | .sell, b => { e with asks := b }

end CMatchingEngine

/-- `INITIAL_NODE_POOL_CAP` -/
def initialNodePoolCap : ℕ := 100000

/-- `INITIAL_TRADES_CAP` -/
def initialTradesCap : ℕ := 1024

/-- `INITIAL_LEVELS_CAP` -/
def initialLevelsCap : ℕ := 1024

/-- `GROWTH_FACTOR` -/
def growthFactor : ℕ := 2

/-- `CMatchingEngine.__cinit__`: zeroed memory, nothing in use. -/
def CMatchingEngine.new : CMatchingEngine where
  bids := { levels := fun _ => default, size := 0, capacity := initialLevelsCap,
            isDescending := true }
  asks := { levels := fun _ => default, size := 0, capacity := initialLevelsCap,
            isDescending := false }
  nodePool := fun _ => default
  nodePoolSize := 0
  nodePoolCap := initialNodePoolCap
  tradesBuf := fun _ => default
  tradesCount := 0
  tradesCap := initialTradesCap

end SpotExchange.Engine
