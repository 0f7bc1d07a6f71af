import SpotExchange.Exchange.Store
import Mathlib.Data.Rat.Floor
import Mathlib.Data.Finset.Erase
import Mathlib.Data.String.Basic

namespace SpotExchange.Exchange

open SpotExchange.Lib
open SpotExchange.Engine (OrderId)

/-!
# The Redis client

`redis_client/orderbook.py`, `queues.py`, `orders_index.py` and the registration calls of
`stops.py`.  A score is a `double` in Redis and an exact rational here.
-/

/-- The sort key of a member: Redis compares members as strings. -/
def memberKey (id : OrderId) : String := toString id

theorem memberKey_injective : Function.Injective memberKey := by
  intro id id' h
  have hdigits : Nat.toDigits 10 id = Nat.toDigits 10 id' := by
    rw [← Nat.toList_repr, ← Nat.toList_repr]
    exact congrArg String.toList h
  have hvalue := congrArg (fun digits => Nat.ofDigitChars 10 digits 0) hdigits
  simpa only [Nat.ofDigitChars_ten_toDigits] using hvalue

/-! ### Scores -/

/-- `PRICE_SCALE` -/
def priceScale : ℕ := 10000

/-- `SCORE_MULTIPLIER` -/
def scoreMultiplier : ℕ := 1000000

/-- `round(x)`: to the nearest integer, halves to the even one. -/
def roundHalfEven (x : ℚ) : ℤ :=
  let n := ⌊x⌋
  if x - n < 1 / 2 then n
  else if 1 / 2 < x - n then n + 1
  else if n % 2 = 0 then n else n + 1

/-- `encode_score`. -/
def encodeScore (price : ℚ) (seq : ℕ) : Except PyError ℚ :=
  if price < 0 then .error (.scorePriceNegative price)
  else if price > 9200000000 then .error (.scorePriceTooLarge price)
  else if ¬ seq < scoreMultiplier then .error (.scoreSeqOutOfRange seq)
  else .ok (roundHalfEven (price * priceScale) * scoreMultiplier + seq)

/-- `decode_score`: the price and the sequence number. -/
def decodeScore (score : ℚ) : ℚ × ℤ :=
  let s := roundHalfEven score
  let priceInt := s / scoreMultiplier
  (priceInt / priceScale, s - priceInt * scoreMultiplier)

/-! ### The HASH of an order -/

/-- `HSET` of an order's HASH: a missing key counts as a HASH without fields. -/
def hset (orderId : OrderId) (fields : OrderHash → OrderHash) (r : Redis) : Redis :=
  { r with orderHash :=
      Function.update r.orderHash orderId (some (fields ((r.orderHash orderId).getD {}))) }

/-- `delete_order_hash`. -/
def deleteOrderHash (orderId : OrderId) (r : Redis) : Redis :=
  { r with orderHash := Function.update r.orderHash orderId none }

/-! ### Resting orders -/

/-- Write one ZSET of the book. -/
def Redis.setBook (r : Redis) (symbol : Symbol) (side : OrderSide) (z : SortedSet OrderId) : Redis :=
  { r with book := Function.update r.book symbol (Function.update (r.book symbol) side z) }

/-- `add_resting_order`: the sequence number is taken before the score is checked. -/
def addRestingOrder (orderId : OrderId) (symbol : Symbol) (side : OrderSide) (price : ℚ) : M ℕ := do
  onRedis fun r => { r with seq := Function.update r.seq symbol (r.seq symbol + 1) }
  let n ← Prog.read fun s => s.redis.seq symbol % scoreMultiplier
  let score ← Prog.ofExcept (encodeScore price n)
  onRedis fun r => r.setBook symbol side ((r.book symbol side).zadd memberKey score orderId)
  return n

/-- `remove_resting_order`: `ZREM` by the member alone. -/
def removeRestingOrder (orderId : OrderId) (symbol : Symbol) (side : OrderSide) (r : Redis) : Redis :=
  r.setBook symbol side ((r.book symbol side).zrem orderId)

/-- An order as the matcher is given it. -/
structure BookOrder where
  orderId : OrderId
  side : Option OrderSide
  price : ℚ
  quantity : ℚ
  visibleQuantity : ℚ
  hiddenQuantity : ℚ
  isIceberg : Bool
  deriving DecidableEq, Repr

/-- A ZSET element with its HASH. -/
def bookOrder (x : ℚ × OrderId) (h : OrderHash) : BookOrder where
  orderId := x.2
  side := h.side
  price := (decodeScore x.1).1
  quantity := h.quantity.getD 0
  visibleQuantity := (h.visibleQuantity.or h.quantity).getD 0
  hiddenQuantity := h.hiddenQuantity.getD 0
  isIceberg := h.isIceberg

/-- `get_opposite_orders_for_match`: the best `limit` elements, asks by `ZRANGE`, bids by
    `ZREVRANGE`; elements without a HASH are passed over. -/
def oppositeOrdersForMatch (r : Redis) (symbol : Symbol) (takerSide : OrderSide) (limit : ℕ) :
    List BookOrder :=
  let z := r.book symbol takerSide.opposite
  let raw := match takerSide with
    | .buy => z.take limit
    | .sell => z.reverse.take limit
  raw.filterMap fun x => (r.orderHash x.2).map (bookOrder x)

/-- What the matcher fills a resting order with: the visible part of an iceberg. -/
def BookOrder.loadedQuantity (o : BookOrder) : ℚ :=
  if o.isIceberg then o.visibleQuantity else o.quantity

/-! ### The queue -/

/-- `enqueue_order_action` of the payload that `build_order_action_payload` makes. -/
def enqueueOrderAction (payload : OrderActionPayload) (r : Redis) : Redis :=
  { r with ordersQueue := r.ordersQueue ++ [buildOrderActionPayload payload] }

/-! ### The index of open orders -/

/-- `add_open_order`. -/
def addOpenOrder (userId : UserId) (symbol : Symbol) (orderId : OrderId) (r : Redis) : Redis :=
  { r with
    userOpenOrders := Function.update r.userOpenOrders userId
      (insert orderId (r.userOpenOrders userId))
    userOpenOrdersBySymbol := Function.update r.userOpenOrdersBySymbol userId
      (Function.update (r.userOpenOrdersBySymbol userId) symbol
        (insert orderId (r.userOpenOrdersBySymbol userId symbol)))
    symbolOpenOrders := Function.update r.symbolOpenOrders symbol
      (insert orderId (r.symbolOpenOrders symbol)) }

/-- `remove_open_order`. -/
def removeOpenOrder (userId : UserId) (symbol : Symbol) (orderId : OrderId) (r : Redis) : Redis :=
  { r with
    userOpenOrders := Function.update r.userOpenOrders userId
      ((r.userOpenOrders userId).erase orderId)
    userOpenOrdersBySymbol := Function.update r.userOpenOrdersBySymbol userId
      (Function.update (r.userOpenOrdersBySymbol userId) symbol
        ((r.userOpenOrdersBySymbol userId symbol).erase orderId))
    symbolOpenOrders := Function.update r.symbolOpenOrders symbol
      ((r.symbolOpenOrders symbol).erase orderId) }

/-! ### Stops -/

/-- `add_stop_order`. -/
def addStopOrder (orderId : OrderId) (symbol : Symbol) (stopPrice : ℚ) (r : Redis) : Redis :=
  { r with
    stops := Function.update r.stops symbol
      ((r.stops symbol).zadd memberKey (stopPrice * scoreMultiplier) orderId) }

/-- `remove_stop_order`. -/
def removeStopOrder (orderId : OrderId) (symbol : Symbol) (r : Redis) : Redis :=
  { r with stops := Function.update r.stops symbol ((r.stops symbol).zrem orderId) }

/-- `register_trailing_stop`, with an absolute delta. -/
def registerTrailingStop (orderId : OrderId) (state : TrailingState) (r : Redis) : Redis :=
  { r with
    trailing := Function.update r.trailing state.symbol ((r.trailing state.symbol).zadd memberKey
      (state.currentTrigger * scoreMultiplier) orderId)
    trailingState := Function.update r.trailingState orderId (some state) }

/-- `remove_trailing_stop`. -/
def removeTrailingStop (orderId : OrderId) (symbol : Symbol) (r : Redis) : Redis :=
  { r with trailing := Function.update r.trailing symbol ((r.trailing symbol).zrem orderId)
           trailingState := Function.update r.trailingState orderId none }

end SpotExchange.Exchange
