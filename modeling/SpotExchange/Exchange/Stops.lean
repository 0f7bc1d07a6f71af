import SpotExchange.Exchange.Orders

namespace SpotExchange.Exchange

open SpotExchange.Lib
open SpotExchange.Engine (OrderId)

/-!
# The stop monitor

`redis_client/stops.py` and `StopMonitorService`.  A trade print moves the triggers of trailing
stops, selects stops by the scores of their ZSETs, and triggers what it has selected; the start of
the monitor selects from the table.  Deltas of trailing stops are absolute.
-/

/-! ### Selection -/

/-- `zrangebyscore(key, 0, x) + zrangebyscore(key, x, "+inf")`, without duplicates. -/
def aroundScore (z : SortedSet OrderId) (x : ℚ) : List OrderId :=
  ((z.filter fun e => 0 ≤ e.1 ∧ e.1 ≤ x) ++ z.filter fun e => x ≤ e.1).map Prod.snd |>.eraseDups

/-- `get_all_triggered_stops`. -/
def getAllTriggeredStops (r : Redis) (symbol : Symbol) (lastTradePrice : ℚ) : List OrderId :=
  aroundScore (r.stops symbol) (lastTradePrice * scoreMultiplier)

/-- `get_triggered_trailing_stops`. -/
def getTriggeredTrailingStops (r : Redis) (symbol : Symbol) (lastTradePrice : ℚ) : List OrderId :=
  aroundScore (r.trailing symbol) (lastTradePrice * scoreMultiplier)

/-! ### Trailing triggers -/

/-- The extreme and the trigger of a trailing stop after a new high or low, if they move. -/
def TrailingState.moved (state : TrailingState) (newHigh newLow : Option ℚ) : Option (ℚ × ℚ) :=
  match state.side with
  | .sell => (newHigh.filter fun h => h > state.currentExtreme).map fun h => (h, h - state.deltaValue)
  | .buy => (newLow.filter fun l => l < state.currentExtreme).map fun l => (l, l + state.deltaValue)

/-- The pass of `update_trailing_extremes` over one member. -/
def updateTrailing (symbol : Symbol) (newHigh newLow : Option ℚ) (r : Redis) (orderId : OrderId) :
    Redis :=
  match r.trailingState orderId with
  | none => r
  | some state =>
      match state.moved newHigh newLow with
      | none => r
      | some (extreme, trigger) =>
          { r with
            trailing := Function.update r.trailing symbol
              ((r.trailing symbol).zadd memberKey (trigger * scoreMultiplier) orderId)
            trailingState := Function.update r.trailingState orderId
              (some { state with currentExtreme := extreme, currentTrigger := trigger }) }

/-- `update_trailing_extremes`. -/
def updateTrailingExtremes (symbol : Symbol) (newHigh newLow : Option ℚ) (r : Redis) : Redis :=
  (r.trailing symbol).members.foldl (updateTrailing symbol newHigh newLow) r

/-! ### Triggering -/

/-- The type and the price of the order that a triggered stop becomes. -/
def childTerms (order : Order) : OrderType × Option ℚ :=
  match order.type with
  | .stopMarket | .trailingStop => (.market, none)
  | _ => (.limit, order.price)

/-- What is locked for it; nothing if the asks cannot fill a market buy. -/
def triggerLock (order : Order) (pair : TradingPair) (asks : List BookOrder) : Option (Asset × ℚ) :=
  match order.side, childTerms order with
  | .sell, _ => some (pair.baseAsset, order.quantity)
  | .buy, (.limit, some price) => some (pair.quoteAsset, price * order.quantity)
  | .buy, _ =>
      let (remaining, cost) := walkAsks order.quantity 0 asks
      if asks = [] ∨ 0 < remaining then none else some (pair.quoteAsset, cost * (1001 / 1000))

/-- The row of the order that a triggered stop becomes. -/
def triggeredChild (stopId : OrderId) (order : Order) : Order where
  userId := order.userId
  symbol := order.symbol
  side := order.side
  type := (childTerms order).1
  status := .new
  price := (childTerms order).2
  quantity := order.quantity
  parentOrderId := some stopId

/-- The action that is enqueued for it. -/
def triggeredPayload (stopId childId : OrderId) (child : Order) : OrderActionPayload where
  action := .place
  orderId := childId
  symbol := child.symbol
  userId := child.userId
  side := child.side
  type := child.type
  price := orNone child.price
  quantity := child.quantity
  parentOrderId := some stopId

/-- The HASH of the order that a triggered stop becomes. -/
def triggeredHash (child : Order) (h : OrderHash) : OrderHash :=
  { h with
    userId := some child.userId
    symbol := some child.symbol
    side := some child.side
    type := some child.type
    price := orNone child.price
    quantity := some child.quantity
    isIceberg := false }

/-- The Redis updates of `_trigger_stop_order`. -/
def replaceStop (stopId : OrderId) (isTrailing : Bool) (childId : OrderId) (child : Order)
    (r : Redis) : Redis :=
  let r := enqueueOrderAction (triggeredPayload stopId childId child) r
  let r := hset childId (triggeredHash child) (addOpenOrder child.userId child.symbol childId r)
  if isTrailing then removeTrailingStop stopId child.symbol r
  else removeStopOrder stopId child.symbol r

/-- `try: lock_optimistic(…) except Exception: return`. -/
def tryLock (order : Order) (orderId : OrderId) (lock : Asset × ℚ) : M Bool :=
  Prog.tryExcept
    (do lockOptimistic (order.userId, lock.1) lock.2 .stopTriggered (some orderId)
        return true)
    fun _ => return false

/-- What follows the lock: the stop is done, its child is placed. -/
def placeTriggered (orderId : OrderId) (order : Order) (isTrailing : Bool) : M Unit := do
  onDatabase fun db =>
    db.setOrder orderId { order with status := .filled, version := order.version + 1 }
  let childId ← insertOrder (triggeredChild orderId order)
  onRedis (replaceStop orderId isTrailing childId (triggeredChild orderId order))

/-- The body of `_trigger_stop_order` for a pending order of a market that exists. -/
def triggerPending (orderId : OrderId) (order : Order) (pair : TradingPair) (isTrailing : Bool) :
    M Unit := do
  let asks ← Prog.read fun s => oppositeOrdersForMatch s.redis order.symbol .buy askLimit
  Prog.whenSome (triggerLock order pair asks) fun lock => do
    let locked ← tryLock order orderId lock
    Prog.whenever (locked = true) (placeTriggered orderId order isTrailing)

/-- **`_trigger_stop_order`.** -/
def triggerStopOrder (orderId : OrderId) (isTrailing : Bool) : M Unit :=
  transaction do
    let order ← getOrder orderId
    Prog.whenSome order fun order =>
      Prog.whenever (order.status = .pending) do
        let pair ← getPair order.symbol
        Prog.whenSome pair fun pair => triggerPending orderId order pair isTrailing

/-- `try: await self._trigger_stop_order(…) except Exception: log`. -/
def tryTrigger (isTrailing : Bool) (orderId : OrderId) : M Unit :=
  Prog.tryExcept (triggerStopOrder orderId isTrailing) fun _ => return ()

/-! ### A trade print -/

/-- The state of the monitor: the local extremes. -/
structure StopMonitor where
  localHigh : Symbol → Option ℚ
  localLow : Symbol → Option ℚ

/-- The price, if it is a new high. -/
def StopMonitor.newHigh (m : StopMonitor) (symbol : Symbol) (price : ℚ) : Option ℚ :=
  if ∀ high ∈ m.localHigh symbol, high < price then some price else none

/-- The price, if it is a new low. -/
def StopMonitor.newLow (m : StopMonitor) (symbol : Symbol) (price : ℚ) : Option ℚ :=
  if ∀ low ∈ m.localLow symbol, price < low then some price else none

/-- The monitor after a price. -/
def StopMonitor.observe (m : StopMonitor) (symbol : Symbol) (price : ℚ) : StopMonitor where
  localHigh := Function.update m.localHigh symbol
    ((m.newHigh symbol price).or (m.localHigh symbol))
  localLow := Function.update m.localLow symbol ((m.newLow symbol price).or (m.localLow symbol))

/-- The trailing update of a trade print: a zero extreme is read as nothing. -/
def trailingUpdate (m : StopMonitor) (symbol : Symbol) (price : ℚ) (r : Redis) : Redis :=
  if (m.newHigh symbol price).isSome ∨ (m.newLow symbol price).isSome then
    updateTrailingExtremes symbol (orNone (m.newHigh symbol price)) (orNone (m.newLow symbol price)) r
  else r

/-- **`_process_trade_print`**: the monitor afterwards, and the orders that were passed to
    `_trigger_stop_order`. -/
def processTradePrint (m : StopMonitor) (symbol : Symbol) (price : ℚ) :
    M (StopMonitor × List OrderId) := do
  onRedis (trailingUpdate m symbol price)
  let plain ← Prog.read fun s => getAllTriggeredStops s.redis symbol price
  Prog.forEach plain (tryTrigger false)
  let trailing ← Prog.read fun s => getTriggeredTrailingStops s.redis symbol price
  Prog.forEach trailing (tryTrigger true)
  return (m.observe symbol price, plain ++ trailing)

/-! ### The rescan -/

/-- `should_trigger` of `_rescan_pending_stops`; a zero stop price counts as none. -/
def shouldTrigger (order : Order) (lastPrice : ℚ) : Bool :=
  (orNone order.stopPrice).any fun stop =>
    match order.side with
    | .sell => decide (lastPrice ≤ stop)
    | .buy => decide (lastPrice ≥ stop)

/-- The orders that `_rescan_pending_stops` selects for a symbol. -/
def rescanSelected (db : Database) (orderIdSeq : OrderId) (symbol : Symbol) (lastPrice : ℚ) :
    List OrderId :=
  (List.range orderIdSeq).filter fun id =>
    (db.orders id).any fun order =>
      decide (order.symbol = symbol) && order.type.isStop && decide (order.status = .pending) &&
        shouldTrigger order lastPrice

end SpotExchange.Exchange
