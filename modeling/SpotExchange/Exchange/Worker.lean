import SpotExchange.Exchange.Trades
import SpotExchange.Engine.Calls

namespace SpotExchange.Exchange

open SpotExchange.Lib
open SpotExchange.Engine (OrderId CSide CType CMatchOutcome COrder PassiveOrder MatchResult
  TradeResult)

/-!
# The matching worker

`MatchingWorker.process_action` with `_bridge.py`: the book of the opposite side is loaded into
the engine, the order is matched, the trades are persisted in one transaction, and what is left
of the order is left in the book or its unused lock refunded.
-/

/-! ### The bridge -/

/-- `to_c_side`. -/
def toCSide : OrderSide → CSide
  | .buy => .buy
  | .sell => .sell

/-- `to_c_type`. -/
def toCType : OrderType → CType
  | .market => .market
  | .limit => .limit
  | .ioc => .ioc
  | .fok => .fok
  | .postOnly => .postOnly
  | .iceberg => .limit
  | .stopMarket => .market
  | .stopLimit => .limit
  | .trailingStop => .market

/-- `math.isclose(a, b, rel_tol=1e-9, abs_tol=1e-12)`. -/
def isClose (a b : ℚ) : Bool :=
  decide (|a - b| ≤ max (1 / 1000000000 * max |a| |b|) (1 / 1000000000000))

/-- The checks of `build_corder` on an iceberg; a missing part is `NaN`, which fails the last. -/
def checkParts (visible hidden : Option ℚ) (quantity : ℚ) : Except PyError Unit :=
  if visible.any fun v => v ≤ 0 then .error (.takerVisibleNotPositive visible)
  else if hidden.any fun h => h < 0 then .error (.takerHiddenNegative hidden)
  else
    match visible, hidden with
    | some v, some h =>
        if v + h = quantity ∨ isClose (v + h) quantity = true then .ok ()
        else .error (.takerPartsMismatch visible hidden quantity)
    | _, _ => .error (.takerPartsMismatch visible hidden quantity)

/-- The `COrder` that `build_corder` fills in. -/
def takerOrder (payload : OrderActionPayload) : COrder where
  orderId := payload.orderId
  side := toCSide payload.side
  type := toCType payload.type
  price := payload.price
  quantity := payload.quantity
  remainingQty := payload.quantity
  isIceberg := payload.isIceberg
  visibleQty := if payload.isIceberg then payload.visibleQty.getD 0 else payload.quantity
  hiddenQty := if payload.isIceberg then payload.hiddenQty.getD 0 else 0

/-- `build_corder`. -/
def buildCorder (payload : OrderActionPayload) : Except PyError COrder :=
  if payload.quantity ≤ 0 then .error (.takerQuantityNotPositive payload.quantity)
  else
    match if payload.isIceberg then
        checkParts payload.visibleQty payload.hiddenQty payload.quantity else .ok () with
    | .error err => .error err
    | .ok () => .ok (takerOrder payload)

/-- `is_outcome_reject`. -/
def isOutcomeReject : CMatchOutcome → Bool
  | .ok => false
  | .fokRejected | .postOnlyCross | .noLiquidity => true

/-! ### Matching -/

/-- The arguments of `add_passive_order`; whatever is not a sell order counts as a buy order. -/
def BookOrder.passive (o : BookOrder) : PassiveOrder where
  orderId := o.orderId
  side := if o.side = some .sell then .sell else .buy
  price := o.price
  qty := o.loadedQuantity
  isIceberg := o.isIceberg
  visibleQty := o.visibleQuantity
  hiddenQty := o.hiddenQuantity

/-- Load one maker. -/
def loadMaker (o : BookOrder) : M Unit := do
  let engine ← Prog.read Store.engine
  let engine ← Prog.ofExcept ((Engine.addPassiveOrder engine o.passive).mapError .engine)
  Prog.modify fun s => { s with engine := engine }

/-- How many makers are loaded. -/
def makerLimit : ℕ := 1000

/-- The first steps of `_handle_place`: load the makers, build the taker and match. -/
def matchPlaced (payload : OrderActionPayload) : M MatchResult := do
  let makers ← Prog.read fun s =>
    oppositeOrdersForMatch s.redis payload.symbol payload.side makerLimit
  Prog.modify fun s => { s with engine := Engine.reset s.engine }
  Prog.forEach makers loadMaker
  let corder ← Prog.ofExcept (buildCorder payload)
  let engine ← Prog.read Store.engine
  let (result, engine) ← Prog.ofExcept ((Engine.matchActiveOrder engine corder).mapError .engine)
  Prog.modify fun s => { s with engine := engine }
  return result

/-! ### Persisting -/

/-- `trade_dict_to_domain`, with the maker's user from its HASH. -/
def domainTrade (r : Redis) (payload : OrderActionPayload) (t : TradeResult) : DomainTrade where
  takerOrderId := t.takerOrderId
  makerOrderId := t.makerOrderId
  symbol := payload.symbol
  price := t.price
  quantity := t.quantity
  quoteQuantity := t.price * t.quantity
  side := if t.takerSide = .buy then .buy else .sell
  makerUserId := ((r.orderHash t.makerOrderId).bind OrderHash.userId).getD 0

/-- The arguments that the worker calls `persist_trade_batch` with. -/
def batchArgs (payload : OrderActionPayload) (pair : TradingPair) : BatchArgs where
  takerUserId := payload.userId
  takerOrderId := payload.orderId
  takerSide := payload.side
  symbol := payload.symbol
  baseAsset := pair.baseAsset
  quoteAsset := pair.quoteAsset

/-- Persist the trades of a match; `false` if there is no such pair. -/
def persistMatch (payload : OrderActionPayload) (trades : List TradeResult) : M Bool := do
  match ← getPair payload.symbol with
  | none => return false
  | some pair => do
      let enriched ← Prog.read fun s => trades.map (domainTrade s.redis payload)
      let _ ← persistTradeBatch (batchArgs payload pair) enriched
      return true

/-- The transaction of `_handle_place`, if there are trades. -/
def persistTrades (payload : OrderActionPayload) (trades : List TradeResult) : M Bool :=
  if trades = [] then return true else transaction (persistMatch payload trades)

/-! ### What is left of the order -/

/-- The HASH that `_insert_resting_taker` stores, over the fields that are there. -/
def restingHash (payload : OrderActionPayload) (remaining : ℚ) (h : OrderHash) : OrderHash :=
  { h with
    userId := some payload.userId
    symbol := some payload.symbol
    side := some payload.side
    type := some payload.type
    price := orNone payload.price
    quantity := some payload.quantity
    visibleQuantity := if payload.isIceberg then payload.visibleQty else some remaining
    hiddenQuantity := if payload.isIceberg then payload.hiddenQty else none
    isIceberg := payload.isIceberg }

/-- `_insert_resting_taker`. -/
def insertRestingTaker (payload : OrderActionPayload) (remaining : ℚ) : M Unit := do
  onRedis (hset payload.orderId (restingHash payload remaining))
  let _ ← addRestingOrder payload.orderId payload.symbol payload.side (payload.price.getD 0)
  onRedis (addOpenOrder payload.userId payload.symbol payload.orderId)

/-- The transaction of `_refund_market_buy_leftover`. -/
def refundLeftover (payload : OrderActionPayload) : M Unit := do
  let pair ← getPair payload.symbol
  Prog.whenSome pair fun pair => do
    let balance ← getBalanceForUpdate payload.userId pair.quoteAsset
    Prog.whenSome balance fun balance => do
      let leftover ← lockedBalance balance
      Prog.whenever (0 < leftover)
        (unlockPessimistic balance leftover .marketBuyRefund (some payload.orderId))

/-- `_refund_market_buy_leftover`. -/
def refundMarketBuyLeftover (payload : OrderActionPayload) : M Unit :=
  transaction (refundLeftover payload)

/-- The buy orders that `_handle_place` refunds when they do not rest. -/
def refunds (payload : OrderActionPayload) (remaining : ℚ) : Bool :=
  payload.side = .buy && (payload.type = .market ||
    (decide (remaining = 0) && (payload.type = .limit || payload.type = .stopLimit)))

/-- The last steps of `_handle_place`. -/
def finishPlaced (payload : OrderActionPayload) (remaining : ℚ) : M Unit :=
  if 0 < remaining ∧ payload.type.rests = true then insertRestingTaker payload remaining
  else if refunds payload remaining = true then refundMarketBuyLeftover payload
  else pure ()

/-- **`_handle_place`.** -/
def handlePlace (payload : OrderActionPayload) : M MatchResult := do
  let result ← matchPlaced payload
  Prog.whenever (isOutcomeReject result.outcome = false) do
    let persisted ← persistTrades payload result.trades
    Prog.whenever (persisted = true) (finishPlaced payload result.remainingQty)
  return result

/-- `process_action`: `_handle_cancel` and `_handle_modify` only acknowledge. -/
def processAction (payload : OrderActionPayload) : M Unit :=
  Prog.whenever (payload.action = .place) do
    let _ ← handlePlace payload
    return ()

end SpotExchange.Exchange
