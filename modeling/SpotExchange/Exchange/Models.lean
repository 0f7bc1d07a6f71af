import SpotExchange.Engine.Types
import SpotExchange.Ledger.Row
import SpotExchange.Lib.SortedSet

namespace SpotExchange.Exchange

open SpotExchange.Engine (OrderId)
open SpotExchange.Ledger (BalanceError)

/-!
# The exchange's data

The enumerations and rows of `app/models`, the payloads of `queue:orders`, and the exceptions of
the services.  Decimals and floats are exact rationals; `x if x else None` is `orNone x`.
-/

/-- A row of `users`. -/
abbrev UserId := ℕ

/-- A market, e.g. `BTC/USDT`. -/
abbrev Symbol := String

/-- An asset, e.g. `USDT`. -/
abbrev Asset := String

/-- `OrderSide`. -/
inductive OrderSide
  | buy
  | sell
  deriving DecidableEq, Repr, Inhabited

/-- The other side. -/
def OrderSide.opposite : OrderSide → OrderSide
  | .buy => .sell
  | .sell => .buy

/-- `OrderType`. -/
inductive OrderType
  | market
  | limit
  | stopMarket
  | stopLimit
  | postOnly
  | ioc
  | fok
  | trailingStop
  | iceberg
  deriving DecidableEq, Repr, Inhabited

/-- `stop_market`, `stop_limit` and `trailing_stop` wait for a trigger. -/
def OrderType.isStop : OrderType → Bool
  | .stopMarket | .stopLimit | .trailingStop => true
  | _ => false

/-- The types whose remainder the worker leaves in the book. -/
def OrderType.rests : OrderType → Bool
  | .limit | .postOnly | .iceberg => true
  | _ => false

/-- `OrderStatus`. -/
inductive OrderStatus
  | pending
  | new
  | partiallyFilled
  | filled
  | canceled
  | rejected
  | expired
  deriving DecidableEq, Repr, Inhabited

/-- `is_active`. -/
def OrderStatus.isActive : OrderStatus → Bool
  | .new | .partiallyFilled | .pending => true
  | _ => false

/-- Nothing can happen to the order any more. -/
def OrderStatus.isTerminal : OrderStatus → Bool
  | .filled | .canceled | .rejected | .expired => true
  | _ => false

/-- `x if x else None`: zero counts as nothing. -/
def orNone (x : Option ℚ) : Option ℚ := x.filter fun q => q ≠ 0

/-! ### Rows -/

/-- A row of `trading_pairs`. -/
structure TradingPair where
  baseAsset : Asset
  quoteAsset : Asset
  minLotSize : ℚ
  maxLotSize : ℚ
  tickSize : ℚ
  isActive : Bool
  deriving DecidableEq, Repr

/-- A row of `orders`. -/
structure Order where
  userId : UserId
  symbol : Symbol
  side : OrderSide
  type : OrderType
  status : OrderStatus
  price : Option ℚ
  stopPrice : Option ℚ := none
  trailingDelta : Option ℚ := none
  quantity : ℚ
  filledQuantity : ℚ := 0
  filledQuoteQty : ℚ := 0
  visibleQuantity : Option ℚ := none
  hiddenQuantity : Option ℚ := none
  replaceCount : ℕ := 0
  replacesId : Option OrderId := none
  replacedById : Option OrderId := none
  parentOrderId : Option OrderId := none
  slOrderId : Option OrderId := none
  tpOrderId : Option OrderId := none
  version : ℤ := 1
  deriving DecidableEq, Repr

/-- `remaining_quantity`. -/
def Order.remainingQuantity (o : Order) : ℚ := o.quantity - o.filledQuantity

/-- A row of `trades`; fees are zero. -/
structure Trade where
  id : ℕ
  takerOrderId : OrderId
  makerOrderId : OrderId
  symbol : Symbol
  price : ℚ
  quantity : ℚ
  quoteQuantity : ℚ
  side : OrderSide
  takerUserId : UserId
  makerUserId : UserId
  deriving DecidableEq, Repr

/-! ### Queue payloads -/

/-- `OrderAction`. -/
inductive OrderAction
  | place
  | cancel
  | modify
  deriving DecidableEq, Repr

/-- `OrderActionPayload`: an item of `queue:orders`, as the worker parses it. -/
structure OrderActionPayload where
  action : OrderAction
  orderId : OrderId
  symbol : Symbol
  userId : UserId
  side : OrderSide
  type : OrderType
  price : Option ℚ := none
  quantity : ℚ := 0
  isIceberg : Bool := false
  visibleQty : Option ℚ := none
  hiddenQty : Option ℚ := none
  parentOrderId : Option OrderId := none
  replacesId : Option OrderId := none
  deriving DecidableEq, Repr

/-- `build_order_action_payload` and `OrderActionPayload.from_dict`: the iceberg fields are only
    sent for icebergs, and a zero among them is read as nothing. -/
def buildOrderActionPayload (p : OrderActionPayload) : OrderActionPayload :=
  { p with visibleQty := if p.isIceberg then orNone p.visibleQty else none
           hiddenQty := if p.isIceberg then orNone p.hiddenQty else none }

/-! ### Redis values -/

/-- The HASH `order:{id}`; a missing field and an empty one are `none`. -/
structure OrderHash where
  userId : Option UserId := none
  symbol : Option Symbol := none
  side : Option OrderSide := none
  type : Option OrderType := none
  status : Option OrderStatus := none
  price : Option ℚ := none
  stopPrice : Option ℚ := none
  quantity : Option ℚ := none
  filledQuantity : Option ℚ := none
  visibleQuantity : Option ℚ := none
  hiddenQuantity : Option ℚ := none
  isIceberg : Bool := false
  deriving DecidableEq, Repr

/-- The HASH `trailing_state:{order_id}`. -/
structure TrailingState where
  symbol : Symbol
  side : OrderSide
  deltaValue : ℚ
  currentExtreme : ℚ
  currentTrigger : ℚ
  deriving DecidableEq, Repr

/-- Why a balance has moved. -/
inductive BalanceReason
  | orderPlaced
  | marketBuyEstimate
  | orderModified
  | orderCanceled
  | marketBuyRefund
  | tradeSettled
  | tradeReceived
  | stopTriggered
  | orderRejected
  deriving DecidableEq, Repr

/-- An event on `pub:balances`: by how much the available balance has changed (`none` for zero),
    and for which order. -/
structure BalanceUpdate where
  userId : UserId
  asset : Asset
  change : Option ℚ
  reason : BalanceReason
  orderId : Option OrderId
  deriving DecidableEq, Repr

/-! ### Exceptions -/

/-- What the services and the worker raise, with the values their messages report. -/
inductive PyError
  /-- Of the balance service. -/
  | balance (err : BalanceError)
  /-- Of the matcher. -/
  | engine (err : Engine.EngineError)
  /-- `OrderValidationError("Trading pair … not found")` -/
  | pairNotFound (symbol : Symbol)
  /-- `OrderValidationError("Trading pair … is not active")` -/
  | pairNotActive (symbol : Symbol)
  /-- `OrderValidationError("quantity must be positive, got …")` -/
  | quantityNotPositive (quantity : ℚ)
  /-- `OrderValidationError("quantity … below min_lot_size …")` -/
  | quantityBelowMinLot (quantity minLotSize : ℚ)
  /-- `OrderValidationError("quantity … above max_lot_size …")` -/
  | quantityAboveMaxLot (quantity maxLotSize : ℚ)
  /-- `OrderValidationError("Order type … requires price")` -/
  | priceRequired (type : OrderType)
  /-- `OrderValidationError("price must be positive, got …")` -/
  | priceNotPositive (price : ℚ)
  /-- `OrderValidationError("Order type … requires stop_price")` -/
  | stopPriceRequired (type : OrderType)
  /-- `OrderValidationError("trailing_stop requires trailing_delta")` -/
  | trailingDeltaRequired
  /-- `OrderValidationError("iceberg requires visible_quantity and hidden_quantity")` -/
  | icebergPartsRequired
  /-- `OrderValidationError("iceberg: visible(…) + hidden(…) != quantity(…)")` -/
  | icebergPartsMismatch (visible hidden quantity : ℚ)
  /-- `OrderValidationError("iceberg visible_quantity must be positive")` -/
  | icebergVisibleNotPositive
  /-- `OrderValidationError("price … not a multiple of tick_size …")` -/
  | priceOffTick (price tickSize : ℚ)
  /-- `OrderValidationError("Cannot place MARKET BUY on …: no asks available")` -/
  | noAsks (symbol : Symbol)
  /-- `OrderValidationError("Cannot place MARKET BUY …: insufficient ask volume in the order book")` -/
  | insufficientAskVolume (quantity : ℚ) (symbol : Symbol)
  /-- `OrderNotFoundError("Order … not found for user …")` -/
  | orderNotFound (orderId : OrderId) (userId : UserId)
  /-- `OrderNotCancelableError("Order … is in status … — cannot cancel")` -/
  | orderNotCancelable (orderId : OrderId) (status : OrderStatus)
  /-- `OrderNotCancelableError("Order … is in status … — cannot modify")` -/
  | orderNotModifiable (orderId : OrderId) (status : OrderStatus)
  /-- `OrderNotCancelableError("Cannot modify order type … (only limit/post_only/iceberg)")` -/
  | typeNotModifiable (type : OrderType)
  /-- `OrderValidationError("new price must be positive, got …")` -/
  | newPriceNotPositive (price : ℚ)
  /-- `OrderValidationError("new quantity must be positive, got …")` -/
  | newQuantityNotPositive (quantity : ℚ)
  /-- `OrderValidationError("new quantity … below min_lot_size …")` -/
  | newQuantityBelowMinLot (quantity minLotSize : ℚ)
  /-- `assert pair is not None` -/
  | assertionError
  /-- The `IntegrityError` of a trade without its orders or users. -/
  | tradeForeignKey (makerOrderId : OrderId)
  /-- `ValueError("quantity must be positive, got …")` of `build_corder`. -/
  | takerQuantityNotPositive (quantity : ℚ)
  /-- `ValueError("iceberg visible_qty must be positive, got …")` -/
  | takerVisibleNotPositive (visible : Option ℚ)
  /-- `ValueError("iceberg hidden_qty must be non-negative, got …")` -/
  | takerHiddenNegative (hidden : Option ℚ)
  /-- `ValueError("iceberg invariant violated: …")` -/
  | takerPartsMismatch (visible hidden : Option ℚ) (quantity : ℚ)
  /-- `ValueError("price must be non-negative, got …")` of `encode_score`. -/
  | scorePriceNegative (price : ℚ)
  /-- `ValueError("price … too large for score encoding …")` -/
  | scorePriceTooLarge (price : ℚ)
  /-- `ValueError("seq must be in …, got …")` -/
  | scoreSeqOutOfRange (seq : ℕ)
  deriving DecidableEq, Repr

/-- `if p: raise e`. -/
def raiseIf (p : Prop) [Decidable p] (e : PyError) : Except PyError Unit :=
  if p then .error e else .ok ()

end SpotExchange.Exchange
