import SpotExchange.Exchange.Balances
import SpotExchange.Exchange.RedisClient

namespace SpotExchange.Exchange

open SpotExchange.Lib
open SpotExchange.Engine (OrderId)

/-!
# The trade service

`TradeService.persist_trade_batch` and what it calls.  The trades of a match are inserted, each
maker is updated and settled once with the sum of its fills, then the taker.
-/

/-- A trade as the worker hands it over: `trade_dict_to_domain` with the maker's user. -/
structure DomainTrade where
  takerOrderId : OrderId
  makerOrderId : OrderId
  symbol : Symbol
  price : ℚ
  quantity : ℚ
  quoteQuantity : ℚ
  side : OrderSide
  makerUserId : UserId
  deriving DecidableEq, Repr

/-! ### Fill deltas -/

/-- An entry of `maker_fill_deltas`. -/
structure FillDelta where
  makerId : OrderId
  qty : ℚ
  quoteQty : ℚ
  deriving DecidableEq, Repr

/-- Accumulate a fill; a new maker comes last. -/
def addFillDelta (makerId : OrderId) (qty quoteQty : ℚ) : List FillDelta → List FillDelta
  | [] => [{ makerId := makerId, qty := qty, quoteQty := quoteQty }]
  | d :: ds =>
      if d.makerId = makerId then { d with qty := d.qty + qty, quoteQty := d.quoteQty + quoteQty } :: ds
      else d :: addFillDelta makerId qty quoteQty ds

/-- `maker_fill_deltas`. -/
def makerFillDeltas (trades : List DomainTrade) : List FillDelta :=
  trades.foldl (fun ds t => addFillDelta t.makerOrderId t.quantity (t.price * t.quantity) ds) []

/-- `taker_total_qty` -/
def takerTotalQty (trades : List DomainTrade) : ℚ := (trades.map DomainTrade.quantity).sum

/-- `taker_total_quote` -/
def takerTotalQuote (trades : List DomainTrade) : ℚ :=
  (trades.map fun t => t.price * t.quantity).sum

/-! ### The rows of `trades` -/

/-- The arguments of `persist_trade_batch` besides the trades. -/
structure BatchArgs where
  takerUserId : UserId
  takerOrderId : OrderId
  takerSide : OrderSide
  symbol : Symbol
  baseAsset : Asset
  quoteAsset : Asset
  deriving DecidableEq, Repr

/-- The foreign keys of a trade: its orders, its market and its users. -/
def Database.tradeRefs (db : Database) (args : BatchArgs) (t : DomainTrade) : Bool :=
  (db.orders args.takerOrderId).isSome && (db.orders t.makerOrderId).isSome &&
    (db.tradingPairs args.symbol).isSome && decide (args.takerUserId ∈ db.users) &&
    decide (t.makerUserId ∈ db.users)

/-- The row of a trade. -/
def tradeRow (args : BatchArgs) (id : ℕ) (t : DomainTrade) : Trade where
  id := id
  takerOrderId := args.takerOrderId
  makerOrderId := t.makerOrderId
  symbol := args.symbol
  price := t.price
  quantity := t.quantity
  quoteQuantity := t.price * t.quantity
  side := args.takerSide
  takerUserId := args.takerUserId
  makerUserId := t.makerUserId

/-- Insert one trade. -/
def insertTrade (args : BatchArgs) (t : DomainTrade) : M Unit := do
  let refs ← Prog.read fun s => s.pg.tradeRefs args t
  Prog.require (refs = true) (.tradeForeignKey t.makerOrderId)
  Prog.modify fun s =>
    { s with pg := { s.pg with trades := s.pg.trades ++ [tradeRow args s.tradeIdSeq t] }
             tradeIdSeq := s.tradeIdSeq + 1 }

/-- Set `maker_user_id` of the trades with a maker, among those inserted since `first`. -/
def setMakerUserId (first : ℕ) (makerId : OrderId) (userId : UserId) : M Unit :=
  onDatabase fun db =>
    { db with trades := db.trades.map fun t =>
        if first ≤ t.id ∧ t.makerOrderId = makerId then { t with makerUserId := userId } else t }

/-! ### Balances -/

/-- Settle what a party pays, then credit what it receives; a missing row is passed over. -/
def settleParty (userId : UserId) (orderId : OrderId) (paid received : Asset)
    (paidAmount receivedAmount : ℚ) : M Unit := do
  let paidBal ← getBalanceForUpdate userId paid
  let receivedBal ← getBalanceForUpdate userId received
  Prog.whenSome paidBal fun bal =>
    settlePessimistic bal paidAmount .tradeSettled (some orderId)
  Prog.whenSome receivedBal fun bal =>
    creditPessimistic bal receivedAmount .tradeReceived (some orderId)

/-- `_settle_trade_balances`, for the taker or for a maker. -/
def settleTradeBalances (args : BatchArgs) (isTaker : Bool) (userId : UserId) (orderId : OrderId)
    (qty quoteQty : ℚ) : M Unit :=
  match isTaker, args.takerSide with
  | true, .buy => settleParty userId orderId args.quoteAsset args.baseAsset quoteQty qty
  | true, .sell => settleParty userId orderId args.baseAsset args.quoteAsset qty quoteQty
  | false, .buy => settleParty userId orderId args.baseAsset args.quoteAsset qty quoteQty
  | false, .sell => settleParty userId orderId args.quoteAsset args.baseAsset quoteQty qty

/-! ### Makers -/

/-- A maker after its fills. -/
def Order.filledAsMaker (o : Order) (qty quoteQty : ℚ) : Order :=
  { o with
    filledQuantity := o.filledQuantity + qty
    filledQuoteQty := o.filledQuoteQty + quoteQty
    version := o.version + 1
    status := if o.filledQuantity + qty ≥ o.quantity then .filled else .partiallyFilled }

/-- `_update_redis_maker`. -/
def updateRedisMaker (makerId : OrderId) (maker : Order) (r : Redis) : Redis :=
  if maker.status = .filled then
    removeOpenOrder maker.userId maker.symbol makerId
      (deleteOrderHash makerId (removeRestingOrder makerId maker.symbol maker.side r))
  else
    hset makerId (fun h =>
      { h with
        filledQuantity := some maker.filledQuantity
        visibleQuantity := some maker.remainingQuantity
        quantity := some maker.remainingQuantity
        status := some maker.status }) r

/-- The body of the loop over `maker_fill_deltas`. -/
def settleMaker (args : BatchArgs) (first : ℕ) (d : FillDelta) : M Unit := do
  let order ← getOrder d.makerId
  Prog.whenSome order fun order => do
    let maker := order.filledAsMaker d.qty d.quoteQty
    onDatabase fun db => db.setOrder d.makerId maker
    setMakerUserId first d.makerId maker.userId
    settleTradeBalances args false maker.userId d.makerId d.qty d.quoteQty
    onRedis (updateRedisMaker d.makerId maker)

/-! ### The taker -/

/-- The taker after its fills. -/
def Order.filledAsTaker (o : Order) (qty quoteQty : ℚ) : Order :=
  { o with
    filledQuantity := o.filledQuantity + qty
    filledQuoteQty := o.filledQuoteQty + quoteQty
    version := o.version + 1
    status :=
      if o.filledQuantity + qty ≥ o.quantity then .filled
      else if 0 < o.filledQuantity + qty then .partiallyFilled
      else o.status }

/-- The action that `_activate_sltp_children` enqueues. -/
def childPayload (parentId childId : OrderId) (child : Order) : OrderActionPayload where
  action := .place
  orderId := childId
  symbol := child.symbol
  userId := child.userId
  side := child.side
  type := child.type
  price := orNone child.price
  quantity := child.quantity
  parentOrderId := some parentId

/-- Activate one child, if it is pending. -/
def activateChild (parentId childId : OrderId) : M Unit := do
  let child ← getOrder childId
  Prog.whenSome child fun child =>
    Prog.whenever (child.status = .pending) do
      updateStatus childId .new
      onRedis (enqueueOrderAction (childPayload parentId childId child))

/-- `_activate_sltp_children`. -/
def activateSltpChildren (parentId : OrderId) : M Unit := do
  let children ← listChildrenByParent parentId
  Prog.forEach children (activateChild parentId)

/-- The taker's part of `persist_trade_batch`. -/
def settleTaker (args : BatchArgs) (qty quoteQty : ℚ) : M Unit := do
  let order ← getOrder args.takerOrderId
  Prog.whenSome order fun order => do
    let taker := order.filledAsTaker qty quoteQty
    onDatabase fun db => db.setOrder args.takerOrderId taker
    settleTradeBalances args true taker.userId args.takerOrderId qty quoteQty
    Prog.whenever (taker.status = .filled) (activateSltpChildren args.takerOrderId)

/-! ### The batch -/

/-- **`persist_trade_batch`**: the inserted rows. -/
def persistTradeBatch (args : BatchArgs) (trades : List DomainTrade) : M (List Trade) :=
  if trades = [] then pure []
  else do
    let first ← Prog.read Store.tradeIdSeq
    Prog.forEach trades (insertTrade args)
    Prog.forEach (makerFillDeltas trades) (settleMaker args first)
    settleTaker args (takerTotalQty trades) (takerTotalQuote trades)
    Prog.read fun s => s.pg.trades.filter fun t => first ≤ t.id

end SpotExchange.Exchange
