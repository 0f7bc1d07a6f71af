import SpotExchange.Exchange.Balances
import SpotExchange.Exchange.RedisClient
import Mathlib.Data.List.Sort

namespace SpotExchange.Exchange

open SpotExchange.Lib
open SpotExchange.Engine (OrderId)

/-!
# The order service

`OrderService.place_order`, `place_bulk_orders`, `cancel_order` and `modify_order`.  Each runs in the
transaction of its caller.
-/

/-- `SLTPConfig`. -/
structure SltpConfig where
  type : OrderType
  stopPrice : Option ℚ := none
  price : Option ℚ := none
  quantity : Option ℚ := none
  deriving DecidableEq, Repr

/-- `OrderCreateDTO`. -/
structure OrderCreateDto where
  symbol : Symbol
  side : OrderSide
  type : OrderType
  price : Option ℚ := none
  stopPrice : Option ℚ := none
  trailingDelta : Option ℚ := none
  quantity : ℚ
  visibleQuantity : Option ℚ := none
  hiddenQuantity : Option ℚ := none
  sl : Option SltpConfig := none
  tp : Option SltpConfig := none
  deriving DecidableEq, Repr

/-! ### Validation -/

/-- `_validate_and_get_pair`. -/
def validateAndGetPair (symbol : Symbol) : M TradingPair := do
  match ← getPair symbol with
  | none => Prog.raise (.pairNotFound symbol)
  | some pair => if pair.isActive = true then return pair else Prog.raise (.pairNotActive symbol)

/-- The types that need a price. -/
def OrderType.needsPrice : OrderType → Bool
  | .limit | .postOnly | .ioc | .fok | .iceberg | .stopLimit => true
  | _ => false

/-- The checks on an iceberg. -/
def validateIceberg (dto : OrderCreateDto) : Except PyError Unit :=
  if dto.type ≠ .iceberg then .ok ()
  else
    match dto.visibleQuantity, dto.hiddenQuantity with
    | some v, some h =>
        if v + h ≠ dto.quantity then .error (.icebergPartsMismatch v h dto.quantity)
        else if v ≤ 0 then .error .icebergVisibleNotPositive
        else .ok ()
    | _, _ => .error .icebergPartsRequired

/-- `x % y` of positive decimals. -/
def decimalMod (x y : ℚ) : ℚ := x - y * ⌊x / y⌋

/-- `_validate_params`. -/
def validateParams (dto : OrderCreateDto) (pair : TradingPair) : Except PyError Unit := do
  raiseIf (dto.quantity ≤ 0) (.quantityNotPositive dto.quantity)
  raiseIf (dto.quantity < pair.minLotSize) (.quantityBelowMinLot dto.quantity pair.minLotSize)
  raiseIf (dto.quantity > pair.maxLotSize) (.quantityAboveMaxLot dto.quantity pair.maxLotSize)
  raiseIf (dto.type.needsPrice = true ∧ dto.price = none) (.priceRequired dto.type)
  raiseIf (∃ p ∈ dto.price, p ≤ 0) (.priceNotPositive (dto.price.getD 0))
  raiseIf ((dto.type = .stopMarket ∨ dto.type = .stopLimit) ∧ dto.stopPrice = none)
    (.stopPriceRequired dto.type)
  raiseIf (dto.type = .trailingStop ∧ dto.trailingDelta = none) .trailingDeltaRequired
  validateIceberg dto
  raiseIf (0 < pair.tickSize ∧ ∃ p ∈ dto.price, decimalMod p pair.tickSize ≠ 0)
    (.priceOffTick (dto.price.getD 0) pair.tickSize)

theorem raiseIf_bind_eq_ok {p : Prop} [Decidable p] {e : PyError} {α : Type}
    {f : Unit → Except PyError α} {a : α} : (raiseIf p e >>= f) = .ok a ↔ ¬ p ∧ f () = .ok a := by
  unfold raiseIf
  by_cases h : p
  · simp [h, bind, Except.bind]
  · simp [h, bind, Except.bind]

/-- **What an accepted order satisfies.** -/
structure ValidOrder (dto : OrderCreateDto) (pair : TradingPair) : Prop where
  quantity_pos : 0 < dto.quantity
  quantity_ge : pair.minLotSize ≤ dto.quantity
  quantity_le : dto.quantity ≤ pair.maxLotSize
  price_isSome : dto.type.needsPrice = true → dto.price ≠ none
  price_pos : ∀ p ∈ dto.price, 0 < p
  stopPrice_isSome : dto.type = .stopMarket ∨ dto.type = .stopLimit → dto.stopPrice ≠ none
  trailingDelta_isSome : dto.type = .trailingStop → dto.trailingDelta ≠ none
  iceberg : validateIceberg dto = .ok ()
  onTick : 0 < pair.tickSize → ∀ p ∈ dto.price, decimalMod p pair.tickSize = 0

theorem validOrder_of_ok {dto : OrderCreateDto} {pair : TradingPair}
    (h : validateParams dto pair = .ok ()) : ValidOrder dto pair := by
  simp only [validateParams, raiseIf_bind_eq_ok] at h
  obtain ⟨hpos, hmin, hmax, hprice, hppos, hstop, htrail, h⟩ := h
  -- each check that did not raise leaves its field, in the order of the source
  cases hice : validateIceberg dto with
  | error err =>
    rw [hice] at h
    exact absurd h (by simp [bind, Except.bind])
  | ok u =>
    rw [hice] at h
    have htick : raiseIf (0 < pair.tickSize ∧ ∃ p ∈ dto.price, decimalMod p pair.tickSize ≠ 0)
        (.priceOffTick (dto.price.getD 0) pair.tickSize) = .ok () := h
    unfold raiseIf at htick
    split_ifs at htick with hgrid
    exact
      { quantity_pos := not_le.mp hpos
        quantity_ge := not_lt.mp hmin
        quantity_le := not_lt.mp hmax
        price_isSome := fun hneeds hnone => hprice ⟨hneeds, hnone⟩
        price_pos := fun p hp => by
          by_contra hle
          exact hppos ⟨p, hp, not_lt.mp hle⟩
        stopPrice_isSome := fun htype hnone => hstop ⟨htype, hnone⟩
        trailingDelta_isSome := fun htype hnone => htrail ⟨htype, hnone⟩
        iceberg := hice
        onTick := fun ht p hp => by
          by_contra hne
          exact hgrid ⟨ht, p, hp, hne⟩ }

/-! ### The lock -/

/-- `_compute_lock_asset_and_amount`. -/
def computeLockAssetAndAmount (dto : OrderCreateDto) (pair : TradingPair) : Asset × ℚ :=
  if dto.type.isStop then ("", 0)
  else
    match dto.side, dto.type with
    | .sell, _ => (pair.baseAsset, dto.quantity)
    | .buy, .market => (pair.quoteAsset, 0)
    | .buy, _ => (pair.quoteAsset, dto.price.getD 0 * dto.quantity)

/-- The walk along the asks: what is left to buy, and the cost so far. -/
def walkAsks : ℚ → ℚ → List BookOrder → ℚ × ℚ
  | remaining, cost, [] => (remaining, cost)
  | remaining, cost, ask :: asks =>
      if remaining ≤ 0 then (remaining, cost)
      else
        let fillQty := min remaining ask.loadedQuantity
        walkAsks (remaining - fillQty) (cost + ask.price * fillQty) asks

/-- How many asks the lock of a market buy looks at. -/
def askLimit : ℕ := 1000

/-- `_compute_market_buy_lock`. -/
def computeMarketBuyLock (dto : OrderCreateDto) (pair : TradingPair) : M (Asset × ℚ) := do
  let asks ← Prog.read fun s => oppositeOrdersForMatch s.redis dto.symbol .buy askLimit
  if asks = [] then Prog.raise (.noAsks dto.symbol)
  else
    let (remaining, cost) := walkAsks dto.quantity 0 asks
    if 0 < remaining then Prog.raise (.insufficientAskVolume dto.quantity dto.symbol)
    else return (pair.quoteAsset, cost * (1001 / 1000))

/-- What `place_order` locks. -/
def computeLock (dto : OrderCreateDto) (pair : TradingPair) : M (Asset × ℚ) :=
  if dto.type.isStop then return ("", 0)
  else if dto.type = .market ∧ dto.side = .buy then computeMarketBuyLock dto pair
  else return computeLockAssetAndAmount dto pair

/-- Take the lock. -/
def lockFunds (userId : UserId) (dto : OrderCreateDto) (lock : Asset × ℚ) : M Unit :=
  Prog.whenever (dto.type.isStop = false ∧ 0 < lock.2)
    (lockOptimistic (userId, lock.1) lock.2
      (if dto.type = .market ∧ dto.side = .buy then .marketBuyEstimate else .orderPlaced) none)

/-! ### Placement -/

/-- The row of a new order. -/
def newOrder (userId : UserId) (dto : OrderCreateDto) : Order where
  userId := userId
  symbol := dto.symbol
  side := dto.side
  type := dto.type
  status := if dto.type.isStop then .pending else .new
  price := dto.price
  stopPrice := dto.stopPrice
  trailingDelta := dto.trailingDelta
  quantity := dto.quantity
  visibleQuantity := if dto.type = .iceberg then dto.visibleQuantity else some dto.quantity
  hiddenQuantity := if dto.type = .iceberg then dto.hiddenQuantity else none

/-- The row of a SL or TP child. -/
def sltpChild (parentId : OrderId) (parent : Order) (config : SltpConfig) : Order where
  userId := parent.userId
  symbol := parent.symbol
  side := parent.side.opposite
  type := config.type
  status := .pending
  price := config.price
  stopPrice := config.stopPrice
  quantity := config.quantity.getD parent.quantity
  parentOrderId := some parentId

/-- `_create_sltp_child`, and the link from the parent. -/
def createSltpChild (parentId : OrderId) (parent : Order) (config : Option SltpConfig)
    (link : OrderId → Order → Order) : M Unit :=
  Prog.whenSome config fun config => do
    let childId ← insertOrder (sltpChild parentId parent config)
    updateOrder parentId (link childId)

/-- The placement that is enqueued for an order. -/
def placePayload (orderId : OrderId) (order : Order) : OrderActionPayload where
  action := .place
  orderId := orderId
  symbol := order.symbol
  userId := order.userId
  side := order.side
  type := order.type
  price := orNone order.price
  quantity := order.quantity
  isIceberg := order.type = .iceberg
  visibleQty := orNone order.visibleQuantity
  hiddenQty := orNone order.hiddenQuantity

/-- The HASH that placement stores. -/
def placedHash (order : Order) (h : OrderHash) : OrderHash :=
  { h with
    userId := some order.userId
    symbol := some order.symbol
    side := some order.side
    type := some order.type
    price := orNone order.price
    quantity := some order.quantity
    visibleQuantity := orNone order.visibleQuantity
    hiddenQuantity := orNone order.hiddenQuantity
    isIceberg := order.type = .iceberg }

/-- Hand an order over to the worker. -/
def enqueuePlaced (orderId : OrderId) (order : Order) (r : Redis) : Redis :=
  hset orderId (placedHash order)
    (addOpenOrder order.userId order.symbol orderId
      (enqueueOrderAction (placePayload orderId order) r))

/-- The HASH that a stop order gets. -/
def stopHash (order : Order) (h : OrderHash) : OrderHash :=
  { h with
    userId := some order.userId
    symbol := some order.symbol
    side := some order.side
    type := some order.type
    stopPrice := orNone order.stopPrice
    quantity := some order.quantity
    isIceberg := false }

/-- `_register_stop_order`. -/
def registerStopOrder (orderId : OrderId) (order : Order) (r : Redis) : Redis :=
  let r :=
    if order.type = .trailingStop then
      registerTrailingStop orderId
        { symbol := order.symbol, side := order.side,
          deltaValue := order.trailingDelta.getD 0,
          currentExtreme := order.stopPrice.getD 0,
          currentTrigger := order.stopPrice.getD 0 } r
    else addStopOrder orderId order.symbol (order.stopPrice.getD 0) r
  hset orderId (stopHash order) (addOpenOrder order.userId order.symbol orderId r)

/-- **`place_order`**: the id of the new order. -/
def placeOrder (userId : UserId) (dto : OrderCreateDto) : M OrderId := do
  let pair ← validateAndGetPair dto.symbol
  Prog.ofExcept (validateParams dto pair)
  let lock ← computeLock dto pair
  lockFunds userId dto lock
  let order := newOrder userId dto
  let orderId ← insertOrder order
  createSltpChild orderId order dto.sl fun childId o => { o with slOrderId := some childId }
  createSltpChild orderId order dto.tp fun childId o => { o with tpOrderId := some childId }
  onRedis (if dto.type.isStop then registerStopOrder orderId order else enqueuePlaced orderId order)
  return orderId

/-! ### Bulk placement -/

/-- Validate an order of a bulk and compute its lock. -/
def validateBulkOrder (dto : OrderCreateDto) : M (OrderCreateDto × (Asset × ℚ)) := do
  let pair ← validateAndGetPair dto.symbol
  Prog.ofExcept (validateParams dto pair)
  let lock ← computeLock dto pair
  return (dto, lock)

/-- `validated`. -/
def validateBulk : List OrderCreateDto → M (List (OrderCreateDto × (Asset × ℚ)))
  | [] => return []
  | dto :: dtos => do
      let first ← validateBulkOrder dto
      let others ← validateBulk dtos
      return first :: others

/-- Add to the requirement of an asset; a new asset comes last. -/
def addRequirement (asset : Asset) (amount : ℚ) : List (Asset × ℚ) → List (Asset × ℚ)
  | [] => [(asset, amount)]
  | x :: xs => if x.1 = asset then (asset, x.2 + amount) :: xs else x :: addRequirement asset amount xs

/-- `lock_requirements`. -/
def lockRequirements (validated : List (OrderCreateDto × (Asset × ℚ))) : List (Asset × ℚ) :=
  validated.foldl (fun reqs v =>
    if v.2.1 ≠ "" ∧ 0 < v.2.2 then addRequirement v.2.1 v.2.2 reqs else reqs) []

/-- `sorted(lock_requirements.keys())`, with the amounts. -/
def sortedRequirements (reqs : List (Asset × ℚ)) : List (Asset × ℚ) :=
  reqs.insertionSort fun x y => x.1 ≤ y.1

/-- Unlock what has been locked so far; a failure is logged. -/
def unlockBulk (userId : UserId) (locked : List (Asset × ℚ)) : M Unit :=
  Prog.forEach locked fun req =>
    Prog.tryExcept (unlockOptimistic (userId, req.1) req.2 .orderRejected none) fun _ => return ()

/-- `except InsufficientBalanceError`: unlock what has been locked so far, and raise. -/
def rejectBulk (userId : UserId) (locked : List (Asset × ℚ)) (err : PyError) : M Unit :=
  match err with
  | .balance (.insufficientBalance _ _ _) => do
      unlockBulk userId locked
      Prog.raise err
  | _ => Prog.raise err

/-- Lock all requirements, one after the other. -/
def lockBulk (userId : UserId) (locked : List (Asset × ℚ)) : List (Asset × ℚ) → M Unit
  | [] => return ()
  | req :: reqs => do
      Prog.tryExcept (lockOptimistic (userId, req.1) req.2 .orderPlaced none)
        (rejectBulk userId locked)
      lockBulk userId (locked ++ [req]) reqs

/-- Insert one order of a bulk and hand it over. -/
def insertPlaced (userId : UserId) (dto : OrderCreateDto) : M OrderId := do
  let order := newOrder userId dto
  let orderId ← insertOrder order
  createSltpChild orderId order dto.sl fun childId o => { o with slOrderId := some childId }
  createSltpChild orderId order dto.tp fun childId o => { o with tpOrderId := some childId }
  onRedis (if dto.type.isStop then registerStopOrder orderId order else enqueuePlaced orderId order)
  return orderId

/-- Insert the orders of a bulk: their ids. -/
def insertBulk (userId : UserId) : List OrderCreateDto → M (List OrderId)
  | [] => return []
  | dto :: dtos => do
      let id ← insertPlaced userId dto
      let ids ← insertBulk userId dtos
      return id :: ids

/-- **`place_bulk_orders`**: the ids of the new orders. -/
def placeBulkOrders (userId : UserId) (dtos : List OrderCreateDto) : M (List OrderId) :=
  if dtos = [] then return []
  else do
    let validated ← validateBulk dtos
    lockBulk userId [] (sortedRequirements (lockRequirements validated))
    insertBulk userId (validated.map Prod.fst)

/-! ### Cancellation -/

/-- What `cancel_order` computes as the remaining lock. -/
def cancelUnlock (order : Order) (pair : TradingPair) : Asset × ℚ :=
  match order.side, order.price with
  | .sell, _ => (pair.baseAsset, order.remainingQuantity)
  | .buy, some price => (pair.quoteAsset, order.remainingQuantity * price)
  | .buy, none => (pair.quoteAsset, order.remainingQuantity * order.stopPrice.getD 0)

/-- The unlock of `cancel_order`: no more than is locked. -/
def unlockCanceled (orderId : OrderId) (order : Order) (unlock : Asset × ℚ) : M Unit :=
  Prog.whenever (order.type.isStop = false ∧ 0 < unlock.2) do
    let balance ← getBalanceForUpdate order.userId unlock.1
    Prog.whenSome balance fun balance => do
      let locked ← lockedBalance balance
      Prog.whenever (0 < min unlock.2 locked)
        (unlockPessimistic balance (min unlock.2 locked) .orderCanceled (some orderId))

/-- The Redis clean-up of `cancel_order`. -/
def cleanUpCanceled (orderId : OrderId) (order : Order) (r : Redis) : Redis :=
  let r :=
    if order.type.isStop then
      if order.type = .trailingStop then removeTrailingStop orderId order.symbol r
      else removeStopOrder orderId order.symbol r
    else deleteOrderHash orderId (removeRestingOrder orderId order.symbol order.side r)
  removeOpenOrder order.userId order.symbol orderId r

/-- The action that `cancel_order` enqueues. -/
def cancelPayload (orderId : OrderId) (order : Order) : OrderActionPayload where
  action := .cancel
  orderId := orderId
  symbol := order.symbol
  userId := order.userId
  side := order.side
  type := order.type
  price := none

/-- **`cancel_order`.** -/
def cancelOrder (userId : UserId) (orderId : OrderId) : M Unit := do
  match ← getOrderByUser orderId userId with
  | none => Prog.raise (.orderNotFound orderId userId)
  | some order =>
      if order.status.isActive = false then
        Prog.raise (.orderNotCancelable orderId order.status)
      else
        match ← getPair order.symbol with
        | none => Prog.raise .assertionError
        | some pair => do
            unlockCanceled orderId order (cancelUnlock order pair)
            updateStatus orderId .canceled
            cancelChildren orderId
            onRedis (cleanUpCanceled orderId order)
            onRedis (enqueueOrderAction (cancelPayload orderId order))

/-! ### Cancel-replace -/

/-- What `modify_order` computes as the remaining lock. -/
def modifyUnlock (order : Order) (pair : TradingPair) : Asset × ℚ :=
  match order.side with
  | .sell => (pair.baseAsset, order.remainingQuantity)
  | .buy => (pair.quoteAsset, order.remainingQuantity * order.price.getD 0)

/-- The checks of `modify_order` on the new values. -/
def validateModify (pair : TradingPair) (newPrice newQuantity : ℚ) : Except PyError Unit := do
  raiseIf (newPrice ≤ 0) (.newPriceNotPositive newPrice)
  raiseIf (newQuantity ≤ 0) (.newQuantityNotPositive newQuantity)
  raiseIf (newQuantity < pair.minLotSize) (.newQuantityBelowMinLot newQuantity pair.minLotSize)

/-- The lock for the new values. -/
def modifyLock (order : Order) (pair : TradingPair) (newPrice newQuantity : ℚ) : Asset × ℚ :=
  match order.side with
  | .sell => (pair.baseAsset, newQuantity)
  | .buy => (pair.quoteAsset, newPrice * newQuantity)

/-- Take the new lock, or take the old one back and raise. -/
def relock (userId : UserId) (orderId : OrderId) (unlock lock : Asset × ℚ) : M Unit :=
  Prog.tryExcept (lockOptimistic (userId, lock.1) lock.2 .orderModified (some orderId)) fun err =>
    match err with
    | .balance (.insufficientBalance _ _ _) => do
        lockOptimistic (userId, unlock.1) unlock.2 .orderPlaced (some orderId)
        Prog.raise err
    | _ => Prog.raise err

/-- The row of the new order. -/
def replacement (oldId : OrderId) (old : Order) (newPrice newQuantity : ℚ) : Order where
  userId := old.userId
  symbol := old.symbol
  side := old.side
  type := old.type
  status := .new
  price := some newPrice
  quantity := newQuantity
  visibleQuantity := if old.type = .iceberg then old.visibleQuantity else some newQuantity
  hiddenQuantity := if old.type = .iceberg then old.hiddenQuantity else none
  replaceCount := old.replaceCount + 1
  replacesId := some oldId

/-- The action that `modify_order` enqueues. -/
def modifyPayload (oldId newId : OrderId) (order : Order) : OrderActionPayload where
  action := .modify
  orderId := newId
  symbol := order.symbol
  userId := order.userId
  side := order.side
  type := order.type
  price := orNone order.price
  quantity := order.quantity
  replacesId := some oldId

/-- The Redis updates of `modify_order`. -/
def replaceInRedis (oldId : OrderId) (old : Order) (newId : OrderId) (order : Order) (r : Redis) :
    Redis :=
  let r := deleteOrderHash oldId (removeRestingOrder oldId old.symbol old.side r)
  let r := removeOpenOrder old.userId old.symbol oldId r
  let r := addOpenOrder order.userId order.symbol newId r
  enqueueOrderAction (modifyPayload oldId newId order) (hset newId (placedHash order) r)

/-- **`modify_order`**: the id of the new order. -/
def modifyOrder (userId : UserId) (orderId : OrderId) (newPrice newQuantity : ℚ) : M OrderId := do
  match (← getOrder orderId).filter fun order => order.userId = userId with
  | none => Prog.raise (.orderNotFound orderId userId)
  | some old =>
      if old.status.isActive = false then Prog.raise (.orderNotModifiable orderId old.status)
      else if old.type.rests = false then Prog.raise (.typeNotModifiable old.type)
      else
        match ← getPair old.symbol with
        | none => Prog.raise .assertionError
        | some pair => do
            let unlock := modifyUnlock old pair
            Prog.whenever (0 < unlock.2)
              (unlockOptimistic (userId, unlock.1) unlock.2 .orderModified (some orderId))
            Prog.ofExcept (validateModify pair newPrice newQuantity)
            relock userId orderId unlock (modifyLock old pair newPrice newQuantity)
            updateStatus orderId .canceled
            let newId ← insertOrder (replacement orderId old newPrice newQuantity)
            updateOrder orderId fun o => { o with replacedById := some newId }
            onRedis (replaceInRedis orderId old newId (replacement orderId old newPrice newQuantity))
            return newId

end SpotExchange.Exchange
