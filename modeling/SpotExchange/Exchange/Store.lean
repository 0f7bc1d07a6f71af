import SpotExchange.Exchange.Models
import SpotExchange.Lib.Prog
import Mathlib.Data.Finset.Insert

namespace SpotExchange.Exchange

open SpotExchange.Lib
open SpotExchange.Engine (OrderId CMatchingEngine)
open SpotExchange.Ledger (BalanceKey Row)

/-!
# The stores

* `Database` — the tables of PostgreSQL; `Redis` — the keys of Redis;
* `Store` — both, the sequences behind the ids, and the worker's engine;
* `M` — the programs of the backend over a `Store`;
* `transaction` — `async with session.begin()`: an exception undoes the tables.  It undoes neither
  the sequences nor anything in Redis.

One program runs at a time.
-/

/-- The tables. -/
structure Database where
  users : Finset UserId
  tradingPairs : Symbol → Option TradingPair
  orders : OrderId → Option Order
  balances : BalanceKey → Option Row
  trades : List Trade

/-- The keys. -/
structure Redis where
  /-- `ob:{symbol}:bids` and `ob:{symbol}:asks`, by the side of their orders. -/
  book : Symbol → OrderSide → SortedSet OrderId
  /-- `seq:orders:{symbol}` -/
  seq : Symbol → ℕ
  /-- `order:{order_id}` -/
  orderHash : OrderId → Option OrderHash
  /-- `queue:orders`, the oldest item first. -/
  ordersQueue : List OrderActionPayload
  /-- `user:{uid}:open_orders` -/
  userOpenOrders : UserId → Finset OrderId
  /-- `user:{uid}:open_orders:{symbol}` -/
  userOpenOrdersBySymbol : UserId → Symbol → Finset OrderId
  /-- `symbol:{symbol}:open_orders` -/
  symbolOpenOrders : Symbol → Finset OrderId
  /-- `stops:{symbol}` -/
  stops : Symbol → SortedSet OrderId
  /-- `trailing:{symbol}` -/
  trailing : Symbol → SortedSet OrderId
  /-- `trailing_state:{order_id}` -/
  trailingState : OrderId → Option TrailingState
  /-- What has been published on `pub:balances`, the oldest event first. -/
  balanceUpdates : List BalanceUpdate

/-- Everything. -/
structure Store where
  pg : Database
  /-- The next value of the sequence of `orders.id`. -/
  orderIdSeq : OrderId
  /-- The next value of the sequence of `trades.id`. -/
  tradeIdSeq : ℕ
  redis : Redis
  /-- The engine of the matching worker. -/
  engine : CMatchingEngine

/-- A program of the backend. -/
abbrev M := Prog Store PyError

/-- `async with session.begin()`. -/
def transaction {α : Type} (x : M α) : M α :=
  Prog.atomically (fun before after => { after with pg := before.pg }) x

/-- Commands that change Redis. -/
def onRedis (f : Redis → Redis) : M Unit := Prog.modify fun s => { s with redis := f s.redis }

/-- Statements that change the tables. -/
def onDatabase (f : Database → Database) : M Unit := Prog.modify fun s => { s with pg := f s.pg }

/-! ### Rows -/

/-- Write an order. -/
def Database.setOrder (db : Database) (id : OrderId) (order : Order) : Database :=
  { db with orders := Function.update db.orders id (some order) }

/-- Write a balance. -/
def Database.setBalance (db : Database) (key : BalanceKey) (row : Row) : Database :=
  { db with balances := Function.update db.balances key (some row) }

section

variable (db : Database) (id : OrderId) (order : Order) (key : BalanceKey) (row : Row)

@[simp] theorem setOrder_orders :
    (db.setOrder id order).orders = Function.update db.orders id (some order) := rfl

@[simp] theorem setOrder_balances : (db.setOrder id order).balances = db.balances := rfl

@[simp] theorem setBalance_orders : (db.setBalance key row).orders = db.orders := rfl

@[simp] theorem setBalance_balances :
    (db.setBalance key row).balances = Function.update db.balances key (some row) := rfl

end

/-- `Order(…)` added to the session and flushed: the row gets the next id. -/
def insertOrder (order : Order) : M OrderId := fun s =>
  (.ok s.orderIdSeq,
    { s with pg := s.pg.setOrder s.orderIdSeq order, orderIdSeq := s.orderIdSeq + 1 })

/-- An `UPDATE` of an order by a function of its row. -/
def updateOrder (id : OrderId) (f : Order → Order) : M Unit :=
  onDatabase fun db =>
    match db.orders id with
    | some order => db.setOrder id (f order)
    | none => db

/-- `OrderRepository.get_for_update`, `get`: the row. -/
def getOrder (id : OrderId) : M (Option Order) := Prog.read fun s => s.pg.orders id

/-- `OrderRepository.get_by_user`. -/
def getOrderByUser (id : OrderId) (userId : UserId) : M (Option Order) :=
  Prog.read fun s => (s.pg.orders id).filter fun order => order.userId = userId

/-- `OrderRepository.update_status`. -/
def updateStatus (id : OrderId) (status : OrderStatus) : M Unit :=
  updateOrder id fun order => { order with status := status, version := order.version + 1 }

/-- `TradingPairRepository.get_by_symbol`. -/
def getPair (symbol : Symbol) : M (Option TradingPair) := Prog.read fun s => s.pg.tradingPairs symbol

/-- `OrderRepository.list_children_by_parent`: the ids, ascending. -/
def listChildrenByParent (parentId : OrderId) : M (List OrderId) :=
  Prog.read fun s => (List.range s.orderIdSeq).filter fun id =>
    (s.pg.orders id).any fun order => order.parentOrderId = some parentId

/-- `OrderRepository.cancel_children`. -/
def cancelChildren (parentId : OrderId) : M Unit :=
  onDatabase fun db =>
    { db with orders := fun id => (db.orders id).map fun order =>
        if order.parentOrderId = some parentId ∧ order.status.isActive then
          { order with status := .canceled, version := order.version + 1 }
        else order }

/-! ### The first store -/

/-- Nothing in Redis. -/
def Redis.empty : Redis where
  book := fun _ _ => []
  seq := fun _ => 0
  orderHash := fun _ => none
  ordersQueue := []
  userOpenOrders := fun _ => ∅
  userOpenOrdersBySymbol := fun _ _ => ∅
  symbolOpenOrders := fun _ => ∅
  stops := fun _ => []
  trailing := fun _ => []
  trailingState := fun _ => none
  balanceUpdates := []

/-- Users, markets and balances, before the first order. -/
def Store.start (users : Finset UserId) (tradingPairs : Symbol → Option TradingPair)
    (balances : BalanceKey → Option Row) : Store where
  pg := { users := users, tradingPairs := tradingPairs, orders := fun _ => none,
          balances := balances, trades := [] }
  orderIdSeq := 1
  tradeIdSeq := 1
  redis := Redis.empty
  engine := Engine.CMatchingEngine.new

end SpotExchange.Exchange
