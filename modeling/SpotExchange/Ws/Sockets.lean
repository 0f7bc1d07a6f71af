import SpotExchange.Exchange.Models
import SpotExchange.Lib.Mailbox
import SpotExchange.Lib.Run
import Mathlib.Data.Finset.Insert
import Mathlib.Data.Finset.SDiff
import Mathlib.Data.Finset.Card

namespace SpotExchange.Ws

open SpotExchange.Lib
open SpotExchange.Exchange (Symbol UserId)

/-!
# The WebSocket gateway

`WebSocketManager` with the handlers of `/ws/orderbook/{symbol}` and `/ws/private`, between Redis Pub/Sub
and the sockets.

* `Listener` — what holds a subscription: the tasks of `start_subscribers`, the loop of a public handler,
  and the task that a private handler starts;
* `Gateway` — the registries, the handlers, the subscriptions and what they have not handed on yet;
* `Act`, `Gateway.step` — what can happen next, one `await` at a time; what is not possible changes
  nothing.

A message is published once and delivered to every subscription that is established by then.  Shutting
down is left out.
-/

/-- A WebSocket. -/
abbrev SocketId := ℕ

/-- The channels of Redis Pub/Sub. -/
inductive Channel
  | orderbook (symbol : Symbol)
  | trades (symbol : Symbol)
  | orders (userId : UserId)
  | balances (userId : UserId)
  | bulk (userId : UserId)
  deriving DecidableEq, Repr

/-- A publication: the how manieth it is, and its channel. -/
structure Message where
  id : ℕ
  channel : Channel
  deriving DecidableEq, Repr

/-- What holds a subscription. -/
inductive Listener
  /-- `_public_subscriber`, started by `start_subscribers`. -/
  | shared (symbol : Symbol)
  /-- The subscription of `handle_public_orderbook` for its client. -/
  | client (ws : SocketId) (symbol : Symbol)
  /-- `_private_subscriber`, started by the handler of a socket. -/
  | user (ws : SocketId) (userId : UserId)
  deriving DecidableEq, Repr

/-- `channels`. -/
def Listener.channels : Listener → List Channel
  | .shared symbol => [.orderbook symbol, .trades symbol]
  | .client _ symbol => [.orderbook symbol, .trades symbol]
  | .user _ userId => [.orders userId, .balances userId, .bulk userId]

/-- The two kinds of connection. -/
inductive Endpoint
  /-- `/ws/orderbook/{symbol}` -/
  | orderbook (symbol : Symbol)
  /-- `/ws/private`, authenticated. -/
  | privateChannel (userId : UserId)
  deriving DecidableEq, Repr

/-- The endpoint whose sockets a listener serves. -/
def Listener.endpoint : Listener → Endpoint
  | .shared symbol => .orderbook symbol
  | .client _ symbol => .orderbook symbol
  | .user _ userId => .privateChannel userId

/-- The tasks of the manager, which broadcast and subscribe again after an error. -/
def Listener.isTask : Listener → Bool
  | .shared _ => true
  | .client _ _ => false
  | .user _ _ => true

/-- Where a handler is. -/
inductive Phase
  /-- Registered; the snapshot or `auth_ok` is being sent. -/
  | greeting
  /-- In its loop. -/
  | serving
  /-- In its `finally` clause. -/
  | closing
  | done
  deriving DecidableEq, Repr

/-- The handler of a socket. -/
structure Handler where
  endpoint : Endpoint
  phase : Phase
  deriving DecidableEq, Repr

/-- A run of `broadcast_public` or `broadcast_private`: the sockets it has not sent to yet, and those to
    which sending has failed. -/
structure Broadcast where
  message : Message
  conns : Finset SocketId
  dead : Finset SocketId
  deriving DecidableEq

/-- A broadcast after sending to a socket, or failing to. -/
def Broadcast.sentTo (b : Broadcast) (ws : SocketId) (fails : Bool) : Broadcast :=
  { b with conns := b.conns.erase ws
           dead := if fails then insert ws b.dead else b.dead }

/-- The gateway. -/
structure Gateway where
  /-- `_running` -/
  running : Bool
  /-- The symbols with a task in `_subscriber_tasks`. -/
  symbols : List Symbol
  /-- `_public_connections` -/
  publicConnections : Symbol → Finset SocketId
  /-- `_private_connections` -/
  privateConnections : UserId → Finset SocketId
  handlers : SocketId → Option Handler
  /-- The clients that have hung up. -/
  gone : Finset SocketId
  /-- The established subscriptions. -/
  listening : List Listener
  /-- What the subscriptions have been given, the oldest first. -/
  inbox : List (Listener × Message)
  /-- The broadcasts under way. -/
  broadcasts : List (Listener × Broadcast)
  /-- What has been sent to the sockets. -/
  sent : List (SocketId × Message)
  /-- How many messages have been published. -/
  nextId : ℕ

/-- `start_subscribers`, for the active symbols if there are any. -/
def Gateway.start (symbols : List Symbol) : Gateway where
  running := symbols ≠ []
  symbols := symbols
  publicConnections := fun _ => ∅
  privateConnections := fun _ => ∅
  handlers := fun _ => none
  gone := ∅
  listening := []
  inbox := []
  broadcasts := []
  sent := []
  nextId := 0

/-- What happens next. -/
inductive Act
  /-- A task of `start_subscribers` subscribes. -/
  | subscribeShared (symbol : Symbol)
  /-- `connect_public` -/
  | connectPublic (ws : SocketId) (symbol : Symbol)
  /-- The handler subscribes for its client, or fails to. -/
  | subscribeClient (ws : SocketId) (succeeds : Bool)
  /-- The handler leaves its loop and unsubscribes. -/
  | closeClient (ws : SocketId)
  /-- `disconnect_public` -/
  | disconnectPublic (ws : SocketId)
  /-- `connect_private` -/
  | connectPrivate (ws : SocketId) (userId : UserId)
  /-- The handler sends `auth_ok` and starts its task. -/
  | greet (ws : SocketId)
  /-- The task of a private handler subscribes. -/
  | subscribeUser (ws : SocketId)
  /-- The handler leaves its loop: `disconnect_private`. -/
  | disconnectPrivate (ws : SocketId)
  /-- `subscriber_task.cancel()` -/
  | cancelUser (ws : SocketId)
  /-- A client hangs up. -/
  | hangUp (ws : SocketId)
  | publish (channel : Channel)
  /-- The handler forwards a message to its client. -/
  | poll (ws : SocketId)
  /-- A subscriber starts to broadcast its next message. -/
  | receive (listener : Listener)
  /-- A broadcast goes on with one of its sockets. -/
  | send (listener : Listener) (ws : SocketId)
  /-- A broadcast is through and disconnects the dead. -/
  | finish (listener : Listener)
  /-- A subscriber loses its connection to Redis; it will subscribe again. -/
  | lose (listener : Listener)
  deriving DecidableEq, Repr

namespace Gateway

/-- The registry of an endpoint. -/
def registry (g : Gateway) : Endpoint → Finset SocketId
  | .orderbook symbol => g.publicConnections symbol
  | .privateChannel userId => g.privateConnections userId

/-- Write the registry of an endpoint. -/
def setRegistry (g : Gateway) (e : Endpoint) (conns : Finset SocketId) : Gateway :=
  match e with
  | .orderbook symbol =>
      { g with publicConnections := Function.update g.publicConnections symbol conns }
  | .privateChannel userId =>
      { g with privateConnections := Function.update g.privateConnections userId conns }

/-- The sockets that a listener sends to. -/
def audience (g : Gateway) : Listener → Finset SocketId
  | .shared symbol => g.registry (.orderbook symbol)
  | .client ws _ => {ws}
  | .user _ userId => g.registry (.privateChannel userId)

/-- A handler enters a phase. -/
def enter (g : Gateway) (ws : SocketId) (endpoint : Endpoint) (phase : Phase) : Gateway :=
  { g with handlers := Function.update g.handlers ws (some { endpoint := endpoint, phase := phase }) }

/-- `connect_public` or `connect_private`: a new socket is registered. -/
def connect (g : Gateway) (ws : SocketId) (e : Endpoint) : Gateway :=
  (g.enter ws e .greeting).setRegistry e (insert ws (g.registry e))

/-- `disconnect_public` or `disconnect_private` of some sockets. -/
def disconnect (g : Gateway) (e : Endpoint) (dead : Finset SocketId) : Gateway :=
  g.setRegistry e (g.registry e \ dead)

/-- A subscription is established. -/
def listen (g : Gateway) (l : Listener) : Gateway :=
  { g with listening := if l ∈ g.listening then g.listening else l :: g.listening }

/-- A subscription ends, with what it has not handed on. -/
def unlisten (g : Gateway) (l : Listener) : Gateway :=
  { g with listening := g.listening.filter (· ≠ l)
           inbox := g.inbox.filter (·.1 ≠ l)
           broadcasts := g.broadcasts.filter (·.1 ≠ l) }

/-- `send_json`, which fails for a client that has hung up. -/
def sendJson (g : Gateway) (ws : SocketId) (message : Message) : Gateway :=
  { g with sent := if ws ∈ g.gone then g.sent else g.sent ++ [(ws, message)] }

/-- **What happens.** -/
def step (g : Gateway) : Act → Gateway
  | .subscribeShared symbol =>
      if g.running = true ∧ symbol ∈ g.symbols then g.listen (.shared symbol) else g
  | .connectPublic ws symbol => if g.handlers ws = none then g.connect ws (.orderbook symbol) else g
  | .subscribeClient ws succeeds =>
      match g.handlers ws with
      | some ⟨.orderbook symbol, .greeting⟩ =>
          if succeeds then (g.enter ws (.orderbook symbol) .serving).listen (.client ws symbol)
          else g.enter ws (.orderbook symbol) .serving
      | _ => g
  | .closeClient ws =>
      match g.handlers ws with
      | some ⟨.orderbook symbol, .serving⟩ =>
          (g.unlisten (.client ws symbol)).enter ws (.orderbook symbol) .closing
      | _ => g
  | .disconnectPublic ws =>
      match g.handlers ws with
      | some ⟨.orderbook symbol, .closing⟩ =>
          (g.enter ws (.orderbook symbol) .done).disconnect (.orderbook symbol) {ws}
      | _ => g
  | .connectPrivate ws userId =>
      if g.handlers ws = none then g.connect ws (.privateChannel userId) else g
  | .greet ws =>
      match g.handlers ws with
      | some ⟨.privateChannel userId, .greeting⟩ =>
          -- `auth_ok` is sent before the `try`: when that raises, the socket stays registered
          g.enter ws (.privateChannel userId) (if ws ∈ g.gone then .done else .serving)
      | _ => g
  | .subscribeUser ws =>
      match g.handlers ws with
      | some ⟨.privateChannel userId, phase⟩ =>
          if g.running = true ∧ (phase = .serving ∨ phase = .closing) then g.listen (.user ws userId)
          else g
      | _ => g
  | .disconnectPrivate ws =>
      match g.handlers ws with
      | some ⟨.privateChannel userId, .serving⟩ =>
          (g.enter ws (.privateChannel userId) .closing).disconnect (.privateChannel userId) {ws}
      | _ => g
  | .cancelUser ws =>
      match g.handlers ws with
      | some ⟨.privateChannel userId, .closing⟩ =>
          (g.unlisten (.user ws userId)).enter ws (.privateChannel userId) .done
      | _ => g
  | .hangUp ws => { g with gone := insert ws g.gone }
  | .publish channel =>
      { g with
        inbox := g.inbox ++ (g.listening.filter fun l => channel ∈ l.channels).map fun l =>
          (l, { id := g.nextId, channel := channel })
        nextId := g.nextId + 1 }
  | .poll ws =>
      match g.handlers ws with
      | some ⟨.orderbook symbol, .serving⟩ =>
          match takeMail (.client ws symbol) g.inbox with
          | some (message, inbox) => { g with inbox := inbox }.sendJson ws message
          | none => g
      | _ => g
  | .receive l =>
      if l.isTask = true ∧ ∀ b ∈ g.broadcasts, b.1 ≠ l then
        match takeMail l g.inbox with
        | some (message, inbox) =>
            { g with inbox := inbox
                     broadcasts := (l, ⟨message, g.audience l, ∅⟩) :: g.broadcasts }
        | none => g
      else g
  | .send l ws =>
      match takeMail l g.broadcasts with
      | some (b, broadcasts) =>
          if ws ∈ b.conns then
            { g with broadcasts := (l, b.sentTo ws (ws ∈ g.gone)) :: broadcasts }.sendJson ws b.message
          else g
      | none => g
  | .finish l =>
      match takeMail l g.broadcasts with
      | some (b, broadcasts) =>
          if b.conns = ∅ then { g with broadcasts := broadcasts }.disconnect l.endpoint b.dead else g
      | none => g
  | .lose l => if l.isTask = true ∧ ∀ b ∈ g.broadcasts, b.1 ≠ l then g.unlisten l else g

/-- The gateway after some acts. -/
abbrev run (g : Gateway) (acts : List Act) : Gateway := Run.after step g acts

end Gateway

end SpotExchange.Ws
