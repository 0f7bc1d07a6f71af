import SpotExchange.Exchange.Bulk
import SpotExchange.Exchange.Chains
import SpotExchange.Exchange.Filling
import SpotExchange.Exchange.Rollback
import SpotExchange.Lib.Mirror

namespace SpotExchange.Exchange

open SpotExchange.Lib
open SpotExchange.Engine (OrderId MatchResult)
open SpotExchange.Ledger (BalanceKey)

/-!
# The index of open orders

Redis keeps the open orders of each user, of each user and symbol, and of each symbol.

* `IndexAgrees` — the three sets hold just the active orders of the database;
* `IndexGuard` — what a request must meet for that to stay so;
* `Listed` — the invariant; `Batching` is what holds of it within a batch;
* `run_indexed` — the index agrees in a run of requests that meet the guard.
-/

/-- **The index agrees with the database.** -/
structure IndexAgrees (s : Store) : Prop where
  user : ∀ userId id, id ∈ s.redis.userOpenOrders userId ↔
    ∃ o, s.pg.orders id = some o ∧ o.status.isActive = true ∧ o.userId = userId
  bySymbol : ∀ userId symbol id, id ∈ s.redis.userOpenOrdersBySymbol userId symbol ↔
    ∃ o, s.pg.orders id = some o ∧ o.status.isActive = true ∧ o.userId = userId ∧ o.symbol = symbol
  symbol : ∀ symbol id, id ∈ s.redis.symbolOpenOrders symbol ↔
    ∃ o, s.pg.orders id = some o ∧ o.status.isActive = true ∧ o.symbol = symbol

/-! ### What a request must meet -/

/-- A stop is pending, and its owner can pay for the order that it becomes. -/
def Store.CanTrigger (s : Store) (id : OrderId) : Prop :=
  ∃ order pair lock, s.pg.orders id = some order ∧ order.status = .pending ∧
    s.pg.tradingPairs order.symbol = some pair ∧
    triggerLock order pair (oppositeOrdersForMatch s.redis order.symbol .buy askLimit) = some lock ∧
    0 < lock.2 ∧ lock.2 ≤ (s.rowOrZero (order.userId, lock.1)).availableBalance

/-- Each maker is left open, up to the first maker that cannot pay once those before it have been
    settled. -/
def Store.LeftOpenUpTo (s : Store) (args : BatchArgs) : (BalanceKey → Amounts) → List FillDelta → Prop
  | _, [] => True
  | Δ, d :: ds => s.Covers args Δ d →
      (∀ maker, s.pg.orders d.makerId = some maker → maker.filledQuantity + d.qty < maker.quantity) ∧
      s.LeftOpenUpTo args (Δ + (makerEffect args s.owner d).1) ds

/-- What is left of an order by its match rests. -/
def Store.Rests (s : Store) (p : OrderActionPayload) (r : MatchResult) : Prop :=
  0 < r.remainingQty ∧ p.type.rests = true ∧
    ∃ score, encodeScore (p.price.getD 0) (s.nextSeq p.symbol) = .ok score

/-- **What the match of an order must leave of it.**  An order that has been cancelled does not rest unless
    it trades; one that has not been cancelled is not filled at once; one that has been cancelled and is
    partly filled rests. -/
structure Store.TakerGuard (s : Store) (p : OrderActionPayload) (o : Order) (r : MatchResult) : Prop where
  untraded : r.trades = [] → s.Rests p r → o.status.isActive = true
  filled : r.trades ≠ [] → r.remainingQty = 0 → o.status.isActive = false
  partly : r.trades ≠ [] → 0 < r.remainingQty → o.status.isActive = true ∨ s.Rests p r

/-- **What a placement that is taken up must meet.**  If its trades are persisted, its match leaves of the
    order what it must; if they are undone, no maker has been filled before. -/
def Store.PlaceGuard (s : Store) (p : OrderActionPayload) : Prop :=
  ∀ r s₁, matchPlaced p s = (.ok r, s₁) → isOutcomeReject r.outcome = false →
    (∀ o, s.pg.orders p.orderId = some o → s.persists p = true → s.TakerGuard p o r) ∧
    (∀ pair, s.pg.tradingPairs p.symbol = some pair → s.persists p = false →
      s.LeftOpenUpTo (batchArgs p pair) 0 (makerFillDeltas (s.domainTrades p r)))

/-- No placement that is accepted has SL or TP children, no stop is triggered, no trades are undone after a
    maker has been filled, and the match of an order leaves of it what it must. -/
def IndexGuard (s : Store) : Request → Prop
  | .place userId dto => ((Request.place userId dto).run s).1 = .ok ⟨⟩ → dto.sl = none ∧ dto.tp = none
  | .placeBulk userId dtos => ((Request.placeBulk userId dtos).run s).1 = .ok ⟨⟩ →
      ∀ dto ∈ dtos, dto.sl = none ∧ dto.tp = none
  | .cancel _ _ => True
  | .modify _ _ _ _ => True
  | .print m symbol price =>
      let t := s.setRedis (trailingUpdate m symbol price)
      ∀ id, id ∈ getAllTriggeredStops t.redis symbol price ∨
        id ∈ getTriggeredTrailingStops t.redis symbol price → ¬ t.CanTrigger id
  | .rescan symbol lastPrice => ∀ id ∈ rescanSelected s.pg s.orderIdSeq symbol lastPrice, ¬ s.CanTrigger id
  | .work => ∀ p rest, s.redis.ordersQueue = p :: rest → p.action = .place →
      (s.setQueue rest).PlaceGuard p

/-! ### The index as a mirror -/

/-- Where an open order belongs. -/
def Store.openAs (s : Store) (id : OrderId) : Option (UserId × Symbol) :=
  (s.pg.orders id).bind fun o => if o.status.isActive then some (o.userId, o.symbol) else none

/-- **The index mirrors** where orders belong. -/
structure Redis.Indexes (r : Redis) (tag : OrderId → Option (UserId × Symbol)) : Prop where
  user : Mirrors r.userOpenOrders fun id => (tag id).map Prod.fst
  bySymbol : Mirrors (fun k : UserId × Symbol => r.userOpenOrdersBySymbol k.1 k.2) tag
  symbol : Mirrors r.symbolOpenOrders fun id => (tag id).map Prod.snd

/-- The index. -/
def Redis.index (r : Redis) :
    (UserId → Finset OrderId) × (UserId → Symbol → Finset OrderId) × (Symbol → Finset OrderId) :=
  (r.userOpenOrders, r.userOpenOrdersBySymbol, r.symbolOpenOrders)

section

variable {r r' : Redis} {tag : OrderId → Option (UserId × Symbol)} {userId : UserId} {symbol : Symbol}
  {id : OrderId} {s s' : Store} {o : Order}

theorem openAs_eq_some {userId : UserId} {symbol : Symbol} : s.openAs id = some (userId, symbol) ↔
    ∃ o, s.pg.orders id = some o ∧ o.status.isActive = true ∧ o.userId = userId ∧ o.symbol = symbol := by
  unfold Store.openAs
  rw [Option.bind_eq_some_iff]
  refine exists_congr fun o => and_congr_right fun _ => ?_
  split_ifs with hactive <;> simp [hactive]

theorem openAs_of_row (ho : s.pg.orders id = some o) :
    s.openAs id = if o.status.isActive then some (o.userId, o.symbol) else none := by
  rw [Store.openAs, ho]
  rfl

/-- **What the index says of orders**, in terms of where they belong. -/
theorem indexAgrees_of_indexes (h : s.redis.Indexes s.openAs) : IndexAgrees s where
  user := by
    intro userId id
    rw [h.user userId id, Option.map_eq_some_iff]
    constructor
    · rintro ⟨⟨u, symbol⟩, hopen, rfl⟩
      obtain ⟨o, ho, hactive, huser, -⟩ := openAs_eq_some.mp hopen
      exact ⟨o, ho, hactive, huser⟩
    · rintro ⟨o, ho, hactive, huser⟩
      exact ⟨(userId, o.symbol), openAs_eq_some.mpr ⟨o, ho, hactive, huser, rfl⟩, rfl⟩
  bySymbol := by
    intro userId symbol id
    exact (h.bySymbol (userId, symbol) id).trans openAs_eq_some
  symbol := by
    intro symbol id
    rw [h.symbol symbol id, Option.map_eq_some_iff]
    constructor
    · rintro ⟨⟨userId, sym⟩, hopen, rfl⟩
      obtain ⟨o, ho, hactive, -, hsymbol⟩ := openAs_eq_some.mp hopen
      exact ⟨o, ho, hactive, hsymbol⟩
    · rintro ⟨o, ho, hactive, hsymbol⟩
      exact ⟨(o.userId, symbol), openAs_eq_some.mpr ⟨o, ho, hactive, rfl, hsymbol⟩, rfl⟩

theorem Redis.Indexes.of_index (h : r.Indexes tag) (hindex : r'.index = r.index) : r'.Indexes tag := by
  obtain ⟨huser, hbySymbol, hsymbol⟩ : _ ∧ _ ∧ _ := by simpa only [Redis.index, Prod.mk.injEq] using hindex
  refine ⟨?_, ?_, ?_⟩
  · rw [huser]
    exact h.user
  · rw [hbySymbol]
    exact h.bySymbol
  · rw [hsymbol]
    exact h.symbol

/-- A set that is kept by user and symbol. -/
private theorem update_bySymbol (idx : UserId → Symbol → Finset OrderId) (x : Finset OrderId) :
    (fun k : UserId × Symbol =>
      Function.update idx userId (Function.update (idx userId) symbol x) k.1 k.2) =
        Function.update (fun k : UserId × Symbol => idx k.1 k.2) (userId, symbol) x := by
  funext ⟨u, sym⟩
  by_cases hu : u = userId
  · subst hu
    by_cases hsym : sym = symbol
    · subst hsym
      simp
    · simp [hsym]
  · simp [hu]

private theorem map_update {β : Type} (f : UserId × Symbol → β) (w : Option (UserId × Symbol)) :
    (fun k => (Function.update tag id w k).map f) =
      Function.update (fun k => (tag k).map f) id (w.map f) := by
  funext k
  by_cases hk : k = id
  · subst hk
    simp
  · simp [hk]

/-- **An order is added** that belongs nowhere else. -/
theorem Redis.Indexes.add (h : r.Indexes tag) (userId : UserId) (symbol : Symbol)
    (hid : tag id = none ∨ tag id = some (userId, symbol)) :
    (addOpenOrder userId symbol id r).Indexes (Function.update tag id (some (userId, symbol))) where
  user := by
    rw [map_update]
    exact h.user.insert (hid.imp (fun hnone => by rw [hnone]; rfl) fun hsome => by rw [hsome]; rfl)
  bySymbol := by
    show Mirrors (fun k : UserId × Symbol => Function.update r.userOpenOrdersBySymbol userId
      (Function.update (r.userOpenOrdersBySymbol userId) symbol _) k.1 k.2) _
    rw [update_bySymbol]
    exact h.bySymbol.insert hid
  symbol := by
    rw [map_update]
    exact h.symbol.insert (hid.imp (fun hnone => by rw [hnone]; rfl) fun hsome => by rw [hsome]; rfl)

/-- **An order is removed** from where it may have belonged. -/
theorem Redis.Indexes.remove (h : r.Indexes tag) (userId : UserId) (symbol : Symbol)
    (hid : tag id = none ∨ tag id = some (userId, symbol)) :
    (removeOpenOrder userId symbol id r).Indexes (Function.update tag id none) where
  user := by
    rw [map_update]
    exact h.user.erase (hid.imp (fun hnone => by rw [hnone]; rfl) fun hsome => by rw [hsome]; rfl)
  bySymbol := by
    show Mirrors (fun k : UserId × Symbol => Function.update r.userOpenOrdersBySymbol userId
      (Function.update (r.userOpenOrdersBySymbol userId) symbol _) k.1 k.2) _
    rw [update_bySymbol]
    exact h.bySymbol.erase hid
  symbol := by
    rw [map_update]
    exact h.symbol.erase (hid.imp (fun hnone => by rw [hnone]; rfl) fun hsome => by rw [hsome]; rfl)

/-- An order belongs where its row says, or nowhere. -/
theorem openAs_cases (ho : s.pg.orders id = some o) :
    s.openAs id = none ∨ s.openAs id = some (o.userId, o.symbol) := by
  rw [openAs_of_row ho]
  split_ifs
  · exact .inr rfl
  · exact .inl rfl

/-- One row is written. -/
theorem openAs_update (horders : s'.pg.orders = Function.update s.pg.orders id (some o)) :
    s'.openAs = Function.update s.openAs id (if o.status.isActive then some (o.userId, o.symbol) else none) := by
  funext k
  by_cases hk : k = id
  · subst hk
    rw [Function.update_self, openAs_of_row (by rw [horders, Function.update_self])]
  · rw [Function.update_of_ne hk]
    unfold Store.openAs
    rw [horders, Function.update_of_ne hk]

theorem openAs_of_orders (horders : s'.pg.orders = s.pg.orders) : s'.openAs = s.openAs := by
  unfold Store.openAs
  rw [horders]

/-! ### Calls -/

/-- **What holds between two requests**: the index mirrors the rows, no order is a child, and what rests is
    active. -/
structure Listed (s : Store) : Prop where
  ids : IdsBelow s
  index : s.redis.Indexes s.openAs
  rootless : ∀ id o, s.pg.orders id = some o → o.parentOrderId = none
  booked : ∀ symbol side, ∀ id ∈ (s.redis.book symbol side).members, ∃ o, s.pg.orders id = some o ∧
    RestsAs symbol side o ∧ o.status.isActive = true

/-- Rows and the index stay. -/
theorem Listed.of_eq (h : Listed s) (hseq : s'.orderIdSeq = s.orderIdSeq)
    (horders : s'.pg.orders = s.pg.orders) (hindex : s'.redis.index = s.redis.index)
    (hbook : BookShrinks s.redis s'.redis) : Listed s' where
  ids := by
    intro id hid
    rw [hseq]
    exact h.ids id (horders ▸ hid)
  index := by
    rw [openAs_of_orders horders]
    exact h.index.of_index hindex
  rootless := by
    rw [horders]
    exact h.rootless
  booked := by
    intro symbol side id hid
    rw [horders]
    exact h.booked symbol side id (hbook.mem hid)

theorem Listed.quiet (h : Listed s) (hq : Quiet s s') : Listed s' := by
  obtain ⟨balances, updates, rfl⟩ := hq
  exact h.of_eq rfl rfl rfl (bookShrinks_refl rfl)

theorem openAs_fresh (hids : IdsBelow s) : s.openAs s.orderIdSeq = none := by
  have hnone : s.pg.orders s.orderIdSeq = none := by
    by_contra hne
    exact absurd (hids _ hne) (lt_irrefl _)
  rw [Store.openAs, hnone]
  rfl

theorem handOver_index (id : OrderId) (o : Order) (r : Redis) :
    (handOver id o r).index = (addOpenOrder o.userId o.symbol id r).index := by
  unfold handOver registerStopOrder
  split_ifs <;> rfl

/-- Another row is written: what rests stays. -/
theorem Listed.booked_update (h : Listed s) (id : OrderId) (hbook : BookShrinks s.redis s'.redis)
    (horders : ∀ k o, k ≠ id → s.pg.orders k = some o → s'.pg.orders k = some o)
    (hgone : ∀ symbol side, id ∉ (s'.redis.book symbol side).members) :
    ∀ symbol side, ∀ k ∈ (s'.redis.book symbol side).members, ∃ o, s'.pg.orders k = some o ∧
      RestsAs symbol side o ∧ o.status.isActive = true := by
  intro symbol side k hk
  obtain ⟨o, ho, hrests, hactive⟩ := h.booked symbol side k (hbook.mem hk)
  have hne : k ≠ id := by
    rintro rfl
    exact hgone symbol side hk
  exact ⟨o, horders k o hne ho, hrests, hactive⟩

/-- **An order without children is placed.** -/
theorem Listed.placed (h : Listed s) (userId : UserId) {dto : OrderCreateDto} (hsl : dto.sl = none)
    (htp : dto.tp = none) : Listed (s.placed userId dto) := by
  -- without children one row is inserted
  have hinserted : s.inserted userId dto = s.insert (newOrder userId dto) := by
    unfold Store.inserted
    rw [hsl, htp]
    rfl
  have horders : (s.placed userId dto).pg.orders =
      Function.update s.pg.orders s.orderIdSeq (some (newOrder userId dto)) := by
    unfold Store.placed
    rw [hinserted]
    rfl
  have hactive : (newOrder userId dto).status.isActive = true := by
    show (if dto.type.isStop then OrderStatus.pending else .new).isActive = true
    split_ifs <;> rfl
  refine ⟨?_, ?_, fun k o ho => ?_, ?_⟩
  · have hids : IdsBelow (s.inserted userId dto) := (drains_inserted s userId dto h.ids).ids
    exact hids
  · rw [openAs_update horders, if_pos hactive]
    -- the fresh id was in no set of the index
    have hadded := h.index.add userId dto.symbol (.inl (openAs_fresh h.ids))
    refine hadded.of_index ?_
    show (handOver s.orderIdSeq (newOrder userId dto) (s.inserted userId dto).redis).index = _
    rw [hinserted, handOver_index]
    rfl
  · rw [horders] at ho
    by_cases hk : k = s.orderIdSeq
    · rw [hk, Function.update_self] at ho
      rw [← Option.some.inj ho]
      rfl
    · rw [Function.update_of_ne hk] at ho
      exact h.rootless k o ho
  -- the order is only queued: no book knows its id yet
  · have hbook : (s.placed userId dto).redis.book = s.redis.book := by
      show (handOver s.orderIdSeq (newOrder userId dto) (s.inserted userId dto).redis).book = _
      rw [hinserted, handOver_book]
      rfl
    refine h.booked_update s.orderIdSeq (bookShrinks_refl hbook) (fun k o hk ho => ?_)
      fun symbol side hmem => ?_
    · rw [horders, Function.update_of_ne hk]
      exact ho
    · rw [hbook] at hmem
      obtain ⟨o, ho, -⟩ := h.booked symbol side _ hmem
      exact absurd (h.ids _ (by rw [ho]; simp)) (lt_irrefl _)

/-- Without children a cancellation writes one row. -/
theorem cancel_orders (h : Listed s) {id : OrderId} (ho : s.pg.orders id = some o) :
    (s.cancel id o).pg.orders = Function.update s.pg.orders id (some o.canceled) := by
  funext k
  show (Function.update s.pg.orders id (some o.canceled) k).map (Order.orphaned id) = _
  have horphaned : ∀ x : Order, x.parentOrderId = none → x.orphaned id = x := by
    intro x hx
    refine if_neg fun hchild => ?_
    rw [hx] at hchild
    exact Option.some_ne_none id hchild.1.symm
  by_cases hk : k = id
  · rw [hk, Function.update_self, Option.map_some, horphaned o.canceled (h.rootless id o ho)]
  · rw [Function.update_of_ne hk]
    cases hrow : s.pg.orders k with
    | none => rfl
    | some x => rw [Option.map_some, horphaned x (h.rootless k x hrow)]

/-- What is removed from the book does not rest on either side. -/
theorem not_mem_removeResting (h : Listed s) (ho : s.pg.orders id = some o) (symbol : Symbol)
    (side : OrderSide) : id ∉ ((removeRestingOrder id o.symbol o.side s.redis).book symbol side).members := by
  intro hmem
  obtain ⟨o', ho', hrests, -⟩ := h.booked symbol side id
    ((bookShrinks_removeRestingOrder id o.symbol o.side s.redis).mem hmem)
  obtain rfl : o = o' := Option.some.inj (ho.symm.trans ho')
  obtain ⟨x, hx, hid⟩ := List.mem_map.mp hmem
  rw [← hrests.symbol, ← hrests.side] at hx
  have hx : x ∈ Function.update s.redis.book o.symbol (Function.update (s.redis.book o.symbol) o.side
    ((s.redis.book o.symbol o.side).zrem id)) o.symbol o.side := hx
  rw [Function.update_self, Function.update_self] at hx
  exact (SortedSet.mem_zrem.mp hx).2 hid

theorem Listed.cancel (h : Listed s) (ho : s.pg.orders id = some o) : Listed (s.cancel id o) := by
  have horders := cancel_orders h ho
  refine ⟨(drains_cancel ho h.ids).ids, ?_, fun k x hx => ?_, ?_⟩
  -- the row is no longer active, and its id leaves both sets
  · rw [openAs_update horders, if_neg (show ¬ o.canceled.status.isActive = true from Bool.false_ne_true)]
    refine (h.index.remove o.userId o.symbol (openAs_cases ho)).of_index ?_
    show (cleanUpCanceled id o s.redis).index = _
    unfold cleanUpCanceled
    split_ifs <;> rfl
  · rw [horders] at hx
    by_cases hk : k = id
    · rw [hk, Function.update_self] at hx
      rw [← Option.some.inj hx]
      exact h.rootless id o ho
    · rw [Function.update_of_ne hk] at hx
      exact h.rootless k x hx
  · refine h.booked_update id (bookShrinks_cleanUpCanceled id o s.redis) (fun k x hk hx => ?_)
      fun symbol side hmem => ?_
    · rw [horders, Function.update_of_ne hk]
      exact hx
    · have hmem : id ∈ ((cleanUpCanceled id o s.redis).book symbol side).members := hmem
      obtain ⟨o', ho', hrests, -⟩ := h.booked symbol side id
        ((bookShrinks_cleanUpCanceled id o s.redis).mem hmem)
      obtain rfl : o = o' := Option.some.inj (ho.symm.trans ho')
      -- what rests is no stop
      have hplain : o.type.isStop = false := by
        have htype := hrests.type
        revert htype
        cases o.type <;> decide
      unfold cleanUpCanceled at hmem
      rw [if_neg (by rw [hplain]; exact Bool.false_ne_true)] at hmem
      exact not_mem_removeResting h ho symbol side hmem

theorem Listed.replace (h : Listed s) (newPrice newQuantity : ℚ) (ho : s.pg.orders id = some o) :
    Listed (s.replace id o newPrice newQuantity) := by
  have hlt : id < s.orderIdSeq := h.ids id (by rw [ho]; simp)
  refine ⟨(drains_replace ho h.ids).ids, ?_, fun k x hx => ?_, ?_⟩
  -- the old row closes and the new one opens, at distinct ids
  · have hopen : (s.replace id o newPrice newQuantity).openAs = Function.update
        (Function.update s.openAs id none) s.orderIdSeq (some (o.userId, o.symbol)) := by
      rw [Function.update_comm hlt.ne]
      have hinsert : (s.insert (replacement id o newPrice newQuantity)).pg.orders = Function.update
        s.pg.orders s.orderIdSeq (some (replacement id o newPrice newQuantity)) := rfl
      have hnew : (s.insert (replacement id o newPrice newQuantity)).openAs =
        Function.update s.openAs s.orderIdSeq (some (o.userId, o.symbol)) := openAs_update hinsert
      have hreplaced : (s.replace id o newPrice newQuantity).pg.orders = Function.update
        (s.insert (replacement id o newPrice newQuantity)).pg.orders id _ :=
          replace_orders s id o newPrice newQuantity
      rw [openAs_update hreplaced, hnew]
      rfl
    have hfresh : Function.update s.openAs id none s.orderIdSeq = none := by
      rw [Function.update_of_ne hlt.ne']
      exact openAs_fresh h.ids
    have hadded := (h.index.remove o.userId o.symbol (openAs_cases ho)).add o.userId o.symbol (.inl hfresh)
    rw [hopen]
    exact hadded.of_index rfl
  · rcases replace_cases hlt hx with ⟨rfl, rfl⟩ | ⟨rfl, rfl⟩ | ⟨-, hx⟩
    · exact h.rootless k o ho
    · rfl
    · exact h.rootless k x hx
  · refine h.booked_update id (bookShrinks_removeRestingOrder id o.symbol o.side s.redis)
      (fun k x hk hx => ?_) fun symbol side hmem => not_mem_removeResting h ho symbol side hmem
    rw [replace_other hk (h.ids k (by rw [hx]; simp)).ne]
    exact hx

theorem listed_calls {req : Request} (hbare : ∀ userId dto, req.Asks userId dto →
    dto.sl = none ∧ dto.tp = none) : CallSteps (Prog.Preserves Listed) req where
  quiet := fun hq h => h.quiet hq
  placed := fun _ userId dto _ hasks _ _ h =>
    h.placed userId (hbare userId dto hasks).1 (hbare userId dto hasks).2
  canceled := fun _ _ _ _ _ _ ho _ _ h => h.cancel ho
  replaced := fun _ _ _ _ p q _ _ _ ho _ _ _ _ _ _ _ h => h.replace p q ho

/-! ### A stop monitor that triggers nothing -/

theorem canTrigger_withRow {key : BalanceKey} (h : (s.withRow key).CanTrigger id) : s.CanTrigger id := by
  have hrow : ∀ k, (s.withRow key).rowOrZero k = s.rowOrZero k := by
    intro k
    unfold Store.rowOrZero Store.withRow
    cases hkey : s.pg.balances key with
    | some row => rfl
    | none =>
      by_cases hk : k = key
      · subst hk
        simp [Database.setBalance, hkey]
      · simp [Database.setBalance, hk]
  obtain ⟨balances, updates, hx⟩ := quiet_withRow s key
  obtain ⟨order, pair, lock, ho, hpending, hpair, hlock, hpos, hle⟩ := h
  rw [hrow] at hle
  rw [hx] at ho hpair hlock
  exact ⟨order, pair, lock, ho, hpending, hpair, hlock, hpos, hle⟩

/-- A stop that cannot be triggered. -/
theorem tryTrigger_idle (isTrailing : Bool) (h : ¬ s.CanTrigger id) :
    (tryTrigger isTrailing id s).2 = s ∨ ∃ key, (tryTrigger isTrailing id s).2 = s.withRow key := by
  obtain ⟨s', hx, hcases⟩ := triggerStopOrder_cases id isTrailing s
  have hx' : tryTrigger isTrailing id s = (.ok ⟨⟩, s') := by
    unfold tryTrigger Prog.tryExcept
    rw [hx]
  rw [hx']
  rcases hcases with rfl | ⟨key, rfl⟩ | ⟨order, pair, lock, ho, hpending, hpair, hlock, hpos, hle, -⟩
  · exact .inl rfl
  · exact .inr ⟨key, rfl⟩
  · exact absurd ⟨order, pair, lock, ho, hpending, hpair, hlock, hpos, hle⟩ h

/-- **Stops that cannot be triggered**, one after the other. -/
theorem triggerAll_idle (isTrailing : Bool) {ids : List OrderId} (h : ∀ id ∈ ids, ¬ s.CanTrigger id) :
    Quiet s (triggerAll isTrailing ids s) ∧
      ∀ id, (triggerAll isTrailing ids s).CanTrigger id → s.CanTrigger id := by
  induction ids generalizing s with
  | nil => exact ⟨refl_of Quiet s, fun _ h => h⟩
  | cons id ids ih =>
    rw [List.forall_mem_cons] at h
    have hstep : Quiet s (tryTrigger isTrailing id s).2 ∧
        ∀ k, (tryTrigger isTrailing id s).2.CanTrigger k → s.CanTrigger k := by
      rcases tryTrigger_idle isTrailing h.1 with hx | ⟨key, hx⟩ <;> rw [hx]
      · exact ⟨refl_of Quiet s, fun _ h => h⟩
      · exact ⟨quiet_withRow s key, fun _ => canTrigger_withRow⟩
    obtain ⟨hquiet, hcan⟩ := ih fun k hk hk' => h.2 k hk (hstep.2 k hk')
    exact ⟨trans_of Quiet hstep.1 hquiet, fun k hk => hstep.2 k (hcan k hk)⟩

theorem Listed.print (h : Listed s) {m : StopMonitor} {price : ℚ}
    (hguard : IndexGuard s (.print m symbol price)) : Listed (s.serve (.print m symbol price)) := by
  have hupdated : Listed (s.setRedis (trailingUpdate m symbol price)) := by
    obtain ⟨trailing, states, hx⟩ := trailingUpdate_eq m symbol price s.redis
    have hredis : (s.setRedis (trailingUpdate m symbol price)).redis =
      { s.redis with trailing := trailing, trailingState := states } := hx
    refine h.of_eq rfl rfl ?_ (bookShrinks_refl ?_) <;> rw [hredis]
    rfl
  rw [serve_print]
  obtain ⟨hquiet, hcan⟩ := triggerAll_idle false fun id hid => hguard id (.inl hid)
  refine (hupdated.quiet hquiet).quiet (triggerAll_idle true fun id hid => ?_).1
  exact fun hk => hguard id (.inr hid) (hcan id hk)

theorem Listed.rescan (h : Listed s) {lastPrice : ℚ} (hguard : IndexGuard s (.rescan symbol lastPrice)) :
    Listed (s.serve (.rescan symbol lastPrice)) := by
  refine h.quiet ?_
  have hrun : s.serve (.rescan symbol lastPrice) =
      (Prog.forEach (rescanSelected s.pg s.orderIdSeq symbol lastPrice) (tryTrigger false) s).2 := rfl
  rw [hrun, forEach_tryTrigger]
  exact (triggerAll_idle false hguard).1

end

/-! ### A batch -/

/-- **What holds within a batch**: the index mirrors the rows, its taker apart; what rests is active; and a
    maker is active, or has been filled. -/
structure Batching (takerId : OrderId) (tag₀ : Option (UserId × Symbol)) (ds : List FillDelta) (s : Store) :
    Prop where
  index : s.redis.Indexes (Function.update s.openAs takerId tag₀)
  booked : ∀ symbol side, ∀ id ∈ (s.redis.book symbol side).members, ∃ o, s.pg.orders id = some o ∧
    RestsAs symbol side o ∧ o.status.isActive = true
  apart : ∀ symbol side, takerId ∉ (s.redis.book symbol side).members
  makers : ∀ d ∈ ds, ∀ o, s.pg.orders d.makerId = some o →
    o.status.isActive = true ∨ o.quantity ≤ o.filledQuantity

section

variable {takerId id : OrderId} {tag₀ : Option (UserId × Symbol)} {ds : List FillDelta} {s s' : Store}
  {o o' : Order}

/-- Rows and the index stay. -/
theorem Batching.of_eq (h : Batching takerId tag₀ ds s) (horders : s'.pg.orders = s.pg.orders)
    (hindex : s'.redis.index = s.redis.index) (hbook : s'.redis.book = s.redis.book) :
    Batching takerId tag₀ ds s' where
  index := by
    rw [openAs_of_orders horders]
    exact h.index.of_index hindex
  booked := by
    rw [horders, hbook]
    exact h.booked
  apart := by
    rw [hbook]
    exact h.apart
  makers := by
    rw [horders]
    exact h.makers

/-- A row is written, and what it says of the order is followed in Redis. -/
theorem Batching.write (h : Batching takerId tag₀ ds s)
    (horders : s'.pg.orders = Function.update s.pg.orders id (some o'))
    (hindex : s'.redis.Indexes (Function.update s'.openAs takerId tag₀))
    (hbook : BookShrinks s.redis s'.redis)
    (hrests : ∀ symbol side, id ∈ (s'.redis.book symbol side).members →
      RestsAs symbol side o' ∧ o'.status.isActive = true)
    (hmaker : id ∈ ds.map FillDelta.makerId → o'.status.isActive = true ∨ o'.quantity ≤ o'.filledQuantity) :
    Batching takerId tag₀ ds s' where
  index := hindex
  booked := by
    intro symbol side k hk
    rw [horders]
    -- only the written row can rest differently
    by_cases hkid : k = id
    · subst hkid
      rw [Function.update_self]
      exact ⟨o', rfl, hrests symbol side hk⟩
    · rw [Function.update_of_ne hkid]
      exact h.booked symbol side k (hbook.mem hk)
  apart := fun symbol side hmem => h.apart symbol side (hbook.mem hmem)
  makers := by
    intro d hd x hx
    rw [horders] at hx
    by_cases hid : d.makerId = id
    · rw [hid, Function.update_self] at hx
      rw [← Option.some.inj hx]
      exact hmaker (hid ▸ List.mem_map_of_mem hd)
    · rw [Function.update_of_ne hid] at hx
      exact h.makers d hd x hx

/-- An active row is written where there was one. -/
theorem openAs_update_active (ho : s.pg.orders id = some o) (hactive : o.status.isActive = true)
    (horders : s'.pg.orders = Function.update s.pg.orders id (some o')) (hactive' : o'.status.isActive = true)
    (hsame : (o'.userId, o'.symbol) = (o.userId, o.symbol)) : s'.openAs = s.openAs := by
  rw [openAs_update horders, if_pos hactive', hsame]
  refine Function.update_eq_self_iff.mpr ?_
  rw [openAs_of_row ho, if_pos hactive]

/-- **A maker is settled.** -/
theorem Batching.settleMaker (h : Batching takerId tag₀ ds s) {args : BatchArgs} {first : ℕ} {d : FillDelta}
    (hd : d ∈ ds) (hqty : 0 < d.qty) (hne : d.makerId ≠ takerId)
    (hx : settleMaker args first d s = (.ok ⟨⟩, s')) : Batching takerId tag₀ ds s' := by
  -- a maker without a row is passed over
  cases ho : s.pg.orders d.makerId with
  | none =>
    rw [settleMaker_none ho] at hx
    obtain rfl : s = s' := congrArg Prod.snd hx
    exact h
  | some o =>
    obtain ⟨horders, updates, hredis⟩ := settleMaker_eq_ok ho hx
    have hshrinks := bookShrinks_updateRedisMaker d.makerId (o.filledAsMaker d.qty d.quoteQty)
      { s.redis with balanceUpdates := updates }
    rw [← hredis] at hshrinks
    by_cases hfull : o.quantity ≤ o.filledQuantity + d.qty
    · -- the maker is filled: it leaves the book and the index
      have hstatus : (o.filledAsMaker d.qty d.quoteQty).status = .filled := if_pos hfull
      rw [updateRedisMaker, if_pos hstatus] at hredis
      refine h.write horders ?_ hshrinks (fun symbol side hmem => ?_) fun _ => .inr hfull
      · have hopen : s'.openAs = Function.update s.openAs d.makerId none := by
          rw [openAs_update horders, hstatus]
          rfl
        rw [hopen, Function.update_comm hne, hredis]
        refine (h.index.remove o.userId o.symbol ?_).of_index rfl
        rw [Function.update_of_ne hne]
        exact openAs_cases ho
      · obtain ⟨o', ho', hrests, -⟩ := h.booked symbol side _ (BookShrinks.mem hshrinks hmem)
        obtain rfl : o = o' := Option.some.inj (ho.symm.trans ho')
        obtain ⟨x, hx, hid⟩ := List.mem_map.mp hmem
        rw [hredis, ← hrests.symbol, ← hrests.side] at hx
        have hx : x ∈ Function.update s.redis.book o.symbol (Function.update (s.redis.book o.symbol) o.side
          ((s.redis.book o.symbol o.side).zrem d.makerId)) o.symbol o.side := hx
        rw [Function.update_self, Function.update_self] at hx
        exact absurd hid (SortedSet.mem_zrem.mp hx).2
    · -- it stays where it is
      have hstatus : (o.filledAsMaker d.qty d.quoteQty).status = .partiallyFilled := if_neg hfull
      have hnot : (o.filledAsMaker d.qty d.quoteQty).status ≠ .filled := by
        rw [hstatus]
        exact OrderStatus.noConfusion
      have hactive' : (o.filledAsMaker d.qty d.quoteQty).status.isActive = true := by
        rw [hstatus]
        rfl
      have hactive : o.status.isActive = true := (h.makers d hd o ho).resolve_right fun hle =>
        hfull (hle.trans (le_add_of_nonneg_right hqty.le))
      rw [updateRedisMaker, if_neg hnot] at hredis
      refine h.write horders ?_ hshrinks (fun symbol side hmem => ?_) fun _ => .inl hactive'
      · rw [openAs_update_active ho hactive horders hactive' rfl, hredis]
        exact h.index.of_index rfl
      · obtain ⟨o', ho', hrests, -⟩ := h.booked symbol side _ (BookShrinks.mem hshrinks hmem)
        obtain rfl : o = o' := Option.some.inj (ho.symm.trans ho')
        refine ⟨⟨hrests.symbol, hrests.side, hrests.type, ?_⟩, hactive'⟩
        rw [hstatus]
        exact OrderStatus.noConfusion

/-- **The taker is settled**: the index does not follow. -/
theorem batching_settleTaker (args : BatchArgs) (qty quoteQty : ℚ)
    (hmakers : args.takerOrderId ∉ ds.map FillDelta.makerId) :
    Prog.Moves (Prog.Preserves (Batching args.takerOrderId tag₀ ds)) (settleTaker args qty quoteQty) := by
  refine settleTaker_moves (fun s order horder h => ?_) (fun s key row update h => h.of_eq rfl rfl rfl)
    fun s id order horder hpending h => ?_
  · have horders : (s.putOrder args.takerOrderId (order.filledAsTaker qty quoteQty)).pg.orders =
      Function.update s.pg.orders args.takerOrderId (some (order.filledAsTaker qty quoteQty)) := rfl
    refine h.write horders ?_ (bookShrinks_refl rfl) (fun symbol side hmem =>
      absurd hmem (h.apart symbol side)) fun hmem => absurd hmem hmakers
    rw [openAs_update horders, Function.update_idem]
    exact h.index
  · have hactive : order.status.isActive = true := by rw [hpending]; rfl
    have horders : (s.activate args.takerOrderId id order).pg.orders = Function.update s.pg.orders id
      (some { order with status := .new, version := order.version + 1 }) := rfl
    refine h.write horders ?_ (bookShrinks_refl rfl) (fun symbol side hmem => ?_) fun _ => .inl rfl
    · rw [openAs_update_active horder hactive horders rfl rfl]
      exact h.index.of_index rfl
    · obtain ⟨o', ho', hrests, -⟩ := h.booked symbol side id hmem
      obtain rfl : order = o' := Option.some.inj (horder.symm.trans ho')
      exact absurd hpending hrests.active

/-- **A batch that commits.** -/
theorem Batching.batch {args : BatchArgs} {trades : List DomainTrade} {rows : List Trade}
    (h : Batching args.takerOrderId tag₀ (makerFillDeltas trades) s) (hne : trades ≠ [])
    (hpos : ∀ t ∈ trades, 0 < t.quantity) (hmakers : ∀ t ∈ trades, t.makerOrderId ≠ args.takerOrderId)
    (hbatch : persistTradeBatch args trades s = (.ok rows, s')) :
    Batching args.takerOrderId tag₀ (makerFillDeltas trades) s' := by
  have hother : ∀ d ∈ makerFillDeltas trades, d.makerId ≠ args.takerOrderId := by
    intro d hd
    obtain ⟨t, ht, hid⟩ := mem_makerFillDeltas hd
    exact hid ▸ hmakers t ht
  obtain ⟨s₁, s₂, hinsert, hsettle, htaker⟩ := persistTradeBatch_eq_ok hne hbatch
  have hinserted : Batching args.takerOrderId tag₀ (makerFillDeltas trades) s₁ := by
    have hmoves : Prog.Moves (Prog.Preserves (Batching args.takerOrderId tag₀ (makerFillDeltas trades)))
        (Prog.forEach trades (insertTrade args)) := insertTrades_moves fun _ _ _ h => h.of_eq rfl rfl rfl
    exact hmoves.of_ok hinsert h
  have hsettled : Batching args.takerOrderId tag₀ (makerFillDeltas trades) s₂ := by
    refine Prog.forEach_keeps (fun d hd t t' ht hx => ?_) hinserted hsettle
    exact ht.settleMaker hd (makerFillDeltas_all (P := fun d => 0 < d.qty)
      (fun _ _ _ _ _ h h' => add_pos h h') hpos d hd) (hother d hd) hx
  refine (batching_settleTaker args _ _ fun hmem => ?_).of_ok htaker hsettled
  obtain ⟨d, hd, hid⟩ := List.mem_map.mp hmem
  exact hother d hd hid

/-! ### A batch that raises -/

theorem index_of_resting {r r' : Redis} (h : r'.resting = r.resting) : r'.index = r.index :=
  congrArg (fun x => x.2.2) h

/-- **A batch that raises** leaves the index alone if each maker that is settled stays open. -/
theorem failedBatch_index {args : BatchArgs} {trades : List DomainTrade} {err : PyError}
    (hopen : s.LeftOpenUpTo args 0 (makerFillDeltas trades))
    (hraise : persistTradeBatch args trades s = (.error err, s')) : s'.redis.index = s.redis.index := by
  rcases failedBatch_cases hraise with ⟨-, hredis⟩ | ⟨hrefs, result, t, t', horders, hbalances, hredis, hmakers,
    hresting⟩
  · rw [hredis]
  have hshift : Shifts 0 s t := by
    show Moved amounts 0 s.pg.balances t.pg.balances
    rw [hbalances]
    exact Moved.refl _
  have hzero : ∀ key, Balanced ((0 : BalanceKey → Amounts) key) := fun _ => (add_zero (0 : ℚ)).symm
  -- induction over the makers settled before the error
  have hindex : s.LeftOpenUpTo args 0 (makerFillDeltas trades) → t'.redis.index = t.redis.index := by
    refine settleMakers_rule (Q := fun Δ ds t t' => s.LeftOpenUpTo args Δ ds →
      t'.redis.index = t.redis.index) (fun _ _ _ => rfl) (fun _ _ _ _ _ _ hresting _ =>
        index_of_resting hresting) (fun Δ d ds maker t t₁ t' hmaker _ hcovers hresting ih hopen => ?_)
      (makerFillDeltas_nodup trades) (fun d hd => ⟨makers_of_refs hrefs d hd, by rw [horders]⟩) hzero hshift
        hmakers
    obtain ⟨hlt, hrest⟩ := hopen hcovers
    refine (ih hrest).trans (Eq.trans ?_ (index_of_resting hresting))
    -- the maker stays open: only its HASH is written
    have hstatus : (maker.filledAsMaker d.qty d.quoteQty).status = .partiallyFilled :=
      if_neg (not_le.mpr (hlt maker hmaker))
    have hnot : (maker.filledAsMaker d.qty d.quoteQty).status ≠ .filled := by
      rw [hstatus]
      exact OrderStatus.noConfusion
    show (updateRedisMaker d.makerId (maker.filledAsMaker d.qty d.quoteQty) t₁.redis).index = _
    rw [updateRedisMaker, if_neg hnot]
    rfl
  rw [index_of_resting hresting, hindex hopen, hredis]

/-! ### A placement -/

variable {p : OrderActionPayload} {r : MatchResult} {t : Store}

/-- **What holds once the trades of a match are persisted**: the index mirrors the rows, the order apart. -/
structure Persisted (p : OrderActionPayload) (tag₀ : Option (UserId × Symbol)) (o : Order) (s : Store) :
    Prop where
  ids : IdsBelow s
  index : s.redis.Indexes (Function.update s.openAs p.orderId tag₀)
  rootless : ∀ id o, s.pg.orders id = some o → o.parentOrderId = none
  booked : ∀ symbol side, ∀ id ∈ (s.redis.book symbol side).members, ∃ o, s.pg.orders id = some o ∧
    RestsAs symbol side o ∧ o.status.isActive = true
  row : s.pg.orders p.orderId = some o
  fits : PayloadFits p o

/-- The order stays where the index has it. -/
theorem Persisted.listed (h : Persisted p tag₀ o s) (hstays : s.openAs p.orderId = tag₀) : Listed s where
  ids := h.ids
  index := by
    have hindex := h.index
    rwa [← hstays, Function.update_eq_self] at hindex
  rootless := h.rootless
  booked := h.booked

/-- **The order rests.** -/
theorem Persisted.rest (h : Persisted p tag₀ o s) (htag : tag₀ = none ∨ tag₀ = some (p.userId, p.symbol))
    (hrests : p.type.rests = true) (hactive : o.status.isActive = true) (remaining score : ℚ) :
    Listed (s.rest p remaining score) where
  ids := h.ids
  index := by
    have hopen : s.openAs p.orderId = some (p.userId, p.symbol) := by
      rw [openAs_of_row h.row, if_pos hactive, h.fits.userId, h.fits.symbol]
    have hself : Function.update s.openAs p.orderId tag₀ p.orderId = tag₀ := Function.update_self ..
    have hadded := h.index.add p.userId p.symbol (hself.symm ▸ htag)
    rw [Function.update_idem, ← hopen, Function.update_eq_self] at hadded
    exact hadded.of_index rfl
  rootless := h.rootless
  booked := by
    intro symbol side id hid
    obtain ⟨x, hx, rfl⟩ := List.mem_map.mp hid
    rcases mem_rest hx with hx | ⟨rfl, rfl, rfl⟩
    · exact h.booked symbol side _ (List.mem_map_of_mem hx)
    · exact ⟨o, h.row, ⟨h.fits.symbol, h.fits.side, by rw [h.fits.type]; exact hrests, h.fits.active⟩,
        hactive⟩

/-- **What follows the match.** -/
theorem Persisted.finish (h : Persisted p tag₀ o s)
    (htag : tag₀ = none ∨ tag₀ = some (p.userId, p.symbol)) (hstep : FinishStep p r.remainingQty s s')
    (hrests : s.Rests p r → o.status.isActive = true)
    (hstays : ¬ s.Rests p r → s.openAs p.orderId = tag₀) : Listed s' := by
  cases hstep with
  | left hnot => exact h.listed (hstays fun hr => hnot ⟨hr.1, hr.2.1⟩)
  | unscored _ _ err hscore =>
    have hlisted := h.listed (hstays fun ⟨_, _, score, hok⟩ => absurd (hscore.symm.trans hok) (by simp))
    exact hlisted.of_eq rfl rfl rfl (bookShrinks_refl rfl)
  | rested hpos hrest score hscore => exact h.rest htag hrest (hrests ⟨hpos, hrest, score, hscore⟩) _ score
  | refunded hnot _ key row update =>
    exact (h.listed (hstays fun hr => hnot ⟨hr.1, hr.2.1⟩)).quiet (quiet_moveBalance s key row update)

/-- Without trades. -/
theorem persisted_untraded (h : Listed s) (ho : s.pg.orders p.orderId = some o) (hfits : PayloadFits p o)
    (e : Engine.CMatchingEngine) : Persisted p (s.openAs p.orderId) o (s.setEngine e) where
  ids := h.ids
  index := by
    have hsame : Function.update (s.setEngine e).openAs p.orderId (s.openAs p.orderId) = s.openAs :=
      Function.update_eq_self p.orderId s.openAs
    rw [hsame]
    exact h.index
  rootless := h.rootless
  booked := h.booked
  row := ho
  fits := hfits

theorem updateRedisMaker_seq (id : OrderId) (maker : Order) (r : Redis) :
    (updateRedisMaker id maker r).seq = r.seq := by
  unfold updateRedisMaker
  split_ifs <;> rfl

/-- A batch takes no score. -/
theorem persistTradeBatch_seq {args : BatchArgs} {trades : List DomainTrade} {rows : List Trade}
    (hbatch : persistTradeBatch args trades s = (.ok rows, s')) : s'.redis.seq = s.redis.seq := by
  have hsteps : FillSteps args trades (Prog.Keeps fun s : Store => s.redis.seq) :=
    { trade := fun _ _ _ => rfl
      makerUser := fun _ _ _ _ => rfl
      balance := fun _ _ _ _ => rfl
      maker := fun _ _ _ _ _ => rfl
      redisMaker := fun _ _ _ _ _ => updateRedisMaker_seq _ _ _
      taker := fun _ _ _ => rfl }
  exact (persistTradeBatch_moves hsteps fun _ _ _ _ _ => rfl).of_ok hbatch

/-- **The trades of a match are persisted.** -/
theorem persisted_batch {e : Engine.CMatchingEngine} {pair : TradingPair} {rows : List Trade}
    (h : Taken p s) (hlisted : Listed s) (hmatched : Matched p s r) (htrades : r.trades ≠ [])
    (hbatch : persistTradeBatch (batchArgs p pair) (s.domainTrades p r) (s.setEngine e) = (.ok rows, t)) :
    ∃ o, Persisted p (s.openAs p.orderId) o t ∧
      o.status = if r.remainingQty = 0 then .filled else .partiallyFilled := by
  have hpos : ∀ x ∈ s.domainTrades p r, 0 < x.quantity := hmatched.trade_pos
  have hne : s.domainTrades p r ≠ [] := by simpa [Store.domainTrades] using htrades
  obtain ⟨o, ho, hfits⟩ := h.row
  -- every maker rests in a book, so its row is open when the batch begins
  have hbatching : Batching p.orderId (s.openAs p.orderId) (makerFillDeltas (s.domainTrades p r))
      (s.setEngine e) := by
    refine ⟨(persisted_untraded hlisted ho hfits e).index, hlisted.booked, h.apart, fun d hd x hx => ?_⟩
    obtain ⟨y, hy, hid⟩ := mem_makerFillDeltas hd
    obtain ⟨x', hx', -, hactive⟩ := hlisted.booked _ _ _ (hmatched.maker_booked hy)
    rw [hid] at hx'
    obtain rfl : x = x' := Option.some.inj (Eq.trans (Eq.symm hx) hx')
    exact .inl hactive
  have hbatched : Batching p.orderId _ _ t := hbatching.batch hne hpos
    (fun x hx => hmatched.maker_ne h.consistent h.row hx) hbatch
  have hset := (persistTradeBatch_spec hbatch).1
  -- the taker's own status is decided by what the engine left of it
  obtain ⟨o', ho', hterms, hstatus⟩ := batch_taker h hmatched htrades hbatch ho
  have hquantity : o'.quantity = p.quantity := (congrArg OrderTerms.quantity hterms).trans hfits.quantity
  have hterm : ∀ id x', t.pg.orders id = some x' → ∃ x, s.pg.orders id = some x ∧ x'.terms = x.terms := by
    intro id x' hx'
    obtain ⟨x, hx, hsame⟩ := terms_of_setting hset.symm hx'
    exact ⟨x, hx, hsame.symm⟩
  refine ⟨o', ⟨fun id hid => ?_, hbatched.index, fun id x' hx' => ?_, hbatched.booked, ho', ?_⟩, hstatus⟩
  · obtain ⟨x', hx'⟩ := Option.ne_none_iff_exists'.mp hid
    obtain ⟨x, hx, -⟩ := hterm id x' hx'
    have hseq : t.orderIdSeq = s.orderIdSeq := congrArg (fun x => x.2.2.1) hset
    rw [hseq]
    exact h.consistent.ids id (by rw [hx]; simp)
  · obtain ⟨x, hx, hsame⟩ := hterm id x' hx'
    exact (congrArg OrderTerms.parentOrderId hsame).trans (hlisted.rootless id x hx)
  · refine ⟨(congrArg OrderTerms.userId hterms).trans hfits.userId,
      (congrArg OrderTerms.symbol hterms).trans hfits.symbol,
      (congrArg OrderTerms.side hterms).trans hfits.side,
      (congrArg OrderTerms.type hterms).trans hfits.type,
      (congrArg orNone (congrArg OrderTerms.price hterms)).trans hfits.price, hquantity, ?_⟩
    rw [hstatus]
    split_ifs <;> exact OrderStatus.noConfusion

/-- Only the tables say which makers can pay. -/
theorem leftOpenUpTo_of_pg (hpg : s'.pg = s.pg) {args : BatchArgs} {Δ : BalanceKey → Amounts}
    (h : s.LeftOpenUpTo args Δ ds) : s'.LeftOpenUpTo args Δ ds := by
  induction ds generalizing Δ with
  | nil => trivial
  | cons d ds ih =>
    intro hcovers
    have howner : s'.owner = s.owner := by
      unfold Store.owner
      rw [hpg]
    have hcovers : s.Covers args Δ d := by
      unfold Store.Covers Store.Pays at hcovers ⊢
      rwa [hpg, howner] at hcovers
    obtain ⟨hlt, hrest⟩ := h hcovers
    rw [hpg, howner]
    exact ⟨hlt, ih hrest⟩

/-- **A placement.** -/
theorem listed_handlePlace (h : Taken p s) (hlisted : Listed s) (hguard : s.PlaceGuard p) :
    Listed (handlePlace p s).2 := by
  obtain ⟨e, -, hstate, hmatched⟩ := matchPlaced_spec h.consistent.engine p
  have hengine : Listed (s.setEngine e) := hlisted.of_eq rfl rfl rfl (bookShrinks_refl rfl)
  rcases hmatch : matchPlaced p s with ⟨err | r, s₁⟩ <;> rw [hmatch] at hstate hmatched <;>
    obtain rfl : s₁ = s.setEngine e := hstate
  · rw [handlePlace_unmatched hmatch]
    exact hengine
  obtain ⟨hq, hmakers, hfacts⟩ := hmatched r rfl
  have hmatched : Matched p s r := ⟨hq, hmakers, hfacts⟩
  obtain ⟨o, ho, hfits⟩ := h.row
  have htag : s.openAs p.orderId = none ∨ s.openAs p.orderId = some (p.userId, p.symbol) := by
    rw [← hfits.userId, ← hfits.symbol]
    exact openAs_cases ho
  have hpersists : s.persists p = (persistTrades p r.trades (s.setEngine e)).1.toOption.isSome := by
    unfold Store.persists
    rw [hmatch]
  have hcases := persistTrades_cases p r.trades (s.setEngine e)
  rcases handlePlace_matched hmatch with hx | ⟨hacc, ⟨hnil, hx⟩ | ⟨hne, pair, hpair, ⟨rows, s₂, hbatch, hx⟩ |
    ⟨err, s₂, hbatch, hx⟩⟩⟩ <;> rw [hx]
  · exact hengine
  · -- nothing is traded: only an order that rests is written to the index
    have hpersists : s.persists p = true := by
      rw [hpersists]
      rcases hcases with ⟨-, hok⟩ | ⟨hne, -⟩ | ⟨hne, -⟩
      · rw [hok]
        rfl
      · exact absurd hnil hne
      · exact absurd hnil hne
    have htaker := (hguard r _ hmatch hacc).1 o ho hpersists
    exact (persisted_untraded hlisted ho hfits e).finish htag (finishPlaced_step p r.remainingQty _)
      (fun hrests => htaker.untraded hnil hrests) fun _ => rfl
  · have hpersists : s.persists p = true := by
      rw [hpersists]
      rcases hcases with ⟨hnil, -⟩ | ⟨-, hnone, -⟩ | ⟨-, pair', hpair', ⟨_, _, -, hok⟩ | ⟨_, _, hraise, -⟩⟩
      · exact absurd hnil hne
      · exact absurd (hnone.symm.trans hpair) (by simp)
      · rw [hok]
        rfl
      · obtain rfl : pair = pair' := Option.some.inj (hpair.symm.trans hpair')
        exact absurd (hbatch.symm.trans hraise) (by simp)
    have htaker := (hguard r _ hmatch hacc).1 o ho hpersists
    obtain ⟨o', hpersisted, hstatus⟩ := persisted_batch h hlisted hmatched hne hbatch
    have hrestsIff : s₂.Rests p r ↔ s.Rests p r := by
      unfold Store.Rests Store.nextSeq
      rw [persistTradeBatch_seq hbatch]
      exact Iff.rfl
    refine hpersisted.finish htag (finishPlaced_step p r.remainingQty s₂) (fun hrests => ?_) fun hnot => ?_
    · rw [hstatus, if_neg hrests.1.ne']
      rfl
    · rw [openAs_of_row hpersisted.row, openAs_of_row ho, hstatus]
      rcases hmatched.remaining_nonneg.eq_or_lt with hzero | hpos
      · -- it is filled: it had been cancelled
        rw [if_pos hzero.symm, htaker.filled hne hzero.symm]
        rfl
      · -- it stays open
        rw [if_neg hpos.ne', (htaker.partly hne hpos).resolve_right fun hrests => hnot (hrestsIff.mpr hrests),
          hpersisted.fits.userId, hpersisted.fits.symbol, hfits.userId, hfits.symbol]
        rfl
  -- the rows are rolled back, the index is not: the guard says no maker left it
  · have hpersists : s.persists p = false := by
      rw [hpersists]
      rcases hcases with ⟨hnil, -⟩ | ⟨-, hnone, -⟩ | ⟨-, pair', hpair', ⟨_, _, hok, -⟩ | ⟨_, _, -, hraise⟩⟩
      · exact absurd hnil hne
      · exact absurd (hnone.symm.trans hpair) (by simp)
      · obtain rfl : pair = pair' := Option.some.inj (hpair.symm.trans hpair')
        exact absurd (hbatch.symm.trans hok) (by simp)
      · rw [hraise]
        rfl
    have hopen := (hguard r _ hmatch hacc).2 pair hpair hpersists
    have hpg : (s.setEngine e).pg = s.pg := rfl
    have hindex := failedBatch_index (leftOpenUpTo_of_pg hpg hopen) hbatch
    have hset := persistTradeBatch_moves_error (settlement_setting _ _).1 hbatch
    have hdrained := persistTradeBatch_moves_error (drains_fillSteps _ _) hbatch h.consistent.ids
    exact hengine.of_eq (congrArg (fun x => x.2.2.1) hset) rfl hindex hdrained.book

/-- **A round of the worker.** -/
theorem listed_work (h : Orderly s) (hlisted : Listed s) (hguard : IndexGuard s .work) :
    Listed (s.serve .work) := by
  show Listed (work s).2
  cases hqueue : s.redis.ordersQueue with
  | nil =>
    rw [work_nil hqueue]
    exact hlisted
  | cons p rest =>
    have hpopped : Listed (s.setQueue rest) := hlisted.of_eq rfl rfl rfl (bookShrinks_refl rfl)
    rw [work_cons hqueue]
    split_ifs with hplace
    · exact listed_handlePlace (h.taken hqueue hplace) hpopped (hguard p rest hqueue hplace)
    · exact hpopped

/-- **One request.** -/
theorem listed_serve (h : Orderly s) (hlisted : Listed s) {req : Request} (hguard : IndexGuard s req) :
    Listed (s.serve req) := by
  have hids := h.consistent.ids
  cases req with
  | place userId dto =>
    -- a request that fails writes nothing the index is about
    by_cases hok : ((Request.place userId dto).run s).1 = .ok ⟨⟩
    · refine (listed_calls fun userId' dto' hasks => ?_).serve hids rfl hlisted
      obtain ⟨-, rfl⟩ := hasks
      exact hguard hok
    · exact hlisted.quiet (serve_place_quiet hok)
  | placeBulk userId dtos =>
    by_cases hok : ((Request.placeBulk userId dtos).run s).1 = .ok ⟨⟩
    · have hcalls : CallSteps (Prog.Preserves Listed) (.placeBulk userId dtos) :=
        listed_calls fun _ dto hasks => hguard hok dto hasks.2
      exact hcalls.serve hids rfl hlisted
    · exact hlisted.quiet (serve_placeBulk_quiet hok)
  | cancel userId id =>
    have hcalls : CallSteps (Prog.Preserves Listed) (.cancel userId id) :=
      listed_calls fun _ _ hasks => hasks.elim
    exact hcalls.serve hids rfl hlisted
  | modify userId id newPrice newQuantity =>
    have hcalls : CallSteps (Prog.Preserves Listed) (.modify userId id newPrice newQuantity) :=
      listed_calls fun _ _ hasks => hasks.elim
    exact hcalls.serve hids rfl hlisted
  | print m symbol price => exact hlisted.print hguard
  | rescan symbol lastPrice => exact hlisted.rescan hguard
  | work => exact listed_work h hlisted hguard

end

theorem listed_start (users : Finset UserId) (pairs : Symbol → Option TradingPair)
    (balances : BalanceKey → Option Ledger.Row) : Listed (Store.start users pairs balances) where
  ids := (consistent_start users pairs balances).ids
  index := ⟨.empty, .empty, .empty⟩
  rootless := fun _ _ ho => nomatch ho
  booked := fun _ _ _ hid => absurd hid List.not_mem_nil

/-- **The index agrees** in every run of requests that meet the guard. -/
theorem run_indexed (users : Finset UserId) (pairs : Symbol → Option TradingPair)
    (balances : BalanceKey → Option Ledger.Row) {reqs : List Request}
    (h : Run.Along Store.serve IndexGuard (Store.start users pairs balances) reqs) :
    Run.Along Store.serve (fun s req => IndexAgrees (s.serve req)) (Store.start users pairs balances)
      reqs := by
  refine h.mono (I := fun s => Orderly s ∧ Listed s) (fun s req hI hC => ?_)
    ⟨orderly_start users pairs balances, listed_start users pairs balances⟩
  have hlisted := listed_serve hI.1 hI.2 hC
  exact ⟨⟨orderly_serve hI.1 req, hlisted⟩, indexAgrees_of_indexes hlisted.index⟩

/-! ### An order that is filled at once -/

/-- Deciding that the next round of the worker is guarded: its order is open, and stays open. -/
def guardsIndex (s : Store) : Bool :=
  match s.redis.ordersQueue with
  | [] => true
  | p :: rest =>
      match matchPlaced p (s.setQueue rest) with
      | (.error _, _) => true
      | (.ok r, _) => (s.setQueue rest).persists p &&
          (s.pg.orders p.orderId).all fun o => o.status.isActive && decide (r.remainingQty ≠ 0)

theorem indexGuard_work {s : Store} (h : guardsIndex s = true) : IndexGuard s .work := by
  intro p rest hqueue _ r s₁ hmatch _
  unfold guardsIndex at h
  simp only [hqueue, hmatch, Bool.and_eq_true] at h
  refine ⟨fun o ho _ => ?_, fun _ _ hnot => ?_⟩
  · have ho : s.pg.orders p.orderId = some o := ho
    have hstays := h.2
    rw [ho, Option.all_some, Bool.and_eq_true, decide_eq_true_eq] at hstays
    exact ⟨fun _ _ => hstays.1, fun _ hzero => absurd hzero hstays.2, fun _ _ => .inl hstays.1⟩
  · exact absurd (hnot.symm.trans h.1) Bool.false_ne_true

/-- Four units are asked for, ten are bid for, and what is left of the bid is cancelled. -/
def restsAndGoesRun : List Request :=
  [.place 1 (limitDto .sell 4 10), .work, .place 2 (limitDto .buy 10 10), .work, .cancel 2 2]

theorem run_indexed_restsAndGoes :
    Run.Along Store.serve (fun s req => IndexAgrees (s.serve req)) twoUsers restsAndGoesRun :=
  run_indexed _ _ _ ⟨fun _ => ⟨rfl, rfl⟩, indexGuard_work (by decide +kernel), fun _ => ⟨rfl, rfl⟩,
    indexGuard_work (by decide +kernel), trivial, trivial⟩

/-- One unit is asked for, and it is bought at once. -/
def boughtAtOnceRun : List Request :=
  [.place 1 (limitDto .sell 1 10), .work, .place 2 (limitDto .buy 1 10), .work]

/-- **A bid that has been filled stays open in the index**, though nothing is queued. -/
theorem filledStaysOpen : ¬ Run.Along Store.serve (fun s req =>
    (s.serve req).redis.ordersQueue = [] → IndexAgrees (s.serve req)) twoUsers boughtAtOnceRun := by
  rintro ⟨-, -, -, h, -⟩
  have h : (twoUsers.serveAll boughtAtOnceRun).redis.ordersQueue = [] →
    IndexAgrees (twoUsers.serveAll boughtAtOnceRun) := h
  have hlisted : 2 ∈ (twoUsers.serveAll boughtAtOnceRun).redis.userOpenOrders 2 := by decide +kernel
  have hstatus : ((twoUsers.serveAll boughtAtOnceRun).pg.orders 2).map Order.status = some .filled := by
    decide +kernel
  obtain ⟨o, ho, hactive, -⟩ := ((h (by decide +kernel)).user 2 2).mp hlisted
  rw [ho, Option.map_some, Option.some.injEq] at hstatus
  rw [hstatus] at hactive
  exact absurd hactive Bool.false_ne_true

end SpotExchange.Exchange
