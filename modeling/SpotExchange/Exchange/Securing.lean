import SpotExchange.Exchange.Pushing
import SpotExchange.Exchange.Queued

namespace SpotExchange.Exchange

open SpotExchange.Lib
open SpotExchange.Engine (OrderId MatchResult)
open SpotExchange.Ledger (BalanceKey)

/-!
# What reaches the matcher

* `Secured` — whatever a request queues to be placed is no stop, comes from a stop only when that has
  fired, and has had its cost locked;
* `Guarded` — the requests of which this holds: no fill completes an order that has pending children,
  and what the monitor selects has fired;
* `run_secured` — every request of a run that is guarded is secured;
* `secured_stopLoss` — a stop-loss child is matched as a market order, at once and without a lock.
-/

/-! ### What a request should queue -/

/-- The queue that a request appends to: the worker has taken the oldest action. -/
def Store.queueBefore (s : Store) : Request → List OrderActionPayload
  | .work => s.redis.ordersQueue.tail
  | _ => s.redis.ordersQueue

/-- The trigger of a stop: of a trailing stop the current one. -/
def triggerPrice (r : Redis) (id : OrderId) (order : Order) : Option ℚ :=
  if order.type = .trailingStop then
    ((r.trailingState id).map TrailingState.currentTrigger).or order.stopPrice
  else order.stopPrice

/-- A stop of a symbol has fired at a price. -/
def Fired (r : Redis) (symbol : Symbol) (price : ℚ) (id : OrderId) (order : Order) : Prop :=
  order.symbol = symbol ∧ ∃ trigger ∈ triggerPrice r id order, fires order.side trigger price

/-- The stop has fired at the price that a request brings. -/
def FiredBy (s : Store) (req : Request) (id : OrderId) (order : Order) : Prop :=
  match req with
  | .print m symbol price => Fired (trailingUpdate m symbol price s.redis) symbol price id order
  | .rescan symbol lastPrice => Fired s.redis symbol lastPrice id order
  | _ => False

/-- **What holds of the placements that a request queues.** -/
structure Pushes (s : Store) (req : Request) (new : List OrderActionPayload) : Prop where
  type : ∀ p ∈ new, p.type.isStop = false
  fired : ∀ p ∈ new, ∀ id ∈ p.parentOrderId, ∀ order ∈ s.pg.orders id, order.type.isStop = true →
    FiredBy s req id order
  locked : new ≠ [] → ∀ key, (new.map fun p => s.worstCase p key).sum ≤
    (s.serve req).locked key - s.locked key

/-- **A request is secured**: this holds of all that it queues to be placed. -/
def Secured (s : Store) (req : Request) : Prop :=
  ∃ new, (s.serve req).redis.ordersQueue = s.queueBefore req ++ new ∧
    Pushes s req (new.filter fun p => p.action = .place)

/-! ### Which requests do -/

/-- What a match fills of the order of a placement. -/
def Store.matchedQuantity (s : Store) (p : OrderActionPayload) : ℚ :=
  p.quantity - Engine.remainingFor (takerOrder p) (s.crossingVolume p)

/-- An order has no pending children. -/
def Store.NoPending (s : Store) (parentId : OrderId) : Prop :=
  ∀ id, ∀ child ∈ s.pg.orders id, child.parentOrderId = some parentId → child.status ≠ .pending

/-- **The requests that are guarded.** -/
def Guarded (s : Store) (req : Request) : Prop :=
  match req with
  | .placeBulk _ dtos => ∀ dto ∈ dtos, ∀ pair ∈ s.pg.tradingPairs dto.symbol,
      pair.baseAsset ≠ "" ∧ pair.quoteAsset ≠ ""
  | .print m symbol price =>
      let r := trailingUpdate m symbol price s.redis
      ∀ x ∈ r.stops symbol ++ r.trailing symbol, min 0 (price * scoreMultiplier) ≤ x.1 →
        ∀ order ∈ s.pg.orders x.2, order.status = .pending → FiredBy s req x.2 order
  | .rescan symbol lastPrice => ∀ id, ∀ order ∈ s.pg.orders id, order.symbol = symbol →
      order.type = .trailingStop → order.status = .pending → shouldTrigger order lastPrice = true →
        FiredBy s req id order
  | .work => ∀ p ∈ s.redis.ordersQueue.head?, p.action = .place → ∀ order ∈ s.pg.orders p.orderId,
      s.matchedQuantity p = 0 ∨ s.NoPending p.orderId ∨
        (order.filledAsTaker (s.matchedQuantity p) 0).status ≠ .filled
  | _ => True

section

variable {s t t' : Store}

/-! ### Nothing, or only placements -/

theorem Secured.of_none {req : Request} (new : List OrderActionPayload)
    (hqueue : (s.serve req).redis.ordersQueue = s.queueBefore req ++ new)
    (hnone : ∀ p ∈ new, p.action ≠ .place) : Secured s req := by
  refine ⟨new, hqueue, ?_⟩
  rw [List.filter_eq_nil_iff.mpr (by simpa using hnone)]
  exact ⟨by simp, by simp, fun h => absurd rfl h⟩

theorem Secured.of_pushes {req : Request} (new : List OrderActionPayload)
    (hqueue : (s.serve req).redis.ordersQueue = s.queueBefore req ++ new)
    (hplace : ∀ p ∈ new, p.action = .place) (h : Pushes s req new) : Secured s req := by
  refine ⟨new, hqueue, ?_⟩
  rwa [List.filter_eq_self.mpr (by simpa using hplace)]

/-- A request that raises queues nothing. -/
theorem Secured.of_quiet {req : Request} (hbefore : s.queueBefore req = s.redis.ordersQueue)
    (h : Quiet s (s.serve req)) : Secured s req := by
  refine .of_none [] ?_ (by simp)
  obtain ⟨balances, updates, hx⟩ := h
  rw [hx, hbefore, List.append_nil]

/-! ### A placement, and a bulk -/

/-- What placing orders queues. -/
theorem placed_pushes (userId : UserId) {validated : List (OrderCreateDto × (Asset × ℚ))}
    (hall : ∀ v ∈ validated, ∃ pair, Accepted s v.1 pair v.2) (t : Store) :
    ∃ new, ((validated.map Prod.fst).foldl (fun s dto => s.placed userId dto) t).redis.ordersQueue =
        t.redis.ordersQueue ++ new ∧
      (∀ p ∈ new, p.action = .place ∧ p.type.isStop = false ∧ p.parentOrderId = none) ∧
      ∀ key, (new.map fun p => s.worstCase p key).sum ≤
        (validated.map fun v => lockOf userId v.2 key).sum := by
  induction validated generalizing t with
  | nil => exact ⟨[], (List.append_nil _).symm, by simp, fun _ => le_rfl⟩
  | cons v validated ih =>
    rw [List.forall_mem_cons] at hall
    obtain ⟨pair, haccepted⟩ := hall.1
    -- induction on the bulk: each order pushes one payload at most
    obtain ⟨new, hqueue, hnew, hsum⟩ := ih hall.2 (t.placed userId v.1)
    have hplaced : (t.placed userId v.1).redis.ordersQueue = t.redis.ordersQueue ++
        if v.1.type.isStop then [] else
          [buildOrderActionPayload (placePayload t.orderIdSeq (newOrder userId v.1))] := by
      show (handOver _ _ (t.inserted userId v.1).redis).ordersQueue = _
      rw [handOver_queue, (inserted_redis t userId v.1).1]
      rfl
    refine ⟨(if v.1.type.isStop then [] else
      [buildOrderActionPayload (placePayload t.orderIdSeq (newOrder userId v.1))]) ++ new, ?_, ?_,
        fun key => ?_⟩
    · rw [List.map_cons, List.foldl_cons, hqueue, hplaced, List.append_assoc]
    · intro p hp
      rcases List.mem_append.mp hp with hp | hp
      · split_ifs at hp with hstop
        · exact absurd hp List.not_mem_nil
        · rw [List.mem_singleton.mp hp]
          exact ⟨rfl, Bool.eq_false_iff.mpr hstop, rfl⟩
      · exact hnew p hp
    · rw [List.map_append, List.sum_append, List.map_cons, List.sum_cons]
      refine add_le_add ?_ (hsum key)
      split_ifs with hstop
      -- a stop order locks and is not queued
      · exact lockOf_nonneg userId v.2 key
      · rw [List.map_singleton, List.sum_singleton]
        exact haccepted.worstCase_le (by simpa using hstop) userId _ key

theorem foldl_placed_locked (userId : UserId) (dtos : List OrderCreateDto) (t : Store)
    (key : BalanceKey) :
    (dtos.foldl (fun s dto => s.placed userId dto) t).locked key = t.locked key := by
  induction dtos generalizing t with
  | nil => rfl
  | cons dto dtos ih => exact (ih _).trans (placed_locked userId dto key)

/-- **Orders that are placed together** are secured by their locks. -/
theorem secured_placed {req : Request} (hbefore : s.queueBefore req = s.redis.ordersQueue)
    (userId : UserId) (validated : List (OrderCreateDto × (Asset × ℚ)))
    (hall : ∀ v ∈ validated, ∃ pair, Accepted s v.1 pair v.2) (hquiet : Quiet s t)
    (hlocked : ∀ key, t.locked key =
      s.locked key + (validated.map fun v => lockOf userId v.2 key).sum)
    (hserve : s.serve req = (validated.map Prod.fst).foldl (fun s dto => s.placed userId dto) t) :
    Secured s req := by
  obtain ⟨new, hqueue, hnew, hsum⟩ := placed_pushes userId hall t
  obtain ⟨balances, updates, rfl⟩ := hquiet
  refine .of_pushes new (by rw [hserve, hqueue, hbefore]) (fun p hp => (hnew p hp).1) ?_
  refine ⟨fun p hp => (hnew p hp).2.1, fun p hp id hid => ?_, fun _ key => ?_⟩
  · rw [(hnew p hp).2.2] at hid
    exact absurd hid (by simp)
  · rw [hserve, foldl_placed_locked, hlocked, add_sub_cancel_left]
    exact hsum key

theorem secured_place (s : Store) (userId : UserId) (dto : OrderCreateDto) :
    Secured s (.place userId dto) := by
  rcases serve_place s userId dto with ⟨pair, lock, haccepted, -, hx⟩ | hq
  · refine secured_placed rfl userId [(dto, lock)] (t := s.lockFor userId dto lock)
      (by simpa using ⟨pair, haccepted⟩) (quiet_lockFor userId dto lock) (fun key => ?_) hx
    rw [lockFor_locked haccepted, List.map_singleton, List.sum_singleton]
  · exact .of_quiet rfl hq

theorem secured_placeBulk (s : Store) (userId : UserId) (dtos : List OrderCreateDto)
    (h : Guarded s (.placeBulk userId dtos)) : Secured s (.placeBulk userId dtos) := by
  rcases serve_placeBulk s userId dtos with ⟨validated, rfl, hall, hx⟩ | hq
  · refine secured_placed rfl userId _ hall (quiet_lockAll userId _) (fun key => ?_) hx
    rw [lockAll_locked, lockRequirements_sum userId key fun v hv hpos => ?_]
    obtain ⟨pair, haccepted⟩ := hall v hv
    obtain ⟨hbase, hquote⟩ := h v.1 (List.mem_map_of_mem hv) pair haccepted.listed
    exact .inl (haccepted.lock_named hbase hquote hpos)
  · exact .of_quiet rfl hq

/-! ### Triggers -/

theorem oppositeOrdersForMatch_congr {r r' : Redis} {symbol : Symbol} {side : OrderSide}
    (hbook : r'.book = r.book)
    (hhash : ∀ id ∈ (r.book symbol side.opposite).members, r'.orderHash id = r.orderHash id)
    (limit : ℕ) :
    oppositeOrdersForMatch r' symbol side limit = oppositeOrdersForMatch r symbol side limit := by
  unfold oppositeOrdersForMatch
  rw [hbook]
  refine List.filterMap_congr fun x hx => ?_
  have hmem : x ∈ r.book symbol side.opposite := by
    cases side
    · exact List.mem_of_mem_take hx
    · exact List.mem_reverse.mp (List.mem_of_mem_take hx)
  rw [hhash x.2 (List.mem_map_of_mem hmem)]

theorem replaceStop_hash {k childId : OrderId} (hk : k ≠ childId) (stopId : OrderId)
    (isTrailing : Bool) (child : Order) (r : Redis) :
    (replaceStop stopId isTrailing childId child r).orderHash k = r.orderHash k := by
  unfold replaceStop
  split_ifs <;> exact Function.update_of_ne hk _ _

/-- What triggers have queued since `s`, and what they have left as it was. -/
structure Triggered (s : Store) (req : Request) (new : List OrderActionPayload) (t : Store) :
    Prop where
  consistent : Consistent t
  queue : t.redis.ordersQueue = s.redis.ordersQueue ++ new
  place : ∀ p ∈ new, p.action = .place ∧ p.type.isStop = false
  fired : ∀ p ∈ new, ∀ id ∈ p.parentOrderId, ∀ order ∈ s.pg.orders id, FiredBy s req id order
  locked : ∀ key, (new.map fun p => s.worstCase p key).sum ≤ t.locked key - s.locked key
  asks : ∀ symbol, oppositeOrdersForMatch t.redis symbol .buy askLimit =
    oppositeOrdersForMatch s.redis symbol .buy askLimit
  pairs : t.pg.tradingPairs = s.pg.tradingPairs
  rows : ∀ id order, t.pg.orders id = some order → order.status = .pending →
    s.pg.orders id = some order

/-- What the order of a triggered stop may cost has been locked. -/
theorem worstCase_triggered {order : Order} {pair : TradingPair} {lock : Asset × ℚ}
    (hpair : s.pg.tradingPairs order.symbol = some pair)
    (hlock : triggerLock order pair (oppositeOrdersForMatch s.redis order.symbol .buy askLimit) =
      some lock) (hpos : 0 < lock.2) (stopId childId : OrderId) (key : BalanceKey) :
    s.worstCase (buildOrderActionPayload (triggeredPayload stopId childId
        (triggeredChild stopId order))) key ≤ Moved.single (order.userId, lock.1) lock.2 key := by
  obtain ⟨hasset, hcost⟩ := triggerLock_covers hlock
  rw [max_eq_right hpos.le] at hcost
  have hworst : s.worstCase (buildOrderActionPayload (triggeredPayload stopId childId
      (triggeredChild stopId order))) =
        Moved.single (order.userId, lock.1) (orderCost pair (oppositeOrdersForMatch s.redis order.symbol
          .buy askLimit) order.side (childTerms order).1 (childTerms order).2 order.quantity).2 := by
    -- the payload writes a missing price as none, which costs the same
    have hprice : orderCost pair (oppositeOrdersForMatch s.redis order.symbol .buy askLimit) order.side
        (childTerms order).1 (orNone (childTerms order).2) order.quantity =
          orderCost pair (oppositeOrdersForMatch s.redis order.symbol .buy askLimit) order.side
            (childTerms order).1 (childTerms order).2 order.quantity := by
      unfold orderCost
      rw [orNone_getD]
    unfold Store.worstCase
    show (s.pg.tradingPairs order.symbol).elim 0 _ = _
    rw [hpair, ← hasset, ← hprice]
    rfl
  rw [hworst]
  exact single_le_single hcost key

/-- **One trigger**, of a stop that has fired. -/
theorem Triggered.tryTrigger {req : Request} {new : List OrderActionPayload}
    (h : Triggered s req new t) (isTrailing : Bool) (id : OrderId)
    (hfired : ∀ order, s.pg.orders id = some order → order.status = .pending → FiredBy s req id order) :
    ∃ new', Triggered s req new' (tryTrigger isTrailing id t).2 := by
  have hconsistent := consistent_monitor.tryTrigger isTrailing id t h.consistent
  obtain ⟨t', hx, hcases⟩ := triggerStopOrder_cases id isTrailing t
  have hx' : Exchange.tryTrigger isTrailing id t = (.ok ⟨⟩, t') := by
    unfold Exchange.tryTrigger Prog.tryExcept
    rw [hx]
  rw [hx'] at hconsistent ⊢
  rcases hcases with rfl | ⟨key, rfl⟩ | ⟨order, pair, lock, horder, hpending, hpair, hlock, hpos, -, rfl⟩
  · exact ⟨new, h⟩
  · refine ⟨new, hconsistent, ?_, h.place, h.fired, fun key' => ?_, fun symbol => ?_, ?_, ?_⟩
    all_goals obtain ⟨balances, updates, hq⟩ := quiet_withRow t key
    · rw [hq]
      exact h.queue
    · show _ ≤ (t.withRow key).locked key' - _
      rw [locked_withRow]
      exact h.locked key'
    · rw [hq]
      exact h.asks symbol
    · rw [hq]
      exact h.pairs
    · rw [hq]
      exact h.rows
  · have hrow := h.rows id order horder hpending
    let p := buildOrderActionPayload (triggeredPayload id t.orderIdSeq (triggeredChild id order))
    have hchild : p.type.isStop = false := triggeredChild_isStop id order
    refine ⟨new ++ [p], hconsistent, ?_, fun q hq => ?_, fun q hq k hk order' horder' => ?_,
      fun key => ?_, fun symbol => ?_, h.pairs, fun k o ho hp => ?_⟩
    · show (replaceStop id isTrailing t.orderIdSeq (triggeredChild id order)
        (t.converted id order lock).redis).ordersQueue = _
      rw [replaceStop_queue]
      show t.redis.ordersQueue ++ [p] = _
      rw [h.queue, List.append_assoc]
    · rcases List.mem_append.mp hq with hq | hq
      · exact h.place q hq
      · rw [List.mem_singleton.mp hq]
        exact ⟨rfl, hchild⟩
    · rcases List.mem_append.mp hq with hq | hq
      · exact h.fired q hq k hk order' horder'
      · rw [List.mem_singleton.mp hq] at hk
        obtain rfl : id = k := Option.some.inj hk
        obtain rfl : order = order' := Option.some.inj (hrow.symm.trans horder')
        exact hfired order hrow hpending
    -- what the trigger locks covers the child's worst case
    · have hmoved : (t.trigger id order lock isTrailing).locked key =
          t.locked key + Moved.single (order.userId, lock.1) lock.2 key :=
        locked_moveBalance t (order.userId, lock.1) key lock.2
          (lockUpdate (order.userId, lock.1) (-lock.2) .stopTriggered (some id))
      rw [h.pairs] at hpair
      rw [h.asks] at hlock
      have hcost := worstCase_triggered hpair hlock hpos id t.orderIdSeq key
      have hbefore := h.locked key
      show _ ≤ (t.trigger id order lock isTrailing).locked key - _
      rw [List.map_append, List.sum_append, List.map_singleton, List.sum_singleton, hmoved]
      linarith
    · refine (oppositeOrdersForMatch_congr ?_ (fun k hk => ?_) askLimit).trans (h.asks symbol)
      · exact replaceStop_book id isTrailing t.orderIdSeq (triggeredChild id order)
          (t.converted id order lock).redis
      · -- the child is not in the book
        have hne : k ≠ t.orderIdSeq := by
          obtain ⟨o, ho, -⟩ := h.consistent.booked _ _ k hk
          exact (h.consistent.ids k (by rw [ho]; simp)).ne
        exact replaceStop_hash hne id isTrailing (triggeredChild id order) _
    · have ho : Function.update (Function.update t.pg.orders id
          (some { order with status := .filled, version := order.version + 1 })) t.orderIdSeq
            (some (triggeredChild id order)) k = some o := ho
      by_cases hseq : k = t.orderIdSeq
      · rw [hseq, Function.update_self] at ho
        rw [← Option.some.inj ho] at hp
        exact absurd hp (by simp [triggeredChild])
      · rw [Function.update_of_ne hseq] at ho
        by_cases hk : k = id
        · rw [hk, Function.update_self] at ho
          rw [← Option.some.inj ho] at hp
          exact absurd hp (by simp)
        · rw [Function.update_of_ne hk] at ho
          exact h.rows k o ho hp

/-- Several triggers, of stops that have fired. -/
theorem triggered_forEach {req : Request} {isTrailing : Bool} {ids : List OrderId}
    (hfired : ∀ id ∈ ids, ∀ order, s.pg.orders id = some order → order.status = .pending →
      FiredBy s req id order) :
    Prog.Moves (Prog.Preserves fun t => ∃ new, Triggered s req new t)
      (Prog.forEach ids (tryTrigger isTrailing)) :=
  Prog.Moves.forEach fun id hid _ ⟨_, h⟩ => h.tryTrigger isTrailing id (hfired id hid)

theorem Triggered.secured {req : Request} (new : List OrderActionPayload)
    (h : Triggered s req new (s.serve req)) (hbefore : s.queueBefore req = s.redis.ordersQueue) :
    Secured s req :=
  .of_pushes new (h.queue.trans (by rw [hbefore])) (fun p hp => (h.place p hp).1)
    ⟨fun p hp => (h.place p hp).2, fun p hp id hid order ho _ => h.fired p hp id hid order ho,
      fun _ => h.locked⟩

/-! ### The monitor -/

/-- A trailing update queues nothing and moves no order. -/
theorem triggered_update (h : Consistent s) (req : Request) (m : StopMonitor) (symbol : Symbol)
    (price : ℚ) : Triggered s req [] (s.setRedis (trailingUpdate m symbol price)) := by
  obtain ⟨trailing, states, hx⟩ := trailingUpdate_eq m symbol price s.redis
  have hset : s.setRedis (trailingUpdate m symbol price) =
      s.setRedis fun r => { r with trailing := trailing, trailingState := states } := by
    unfold Store.setRedis
    rw [hx]
  rw [hset]
  exact
    { consistent := h.of_drains (drains_setRedis (bookShrinks_refl rfl) fun _ h => .inl h)
      queue := (List.append_nil _).symm
      place := by simp
      fired := by simp
      locked := fun key => (sub_self _).ge
      asks := fun _ => rfl
      pairs := rfl
      rows := fun _ _ ho _ => ho }

theorem secured_print (h : Consistent s) (m : StopMonitor) (symbol : Symbol) (price : ℚ)
    (hguard : Guarded s (.print m symbol price)) : Secured s (.print m symbol price) := by
  let req := Request.print m symbol price
  let r := trailingUpdate m symbol price s.redis
  have hstart := triggered_update h req m symbol price
  -- what is selected has fired
  have hselected : ∀ z, (∀ x ∈ z, x ∈ r.stops symbol ++ r.trailing symbol) →
      ∀ id ∈ aroundScore z (price * scoreMultiplier), ∀ order, s.pg.orders id = some order →
        order.status = .pending → FiredBy s req id order := by
    intro z hz id hid order horder hpending
    obtain ⟨x, hx, rfl, hle⟩ := mem_aroundScore.mp hid
    exact hguard x (hz x hx) hle order horder hpending
  have h₁ := (triggered_forEach (hselected (r.stops symbol) fun x hx =>
    List.mem_append_left _ hx)).of_ok (forEach_tryTrigger false _ _) ⟨[], hstart⟩
  obtain ⟨new, h₂⟩ := (triggered_forEach (hselected (r.trailing symbol) fun x hx =>
    List.mem_append_right _ hx)).of_ok (forEach_tryTrigger true _ _) h₁
  have hserve : Triggered s req new (s.serve req) := by
    rw [serve_print]
    exact h₂
  exact hserve.secured _ rfl

theorem fires_of_shouldTrigger {order : Order} {price : ℚ} (h : shouldTrigger order price = true) :
    ∃ stop ∈ order.stopPrice, fires order.side stop price := by
  unfold shouldTrigger orNone at h
  obtain ⟨stop, hstop, hcond⟩ := (Option.any_eq_true _ _).mp h
  refine ⟨stop, (Option.filter_eq_some_iff.mp hstop).1, ?_⟩
  cases hside : order.side <;> rw [hside] at hcond <;> exact of_decide_eq_true hcond

theorem secured_rescan (h : Consistent s) (symbol : Symbol) (lastPrice : ℚ)
    (hguard : Guarded s (.rescan symbol lastPrice)) : Secured s (.rescan symbol lastPrice) := by
  have hstart : Triggered s (.rescan symbol lastPrice) [] s :=
    { consistent := h
      queue := (List.append_nil _).symm
      place := by simp
      fired := by simp
      locked := fun key => (sub_self _).ge
      asks := fun _ => rfl
      pairs := rfl
      rows := fun _ _ ho _ => ho }
  have hselected : ∀ id ∈ rescanSelected s.pg s.orderIdSeq symbol lastPrice, ∀ order,
      s.pg.orders id = some order → order.status = .pending →
        FiredBy s (.rescan symbol lastPrice) id order := by
    intro id hid order horder hpending
    simp only [rescanSelected, List.mem_filter, horder, Option.any_some, Bool.and_eq_true,
      decide_eq_true_eq] at hid
    obtain ⟨-, ⟨⟨hsymbol, -⟩, -⟩, hshould⟩ := hid
    by_cases htype : order.type = .trailingStop
    · exact hguard id order horder hsymbol htype hpending hshould
    · -- of any other stop the monitor compares the stop price
      refine ⟨hsymbol, ?_⟩
      unfold triggerPrice
      rw [if_neg htype]
      exact fires_of_shouldTrigger hshould
  obtain ⟨new, hnew⟩ := triggered_forEach hselected s ⟨[], hstart⟩
  exact Triggered.secured new hnew rfl

/-! ### A batch whose taker activates no children -/

/-- The queue, the order of a taker, and that it has no pending children. -/
def KeepsTaker (taker : OrderId) (s s' : Store) : Prop :=
  s'.redis.ordersQueue = s.redis.ordersQueue ∧ s'.pg.orders taker = s.pg.orders taker ∧
    (s.NoPending taker → s'.NoPending taker)

instance (taker : OrderId) : IsPreorder Store (KeepsTaker taker) where
  refl _ := ⟨rfl, rfl, id⟩
  trans _ _ _ h h' := ⟨h'.1.trans h.1, h'.2.1.trans h.2.1, fun hn => h'.2.2 (h.2.2 hn)⟩

/-- Balances only. -/
private theorem keepsTaker_settle (taker : OrderId) (args : BatchArgs) (isTaker : Bool)
    (userId : UserId) (orderId : OrderId) (qty quoteQty : ℚ) :
    Prog.Moves (KeepsTaker taker) (settleTradeBalances args isTaker userId orderId qty quoteQty) :=
  settleTradeBalances_moves (fun _ _ _ _ => ⟨rfl, rfl, id⟩) args isTaker userId orderId qty quoteQty

theorem NoPending.putOrder {parentId id : OrderId} {order : Order} (h : s.NoPending parentId)
    (hstatus : order.status ≠ .pending) : (s.putOrder id order).NoPending parentId := by
  intro k child hchild
  by_cases hk : k = id
  · subst hk
    obtain rfl : order = child := by simpa using hchild
    exact fun _ => hstatus
  · exact h k child (by simpa [hk] using hchild)

/-- A maker that is not the taker. -/
private theorem keepsTaker_settleMaker {taker : OrderId} {args : BatchArgs} {d : FillDelta}
    (hd : d.makerId ≠ taker) (first : ℕ) : Prog.Moves (KeepsTaker taker) (settleMaker args first d) := by
  intro s
  cases horder : s.pg.orders d.makerId with
  | none =>
    rw [settleMaker_none horder]
    exact refl_of (KeepsTaker taker) s
  | some order =>
    have hstatus : (order.filledAsMaker d.qty d.quoteQty).status ≠ .pending := fun h =>
      absurd h (by simp only [Order.filledAsMaker]; split_ifs <;> simp)
    have hfill : KeepsTaker taker s (s.fillMaker first d order) :=
      ⟨rfl, Function.update_of_ne hd.symm _ _, fun h => NoPending.putOrder h hstatus⟩
    have hredis : Prog.Moves (KeepsTaker taker)
        (onRedis (updateRedisMaker d.makerId (order.filledAsMaker d.qty d.quoteQty))) :=
      Prog.moves_modify fun s => ⟨updateRedisMaker_queue _ _ _, rfl, id⟩
    rw [settleMaker_apply horder]
    exact trans_of (KeepsTaker taker) hfill
      (((keepsTaker_settle taker args false order.userId d.makerId d.qty d.quoteQty).bind
        fun _ => hredis) _)

/-- Without pending children there is nothing to activate. -/
private theorem activateSltpChildren_noPending {parentId : OrderId} (h : s.NoPending parentId) :
    (activateSltpChildren parentId s).2 = s := by
  let ids := (List.range s.orderIdSeq).filter fun id =>
    (s.pg.orders id).any fun order => order.parentOrderId = some parentId
  show (Prog.forEach ids (activateChild parentId) s).2 = s
  have hids : ∀ id ∈ ids, activateChild parentId id s = (.ok ⟨⟩, s) := by
    intro id hid
    rcases activateChild_apply parentId id s with hx | ⟨child, hchild, hpending, -⟩
    · exact hx
    · have hparent := (List.mem_filter.mp hid).2
      rw [hchild, Option.any_some, decide_eq_true_eq] at hparent
      exact absurd hpending (h id child hchild hparent)
  clear_value ids
  induction ids with
  | nil => rfl
  | cons id ids ih =>
    rw [List.forall_mem_cons] at hids
    rw [Prog.forEach_cons, Prog.bind_of_ok hids.1]
    exact ih hids.2

/-- **A batch that completes no order with pending children** queues nothing. -/
theorem persistTradeBatch_queue {args : BatchArgs} {trades : List DomainTrade} {rows : List Trade}
    {order : Order} (h : persistTradeBatch args trades s = (.ok rows, t))
    (horder : s.pg.orders args.takerOrderId = some order)
    (hmakers : ∀ t ∈ trades, t.makerOrderId ≠ args.takerOrderId)
    (hkeep : s.NoPending args.takerOrderId ∨
      (order.filledAsTaker (takerTotalQty trades) 0).status ≠ .filled) :
    t.redis.ordersQueue = s.redis.ordersQueue := by
  by_cases hne : trades = []
  · subst hne
    exact congrArg (fun x => x.2.redis.ordersQueue) h.symm
  obtain ⟨s₁, s₂, hinsert, hdeltas, htaker⟩ := persistTradeBatch_eq_ok hne h
  have h₁ : KeepsTaker args.takerOrderId s s₁ :=
    (insertTrades_moves (R := KeepsTaker args.takerOrderId) fun _ _ _ => ⟨rfl, rfl, id⟩).of_ok hinsert
  have h₂ : KeepsTaker args.takerOrderId s s₂ := by
    refine trans_of (KeepsTaker args.takerOrderId) h₁ ((Prog.Moves.forEach fun d hd => ?_).of_ok hdeltas)
    obtain ⟨t, ht, hid⟩ := mem_makerFillDeltas hd
    exact keepsTaker_settleMaker (by rw [← hid]; exact hmakers t ht) _
  obtain ⟨hqueue, hrow, hchildren⟩ := h₂
  -- the taker
  rw [settleTaker_apply (hrow.trans horder)] at htaker
  obtain ⟨_, s₃, hb, htaker⟩ := Prog.bind_eq_ok.mp htaker
  have h₃ := (keepsTaker_settle args.takerOrderId args true order.userId args.takerOrderId
    (takerTotalQty trades) (takerTotalQuote trades)).of_ok hb
  have hqueue₃ : s₃.redis.ordersQueue = s.redis.ordersQueue := h₃.1.trans hqueue
  rcases Prog.whenever_eq_ok.mp htaker with ⟨-, rfl⟩ | ⟨hfilled, htaker⟩
  · exact hqueue₃
  · have hfilled : (order.filledAsTaker (takerTotalQty trades) 0).status = .filled := hfilled
    -- a filled taker without pending children activates none
    have hnone := hkeep.resolve_right fun hnot => hnot hfilled
    have hnone₃ : s₃.NoPending args.takerOrderId :=
      h₃.2.2 (NoPending.putOrder (hchildren hnone) (by
        show (order.filledAsTaker (takerTotalQty trades) 0).status ≠ .pending
        rw [hfilled]
        simp))
    have hstate := activateSltpChildren_noPending hnone₃
    rw [htaker] at hstate
    rw [show t = s₃ from hstate]
    exact hqueue₃

/-! ### A round of the worker -/

/-- What a match fills of the taker, in its trades. -/
theorem Matched.takerTotalQty {p : OrderActionPayload} {r : MatchResult} (h : Matched p s r) :
    takerTotalQty (s.domainTrades p r) = s.matchedQuantity p := by
  have htotal : (r.trades.map Engine.TradeResult.quantity).sum = p.quantity - r.remainingQty :=
    h.facts.total
  have hremaining : r.remainingQty = Engine.remainingFor (takerOrder p) (s.crossingVolume p) :=
    h.facts.remaining
  unfold Exchange.takerTotalQty Store.domainTrades Store.matchedQuantity
  rw [List.map_map, ← hremaining, ← htotal]
  rfl

theorem finishStep_queue {p : OrderActionPayload} {remaining : ℚ} (h : FinishStep p remaining s t) :
    t.redis.ordersQueue = s.redis.ordersQueue := by
  cases h <;> rfl

/-- **A placement** that completes no order with pending children queues nothing. -/
theorem placeStep_queue {p : OrderActionPayload} (hconsistent : Consistent s) (hrow : s.HasRow p)
    (hguard : ∀ order ∈ s.pg.orders p.orderId, s.matchedQuantity p = 0 ∨ s.NoPending p.orderId ∨
      (order.filledAsTaker (s.matchedQuantity p) 0).status ≠ .filled) (hstep : PlaceStep p s t) :
    t.redis.ordersQueue = s.redis.ordersQueue := by
  cases hstep with
  | unmatched e _ => rfl
  | undone e _ r _ pair _ err s₁ hbatch =>
    have hkeeps : s₁.redis.ordersQueue = (s.setEngine e).redis.ordersQueue :=
      persistTradeBatch_queue_error hbatch
    exact hkeeps
  | untraded e _ r _ _ _ _ finish =>
    rw [finishStep_queue finish]
    rfl
  | traded e _ r hmatched _ pair _ rows s₂ hbatch _ finish =>
    rw [finishStep_queue finish]
    have hmakers : ∀ t ∈ s.domainTrades p r, t.makerOrderId ≠ (batchArgs p pair).takerOrderId :=
      fun t ht => hmatched.maker_ne hconsistent hrow ht
    obtain ⟨order, horder, -⟩ := hrow
    rcases hguard order horder with hzero | hkeep
    · -- there are no trades
      have hnil : s.domainTrades p r = [] := by
        by_contra hne
        have hpos : 0 < takerTotalQty (s.domainTrades p r) :=
          List.sum_pos _ (by simpa using hmatched.trade_pos) (by simpa using hne)
        rw [hmatched.takerTotalQty, hzero] at hpos
        exact lt_irrefl 0 hpos
      rw [hnil] at hbatch
      exact congrArg (fun x => x.2.redis.ordersQueue) hbatch.symm
    · rw [← hmatched.takerTotalQty] at hkeep
      have hkeeps : s₂.redis.ordersQueue = (s.setEngine e).redis.ordersQueue :=
        persistTradeBatch_queue hbatch horder hmakers hkeep
      exact hkeeps

theorem secured_work (h : Consistent s) (hguard : Guarded s .work) : Secured s .work := by
  rcases work_cases h.engine with ⟨hqueue, hx⟩ | ⟨p, rest, s', hqueue, hx, hcases⟩
  · refine .of_none [] ?_ (by simp)
    show (work s).2.redis.ordersQueue = s.redis.ordersQueue.tail ++ []
    rw [hx, hqueue]
    rfl
  · refine .of_none [] ?_ (by simp)
    show (work s).2.redis.ordersQueue = s.redis.ordersQueue.tail ++ []
    rw [hx, hqueue, List.append_nil]
    show s'.redis.ordersQueue = rest
    rcases hcases with ⟨-, rfl⟩ | ⟨hplace, hstep⟩
    · rfl
    · have hpop : Consistent (s.setQueue rest) :=
        h.of_drains (drains_setRedis (f := fun r => { r with ordersQueue := rest }) (bookShrinks_refl rfl)
          fun q hq => .inl (by rw [hqueue]; exact List.mem_cons_of_mem _ hq))
      have hrow := h.queued p (by rw [hqueue]; exact List.mem_cons_self) hplace
      exact placeStep_queue hpop hrow (hguard p (by rw [hqueue]; rfl) hplace) hstep

/-! ### Runs -/

/-- **One request** that is guarded. -/
theorem secured_serve (h : Consistent s) (req : Request) (hguard : Guarded s req) : Secured s req := by
  cases req with
  | place userId dto => exact secured_place s userId dto
  | placeBulk userId dtos => exact secured_placeBulk s userId dtos hguard
  | cancel userId orderId =>
    -- a cancellation queues one payload, which is no placement
    rcases serve_cancel s userId orderId with ⟨order, pair, s₁, -, -, -, -, -, hq, hx⟩ | hx
    · refine .of_none [buildOrderActionPayload (cancelPayload orderId order)] ?_ (by
        simp [buildOrderActionPayload, cancelPayload])
      obtain ⟨balances, updates, rfl⟩ := hq
      rw [hx]
      show (cleanUpCanceled orderId order _).ordersQueue ++ _ = _
      rw [cleanUpCanceled_queue]
      rfl
    · refine .of_none [] ?_ (by simp)
      rw [hx, List.append_nil]
      rfl
  | modify userId orderId newPrice newQuantity =>
    rcases serve_modify (fun order ho => (h.ids orderId (by rw [ho]; simp)).ne) userId newPrice
      newQuantity with ⟨old, s₁, hold, -, -, -, -, -, hq, hx⟩ | hq
    · refine .of_none [buildOrderActionPayload (modifyPayload orderId s₁.orderIdSeq
        (replacement orderId old newPrice newQuantity))] ?_ (by
          simp [buildOrderActionPayload, modifyPayload])
      obtain ⟨balances, updates, rfl⟩ := hq
      rw [hx]
      rfl
    · exact .of_quiet rfl hq
  | print m symbol price => exact secured_print h m symbol price hguard
  | rescan symbol lastPrice => exact secured_rescan h symbol lastPrice hguard
  | work => exact secured_work h hguard

end

/-- **Every request of a run that is guarded is secured.** -/
theorem run_secured (users : Finset UserId) (pairs : Symbol → Option TradingPair)
    (balances : BalanceKey → Option Ledger.Row) {reqs : List Request}
    (h : Run.Along Store.serve Guarded (Store.start users pairs balances) reqs) :
    Run.Along Store.serve Secured (Store.start users pairs balances) reqs :=
  h.mono (I := Consistent) (fun _ req hconsistent hguard =>
    ⟨consistent_serve hconsistent req, secured_serve hconsistent req hguard⟩)
      (consistent_start users pairs balances)

/-! ### A stop-loss child -/

/-- Deciding that the next round of the worker is guarded, by the volume of its match. -/
def guardsWork (s : Store) : Bool :=
  s.redis.ordersQueue.head?.all fun p => (s.pg.orders p.orderId).all fun order =>
    decide (s.matchedQuantity p = 0 ∨
      (order.filledAsTaker (s.matchedQuantity p) 0).status ≠ .filled)

theorem guarded_work {s : Store} (h : guardsWork s = true) : Guarded s .work := by
  intro p hp _ order horder
  unfold guardsWork at h
  rw [Option.mem_def.mp hp, Option.all_some, Option.mem_def.mp horder, Option.all_some,
    decide_eq_true_eq] at h
  exact h.imp_right .inr

/-- A buy order at 100 with a stop-loss at 90. -/
def protectedDto (quantity : ℚ) : OrderCreateDto :=
  { limitDto .buy quantity 100 with sl := some { type := .stopMarket, stopPrice := some 90 } }

/-- One unit is sold at 100; a buy order with a stop-loss takes it. -/
def stopLossRun (quantity : ℚ) : List Request :=
  [.place 1 (limitDto .sell 1 100), .place 2 (protectedDto quantity), .work, .work]

/-- **The stop-loss of an order that is filled** is queued to be matched at once: a market order, at
    100, with nothing locked for it. -/
theorem secured_stopLoss :
    ¬ Run.Along Store.serve Secured twoUsers (stopLossRun 1) := by
  intro h
  obtain ⟨-, -, -, ⟨new, hqueue, hpushes⟩, -⟩ := h
  have hafter : (twoUsers.serveAll (stopLossRun 1)).redis.ordersQueue.map
      (fun p => (p.action, p.type.isStop)) = [(.place, true)] := by decide +kernel
  have hbefore : (twoUsers.serveAll ((stopLossRun 1).take 3)).redis.ordersQueue.tail = [] := by
    decide +kernel
  have hqueue : (twoUsers.serveAll (stopLossRun 1)).redis.ordersQueue =
      (twoUsers.serveAll ((stopLossRun 1).take 3)).redis.ordersQueue.tail ++ new := hqueue
  rw [hbefore, List.nil_append] at hqueue
  rw [hqueue] at hafter
  obtain ⟨p, rfl, hp⟩ := List.map_eq_singleton_iff.mp hafter
  have htype := hpushes.type p (by simp [(Prod.mk.inj hp).1])
  exact absurd ((Prod.mk.inj hp).2.symm.trans htype) (by decide)

/-- An order that is only partly filled keeps its stop-loss back. -/
theorem run_secured_partlyFilled : Run.Along Store.serve Secured twoUsers (stopLossRun 2) :=
  run_secured _ _ _ ⟨trivial, trivial, guarded_work (by decide +kernel),
    guarded_work (by decide +kernel), trivial⟩

end SpotExchange.Exchange
