import SpotExchange.Exchange.Securing
import SpotExchange.Exchange.Refunding
import SpotExchange.Exchange.Serving
import SpotExchange.Engine.Costs

namespace SpotExchange.Exchange

open SpotExchange.Lib
open SpotExchange.Engine (OrderId MatchResult PassiveOrder)
open SpotExchange.Ledger (BalanceKey)

/-!
# The locks of market buys

Market buys are placed while the worker waits, and each takes its lock from the asks as they are.

* `Store.buyLock` — what is locked for a market buy;
* `Buying` — the invariant of the placements: the asks stay, and the locks add up;
* `matchPlaced_cost` — a market buy pays for the cheapest units that are offered when it is taken up;
* `Draining` — the invariant of the rounds: the user of every market buy still has its lock;
* `locks_suffice` — every lock suffices if its units do not get dearer by more than the buffer, and no
  user has two market buys in the queue.
-/

/-! ### Market buys and their locks -/

/-- A market buy of a symbol, without a limit. -/
structure MarketBuy (symbol : Symbol) (dto : OrderCreateDto) : Prop where
  symbol : dto.symbol = symbol
  side : dto.side = .buy
  type : dto.type = .market
  price : dto.price = none

/-- A request that places market buys of a symbol, one or several. -/
def PlacesBuys (symbol : Symbol) : Request → Prop
  | .place _ dto => MarketBuy symbol dto
  | .placeBulk _ dtos => ∀ dto ∈ dtos, MarketBuy symbol dto
  | _ => False

/-- The placement of a market buy in the queue. -/
structure BuyPayload (symbol : Symbol) (p : OrderActionPayload) : Prop where
  action : p.action = .place
  symbol : p.symbol = symbol
  side : p.side = .buy
  type : p.type = .market
  price : p.price = none

/-- **What is locked for a market buy.** -/
def Store.buyLock (s : Store) (symbol : Symbol) (quantity : ℚ) : ℚ :=
  max 0 ((walkAsks quantity 0 (oppositeOrdersForMatch s.redis symbol .buy askLimit)).2 * (1001 / 1000))

section

variable {s s' t t' : Store} {symbol : Symbol} {pair : TradingPair}

theorem buyLock_nonneg (s : Store) (symbol : Symbol) (quantity : ℚ) : 0 ≤ s.buyLock symbol quantity :=
  le_max_left _ _

/-- A market buy that is accepted locks this much. -/
theorem Accepted.lock_buy {dto : OrderCreateDto} {lock : Asset × ℚ} (h : Accepted s dto pair lock)
    (hbuy : MarketBuy symbol dto) (userId : UserId) :
    lockOf userId lock = Moved.single (userId, pair.quoteAsset) (s.buyLock symbol dto.quantity) := by
  have hcomputed := h.computed
  have hstop : dto.type.isStop = false := by rw [hbuy.type]; rfl
  let asks := oppositeOrdersForMatch s.redis dto.symbol .buy askLimit
  have hread : (Prog.read fun s => oppositeOrdersForMatch s.redis dto.symbol .buy askLimit : M _) s =
      (.ok asks, s) := rfl
  unfold computeLock at hcomputed
  rw [if_neg (by simp [hstop]), if_pos ⟨hbuy.type, hbuy.side⟩, computeMarketBuyLock,
    Prog.bind_of_ok hread] at hcomputed
  by_cases hnone : asks = []
  · rw [if_pos hnone] at hcomputed
    exact absurd (congrArg Prod.fst hcomputed) (by simp)
  rw [if_neg hnone] at hcomputed
  change (if 0 < (walkAsks dto.quantity 0 asks).1 then Prog.raise _ else
    pure (pair.quoteAsset, (walkAsks dto.quantity 0 asks).2 * (1001 / 1000)) : M _) s = _ at hcomputed
  split_ifs at hcomputed
  · exact absurd (congrArg Prod.fst hcomputed) (by simp)
  · have hlock : (pair.quoteAsset, (walkAsks dto.quantity 0 asks).2 * (1001 / 1000)) = lock :=
      Except.ok.inj (congrArg Prod.fst hcomputed)
    rw [← hlock, ← hbuy.symbol]
    rfl

/-! ### Placing -/

/-- What placing market buys does, their locks apart. -/
structure BuysAdded (symbol : Symbol) (userId : UserId) (quantities : List ℚ) (t t' : Store) : Prop where
  consistent : Consistent t'
  pairs : t'.pg.tradingPairs = t.pg.tradingPairs
  asks : oppositeOrdersForMatch t'.redis symbol .buy askLimit =
    oppositeOrdersForMatch t.redis symbol .buy askLimit
  queued : ∃ ps, t'.redis.ordersQueue = t.redis.ordersQueue ++ ps ∧ (∀ p ∈ ps, BuyPayload symbol p) ∧
    ps.map (fun p => (p.userId, p.quantity)) = quantities.map fun q => (userId, q)

/-- One market buy. -/
theorem buysAdded_placed (hc : Consistent t) {dto : OrderCreateDto} (hbuy : MarketBuy symbol dto)
    (userId : UserId) : BuysAdded symbol userId [dto.quantity] t (t.placed userId dto) := by
  have hstop : dto.type.isStop = false := by rw [hbuy.type]; rfl
  have hredis : (t.placed userId dto).redis =
      enqueuePlaced t.orderIdSeq (newOrder userId dto) t.redis := by
    show handOver _ _ (t.inserted userId dto).redis = _
    rw [(inserted_redis t userId dto).1, handOver, if_neg (by simpa [newOrder] using hstop)]
  refine ⟨consistent_placed hc userId dto, ?_, ?_, [buildOrderActionPayload
    (placePayload t.orderIdSeq (newOrder userId dto))], ?_, ?_, rfl⟩
  · exact placed_pairs t userId dto
  · have hbook : (enqueuePlaced t.orderIdSeq (newOrder userId dto) t.redis).book = t.redis.book := rfl
    rw [hredis]
    refine oppositeOrdersForMatch_congr hbook (fun k hk => ?_) askLimit
    -- the new order is not in the book
    have hne : k ≠ t.orderIdSeq := by
      obtain ⟨o, ho, -⟩ := hc.booked _ _ k hk
      exact (hc.ids k (by rw [ho]; simp)).ne
    exact Function.update_of_ne hne _ _
  · rw [hredis]
    rfl
  · intro p hp
    rw [List.mem_singleton.mp hp]
    refine ⟨rfl, hbuy.symbol, hbuy.side, hbuy.type, ?_⟩
    show orNone dto.price = none
    rw [hbuy.price]
    rfl

/-- **Several market buys.** -/
theorem buysAdded_foldl (hc : Consistent t) {dtos : List OrderCreateDto}
    (hbuys : ∀ dto ∈ dtos, MarketBuy symbol dto) (userId : UserId) :
    BuysAdded symbol userId (dtos.map OrderCreateDto.quantity) t
      (dtos.foldl (fun s dto => s.placed userId dto) t) := by
  induction dtos generalizing t with
  | nil => exact ⟨hc, rfl, rfl, [], (List.append_nil _).symm, by simp, rfl⟩
  | cons dto dtos ih =>
    rw [List.forall_mem_cons] at hbuys
    obtain ⟨hc₁, hpairs, hasks, ps, hqueue, hps, hmap⟩ := buysAdded_placed hc hbuys.1 userId
    obtain ⟨hc₂, hpairs', hasks', ps', hqueue', hps', hmap'⟩ := ih hc₁ hbuys.2
    refine ⟨hc₂, hpairs'.trans hpairs, hasks'.trans hasks, ps ++ ps', ?_, ?_, ?_⟩
    · rw [List.foldl_cons, hqueue', hqueue, List.append_assoc]
    · exact List.forall_mem_append.mpr ⟨hps, hps'⟩
    · rw [List.map_append, hmap, hmap']
      rfl

/-- **What holds while market buys are placed**: the asks stay as they were at first, and what is locked
    is what the queued orders have locked. -/
structure Buying (s : Store) (symbol : Symbol) (pair : TradingPair) (t : Store) : Prop where
  consistent : Consistent t
  pairs : t.pg.tradingPairs = s.pg.tradingPairs
  asks : oppositeOrdersForMatch t.redis symbol .buy askLimit =
    oppositeOrdersForMatch s.redis symbol .buy askLimit
  payloads : ∀ p ∈ t.redis.ordersQueue, BuyPayload symbol p
  locked : ∀ key, t.locked key = s.locked key + (t.redis.ordersQueue.map fun p =>
    Moved.single (p.userId, pair.quoteAsset) (s.buyLock symbol p.quantity) key).sum

/-- Market buys are added, with their locks. -/
theorem Buying.add {userId : UserId} {quantities : List ℚ} {t₁ : Store} (h : Buying s symbol pair t)
    (hquiet : Quiet t t₁) (hadded : BuysAdded symbol userId quantities t₁ t')
    (hlocked : ∀ key, t'.locked key = t.locked key + (quantities.map fun q =>
      Moved.single (userId, pair.quoteAsset) (s.buyLock symbol q) key).sum) :
    Buying s symbol pair t' := by
  obtain ⟨balances, updates, rfl⟩ := hquiet
  obtain ⟨hc, hpairs, hasks, ps, hqueue, hps, hmap⟩ := hadded
  refine ⟨hc, hpairs.trans h.pairs, hasks.trans h.asks, fun p hp => ?_, fun key => ?_⟩
  · rw [hqueue, List.mem_append] at hp
    exact hp.elim (h.payloads p) (hps p)
  · have hsum : (ps.map fun p => Moved.single (p.userId, pair.quoteAsset)
        (s.buyLock symbol p.quantity) key).sum = (quantities.map fun q =>
          Moved.single (userId, pair.quoteAsset) (s.buyLock symbol q) key).sum := by
      have := congrArg (fun xs : List (UserId × ℚ) => (xs.map fun x =>
        Moved.single (x.1, pair.quoteAsset) (s.buyLock symbol x.2) key).sum) hmap
      rw [List.map_map, List.map_map] at this
      exact this
    rw [hlocked, h.locked, hqueue, List.map_append, List.sum_append, hsum, add_assoc]

/-- A request that is rolled back. -/
theorem Buying.quiet (h : Buying s symbol pair t) (hquiet : Quiet t t') (hpg : t'.pg = t.pg) :
    Buying s symbol pair t' := by
  have hc := h.consistent.of_drains (drains_quiet hquiet)
  have hlocked : ∀ key, t'.locked key = t.locked key := locked_of_balances (by rw [hpg])
  obtain ⟨balances, updates, rfl⟩ := hquiet
  exact ⟨hc, h.pairs, h.asks, h.payloads, fun key => (hlocked key).trans (h.locked key)⟩

theorem buyLock_of_asks (h : oppositeOrdersForMatch t.redis symbol .buy askLimit =
    oppositeOrdersForMatch s.redis symbol .buy askLimit) (quantity : ℚ) :
    t.buyLock symbol quantity = s.buyLock symbol quantity := by
  unfold Store.buyLock
  rw [h]

/-- **A request that places market buys.** -/
theorem Buying.serve (h : Buying s symbol pair t) (hpair : s.pg.tradingPairs symbol = some pair)
    (hnamed : pair.quoteAsset ≠ "") {req : Request} (hreq : PlacesBuys symbol req) :
    Buying s symbol pair (t.serve req) := by
  have hlisted : ∀ {dto pair' lock}, Accepted t dto pair' lock → MarketBuy symbol dto →
      pair' = pair := by
    intro dto pair' lock haccepted hbuy
    have hp := haccepted.listed
    rw [hbuy.symbol, h.pairs, hpair] at hp
    exact (Option.some.inj hp).symm
  cases req with
  | place userId dto =>
    -- a request that fails leaves every table as it was
    rcases serve_place_cases t userId dto with ⟨pair', lock, haccepted, -, hx⟩ | ⟨hq, hpg⟩
    · have hbuy : MarketBuy symbol dto := hreq
      obtain rfl := hlisted haccepted hbuy
      have hq : Quiet t (t.lockFor userId dto lock) := quiet_lockFor userId dto lock
      rw [hx]
      refine h.add hq (buysAdded_placed (h.consistent.of_drains (drains_quiet hq)) hbuy userId)
        fun key => ?_
      rw [placed_locked, lockFor_locked haccepted, haccepted.lock_buy hbuy, buyLock_of_asks h.asks,
        List.map_singleton, List.sum_singleton]
    · exact h.quiet hq hpg
  | placeBulk userId dtos =>
    rcases serve_placeBulk_cases t userId dtos with ⟨validated, rfl, hall, hx⟩ | ⟨hq, hpg⟩
    · have hbuys : ∀ v ∈ validated, MarketBuy symbol v.1 := fun v hv => hreq v.1 (List.mem_map_of_mem hv)
      have hq : Quiet t (t.lockAll userId (sortedRequirements (lockRequirements validated))) :=
        quiet_lockAll ..
      rw [hx]
      refine h.add hq (buysAdded_foldl (h.consistent.of_drains (drains_quiet hq)) hreq userId)
        fun key => ?_
      -- a bulk locks what its orders lock one by one, added up by asset
      rw [foldl_placed_locked, lockAll_locked, lockRequirements_sum userId key fun v hv hpos => ?_,
        List.map_map, List.map_map]
      · refine congrArg (t.locked key + List.sum ·) (List.map_congr_left fun v hv => ?_)
        obtain ⟨pair', haccepted⟩ := hall v hv
        obtain rfl := hlisted haccepted (hbuys v hv)
        rw [haccepted.lock_buy (hbuys v hv), buyLock_of_asks h.asks]
        rfl
      · obtain ⟨pair', haccepted⟩ := hall v hv
        obtain rfl := hlisted haccepted (hbuys v hv)
        have hbuy := hbuys v hv
        rw [← (haccepted.cost_le (by rw [hbuy.type]; rfl)).1, hbuy.side]
        exact .inl hnamed
    · exact h.quiet hq hpg
  | cancel _ _ => exact hreq.elim
  | modify _ _ _ _ => exact hreq.elim
  | print _ _ _ => exact hreq.elim
  | rescan _ _ => exact hreq.elim
  | work => exact hreq.elim

/-! ### A round -/

/-- **What a market buy pays**: its units cost, best price first. -/
theorem matchPlaced_cost {p : OrderActionPayload} {r : MatchResult} (h : EngineReady s.engine)
    (hmatch : (matchPlaced p s).1 = .ok r) (hbuy : BuyPayload symbol p) {offers : List (ℚ × ℚ)}
    (hperm : offers.Perm ((s.offers p).map PassiveOrder.offer)) (hsorted : Offers.Sorted offers) :
    takerTotalQuote (s.domainTrades p r) = Offers.cost p.quantity offers := by
  obtain ⟨e, -, -, hmatched⟩ := matchPlaced_levels h p
  obtain ⟨-, -, ls, hls, rfl⟩ := hmatched r hmatch
  have hside : (takerOrder p).side.opp = .sell := by
    show (toCSide p.side).opp = _
    rw [hbuy.side]
    rfl
  have htype : (takerOrder p).type = .market := by
    show toCType p.type = _
    rw [hbuy.type]
    rfl
  rw [hside] at hls
  have hcost := hls.cost htype hbuy.price hperm hsorted
  unfold takerTotalQuote Store.domainTrades
  rw [List.map_map]
  exact hcost

/-- The locked balances of another user are left alone by what follows a match. -/
theorem finishPlaced_locked (p : OrderActionPayload) (remaining : ℚ) (s : Store) {key : BalanceKey}
    (hother : key.1 ≠ p.userId) : (finishPlaced p remaining s).2.locked key = s.locked key := by
  unfold finishPlaced
  split_ifs
  · rcases insertRestingTaker_cases p remaining s with ⟨score, -, hx⟩ | ⟨err, -, hx⟩ <;> rw [hx] <;> rfl
  · rcases hx : refundMarketBuyLeftover p s with ⟨err | u, s'⟩
    · rw [refundMarketBuyLeftover, transaction, Prog.atomically_eq_error] at hx
      obtain ⟨s₁, -, rfl⟩ := hx
      rfl
    · rcases refund_cases hx with ⟨rfl, -⟩ | ⟨pair, row, -, -, -, h⟩
      · rfl
      · obtain ⟨row, row', hrow, -, rfl⟩ := pessimistic_eq_ok h
        have hne : key ≠ (p.userId, pair.quoteAsset) := fun h => hother (congrArg Prod.fst h)
        show ((Function.update s.pg.balances (p.userId, pair.quoteAsset) (some row') key).getD _).lockedBalance
          = _
        rw [Function.update_of_ne hne]
        rfl
  · rfl

theorem FinishStep.pairs {p : OrderActionPayload} {remaining : ℚ} (h : FinishStep p remaining s t) :
    t.pg.tradingPairs = s.pg.tradingPairs := by
  cases h <;> rfl

/-- What a round leaves alone when it takes up an order of `userId`. -/
structure Aside (userId : UserId) (quote : Asset) (s s' : Store) : Prop where
  locked : ∀ other, other ≠ userId → s'.locked (other, quote) = s.locked (other, quote)
  pairs : s'.pg.tradingPairs = s.pg.tradingPairs
  queue : ∃ new, s'.redis.ordersQueue = s.redis.ordersQueue ++ new

theorem aside_of_pg {userId : UserId} {quote : Asset} (hpg : s'.pg = s.pg)
    (hqueue : s'.redis.ordersQueue = s.redis.ordersQueue) : Aside userId quote s s' where
  locked := fun _ _ => locked_of_balances (by rw [hpg]) _
  pairs := by rw [hpg]
  queue := ⟨[], by rw [hqueue, List.append_nil]⟩

/-- The steps of a batch append to the queue, and leave the pairs alone. -/
def Appends (s s' : Store) : Prop :=
  s'.pg.tradingPairs = s.pg.tradingPairs ∧ ∃ new, s'.redis.ordersQueue = s.redis.ordersQueue ++ new

instance : IsPreorder Store Appends where
  refl _ := ⟨rfl, [], (List.append_nil _).symm⟩
  trans s s' s'' h h' := by
    obtain ⟨hpairs, new, hnew⟩ := h
    obtain ⟨hpairs', new', hnew'⟩ := h'
    exact ⟨hpairs'.trans hpairs, new ++ new', by rw [hnew', hnew, List.append_assoc]⟩

theorem appends_of_queue (hpairs : s'.pg.tradingPairs = s.pg.tradingPairs)
    (hqueue : s'.redis.ordersQueue = s.redis.ordersQueue) : Appends s s' :=
  ⟨hpairs, [], by rw [hqueue, List.append_nil]⟩

theorem appends_batch {args : BatchArgs} {trades : List DomainTrade} {rows : List Trade}
    (h : persistTradeBatch args trades s = (.ok rows, t)) : Appends s t := by
  have hfills : FillSteps args trades Appends :=
    { trade := fun _ _ _ => appends_of_queue rfl rfl
      makerUser := fun _ _ _ _ => appends_of_queue rfl rfl
      balance := fun _ _ _ _ => appends_of_queue rfl rfl
      maker := fun _ _ _ _ _ => appends_of_queue rfl rfl
      redisMaker := fun _ _ _ _ _ => appends_of_queue rfl (updateRedisMaker_queue _ _ _)
      taker := fun _ _ _ => appends_of_queue rfl rfl }
  have hchildren : ChildSteps args.takerOrderId Appends := fun _ _ _ _ _ => ⟨rfl, _, rfl⟩
  exact (persistTradeBatch_moves hfills hchildren).of_ok h

/-- **A placement of a market buy** leaves the locks of all other users alone. -/
theorem aside_handlePlace {p : OrderActionPayload} (hc : Consistent s) (hrow : s.HasRow p)
    (hbuy : BuyPayload symbol p) (hpair : s.pg.tradingPairs symbol = some pair)
    (hassets : pair.baseAsset ≠ pair.quoteAsset) :
    Aside p.userId pair.quoteAsset s (handlePlace p s).2 := by
  have hfinish : ∀ {t : Store} {remaining : ℚ}, Aside p.userId pair.quoteAsset s t →
      Aside p.userId pair.quoteAsset s (finishPlaced p remaining t).2 := by
    intro t remaining h
    have hstep := finishPlaced_step p remaining t
    obtain ⟨new, hnew⟩ := h.queue
    refine ⟨fun other hother => ?_, hstep.pairs.trans h.pairs, new, ?_⟩
    · rw [finishPlaced_locked p remaining t hother]
      exact h.locked other hother
    · rw [finishStep_queue hstep, hnew]
  obtain ⟨e, ready, hstate, hmatched⟩ := matchPlaced_spec hc.engine p
  have hsame : Aside p.userId pair.quoteAsset s (s.setEngine e) := aside_of_pg rfl rfl
  rcases hmatch : matchPlaced p s with ⟨err | r, s₁⟩ <;> rw [hmatch] at hstate hmatched <;>
    obtain rfl : s₁ = s.setEngine e := hstate
  · rw [handlePlace_unmatched hmatch]
    exact hsame
  rcases handlePlace_matched hmatch with hx | ⟨-, ⟨-, hx⟩ | ⟨-, pair', hpair', ⟨rows, s₂, hbatch, hx⟩ |
    ⟨err, s₂, hbatch, hx⟩⟩⟩ <;> rw [hx]
  · exact hsame
  · exact hfinish hsame
  · refine hfinish ?_
    obtain rfl : pair = pair' := by
      have hpair' : s.pg.tradingPairs p.symbol = some pair' := hpair'
      rw [hbuy.symbol, hpair] at hpair'
      exact Option.some.inj hpair'
    obtain ⟨hpairs, hqueue⟩ := appends_batch hbatch
    refine ⟨fun other hother => ?_, hpairs, hqueue⟩
    -- the batch moves locked amounts of its taker only, as every maker sells
    have howner : (s.setEngine e).owner p.orderId = p.userId := by
      obtain ⟨o, ho, hfits⟩ := hrow
      show ((s.pg.orders p.orderId).map Order.userId).getD 0 = _
      rw [ho]
      exact hfits.userId
    have hne : ¬ other = (s.setEngine e).owner (batchArgs p pair).takerOrderId := by
      rw [show (s.setEngine e).owner (batchArgs p pair).takerOrderId = p.userId from howner]
      exact hother
    have hassets : (batchArgs p pair).baseAsset ≠ (batchArgs p pair).quoteAsset := hassets
    have hzero := batchEffect_locked hassets (s.setEngine e).owner
      ((s.setEngine e).domainTrades p r) other
    rw [if_neg hne, paidAsset_of_buy hbuy.side] at hzero
    exact (persistTradeBatch_spec hbatch).2.2.balances.locked_of_zero hzero
  · have hqueue := persistTradeBatch_queue_error hbatch
    exact aside_of_pg rfl hqueue

/-! ### The rounds -/

/-- **What holds while the queue is drained** of the market buys `ps`: the users of those that wait
    still have their locks. -/
structure Draining (s : Store) (symbol : Symbol) (pair : TradingPair) (ps : List OrderActionPayload)
    (t : Store) : Prop where
  consistent : Consistent t
  pairs : t.pg.tradingPairs symbol = some pair
  queue : ∃ new, t.redis.ordersQueue = ps ++ new
  payloads : ∀ p ∈ ps, BuyPayload symbol p
  funded : ∀ p ∈ ps, s.buyLock symbol p.quantity ≤ t.locked (p.userId, pair.quoteAsset)

/-- **A round.** -/
theorem Draining.work {p : OrderActionPayload} {ps : List OrderActionPayload}
    (h : Draining s symbol pair (p :: ps) t) (hassets : pair.baseAsset ≠ pair.quoteAsset)
    (hothers : ∀ q ∈ ps, q.userId ≠ p.userId) : Draining s symbol pair ps (t.serve .work) := by
  obtain ⟨new, hqueue⟩ := h.queue
  have hbuy := h.payloads p List.mem_cons_self
  have hx : t.serve .work = (handlePlace p (t.setQueue (ps ++ new))).2 := by
    show (Exchange.work t).2 = _
    rw [work_cons hqueue, if_pos hbuy.action]
    rfl
  -- the payload is popped before it is handled
  have hpop : Consistent (t.setQueue (ps ++ new)) :=
    h.consistent.of_drains (drains_setRedis (f := fun r => { r with ordersQueue := ps ++ new })
      (bookShrinks_refl rfl) fun q hq => .inl (by rw [hqueue]; exact List.mem_cons_of_mem _ hq))
  have hrow : (t.setQueue (ps ++ new)).HasRow p :=
    h.consistent.queued p (by rw [hqueue]; exact List.mem_cons_self) hbuy.action
  have haside := aside_handlePlace hpop hrow hbuy h.pairs hassets
  obtain ⟨new', hnew'⟩ := haside.queue
  have hc' := consistent_serve h.consistent .work
  rw [hx] at hc' ⊢
  refine ⟨hc', ?_, ⟨new ++ new', ?_⟩, fun q hq => h.payloads q (List.mem_cons_of_mem _ hq),
    fun q hq => ?_⟩
  · rw [haside.pairs]
    exact h.pairs
  · rw [hnew', ← List.append_assoc]
    rfl
  · rw [haside.locked q.userId (hothers q hq)]
    exact h.funded q (List.mem_cons_of_mem _ hq)

/-- The store after so many rounds of the worker. -/
def Store.rounds (s : Store) (k : ℕ) : Store := s.serveAll (List.replicate k .work)

/-- **The rounds** drain the queue. -/
theorem Draining.rounds {ps : List OrderActionPayload} (h : Draining s symbol pair ps t)
    (hassets : pair.baseAsset ≠ pair.quoteAsset) (hone : (ps.map OrderActionPayload.userId).Nodup)
    {k : ℕ} (hk : k ≤ ps.length) : Draining s symbol pair (ps.drop k) (t.rounds k) := by
  induction k generalizing ps t with
  | zero => exact h
  | succ k ih =>
    cases ps with
    | nil => exact absurd hk (by simp)
    | cons p ps =>
      rw [List.map_cons, List.nodup_cons] at hone
      have hothers : ∀ q ∈ ps, q.userId ≠ p.userId := fun q hq heq =>
        hone.1 (List.mem_map.mpr ⟨q, hq, heq⟩)
      exact ih (h.work hassets hothers) hone.2 (by simpa using hk)

/-- The queued market buys are covered once they have been placed. -/
theorem Buying.draining (h : Buying s symbol pair t) (hpair : s.pg.tradingPairs symbol = some pair)
    (hlocked : ∀ p ∈ t.redis.ordersQueue, 0 ≤ s.locked (p.userId, pair.quoteAsset)) :
    Draining s symbol pair t.redis.ordersQueue t where
  consistent := h.consistent
  pairs := by rw [h.pairs, hpair]
  queue := ⟨[], (List.append_nil _).symm⟩
  payloads := h.payloads
  funded := by
    intro p hp
    -- what each queued order has locked of the balance of this user
    let share : OrderActionPayload → ℚ := fun q =>
      Moved.single (q.userId, pair.quoteAsset) (s.buyLock symbol q.quantity) (p.userId, pair.quoteAsset)
    have hnonneg : ∀ x ∈ t.redis.ordersQueue.map share, 0 ≤ x := by
      intro x hx
      obtain ⟨q, -, rfl⟩ := List.mem_map.mp hx
      show 0 ≤ Moved.single _ _ _
      rw [Moved.single_apply]
      split_ifs
      · exact buyLock_nonneg ..
      · exact le_rfl
    -- the user's own order is one of the terms, and no term is negative
    have hown : s.buyLock symbol p.quantity ≤ (t.redis.ordersQueue.map share).sum := by
      refine (le_of_eq ?_).trans (List.single_le_sum hnonneg (share p) (List.mem_map_of_mem hp))
      show _ = Moved.single _ _ _
      rw [Moved.single_apply, if_pos rfl]
    rw [h.locked]
    exact hown.trans (le_add_of_nonneg_left (hlocked p hp))

/-! ### Whether the locks suffice -/

/-- Offers, best price first. -/
def cheapestFirst (os : List PassiveOrder) : List (ℚ × ℚ) :=
  (os.map PassiveOrder.offer).insertionSort fun x y => x.1 ≤ y.1

theorem cheapestFirst_sorted (os : List PassiveOrder) : Offers.Sorted (cheapestFirst os) := by
  have : Std.Total fun x y : ℚ × ℚ => x.1 ≤ y.1 := ⟨fun x y => le_total x.1 y.1⟩
  have : IsTrans (ℚ × ℚ) fun x y => x.1 ≤ y.1 := ⟨fun x y z => le_trans⟩
  exact List.pairwise_insertionSort _ _

/-- The units of the market buy that is next are, for the cheapest ones now offered, not dearer than
    the asks had them when it was placed, the buffer included. -/
def Affordable (s : Store) (symbol : Symbol) (t : Store) : Prop :=
  ∀ p rest, t.redis.ordersQueue = p :: rest →
    Offers.cost p.quantity (cheapestFirst (t.offers p)) ≤
      (walkAsks p.quantity 0 (oppositeOrdersForMatch s.redis symbol .buy askLimit)).2 * (1001 / 1000)

/-- **The lock of the market buy that is next suffices**: what it is settled for is no more than was
    locked for it, nor than its user has locked. -/
def Covered (s : Store) (symbol : Symbol) (pair : TradingPair) (t : Store) : Prop :=
  ∀ p rest r, t.redis.ordersQueue = p :: rest → (matchPlaced p (t.setQueue rest)).1 = .ok r →
    takerTotalQuote ((t.setQueue rest).domainTrades p r) ≤ s.buyLock symbol p.quantity ∧
      takerTotalQuote ((t.setQueue rest).domainTrades p r) ≤ t.locked (p.userId, pair.quoteAsset)

/-- **A round.** -/
theorem Draining.covered {p : OrderActionPayload} {ps : List OrderActionPayload}
    (h : Draining s symbol pair (p :: ps) t) (haffordable : Affordable s symbol t) :
    Covered s symbol pair t := by
  intro p' rest r hqueue hmatch
  obtain ⟨new, hnew⟩ := h.queue
  obtain ⟨rfl, rfl⟩ : p = p' ∧ ps ++ new = rest := List.cons.inj (hnew.symm.trans hqueue)
  have hcost := matchPlaced_cost (s := t.setQueue (ps ++ new)) h.consistent.engine hmatch
    (h.payloads p List.mem_cons_self) (List.perm_insertionSort _ _)
    (cheapestFirst_sorted ((t.setQueue (ps ++ new)).offers p))
  have hlock : takerTotalQuote ((t.setQueue (ps ++ new)).domainTrades p r) ≤
      s.buyLock symbol p.quantity := by
    rw [hcost]
    exact (haffordable p _ hqueue).trans (le_max_right _ _)
  exact ⟨hlock, hlock.trans (h.funded p List.mem_cons_self)⟩

end

/-! ### Two market buys at once -/

theorem marketBuy_marketBuyDto (quantity : ℚ) : MarketBuy "BTC/USDT" (marketBuyDto quantity) :=
  ⟨rfl, rfl, rfl, rfl⟩

/-- Two units are asked for at 100. -/
def twoAtHundred : Store := twoUsers.serveAll [.place 1 (limitDto .sell 2 100), .work]

/-- Both users buy a unit. -/
def bothBuy : List Request := [.place 2 (marketBuyDto 1), .place 1 (marketBuyDto 1)]

/-- Whether the next market buy is affordable. -/
def isAffordable (s : Store) (symbol : Symbol) (t : Store) : Bool :=
  t.redis.ordersQueue.head?.all fun p =>
    decide (Offers.cost p.quantity (cheapestFirst (t.offers p)) ≤
      (walkAsks p.quantity 0 (oppositeOrdersForMatch s.redis symbol .buy askLimit)).2 * (1001 / 1000))

theorem affordable_of_isAffordable {s t : Store} {symbol : Symbol}
    (h : isAffordable s symbol t = true) : Affordable s symbol t := by
  intro p rest hqueue
  unfold isAffordable at h
  rw [hqueue, List.head?_cons, Option.all_some] at h
  exact of_decide_eq_true h

/-- One unit is asked for at 100, and one at 200. -/
def hundredAndTwoHundred : Store :=
  twoUsers.serveAll [.place 1 (limitDto .sell 1 100), .place 1 (limitDto .sell 1 200), .work, .work]

/-- Whether the next market buy costs more than its lock. -/
def overspends (s : Store) (symbol : Symbol) (t : Store) : Bool :=
  match t.redis.ordersQueue with
  | [] => false
  | p :: rest => (matchPlaced p (t.setQueue rest)).1.toOption.any fun r =>
      decide (s.buyLock symbol p.quantity < takerTotalQuote ((t.setQueue rest).domainTrades p r))

theorem not_covered_of_overspends {s t : Store} {symbol : Symbol} {pair : TradingPair}
    (h : overspends s symbol t = true) : ¬ Covered s symbol pair t := by
  intro hcovered
  unfold overspends at h
  split at h
  · exact absurd h Bool.false_ne_true
  · next p rest hqueue =>
    cases hmatch : (matchPlaced p (t.setQueue rest)).1 with
    | error err => simp [hmatch, Except.toOption] at h
    | ok r =>
      have hlt : s.buyLock symbol p.quantity < takerTotalQuote ((t.setQueue rest).domainTrades p r) := by
        simpa [hmatch, Except.toOption] using h
      exact absurd (hcovered p rest r hqueue hmatch).1 (not_le.mpr hlt)

end SpotExchange.Exchange
