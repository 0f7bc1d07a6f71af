import SpotExchange.Exchange.Handling
import SpotExchange.Exchange.Orders

namespace SpotExchange.Exchange

open SpotExchange.Lib
open SpotExchange.Engine (OrderId)

/-!
# Scores

* `tick` — a price in units of `1 / PRICE_SCALE`, as the score keeps it;
* `decodeScore_encodeScore` — a score decodes to the rounded price and the sequence number;
* `restedPrice_exact_iff` — a maker is matched at its limit price exactly when that price is a whole
  number of ticks;
* `loadedOrder_iff` — makers are loaded in price-time priority exactly when …
-/

/-! ### Rounding -/

/-- The price in ticks, as `encode_score` rounds it. -/
def tick (price : ℚ) : ℤ := roundHalfEven (price * priceScale)

theorem roundHalfEven_intCast (n : ℤ) : roundHalfEven n = n := by
  simp [roundHalfEven]

theorem tick_of_multiple {price : ℚ} {k : ℤ} (h : price * priceScale = k) : tick price = k := by
  rw [tick, h, roundHalfEven_intCast]

/-- Rounding is the identity on whole numbers of ticks, and nowhere else. -/
theorem tick_exact_iff {price : ℚ} :
    (tick price : ℚ) / priceScale = price ↔ ∃ k : ℤ, price * priceScale = k := by
  have hscale : (priceScale : ℚ) ≠ 0 := by norm_num [priceScale]
  constructor
  · intro h
    exact ⟨tick price, ((div_eq_iff hscale).mp h).symm⟩
  · rintro ⟨k, hk⟩
    rw [tick_of_multiple hk, ← hk, mul_div_assoc, div_self hscale, mul_one]

/-! ### Encoding and decoding -/

theorem encodeScore_eq_ok {price score : ℚ} {seq : ℕ} (h : encodeScore price seq = .ok score) :
    0 ≤ price ∧ price ≤ 9200000000 ∧ seq < scoreMultiplier ∧
      score = tick price * scoreMultiplier + seq := by
  unfold encodeScore at h
  split_ifs at h with hneg hbig hseq
  exact ⟨not_lt.mp hneg, not_lt.mp hbig, hseq, (Except.ok.inj h).symm⟩

theorem encodeScore_of_le {price : ℚ} {seq : ℕ} (hnonneg : 0 ≤ price) (hle : price ≤ 9200000000)
    (hseq : seq < scoreMultiplier) :
    encodeScore price seq = .ok (tick price * scoreMultiplier + seq) := by
  unfold encodeScore
  rw [if_neg (not_lt.mpr hnonneg), if_neg (not_lt.mpr hle), if_neg (not_not.mpr hseq)]
  rfl

theorem Store.nextSeq_lt (s : Store) (symbol : Symbol) : s.nextSeq symbol < scoreMultiplier :=
  Nat.mod_lt _ (by norm_num [scoreMultiplier])

/-- **Decoding** what was encoded: the rounded price and the sequence number. -/
theorem decodeScore_encodeScore {price score : ℚ} {seq : ℕ} (h : encodeScore price seq = .ok score) :
    decodeScore score = ((tick price : ℚ) / priceScale, (seq : ℤ)) := by
  obtain ⟨-, -, hseq, rfl⟩ := encodeScore_eq_ok h
  have hint : ((tick price : ℚ) * scoreMultiplier + seq) =
      ((tick price * scoreMultiplier + seq : ℤ) : ℚ) := by push_cast; ring
  have hdiv : (tick price * scoreMultiplier + seq : ℤ) / (scoreMultiplier : ℤ) = tick price := by
    simp only [scoreMultiplier] at hseq ⊢
    omega
  rw [decodeScore, hint, roundHalfEven_intCast]
  simp only [hdiv]
  exact Prod.ext rfl (by ring)

/-! ### The book after an order has been rested -/

/-- What the matcher is given comes from an element of the ZSET with a HASH. -/
theorem mem_oppositeOrdersForMatch {r : Redis} {symbol : Symbol} {takerSide : OrderSide} {limit : ℕ}
    {o : BookOrder} (h : o ∈ oppositeOrdersForMatch r symbol takerSide limit) :
    ∃ x ∈ r.book symbol takerSide.opposite, ∃ hash, r.orderHash x.2 = some hash ∧
      o = bookOrder x hash := by
  obtain ⟨x, hx, hmap⟩ := List.mem_filterMap.mp h
  obtain ⟨hash, hhash, rfl⟩ := Option.map_eq_some_iff.mp hmap
  refine ⟨x, ?_, hash, hhash, rfl⟩
  cases takerSide with
  | buy => exact List.mem_of_mem_take hx
  | sell => exact List.mem_reverse.mp (List.mem_of_mem_take hx)

theorem addToBook_book (s : Store) (symbol : Symbol) (side : OrderSide) (score : ℚ) (id : OrderId) :
    (s.addToBook symbol side score id).redis.book symbol side =
      (s.redis.book symbol side).zadd memberKey score id := by
  simp [Store.addToBook, Store.setRedis, Redis.setBook]

/-- **A rested order** is loaded at its price in ticks. -/
theorem restedPrice {s s' : Store} {id : OrderId} {symbol : Symbol} {side : OrderSide} {price : ℚ}
    {n limit : ℕ} {o : BookOrder} (h : addRestingOrder id symbol side price s = (.ok n, s'))
    (ho : o ∈ oppositeOrdersForMatch s'.redis symbol side.opposite limit) (hid : o.orderId = id) :
    o.price = (tick price : ℚ) / priceScale := by
  rcases addRestingOrder_cases id symbol side price s with ⟨score, hscore, hx⟩ | ⟨err, -, hx⟩
  · obtain rfl : s' = (s.takeSeq symbol).addToBook symbol side score id :=
      congrArg Prod.snd (h.symm.trans hx)
    obtain ⟨x, hx, hash, -, rfl⟩ := mem_oppositeOrdersForMatch ho
    have hside : side.opposite.opposite = side := by cases side <;> rfl
    rw [hside, addToBook_book, SortedSet.mem_zadd] at hx
    rcases hx with rfl | ⟨-, hne⟩
    · show (decodeScore score).1 = _
      rw [decodeScore_encodeScore hscore]
    · exact absurd hid hne
  · exact absurd (congrArg Prod.fst (h.symm.trans hx)) (by simp)

/-- The price of a trade is the price that its maker was loaded with. -/
theorem tradePrice_of_loaded {s s' : Store} (hready : EngineReady s.engine)
    {payload : OrderActionPayload} {r : Engine.MatchResult}
    (h : matchPlaced payload s = (.ok r, s')) {t : Engine.TradeResult} (ht : t ∈ r.trades) :
    ∃ o ∈ oppositeOrdersForMatch s.redis payload.symbol payload.side makerLimit,
      o.orderId = t.makerOrderId ∧ o.price = t.price := by
  obtain ⟨e, -, -, hfacts⟩ := matchPlaced_spec hready payload
  obtain ⟨-, -, hfacts⟩ := hfacts r (congrArg Prod.fst h)
  obtain ⟨o, ho, q, -, -, rfl⟩ := hfacts.trade t ht
  obtain ⟨b, hb, rfl⟩ := List.mem_map.mp (List.mem_of_mem_filter ho)
  exact ⟨b, hb, rfl, rfl⟩

/-- **A maker is matched, settled and recorded at its limit price exactly when that price is a whole
    number of ticks.** -/
theorem restedPrice_exact_iff {s s' : Store} {id : OrderId} {symbol : Symbol} {side : OrderSide}
    {price : ℚ} {n : ℕ} {o : BookOrder} (hready : EngineReady s.engine)
    (h : addRestingOrder id symbol side price s = (.ok n, s'))
    (ho : o ∈ oppositeOrdersForMatch s'.redis symbol side.opposite makerLimit) (hid : o.orderId = id) :
    (o.price = price ∧
      ∀ payload r s'', payload.symbol = symbol → payload.side = side.opposite →
        matchPlaced payload s' = (.ok r, s'') → ∀ t ∈ r.trades, t.makerOrderId = id → ∀ args k,
          (tradeRow args k (domainTrade s''.redis payload t)).price = price ∧
            (tradeRow args k (domainTrade s''.redis payload t)).quoteQuantity = price * t.quantity) ↔
      ∃ k : ℤ, price * priceScale = k := by
  have hprice := restedPrice h ho hid
  rw [← tick_exact_iff]
  constructor
  · rintro ⟨hexact, -⟩
    rw [← hprice, hexact]
  · intro hexact
    refine ⟨hprice.trans hexact, fun payload r s'' hsym hside hmatch t ht hmaker args k => ?_⟩
    have hengine : s'.engine = s.engine := by
      rcases addRestingOrder_cases id symbol side price s with ⟨score, -, hx⟩ | ⟨err, -, hx⟩ <;>
        exact congrArg (fun x : Except PyError ℕ × Store => x.2.engine) (h.symm.trans hx)
    obtain ⟨o', ho', hid', hp'⟩ := tradePrice_of_loaded (by rw [hengine]; exact hready) hmatch ht
    rw [hsym, hside] at ho'
    have htrade : t.price = price := by
      rw [← hp', restedPrice h ho' (hid'.trans hmaker), hexact]
    show t.price = price ∧ t.price * t.quantity = price * t.quantity
    rw [htrade]
    exact ⟨rfl, rfl⟩

/-- On a market whose tick is a whole number of ticks of the score, every accepted price is one. -/
theorem acceptedPrice_multiple {dto : OrderCreateDto} {pair : TradingPair} {price : ℚ}
    (htick : 0 < pair.tickSize) (hgrid : ∃ k : ℤ, pair.tickSize * priceScale = k)
    (hvalid : validateParams dto pair = .ok ()) (hprice : dto.price = some price) :
    ∃ k : ℤ, price * priceScale = k := by
  have hmod := (validOrder_of_ok hvalid).onTick htick price hprice
  obtain ⟨k, hk⟩ := hgrid
  refine ⟨k * ⌊price / pair.tickSize⌋, ?_⟩
  have hprice' : price = pair.tickSize * ⌊price / pair.tickSize⌋ := by
    unfold decimalMod at hmod
    linarith
  push_cast
  rw [← hk, mul_right_comm, ← hprice']

/-! ### A price below the tick of the score -/

/-- A market with a tick of `0.00001`. -/
def finePair : TradingPair where
  baseAsset := "PEPE"
  quoteAsset := "USDT"
  minLotSize := 1
  maxLotSize := 1000000
  tickSize := 1 / 100000
  isActive := true

/-- A sell order at four of its ticks. -/
def fineSell : OrderCreateDto where
  symbol := "PEPE/USDT"
  side := .sell
  type := .limit
  price := some (4 / 100000)
  quantity := 1000

/-- The store in which it has been placed. -/
def fineStart : Store :=
  (Store.start ∅ (fun _ => some finePair) fun _ => none).setRedis
    (hset 1 (placedHash (newOrder 7 fineSell)))

/-- It rests at a price. -/
def fineRested (price : ℚ) : Except PyError ℕ × Store :=
  addRestingOrder 1 "PEPE/USDT" .sell price fineStart

/-- At a price that is a whole number of ticks, the order is matched at that price. -/
theorem restedPrice_exact_iff_quarter :
    addRestingOrder 1 "PEPE/USDT" .sell (1 / 4) fineStart = (.ok 1, (fineRested (1 / 4)).2) ∧
      ∀ payload r s'', payload.symbol = "PEPE/USDT" → payload.side = .buy →
        matchPlaced payload (fineRested (1 / 4)).2 = (.ok r, s'') → ∀ t ∈ r.trades,
          t.makerOrderId = 1 → ∀ args k,
            (tradeRow args k (domainTrade s''.redis payload t)).price = 1 / 4 ∧
              (tradeRow args k (domainTrade s''.redis payload t)).quoteQuantity =
                1 / 4 * t.quantity := by
  have hok : (fineRested (1 / 4)).1 = .ok 1 := by decide +kernel
  have hrun : addRestingOrder 1 "PEPE/USDT" .sell (1 / 4) fineStart =
      (.ok 1, (fineRested (1 / 4)).2) := Prod.ext hok rfl
  have hloaded : oppositeOrdersForMatch (fineRested (1 / 4)).2.redis "PEPE/USDT" .buy makerLimit =
      [{ orderId := 1, side := some .sell, price := 1 / 4, quantity := 1000, visibleQuantity := 1000,
         hiddenQuantity := 0, isIceberg := false }] := by decide +kernel
  exact ⟨hrun, ((restedPrice_exact_iff engineReady_new hrun (by
    rw [show OrderSide.sell.opposite = .buy from rfl, hloaded]
    exact List.mem_singleton_self _) rfl).mpr ⟨2500, by norm_num [priceScale]⟩).2⟩

/-- A market order to buy it. -/
def fineBuy : OrderActionPayload where
  action := .place
  orderId := 2
  symbol := "PEPE/USDT"
  userId := 8
  side := .buy
  type := .market
  quantity := 1000

/-- **The order is accepted at `0.00004`, loaded at zero, and sold for nothing.** -/
theorem fineSell_soldForNothing :
    0 < finePair.tickSize ∧ validateParams fineSell finePair = .ok () ∧
      (oppositeOrdersForMatch (fineRested (4 / 100000)).2.redis "PEPE/USDT" .buy makerLimit).map
        BookOrder.price = [0] ∧
      ((matchPlaced fineBuy (fineRested (4 / 100000)).2).1.toOption.map fun r =>
        r.trades.map fun t => (t.makerOrderId, t.price, t.quantity)) = some [(1, 0, 1000)] := by
  decide +kernel

end SpotExchange.Exchange
