import SpotExchange.Exchange.MarketBuys
import SpotExchange.Exchange.Priority

namespace SpotExchange.Exchange

open SpotExchange.Lib
open SpotExchange.Engine (OrderId MatchResult PassiveOrder)

/-!
# The walk along the asks and the matcher

The lock of a market buy comes from a walk along the list of asks; the matcher builds levels from the
same list.

* `walkAsks_eq` — the walk takes what is offered, at what it costs in turn;
* `asks_sorted` — the asks are listed by ascending price;
* `computeMarketBuyLock_iff` — the lock is computed exactly when the matcher fills the order;
* `computeMarketBuyLock_agrees` — and the costs are the same.
-/

/-- An ask's price and the quantity it is filled with. -/
def BookOrder.offer (o : BookOrder) : ℚ × ℚ := (o.price, o.loadedQuantity)

/-- The asks that both sides load. -/
def Store.asks (s : Store) (symbol : Symbol) : List BookOrder :=
  oppositeOrdersForMatch s.redis symbol .buy askLimit

/-- **An ask side as Redis keeps it**: a ZSET, whose HASHes are of sell orders with positive
    quantities. -/
structure AskSide (s : Store) (symbol : Symbol) : Prop where
  sorted : SortedSet.InOrder memberKey (s.redis.book symbol .sell)
  sells : ∀ ask ∈ s.asks symbol, ask.side = some .sell
  positive : ∀ ask ∈ s.asks symbol, 0 < ask.loadedQuantity

/-- The placement that the worker takes up for a market buy. -/
structure BuysFor (dto : OrderCreateDto) (p : OrderActionPayload) : Prop where
  payload : BuyPayload dto.symbol p
  quantity : p.quantity = dto.quantity
  plain : p.isIceberg = false

section

variable {s : Store} {symbol : Symbol}

/-! ### The walk -/

/-- **The walk** takes what is offered, at what it costs in turn. -/
theorem walkAsks_eq {asks : List BookOrder} (hpos : ∀ ask ∈ asks, 0 < ask.loadedQuantity) {r : ℚ}
    (hr : 0 ≤ r) (cost : ℚ) :
    walkAsks r cost asks = (r - min r (Offers.volume (asks.map BookOrder.offer)),
      cost + Offers.cost r (asks.map BookOrder.offer)) := by
  induction asks generalizing r cost with
  | nil => simp [walkAsks, Offers.volume, hr]
  | cons ask asks ih =>
    rw [List.forall_mem_cons] at hpos
    have hV : 0 ≤ Offers.volume (asks.map BookOrder.offer) := by
      refine Offers.volume_nonneg fun x hx => ?_
      obtain ⟨o, ho, rfl⟩ := List.mem_map.mp hx
      exact (hpos.2 o ho).le
    rw [walkAsks, List.map_cons, Offers.volume_cons]
    rcases hr.eq_or_lt with rfl | hlt
    · -- nothing is left to buy
      have hzero : min 0 (ask.offer.2 + Offers.volume (asks.map BookOrder.offer)) = 0 :=
        min_eq_left (add_nonneg hpos.1.le hV)
      rw [if_pos le_rfl, hzero, sub_zero, Offers.cost_nonpos le_rfl, add_zero]
    · rw [if_neg (not_le.mpr hlt), ih hpos.2 (sub_nonneg.mpr (min_le_left _ _)), Offers.cost_cons hlt,
        Offers.min_volume_cons hV]
      exact Prod.ext (sub_sub _ _ _) (add_assoc _ _ _)

/-! ### The asks -/

/-- Scores decode to prices in their order. -/
theorem decodeScore_mono {x y : ℚ} (h : x ≤ y) : (decodeScore x).1 ≤ (decodeScore y).1 := by
  have hticks : roundHalfEven x / (scoreMultiplier : ℤ) ≤ roundHalfEven y / (scoreMultiplier : ℤ) :=
    Int.ediv_le_ediv (by norm_num [scoreMultiplier]) (roundHalfEven_mono h)
  show (_ : ℚ) / priceScale ≤ _ / priceScale
  gcongr

/-- **The asks are listed by ascending price.** -/
theorem asks_sorted (h : SortedSet.InOrder memberKey (s.redis.book symbol .sell)) :
    Offers.Sorted ((s.asks symbol).map BookOrder.offer) := by
  refine List.pairwise_map.mpr (List.pairwise_filterMap.mpr ?_)
  have htaken : SortedSet.InOrder memberKey ((s.redis.book symbol .sell).take askLimit) :=
    h.sublist (List.take_sublist _ _)
  refine List.Pairwise.imp (fun {x y} hxy => ?_) htaken
  intro ask hask ask' hask'
  obtain ⟨hash, -, rfl⟩ := Option.map_eq_some_iff.mp hask
  obtain ⟨hash', -, rfl⟩ := Option.map_eq_some_iff.mp hask'
  have hscore : x.1 ≤ y.1 := by
    rcases hxy with hlt | ⟨heq, -⟩
    · exact hlt.le
    · exact heq.le
  exact decodeScore_mono hscore

/-- The matcher is offered the asks. -/
theorem offers_eq (h : AskSide s symbol) {p : OrderActionPayload} (hp : BuyPayload symbol p) :
    (s.offers p).map PassiveOrder.offer = (s.asks symbol).map BookOrder.offer := by
  have hmakers : s.makers p.symbol p.side = (s.asks symbol).map BookOrder.passive := by
    rw [hp.symbol, hp.side]
    rfl
  have hall : ∀ o ∈ s.makers p.symbol p.side, decide (o.side = (toCSide p.side).opp) = true := by
    intro o ho
    rw [hmakers] at ho
    obtain ⟨ask, hask, rfl⟩ := List.mem_map.mp ho
    rw [hp.side, decide_eq_true_eq]
    show (if ask.side = some .sell then _ else _) = _
    rw [if_pos (h.sells ask hask)]
    rfl
  unfold Store.offers
  rw [List.filter_eq_self.mpr hall, hmakers, List.map_map]
  rfl

/-! ### The lock and the match -/

/-- **The computation of the lock**, its errors apart: there are asks enough. -/
theorem computeMarketBuyLock_eq_ok (h : AskSide s symbol) {dto : OrderCreateDto} (hsymbol : dto.symbol = symbol)
    (hq : 0 < dto.quantity) (pair : TradingPair) (lock : Asset × ℚ) :
    (computeMarketBuyLock dto pair s).1 = .ok lock ↔
      dto.quantity ≤ Offers.volume ((s.asks symbol).map BookOrder.offer) ∧
        lock = (pair.quoteAsset, Offers.cost dto.quantity ((s.asks symbol).map BookOrder.offer) *
          (1001 / 1000)) := by
  have hread : (Prog.read fun s => oppositeOrdersForMatch s.redis dto.symbol .buy askLimit : M _) s =
      (.ok (s.asks symbol), s) := by
    rw [← hsymbol]
    rfl
  rw [computeMarketBuyLock, Prog.bind_of_ok hread]
  by_cases hnone : s.asks symbol = []
  · rw [if_pos hnone, hnone]
    constructor
    · intro hok
      exact absurd hok (by simp)
    · rintro ⟨hle, -⟩
      exact absurd hq (not_lt.mpr hle)
  rw [if_neg hnone, walkAsks_eq h.positive hq.le]
  dsimp only
  rcases le_or_gt dto.quantity (Offers.volume ((s.asks symbol).map BookOrder.offer)) with hle | hlt
  · rw [min_eq_left hle, sub_self, if_neg (lt_irrefl 0), zero_add]
    constructor
    · intro hok
      exact ⟨hle, (Except.ok.inj hok).symm⟩
    · rintro ⟨-, rfl⟩
      rfl
  · rw [min_eq_right hlt.le, if_pos (sub_pos.mpr hlt)]
    constructor
    · intro hok
      exact absurd hok (by simp)
    · rintro ⟨hle, -⟩
      exact absurd hlt (not_lt.mpr hle)

/-- **The match of a market buy**: it returns, takes what is offered and pays what it costs in turn. -/
theorem matchPlaced_buy (h : AskSide s symbol) (hready : EngineReady s.engine) {p : OrderActionPayload}
    (hp : BuyPayload symbol p) (hplain : p.isIceberg = false) (hq : 0 < p.quantity) :
    ∃ r, (matchPlaced p s).1 = .ok r ∧
      r.remainingQty = p.quantity - min p.quantity (Offers.volume ((s.asks symbol).map BookOrder.offer)) ∧
      Engine.quoteOf r.trades = Offers.cost p.quantity ((s.asks symbol).map BookOrder.offer) := by
  have hbuilt : buildCorder p = .ok (takerOrder p) := by
    unfold buildCorder
    rw [if_neg (not_le.mpr hq), hplain]
    rfl
  have hpos : ∀ o ∈ s.makers p.symbol p.side, 0 < o.qty := by
    intro o ho
    rw [hp.symbol, hp.side] at ho
    obtain ⟨ask, hask, rfl⟩ := List.mem_map.mp ho
    exact h.positive ask hask
  obtain ⟨ls, e, hls, hrun⟩ := matchPlaced_ok hready hbuilt hpos
  have hside : (takerOrder p).side.opp = .sell := by
    show (toCSide p.side).opp = _
    rw [hp.side]
    rfl
  have htype : (takerOrder p).type = .market := by
    show toCType p.type = _
    rw [hp.type]
    rfl
  refine ⟨_, congrArg Prod.fst hrun, ?_, ?_⟩
  · have hall : ∀ x : ℚ × ℚ, (takerOrder p).outOfLimit x.1 = false := by
      intro x
      unfold Engine.COrder.outOfLimit
      rw [show (takerOrder p).price = none from hp.price]
    have hvolume : Engine.volumeWithin (takerOrder p) ((s.offers p).map PassiveOrder.offer) =
        Offers.volume ((s.asks symbol).map BookOrder.offer) := by
      rw [offers_eq h hp]
      unfold Engine.volumeWithin Offers.volume
      rw [List.filter_eq_self.mpr fun x _ => by simp [hall x]]
    rw [(hls.facts rfl hq).remaining, hvolume, Engine.remainingFor, if_neg (by simp [htype])]
    rfl
  · rw [hside] at hls
    refine hls.cost htype hp.price ?_ (asks_sorted h.sorted)
    rw [offers_eq h hp]

/-- What `place_order` hands over for a market buy. -/
theorem buysFor_placed {dto : OrderCreateDto} (hbuy : MarketBuy symbol dto) (userId : UserId) (id : OrderId) :
    BuysFor dto (buildOrderActionPayload (placePayload id (newOrder userId dto))) where
  payload := by
    refine ⟨rfl, rfl, hbuy.side, hbuy.type, ?_⟩
    show orNone dto.price = none
    rw [hbuy.price]
    rfl
  quantity := rfl
  plain := by
    show decide (dto.type = .iceberg) = false
    rw [hbuy.type]
    rfl

/-- **The lock is computed exactly when the matcher fills the order**, and what it costs before the buffer
    is what the trades come to. -/
theorem computeMarketBuyLock_agrees {dto : OrderCreateDto} {p : OrderActionPayload}
    (h : AskSide s dto.symbol) (hready : EngineReady s.engine) (hp : BuysFor dto p) (hq : 0 < dto.quantity)
    (pair : TradingPair) :
    ((∃ lock, (computeMarketBuyLock dto pair s).1 = .ok lock) ↔
      ∃ r, (matchPlaced p s).1 = .ok r ∧ r.remainingQty = 0) ∧
    ∀ lock, (computeMarketBuyLock dto pair s).1 = .ok lock → ∃ r, (matchPlaced p s).1 = .ok r ∧
      (walkAsks dto.quantity 0 (s.asks dto.symbol)).2 = Engine.quoteOf r.trades ∧
        lock = (pair.quoteAsset, Engine.quoteOf r.trades * (1001 / 1000)) := by
  obtain ⟨r, hmatch, hremaining, hcost⟩ := matchPlaced_buy h hready hp.payload hp.plain
    (by rw [hp.quantity]; exact hq)
  rw [hp.quantity] at hremaining hcost
  refine ⟨⟨?_, ?_⟩, fun lock hlock => ⟨r, hmatch, ?_, ?_⟩⟩
  · rintro ⟨lock, hlock⟩
    obtain ⟨hle, -⟩ := (computeMarketBuyLock_eq_ok h rfl hq pair lock).mp hlock
    exact ⟨r, hmatch, by rw [hremaining, min_eq_left hle, sub_self]⟩
  · rintro ⟨r', hmatch', hzero⟩
    obtain rfl : r = r' := Except.ok.inj (hmatch.symm.trans hmatch')
    refine ⟨_, (computeMarketBuyLock_eq_ok h rfl hq pair _).mpr ⟨?_, rfl⟩⟩
    rw [hremaining] at hzero
    exact min_eq_left_iff.mp (by linarith)
  · rw [walkAsks_eq h.positive hq.le, hcost, zero_add]
  · rw [hcost]
    exact ((computeMarketBuyLock_eq_ok h rfl hq pair lock).mp hlock).2

end

/-! ### An ask and an iceberg -/

/-- An iceberg that shows one of three units. -/
def icebergSell : OrderCreateDto :=
  { limitDto .sell 3 11 with type := .iceberg, visibleQuantity := some 1, hiddenQuantity := some 2 }

/-- One unit is asked for at 10, and one, of three, at 11. -/
def askedTwice : Store := twoUsers.serveAll [.place 1 (limitDto .sell 1 10), .work, .place 1 icebergSell, .work]

/-- Two units are bought at market. -/
def marketBuyTwo : OrderCreateDto where
  symbol := "BTC/USDT"
  side := .buy
  type := .market
  price := none
  quantity := 2

theorem askSide_askedTwice : AskSide askedTwice "BTC/USDT" where
  sorted := by
    have hbook : (askedTwice.redis.book "BTC/USDT" .sell).map Prod.fst = [100000000001, 110000000002] := by
      decide +kernel
    have hscores : (askedTwice.redis.book "BTC/USDT" .sell).Pairwise fun x y => x.1 < y.1 :=
      List.pairwise_map.mp (hbook ▸ (by decide +kernel))
    exact hscores.imp .inl
  sells := by decide +kernel
  positive := by decide +kernel

theorem computeMarketBuyLock_agrees_askedTwice :
    ∃ r, (matchPlaced (buildOrderActionPayload (placePayload 3 (newOrder 2 marketBuyTwo))) askedTwice).1 =
        .ok r ∧
      (walkAsks 2 0 (askedTwice.asks "BTC/USDT")).2 = Engine.quoteOf r.trades ∧
        (("USDT", 21021 / 1000) : Asset × ℚ) = ("USDT", Engine.quoteOf r.trades * (1001 / 1000)) := by
  have hready : EngineReady askedTwice.engine := (consistent_serveAll (consistent_start ..) _).engine
  exact (computeMarketBuyLock_agrees askSide_askedTwice hready (buysFor_placed ⟨rfl, rfl, rfl, rfl⟩ 2 3)
    (by decide +kernel) btcUsdt).2 _ (by decide +kernel)

end SpotExchange.Exchange
