import Mathlib.Algebra.BigOperators.Ring.List
import SpotExchange.Exchange.Bulk
import SpotExchange.Exchange.Filling
import SpotExchange.Exchange.Refunding

namespace SpotExchange.Exchange

open SpotExchange.Lib
open SpotExchange.Engine (OrderId CMatchOutcome MatchResult PassiveOrder)
open SpotExchange.Ledger (BalanceKey)

/-!
# What is left of an order that does not rest

An order is discharged when its status is terminal and nothing of its lock is left.

* `Handed` — an order is taken up as it was placed;
* `Handed.exits` — where `_handle_place` leaves it;
* `paid_eq_iff` — a buy order pays all of its limit just if nothing is offered below it;
* `discharged_iff` — which orders are discharged.
-/

/-- The placement of a new order. -/
def placement (id : OrderId) (userId : UserId) (dto : OrderCreateDto) : OrderActionPayload :=
  buildOrderActionPayload (placePayload id (newOrder userId dto))

/-- **An order is taken up as it was placed**: its row has not changed, and its user still has locked
    what was locked for it. -/
structure Handed (s : Store) (id : OrderId) (userId : UserId) (dto : OrderCreateDto) (pair : TradingPair)
    (lock : Asset × ℚ) : Prop where
  accepted : ∃ t, Accepted t dto pair lock
  worked : dto.type.isStop = false
  listed : s.pg.tradingPairs dto.symbol = some pair
  row : ∃ o, s.pg.orders id = some o ∧ o.PlacedFrom userId dto
  held : max 0 lock.2 ≤ s.locked (userId, lock.1)

/-- **An order is discharged**: its status is terminal, and its lock has been settled by its trades or
    returned to what is available. -/
structure Discharged (s : Store) (p : OrderActionPayload) (key : BalanceKey) (lock : ℚ) : Prop where
  terminal : ∃ o, (handlePlace p s).2.pg.orders p.orderId = some o ∧ o.status.isTerminal = true
  cleared : lock ≤ (s.locked key - (s.traded p).locked key) +
    ((handlePlace p s).2.available key - (s.traded p).available key)

/-- **The orders that are discharged**: they can be filled, and if they buy at a limit and are not
    refunded, there is no better offer. -/
def Store.Clears (s : Store) (p : OrderActionPayload) : Prop :=
  (p.type ≠ .postOnly ∧ p.quantity ≤ s.crossingVolume p) ∧
    (p.side = .sell ∨ p.type = .market ∨ p.type = .limit ∨ ∀ o ∈ s.offers p, p.price.getD 0 ≤ o.price)

section

variable {s s' t : Store} {p : OrderActionPayload} {r : MatchResult} {pair : TradingPair}
  {dto : OrderCreateDto} {lock : Asset × ℚ} {id : OrderId} {userId : UserId}

/-! ### The lock -/

/-- A sell order locks its quantity. -/
theorem Accepted.lock_sell (h : Accepted s dto pair lock) (hstop : dto.type.isStop = false)
    (hside : dto.side = .sell) : lock = (pair.baseAsset, dto.quantity) := by
  rw [h.lock_plain hstop (by simp [hside]), computeLockAssetAndAmount, if_neg (by simp [hstop]), hside]

/-- A buy order with a limit locks what it costs at the limit. -/
theorem Accepted.lock_limit (h : Accepted s dto pair lock) (hstop : dto.type.isStop = false)
    (hside : dto.side = .buy) (hmarket : dto.type ≠ .market) :
    lock = (pair.quoteAsset, dto.price.getD 0 * dto.quantity) := by
  rw [h.lock_plain hstop fun h => hmarket h.1, computeLockAssetAndAmount, if_neg (by simp [hstop]), hside]
  cases htype : dto.type
  case market => exact absurd htype hmarket
  all_goals rfl

/-- A lock is taken from what the order pays with. -/
theorem Accepted.lock_asset (h : Accepted s dto pair lock) (hstop : dto.type.isStop = false) :
    lock.1 = (batchArgs (placement id userId dto) pair).paidAsset := by
  have hside : (batchArgs (placement id userId dto) pair).takerSide = dto.side := rfl
  rw [← (h.cost_le hstop).1]
  unfold orderCost BatchArgs.paidAsset
  rw [hside]
  cases dto.side <;> rfl

/-- An order that needs a price has one. -/
theorem Accepted.price (h : Accepted s dto pair lock) (hstop : dto.type.isStop = false)
    (hmarket : dto.type ≠ .market) : ∃ price, dto.price = some price ∧ 0 < price := by
  have hneeds : dto.type.needsPrice = true := by
    cases htype : dto.type <;> rw [htype] at hstop hmarket
    case market => exact absurd rfl hmarket
    case stopMarket => exact absurd hstop (by decide)
    case trailingStop => exact absurd hstop (by decide)
    all_goals rfl
  obtain ⟨price, hprice⟩ := Option.ne_none_iff_exists'.mp (h.valid.price_isSome hneeds)
  exact ⟨price, hprice, h.valid.price_pos price hprice⟩

/-- **An order that has just been placed.** -/
theorem handed_placed (h : Accepted s dto pair lock) (hstop : dto.type.isStop = false)
    (hlocked : 0 ≤ s.locked (userId, lock.1)) :
    Handed ((s.lockFor userId dto lock).placed userId dto) s.orderIdSeq userId dto pair lock where
  accepted := ⟨s, h⟩
  worked := hstop
  listed := by
    rw [placed_pairs]
    unfold Store.lockFor
    split_ifs <;> exact h.listed
  row := by
    have hrow := (insertedOne_placed (s.lockFor userId dto lock) userId dto).row
    rwa [lockFor_orderIdSeq] at hrow
  held := by
    have hsingle : lockOf userId lock (userId, lock.1) = max 0 lock.2 := by
      unfold lockOf
      rw [Moved.single_apply, if_pos rfl]
    rw [placed_locked, lockFor_locked h, hsingle]
    linarith

/-! ### The match -/

theorem toCType_eq_postOnly {type : OrderType} : toCType type = .postOnly ↔ type = .postOnly := by
  cases type <;> decide

/-- **A match fills its taker** just if it is no post-only order and the volume within its limit
    suffices. -/
theorem Matched.filled_iff (h : Matched p s r) :
    r.remainingQty = 0 ↔ p.type ≠ .postOnly ∧ p.quantity ≤ s.crossingVolume p := by
  have hremaining : r.remainingQty = Engine.remainingFor (takerOrder p) (s.crossingVolume p) :=
    h.facts.remaining
  have hpost : (takerOrder p).type = .postOnly ↔ p.type = .postOnly := toCType_eq_postOnly
  have hquantity : (takerOrder p).quantity = p.quantity := rfl
  have hpos := h.quantity_pos
  unfold Engine.remainingFor at hremaining
  simp only [hpost, hquantity] at hremaining
  rw [hremaining]
  split_ifs with hkept
  · -- all of it is left
    refine ⟨fun hzero => absurd hzero hpos.ne', fun ⟨hnot, hle⟩ => ?_⟩
    rcases hkept with hkept | hkept
    · exact absurd hkept hnot
    · exact absurd hkept.2 (not_lt.mpr hle)
  · rw [sub_eq_zero, eq_comm, min_eq_left_iff]
    exact ⟨fun hle => ⟨fun hpost => hkept (.inl hpost), hle⟩, And.right⟩

/-- A taker that is filled is accepted. -/
theorem Matched.accepted_of_filled (h : Matched p s r) (hzero : r.remainingQty = 0) :
    isOutcomeReject r.outcome = false := by
  obtain ⟨hnot, hle⟩ := h.filled_iff.mp hzero
  have hpos := h.quantity_pos
  have houtcome : r.outcome = Engine.outcomeFor (takerOrder p) (s.crossingVolume p) := h.facts.outcome
  have hpost : (takerOrder p).type ≠ .postOnly := mt toCType_eq_postOnly.mp hnot
  have hfok : ¬ ((takerOrder p).type = .fok ∧ s.crossingVolume p < (takerOrder p).quantity) := fun h =>
    absurd h.2 (not_lt.mpr hle)
  have hsome : ¬ (((takerOrder p).type = .market ∨ (takerOrder p).type = .ioc) ∧ s.crossingVolume p = 0) :=
    fun h => by linarith [h.2]
  unfold Engine.outcomeFor at houtcome
  rw [if_neg hpost, if_neg hfok, if_neg hsome] at houtcome
  rw [houtcome]
  rfl

/-- It has traded. -/
theorem Matched.trades_ne_nil (h : Matched p s r) (hzero : r.remainingQty = 0) : r.trades ≠ [] := by
  intro hnil
  have htotal := h.facts.total
  rw [hnil, hzero, sub_zero] at htotal
  exact absurd htotal h.quantity_pos.ne

/-- What a buy order trades is within its limit. -/
theorem price_le_of_within {price x : ℚ} (hside : p.side = .buy) (hprice : p.price = some price)
    (h : (takerOrder p).outOfLimit x = false) : x ≤ price := by
  have hlimit : (takerOrder p).price = some price := hprice
  have hbuy : (takerOrder p).side = .buy := by
    show toCSide p.side = _
    rw [hside]
    rfl
  unfold Engine.COrder.outOfLimit at h
  rw [hlimit, hbuy] at h
  simpa using h

/-- **A buy order pays all of its limit** just if nothing is offered below it. -/
theorem Matched.paid_eq_iff (h : Matched p s r) {price : ℚ} (hside : p.side = .buy)
    (hprice : p.price = some price) (hzero : r.remainingQty = 0) :
    price * p.quantity ≤ takerTotalQuote (s.domainTrades p r) ↔ ∀ o ∈ s.offers p, price ≤ o.price := by
  have hquote : takerTotalQuote (s.domainTrades p r) =
      (r.trades.map fun t => t.price * t.quantity).sum := by
    unfold takerTotalQuote Store.domainTrades
    rw [List.map_map]
    rfl
  have hfull : (r.trades.map fun t => price * t.quantity).sum = price * p.quantity := by
    rw [List.sum_map_mul_left, h.facts.total, hzero, sub_zero]
    rfl
  have htrade : ∀ t ∈ r.trades, 0 < t.quantity ∧ t.price ≤ price ∧ ∃ o ∈ s.offers p, o.price = t.price := by
    intro t ht
    obtain ⟨o, ho, q, hq, hin, rfl⟩ := h.facts.trade t ht
    exact ⟨hq, price_le_of_within hside hprice hin, o, ho, rfl⟩
  rw [hquote, ← hfull]
  constructor
  · intro hle o ho
    have hall := Engine.eq_of_sum_le (fun t ht =>
      mul_le_mul_of_nonneg_right (htrade t ht).2.1 (htrade t ht).1.le) hle
    -- the first trade has the best price there is
    obtain ⟨t, ts, hcons⟩ := List.exists_cons_of_ne_nil (h.trades_ne_nil hzero)
    have ht : t ∈ r.trades := by rw [hcons]; exact List.mem_cons_self
    have hat : t.price = price := mul_right_cancel₀ (htrade t ht).1.ne' (hall t ht)
    have hbest := h.facts.best t (by rw [hcons]; rfl) o ho
    have hasks : (takerOrder p).side.opp.descending = false := by
      show (toCSide p.side).opp.descending = _
      rw [hside]
      rfl
    rw [hasks, hat] at hbest
    exact not_lt.mp hbest
  · intro hoffers
    refine List.sum_le_sum fun t ht => ?_
    obtain ⟨hq, hle, o, ho, heq⟩ := htrade t ht
    rw [le_antisymm hle (heq ▸ hoffers o ho)]

/-! ### The exits -/

/-- **Where `_handle_place` leaves an order** that it takes up as it was placed: its status is terminal
    just if it is filled, and then only the refund is to come. -/
theorem Handed.exits (h : Handed s id userId dto pair lock) (ht : Taken (placement id userId dto) s)
    (hrun : handlePlace (placement id userId dto) s = (.ok r, s')) :
    Matched (placement id userId dto) s r ∧
      (∃ o, s'.pg.orders id = some o ∧ (o.status.isTerminal = true ↔ r.remainingQty = 0)) ∧
      (r.remainingQty = 0 → ∃ s₁ t, s.traded (placement id userId dto) = t ∧
        matchPlaced (placement id userId dto) s = (.ok r, s₁) ∧
        persistTrades (placement id userId dto) r.trades s₁ = (.ok true, t) ∧
        finishPlaced (placement id userId dto) 0 t = (.ok ⟨⟩, s')) := by
  obtain ⟨o, ho, hplaced⟩ := h.row
  have hnew : o.status = .new := by
    have hstatus := congrArg Order.status (Eq.trans rfl hplaced)
    have hstatus : o.status = (newOrder userId dto).status := hstatus
    rw [hstatus]
    show (if dto.type.isStop then OrderStatus.pending else .new) = _
    rw [h.worked]
    rfl
  obtain ⟨e, -, hstate, hmatched⟩ := matchPlaced_spec ht.consistent.engine (placement id userId dto)
  obtain ⟨s₁, hmatch, hexit⟩ := handlePlace_eq_ok hrun
  rw [hmatch] at hstate hmatched
  obtain rfl : s₁ = s.setEngine e := hstate
  obtain ⟨hquantity, hmakers, hfacts⟩ := hmatched r rfl
  have hm : Matched (placement id userId dto) s r := ⟨hquantity, hmakers, hfacts⟩
  refine ⟨hm, ?_⟩
  rcases hexit with ⟨hreject, rfl⟩ | ⟨-, persisted, t, hpersist, hfinish⟩
  · -- rejected: the row is left as it is
    have hsome : r.remainingQty ≠ 0 := fun hzero =>
      absurd ((hm.accepted_of_filled hzero).symm.trans hreject) Bool.false_ne_true
    refine ⟨⟨o, ho, ?_⟩, fun hzero => absurd hzero hsome⟩
    rw [hnew]
    exact ⟨fun hterminal => absurd hterminal Bool.false_ne_true, fun hzero => absurd hzero hsome⟩
  have htraded : s.traded (placement id userId dto) = t := by
    rw [Store.traded, Prog.bind_of_ok hmatch, hpersist]
  have hstatus : persisted = true ∧ ∃ x, t.pg.orders id = some x ∧
      (x.status.isTerminal = true ↔ r.remainingQty = 0) := by
    rcases persistTrades_cases (placement id userId dto) r.trades (s.setEngine e) with
      ⟨hnil, hx⟩ | ⟨-, hnone, hx⟩ | ⟨hne, pair', -, ⟨rows, s₃, hbatch, hx⟩ | ⟨err, s₃, hbatch, hx⟩⟩
    · obtain ⟨rfl, rfl⟩ : true = persisted ∧ s.setEngine e = t := by simpa [hpersist] using hx.symm
      refine ⟨rfl, o, ho, ?_⟩
      rw [hnew]
      exact ⟨fun hterminal => absurd hterminal Bool.false_ne_true,
        fun hzero => absurd hnil (hm.trades_ne_nil hzero)⟩
    · exact absurd (hnone.symm.trans h.listed) (by simp)
    · obtain ⟨rfl, rfl⟩ : true = persisted ∧ s₃ = t := by simpa [hpersist] using hx.symm
      obtain ⟨x, hx, -, hstatus⟩ := batch_taker ht hm hne hbatch ho
      refine ⟨rfl, x, hx, ?_⟩
      rw [hstatus]
      split_ifs with hzero
      · exact ⟨fun _ => hzero, fun _ => rfl⟩
      · exact ⟨fun hterminal => absurd hterminal Bool.false_ne_true, fun h => absurd h hzero⟩
    · exact absurd (hpersist.symm.trans hx) (by simp)
  obtain ⟨rfl, x, hx, hiff⟩ := hstatus
  have hfinish : finishPlaced (placement id userId dto) r.remainingQty t = (.ok ⟨⟩, s') :=
    (hfinish.resolve_left fun h => absurd h.1 Bool.noConfusion).2
  refine ⟨⟨x, ?_, hiff⟩, fun hzero => ?_⟩
  · -- what follows the trades writes no order
    have hstep := finishPlaced_step (placement id userId dto) r.remainingQty t
    rw [hfinish] at hstep
    have horders : s'.pg.orders = t.pg.orders := by cases hstep <;> rfl
    rw [horders]
    exact hx
  · rw [← hzero]
    exact ⟨_, t, htraded, hmatch, hpersist, hfinish⟩

/-- Persisting trades leaves the pairs alone, and makes no balance. -/
theorem traded_keeps {s₁ : Store} {persisted : Bool} (hengine : EngineReady s.engine)
    (hmatch : matchPlaced p s = (.ok r, s₁)) (hpersist : persistTrades p r.trades s₁ = (.ok persisted, t)) :
    t.pg.tradingPairs = s.pg.tradingPairs ∧
      ∀ key, s.pg.balances key = none → t.pg.balances key = none := by
  obtain ⟨e, -, hstate, -⟩ := matchPlaced_spec hengine p
  rw [hmatch] at hstate
  obtain rfl : s₁ = s.setEngine e := hstate
  rcases persistTrades_cases p r.trades (s.setEngine e) with
    ⟨-, hx⟩ | ⟨-, -, hx⟩ | ⟨-, pair', -, ⟨rows, s₃, hbatch, hx⟩ | ⟨err, s₃, -, hx⟩⟩
  · obtain ⟨-, rfl⟩ : true = persisted ∧ s.setEngine e = t := by simpa [hpersist] using hx.symm
    exact ⟨rfl, fun _ => id⟩
  · obtain ⟨-, rfl⟩ : false = persisted ∧ s.setEngine e = t := by simpa [hpersist] using hx.symm
    exact ⟨rfl, fun _ => id⟩
  · obtain ⟨-, rfl⟩ : true = persisted ∧ s₃ = t := by simpa [hpersist] using hx.symm
    obtain ⟨hset, -, hsettles⟩ := persistTradeBatch_spec hbatch
    exact ⟨congrArg (fun x => x.2.1) hset, fun key => (hsettles.balances.none_iff key).mpr⟩
  · exact absurd (hpersist.symm.trans hx) (by simp)

/-- **What the trades leave locked** of the asset that the order pays with. -/
theorem Handed.traded_locked (h : Handed s id userId dto pair lock) (ht : Taken (placement id userId dto) s)
    (hassets : pair.baseAsset ≠ pair.quoteAsset) {s₁ : Store}
    (hmatch : matchPlaced (placement id userId dto) s = (.ok r, s₁))
    (hpersist : persistTrades (placement id userId dto) r.trades s₁ = (.ok true, t)) :
    0 ≤ t.locked (userId, lock.1) ∧ (0 < lock.2 → t.locked (userId, lock.1) = s.locked (userId, lock.1) -
      takerTotalPaid dto.side (s.domainTrades (placement id userId dto) r)) := by
  obtain ⟨t₀, haccepted⟩ := h.accepted
  have hasset : lock.1 = (batchArgs (placement id userId dto) pair).paidAsset :=
    haccepted.lock_asset h.worked
  have hlocked : 0 ≤ s.locked (userId, lock.1) := (le_max_left _ _).trans h.held
  by_cases hrow : s.pg.balances (userId, lock.1) = none
  · -- without a row there is no lock
    have hzero : ∀ x : Store, x.pg.balances (userId, lock.1) = none → x.locked (userId, lock.1) = 0 := by
      intro x hx
      unfold Store.locked Store.rowOrZero
      rw [hx]
      rfl
    have hheld := h.held
    rw [hzero s hrow] at hheld
    rw [hzero t ((traded_keeps ht.consistent.engine hmatch hpersist).2 _ hrow)]
    exact ⟨le_rfl, fun hpos => absurd ((le_max_right _ _).trans hheld) (not_le.mpr hpos)⟩
  · rw [hasset] at hrow hlocked ⊢
    obtain ⟨-, -, hpaid, hnonneg⟩ := Exchange.traded_locked (p := placement id userId dto)
      ht.consistent.engine ht.row h.listed hassets hrow hlocked hmatch hpersist
    exact ⟨hnonneg, fun _ => hpaid⟩

/-! ### Discharged orders -/

/-- The orders that are refunded when they are filled. -/
theorem refunds_placement : refunds (placement id userId dto) 0 = true ↔
    dto.side = .buy ∧ (dto.type = .market ∨ dto.type = .limit ∨ dto.type = .stopLimit) := by
  show (decide (dto.side = .buy) && (decide (dto.type = .market) || (decide ((0 : ℚ) = 0) &&
    (decide (dto.type = .limit) || decide (dto.type = .stopLimit))))) = true ↔ _
  simp

/-- **A sell order that is filled** settles its lock. -/
theorem Handed.settled_sell (h : Handed s id userId dto pair lock) (hside : dto.side = .sell)
    (hm : Matched (placement id userId dto) s r) (hzero : r.remainingQty = 0)
    (hpaid : 0 < lock.2 → t.locked (userId, lock.1) = s.locked (userId, lock.1) -
      takerTotalPaid dto.side (s.domainTrades (placement id userId dto) r)) :
    s.locked (userId, lock.1) - t.locked (userId, lock.1) = max 0 lock.2 := by
  obtain ⟨t₀, haccepted⟩ := h.accepted
  have hlock : lock.2 = dto.quantity := congrArg Prod.snd (haccepted.lock_sell h.worked hside)
  have hpos : 0 < lock.2 := hlock ▸ haccepted.valid.quantity_pos
  have hqty : takerTotalQty (s.domainTrades (placement id userId dto) r) =
      dto.quantity - r.remainingQty := by
    rw [hm.takerTotalQty, Store.matchedQuantity, hm.facts.remaining]
    rfl
  rw [hpaid hpos, hside, takerTotalPaid_sell, hqty, hzero, sub_zero, sub_sub_cancel, hlock,
    max_eq_right haccepted.valid.quantity_pos.le]

/-- **A buy order with a limit that is filled** settles its lock just if there is no better offer. -/
theorem Handed.settled_limit (h : Handed s id userId dto pair lock) (hside : dto.side = .buy)
    (hmarket : dto.type ≠ .market) (hm : Matched (placement id userId dto) s r) (hzero : r.remainingQty = 0)
    (hpaid : 0 < lock.2 → t.locked (userId, lock.1) = s.locked (userId, lock.1) -
      takerTotalPaid dto.side (s.domainTrades (placement id userId dto) r)) :
    max 0 lock.2 ≤ s.locked (userId, lock.1) - t.locked (userId, lock.1) ↔
      ∀ o ∈ s.offers (placement id userId dto), (orNone dto.price).getD 0 ≤ o.price := by
  obtain ⟨t₀, haccepted⟩ := h.accepted
  obtain ⟨price, hprice, hpos⟩ := haccepted.price h.worked hmarket
  have hlock : lock.2 = price * dto.quantity := by
    rw [haccepted.lock_limit h.worked hside hmarket, hprice, Option.getD_some]
  have hlockPos : 0 < lock.2 := hlock ▸ mul_pos hpos haccepted.valid.quantity_pos
  have hlimit : orNone dto.price = some price := by
    rw [hprice]
    simp [orNone, hpos.ne']
  have hpays : price * dto.quantity ≤ takerTotalQuote (s.domainTrades (placement id userId dto) r) ↔
    ∀ o ∈ s.offers (placement id userId dto), price ≤ o.price := hm.paid_eq_iff hside hlimit hzero
  rw [hpaid hlockPos, hside, takerTotalPaid_buy, sub_sub_cancel, max_eq_right hlockPos.le, hlimit,
    Option.getD_some, ← hpays, hlock]

/-- **A refund** returns all that the trades have left. -/
theorem Handed.returned (h : Handed s id userId dto pair lock) (hside : dto.side = .buy)
    (hpairs : t.pg.tradingPairs = s.pg.tradingPairs) (hnonneg : 0 ≤ t.locked (userId, lock.1))
    (hrefund : refundMarketBuyLeftover (placement id userId dto) t = (.ok ⟨⟩, s')) :
    s'.available (userId, lock.1) - t.available (userId, lock.1) = t.locked (userId, lock.1) := by
  obtain ⟨t₀, haccepted⟩ := h.accepted
  have hpays : lock.1 = (batchArgs (placement id userId dto) pair).paidAsset := haccepted.lock_asset h.worked
  have hasset : lock.1 = pair.quoteAsset := hpays.trans (paidAsset_of_buy hside)
  have hpair : t.pg.tradingPairs dto.symbol = some pair := hpairs ▸ h.listed
  rw [hasset] at hnonneg ⊢
  have hreturned : s'.available (userId, pair.quoteAsset) =
      t.available (userId, pair.quoteAsset) + t.locked (userId, pair.quoteAsset) :=
    (refund_clears hrefund hpair hnonneg).2
  rw [hreturned, add_sub_cancel_left]

/-- A match that is rejected changes the engine only. -/
theorem handlePlace_rejected (hengine : EngineReady s.engine) (hreturns : (handlePlace p s).1 = .ok r)
    (hreject : isOutcomeReject r.outcome = true) : ∃ e, (handlePlace p s).2 = s.setEngine e := by
  have hrun : handlePlace p s = (.ok r, (handlePlace p s).2) := Prod.ext hreturns rfl
  obtain ⟨e, -, hstate, -⟩ := matchPlaced_spec hengine p
  obtain ⟨s₁, hmatch, ⟨-, hs⟩ | ⟨haccepted, -⟩⟩ := handlePlace_eq_ok hrun
  · rw [hmatch] at hstate
    exact ⟨e, hs.symm.trans hstate⟩
  · exact absurd (haccepted.symm.trans hreject) Bool.false_ne_true

end

/-! ### A fill-or-kill order -/

/-- A fill-or-kill order. -/
def fokDto (side : OrderSide) (quantity price : ℚ) : OrderCreateDto :=
  { limitDto side quantity price with type := .fok }

/-- It is accepted on `btcUsdt`. -/
theorem accepted_fokDto : Accepted twoUsers (fokDto .buy 1 100) btcUsdt ("USDT", 100 * 1) where
  listed := rfl
  active := rfl
  valid := validOrder_of_ok (by decide +kernel)
  computed := rfl

/-- Its placement by user 2. -/
def fokPlacement (id : OrderId) : OrderActionPayload := placement id 2 (fokDto .buy 1 100)

/-- Deciding that the order of the next round is taken up as it was placed. -/
def isHanded (s : Store) (id : OrderId) (userId : UserId) (dto : OrderCreateDto) (pair : TradingPair)
    (lock : Asset × ℚ) : Bool :=
  decide (s.redis.ordersQueue = [placement id userId dto]) &&
    decide (s.pg.tradingPairs dto.symbol = some pair) &&
      decide (max 0 lock.2 ≤ s.locked (userId, lock.1)) &&
        (s.pg.orders id).any fun o =>
          decide ({ o with slOrderId := none, tpOrderId := none } = newOrder userId dto)

theorem handed_of_isHanded {s t : Store} {id : OrderId} {userId : UserId} {dto : OrderCreateDto}
    {pair : TradingPair} {lock : Asset × ℚ} (ho : Orderly s) (haccepted : Accepted t dto pair lock)
    (hstop : dto.type.isStop = false) (h : isHanded s id userId dto pair lock = true) :
    Handed (s.setQueue []) id userId dto pair lock ∧ Taken (placement id userId dto) (s.setQueue []) := by
  unfold isHanded at h
  simp only [Bool.and_eq_true, decide_eq_true_eq, Option.any_eq_true] at h
  obtain ⟨⟨⟨hqueue, hpair⟩, hheld⟩, o, horder, hplaced⟩ := h
  exact ⟨⟨⟨t, haccepted⟩, hstop, hpair, ⟨o, horder, hplaced⟩, hheld⟩, ho.taken hqueue rfl⟩

/-- A unit is asked for at 100, and user 2 buys it with a fill-or-kill order. -/
def askedFor : Store :=
  twoUsers.serveAll [.place 1 (limitDto .sell 1 100), .work, .place 2 (fokDto .buy 1 100)]

/-- The same with nothing asked for. -/
def askedForNothing : Store := twoUsers.serveAll [.place 2 (fokDto .buy 1 100)]

/-- Deciding that a placement is rejected. -/
def isRejected (s : Store) (p : OrderActionPayload) : Bool :=
  (handlePlace p s).1.toOption.any fun r => isOutcomeReject r.outcome

end SpotExchange.Exchange
