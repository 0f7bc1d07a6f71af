import SpotExchange.Exchange.LimitBuys

namespace SpotExchange.Exchange

open SpotExchange.Lib
open SpotExchange.Engine (OrderId MatchResult)
open SpotExchange.Ledger (BalanceKey Row)

/-!
# Limit buys are paid up when they end

* `LimitGuard` — the worker fills the order at once, or finds nothing offered below its limit;
* `Accounted.batch` — trades at the limit keep what is locked covering what is left;
* `Living.serve` — so a round of the worker keeps the invariant of the order's life, as other requests do;
* `run_paidUp` — so nothing is left behind when the status becomes terminal;
* `improvement_stuck` — what a bid that rests has saved before stays locked.
-/

/-- A user does nothing but cancel. -/
def Request.OnlyCancels (userId : UserId) (req : Request) : Prop :=
  req.caller = some userId → ∃ id, req = .cancel userId id

/-- **An order that has ended is paid up**: what its trades have settled and what has been unlocked since
    it was placed are its cost, and nothing is left locked. -/
def Store.PaidUp (s t : Store) (id : OrderId) (key : BalanceKey) (cost : ℚ) : Prop :=
  ∀ o, t.pg.orders id = some o → o.status.isTerminal = true →
    (t.settledQuote id - s.settledQuote id) + (t.available key - s.available key) = cost ∧ t.locked key = 0

/-- When the worker takes the order up, it is filled at once, or else nothing is offered below its limit,
    which its score can tell. -/
def LimitGuard (id : OrderId) (s : Store) : Request → Prop
  | .work => ∀ p ∈ s.redis.ordersQueue.head?, p.action = .place → p.orderId = id →
      p.quantity ≤ s.crossingVolume p ∨
        (∃ k : ℤ, p.price.getD 0 * priceScale = k) ∧ ∀ o ∈ s.offers p, p.price.getD 0 ≤ o.price
  | _ => True

/-- **A user who has nothing in the exchange** but what is available. -/
structure Store.Idle (s : Store) (userId : UserId) (key : BalanceKey) : Prop where
  orderly : Orderly s
  tradeIds : TradeIdsBelow s
  orders : ∀ k o, s.pg.orders k = some o → o.userId ≠ userId
  unlocked : s.locked key = 0
  balanced : Balanced (amounts (s.rowOrZero key))

/-- **What a limit buy has been placed with**: its lock is what it costs at its limit. -/
structure BuyPlaced (userId : UserId) (dto : OrderCreateDto) (pair : TradingPair) (price : ℚ) (id : OrderId)
    (s t : Store) : Prop where
  limit : dto.price = some price
  limit_pos : 0 < price
  quantity_pos : 0 < dto.quantity
  next : id = s.orderIdSeq
  orders : t.pg.orders = Function.update s.pg.orders id (some (newOrder userId dto))
  row : t.pg.balances (userId, pair.quoteAsset) =
    some (lockedRow (s.rowOrZero (userId, pair.quoteAsset)) (price * dto.quantity))
  book : t.redis.book = s.redis.book

section

variable {userId : UserId} {dto : OrderCreateDto} {pair pair' : TradingPair} {price funds : ℚ}
  {id : OrderId} {s s' t : Store} {p : OrderActionPayload} {r : MatchResult} {o o' : Order} {row row' : Row}
  {args : BatchArgs} {trades : List DomainTrade} {rows : List Trade} {x : ℚ × ℚ}

/-! ### Batches -/

/-- What is locked still covers what is left, when what has been filled was paid at the limit. -/
theorem LocksRest.bought (h : LocksRest price o row) (hprice : 0 < price) (hx : 0 ≤ x.1) (hpaid : x.2 = price * x.1)
    (hleft : o'.remainingQuantity = o.remainingQuantity - x.1)
    (hlocked : row'.lockedBalance = row.lockedBalance - x.2) (hnonneg : 0 ≤ row'.lockedBalance)
    (hstatus : o'.status = o.status ∨ o'.status = o'.fillStatus) : LocksRest price o' row' := by
  rcases h with hzero | ⟨hactive, hcovers⟩
  · -- nothing was locked, so nothing has been paid
    have hcost : 0 ≤ price * x.1 := mul_nonneg hprice.le hx
    exact .inl (le_antisymm (by linarith) hnonneg)
  have hcovers' : row'.lockedBalance = price * o'.remainingQuantity := by
    rw [hlocked, hcovers, hpaid, hleft]
    ring
  rcases hstatus with hsame | hfill
  · exact .inr ⟨hsame ▸ hactive, hcovers'⟩
  unfold Order.fillStatus at hfill
  split_ifs at hfill with hfilled
  · -- nothing is left, so nothing is locked
    have hdone : o'.remainingQuantity ≤ 0 := sub_nonpos.mpr hfilled
    have hle : row'.lockedBalance ≤ 0 := hcovers' ▸ mul_nonpos_of_nonneg_of_nonpos hprice.le hdone
    exact .inl (le_antisymm hle hnonneg)
  · exact .inr ⟨hfill ▸ rfl, hcovers'⟩

/-- **A batch** moves what it settles from what is locked. -/
theorem Accounted.batch (h : Accounted userId dto pair price funds id s)
    (hbuys : Buys s args trades userId pair.quoteAsset id) (hids : TradeIdsBelow s) (hfresh : Fresh s)
    (hbatch : persistTradeBatch args trades s = (.ok rows, t)) : Accounted userId dto pair price funds id t ∧
      (0 < price → (∀ t ∈ trades, args.takerOrderId = id ∨ t.makerOrderId = id → t.price = price) →
        s.Covered price id (userId, pair.quoteAsset) → t.Covered price id (userId, pair.quoteAsset)) := by
  obtain ⟨o, row, ho, hrow, hterms, hpending, hconserved⟩ := h.held
  obtain ⟨⟨o', ho', hterms', hfilled, hstatus⟩, ⟨row', hrow', hmoved⟩, hsettled⟩ :=
    hbuys.bought hids hbatch ho (hfresh.nonneg id o ho) hpending hrow
  obtain ⟨hset, -, -⟩ := persistTradeBatch_spec hbatch
  have hlocked : row'.lockedBalance = row.lockedBalance + -(batchFills args trades id).2 :=
    congrArg (fun a : Amounts => a.2.1) hmoved
  have havailable : row'.availableBalance = row.availableBalance + 0 :=
    congrArg (fun a : Amounts => a.2.2) hmoved
  have hnonneg : 0 ≤ row'.lockedBalance := by
    have hbefore : 0 ≤ s.locked (userId, pair.quoteAsset) := by
      rw [locked_of_row hrow]
      exact hconserved.nonneg
    have hafter : 0 ≤ t.locked (userId, pair.quoteAsset) :=
      (persistTradeBatch_solvent args trades).of_ok hbatch hbefore
    rwa [locked_of_row hrow'] at hafter
  refine ⟨⟨h.own_of_terms fun k o₁ ho₁ => ?_, fun symbol side x hx hid => ?_, o', row', ho', hrow',
    hterms'.trans hterms, ?_, ?_, hnonneg, ?_⟩, fun hpos hprice hcovered o₁ row₁ ho₁ hrow₁ => ?_⟩
  · have hterms := congrFun (congrArg (fun x => x.2.2.2) hset) k
    have hterms : (t.pg.orders k).map Order.terms = (s.pg.orders k).map Order.terms := hterms
    rw [ho₁] at hterms
    exact Option.map_eq_some_iff.mp hterms.symm |>.imp fun x hx => ⟨hx.1, hx.2.symm⟩
  · exact h.booked symbol side x ((persistTradeBatch_book hbatch symbol side).subset hx) hid
  · rcases hstatus with hsame | hfill
    · rw [hsame]
      exact hpending
    · rw [hfill, Order.fillStatus]
      split_ifs <;> decide
  · rw [hmoved]
    refine hconserved.balanced.add ?_
    show -(batchFills args trades id).2 = -(batchFills args trades id).2 + 0
    rw [add_zero]
  · rw [hsettled, hlocked, havailable, ← hconserved.sum]
    ring
  · obtain rfl : o' = o₁ := Option.some.inj (ho'.symm.trans ho₁)
    obtain rfl : row' = row₁ := Option.some.inj (hrow'.symm.trans hrow₁)
    refine (hcovered o row ho hrow).bought hpos (batchFills_nonneg hbuys.quantity_pos)
      (batchFills_of_price hprice) ?_ (hlocked.trans (sub_eq_add_neg _ _).symm) hnonneg hstatus
    have hquantity : o'.quantity = o.quantity := congrArg OrderTerms.quantity hterms'
    rw [Order.remainingQuantity, hfilled, hquantity, Order.remainingQuantity]
    ring

/-! ### What is placed -/

/-- A placement takes up an order of others, or the limit buy as it was placed. -/
theorem Accounted.takesUp (h : Accounted userId dto pair price funds id s) (hdto : dto.LimitBuy)
    (hprice : dto.price = some price) (hpos : 0 < price) (hrow : s.HasRow p) :
    (p.orderId ≠ id ∧ p.userId ≠ userId) ∨ p.orderId = id ∧ p.userId = userId ∧ p.symbol = dto.symbol ∧
      p.side = .buy ∧ p.type = .limit ∧ p.price = some price := by
  have hkept : orNone dto.price = some price := by
    rw [hprice, orNone, Option.filter_some, if_pos (by simpa using hpos.ne')]
  obtain ⟨o, ho, hfits⟩ := hrow
  by_cases hid : p.orderId = id
  · obtain ⟨x, -, hx, -, hterms, -⟩ := h.held
    obtain rfl : o = x := by
      rw [hid] at ho
      exact Option.some.inj (ho.symm.trans hx)
    exact .inr ⟨hid, hfits.userId.symm.trans (congrArg OrderTerms.userId hterms),
      hfits.symbol.symm.trans (congrArg OrderTerms.symbol hterms),
      (hfits.side.symm.trans (congrArg OrderTerms.side hterms)).trans hdto.side,
      (hfits.type.symm.trans (congrArg OrderTerms.type hterms)).trans hdto.type,
      hfits.price.symm.trans ((congrArg (fun x => orNone x.price) hterms).trans hkept)⟩
  · refine .inl ⟨hid, fun huser => hid ?_⟩
    exact (h.own _ o ho).mp (hfits.userId.trans huser)

/-- When the order rests, it does so as it was placed. -/
theorem Accounted.restsAs (h : Accounted userId dto pair price funds id s) (hc : Consistent s)
    {symbol : Symbol} {side : OrderSide} (hmem : id ∈ (s.redis.book symbol side).members) :
    dto.symbol = symbol ∧ dto.side = side := by
  obtain ⟨o, ho, hrests⟩ := hc.booked symbol side id hmem
  obtain ⟨x, -, hx, -, hterms, -⟩ := h.held
  obtain rfl : o = x := Option.some.inj (ho.symm.trans hx)
  have hsymbol : o.symbol = dto.symbol := congrArg OrderTerms.symbol hterms
  have hside : o.side = dto.side := congrArg OrderTerms.side hterms
  exact ⟨hsymbol.symm.trans hrests.symbol, hside.symm.trans hrests.side⟩

/-- **The trades of a match** are such that the order buys with what is locked for it. -/
theorem Accounted.buys {e : Engine.CMatchingEngine} (h : Accounted userId dto pair price funds id s)
    (hdto : dto.LimitBuy) (hprice : dto.price = some price) (hpos : 0 < price)
    (hlisted : s.pg.tradingPairs dto.symbol = some pair) (hassets : pair.baseAsset ≠ pair.quoteAsset)
    (ht : Placeable p s) (hmatched : Matched p s r)
    (hpair : s.pg.tradingPairs p.symbol = some pair') :
    Buys (s.setEngine e) (batchArgs p pair') (s.domainTrades p r) userId pair.quoteAsset id := by
  have hmaker : ∀ t ∈ s.domainTrades p r, t.makerOrderId = id →
      dto.symbol = p.symbol ∧ dto.side = p.side.opposite := by
    rintro t ht' rfl
    exact h.restsAs ht.consistent (hmatched.maker_booked ht')
  have htaker : p.orderId = id → p.symbol = dto.symbol ∧ p.side = .buy := fun hid =>
    (h.takesUp hdto hprice hpos ht.row).elim (fun hne => absurd hid hne.1) fun heq =>
      ⟨heq.2.2.1, heq.2.2.2.1⟩
  refine ⟨fun t ht' => hmatched.maker_ne ht.consistent ht.row ht', hmatched.trade_pos, h.own,
    fun hpart => ?_, fun hid => (htaker hid).2, fun t ht' hid => ?_⟩
  · have hsymbol : p.symbol = dto.symbol := by
      rcases hpart with ⟨hid, -⟩ | ⟨t, ht', hid⟩
      · exact (htaker hid.symm).1
      · exact (hmaker t ht' hid).1.symm
    obtain rfl : pair = pair' := by
      rw [hsymbol] at hpair
      exact Option.some.inj (hlisted.symm.trans hpair)
    exact ⟨rfl, hassets⟩
  · have hside := (hmaker t ht' hid).2
    rw [hdto.side] at hside
    show p.side = .sell
    cases hp : p.side
    · rw [hp] at hside
      exact absurd hside (by decide)
    · rfl

/-- **The order trades at its limit**, when nothing is offered below it. -/
theorem Accounted.tradesAtLimit (h : Accounted userId dto pair price funds id s)
    (hprice : p.orderId = id → p.side = .buy ∧ p.price = some price ∧ ∀ o ∈ s.offers p, price ≤ o.price)
    (hmatched : Matched p s r) : ∀ t ∈ s.domainTrades p r, p.orderId = id ∨ t.makerOrderId = id →
      t.price = price := by
  intro t ht hpart
  obtain ⟨t', ht', rfl⟩ := List.mem_map.mp ht
  obtain ⟨o, ho, q, -, hin, rfl⟩ := hmatched.facts.trade t' ht'
  show o.price = price
  rcases hpart with hid | hid
  · obtain ⟨hbuy, hlimit, hoffers⟩ := hprice hid
    exact le_antisymm (price_le_of_within hbuy hlimit hin) (hoffers o ho)
  · have hid : o.orderId = id := hid
    obtain ⟨y, hy, -, -, hyid, hyprice, -⟩ := mem_offers ho
    rw [hyprice]
    exact h.booked _ _ y hy (hyid.symm.trans hid)

/-! ### What follows the trades -/

/-- What follows the trades of others. -/
theorem keptBalances_finishPlaced (hother : p.userId ≠ userId) (remaining : ℚ) :
    Prog.Moves (KeptBalances userId) (finishPlaced p remaining) := by
  intro t
  unfold finishPlaced
  split_ifs
  · rcases insertRestingTaker_cases p remaining t with ⟨score, -, hx⟩ | ⟨err, -, hx⟩ <;> rw [hx] <;>
      exact keptBalances_of_eq rfl
  · rcases hx : refundMarketBuyLeftover p t with ⟨err | u, s'⟩
    · rw [refundMarketBuyLeftover, transaction, Prog.atomically_eq_error] at hx
      obtain ⟨s₁, -, rfl⟩ := hx
      exact keptBalances_of_eq rfl
    · rcases refund_cases hx with ⟨rfl, -⟩ | ⟨pair, row, -, -, -, hunlock⟩
      · exact refl_of (KeptBalances userId) s'
      · exact (keptBalances_pessimistic hother _ _ _).of_ok hunlock
  · exact refl_of (KeptBalances userId) t

/-- **What follows the trades of others** leaves the order alone. -/
theorem Accounted.finish_other (h : Accounted userId dto pair price funds id t) (hid : p.orderId ≠ id)
    (hother : p.userId ≠ userId) (remaining : ℚ) :
    Accounted userId dto pair price funds id (finishPlaced p remaining t).2 ∧
      (t.Covered price id (userId, pair.quoteAsset) →
        (finishPlaced p remaining t).2.Covered price id (userId, pair.quoteAsset)) := by
  have hstep := finishPlaced_step p remaining t
  have hbalances := keptBalances_finishPlaced hother remaining t
  generalize (finishPlaced p remaining t).2 = s' at hstep hbalances ⊢
  cases hstep with
  | left _ => exact ⟨h, fun hcovered => hcovered⟩
  | unscored _ _ _ _ => exact h.congr (fun _ _ _ => Iff.rfl) rfl hbalances fun _ _ _ hx _ => .inl hx
  | refunded _ _ key row update =>
    exact h.congr (fun _ _ _ => Iff.rfl) rfl hbalances fun _ _ _ hx _ => .inl hx
  | rested _ _ score _ =>
    refine h.congr (fun _ _ _ => Iff.rfl) rfl hbalances fun symbol side x hx hxid => .inl ?_
    rcases mem_rest hx with hx | ⟨rfl, -, -⟩
    · exact hx
    · exact absurd hxid hid

/-- **The order rests**, at a price that its score can tell. -/
theorem Accounted.rested (h : Accounted userId dto pair price funds id t) (hprice : p.price.getD 0 = price)
    (hgrid : ∃ k : ℤ, price * priceScale = k) (hrests : p.type.rests = true) {remaining : ℚ}
    (hpos : 0 < remaining) : Accounted userId dto pair price funds id (finishPlaced p remaining t).2 ∧
      (t.Covered price id (userId, pair.quoteAsset) →
        (finishPlaced p remaining t).2.Covered price id (userId, pair.quoteAsset)) := by
  have hrun : finishPlaced p remaining t = insertRestingTaker p remaining t := by
    rw [finishPlaced, if_pos ⟨hpos, hrests⟩]
  rw [hrun]
  rcases insertRestingTaker_cases p remaining t with ⟨score, hscore, hx⟩ | ⟨err, -, hx⟩ <;> rw [hx]
  · have hdecode : (decodeScore score).1 = price := by
      rw [decodeScore_encodeScore hscore, hprice]
      exact tick_exact_iff.mpr hgrid
    refine h.congr (fun _ _ _ => Iff.rfl) rfl (keptBalances_of_eq rfl) fun symbol side x hx _ => ?_
    rcases mem_rest hx with hx | ⟨rfl, -, -⟩
    · exact .inl hx
    · exact .inr hdecode
  · exact h.congr (fun _ _ _ => Iff.rfl) rfl (keptBalances_of_eq rfl) fun _ _ _ hx _ => .inl hx

/-- **The order has been filled**: all that is locked is unlocked. -/
theorem Accounted.refunded (h : Accounted userId dto pair price funds id t)
    (hlisted : t.pg.tradingPairs p.symbol = some pair) (huser : p.userId = userId) (hside : p.side = .buy)
    (htype : p.type = .limit) : Accounted userId dto pair price funds id (finishPlaced p 0 t).2 ∧
      (finishPlaced p 0 t).2.Covered price id (userId, pair.quoteAsset) := by
  subst huser
  have hrun : finishPlaced p 0 t = refundMarketBuyLeftover p t := by
    have hrefunds : refunds p 0 = true := by
      unfold refunds
      rw [hside, htype]
      rfl
    rw [finishPlaced, if_neg fun h => lt_irrefl _ h.1, if_pos hrefunds]
  obtain ⟨o, row, ho, hrow, hterms, hpending, hconserved⟩ := h.held
  obtain ⟨s', row', hx, hquiet, hrow', hmoved⟩ := refund_unlocks hlisted hrow hconserved
  obtain ⟨hconserved', hzero⟩ := hconserved.unlocked hmoved
  obtain ⟨balances, updates, rfl⟩ := hquiet
  rw [hrun, hx]
  refine ⟨⟨h.own, h.booked, o, row', ho, hrow', hterms, hpending, hconserved'⟩, fun o₁ row₁ _ hrow₁ => .inl ?_⟩
  obtain rfl : row' = row₁ := Option.some.inj (hrow'.symm.trans hrow₁)
  exact hzero

/-! ### Rounds of the worker -/

/-- The engine is not the account's. -/
theorem Accounted.setEngine (h : Accounted userId dto pair price funds id s) (e : Engine.CMatchingEngine) :
    Accounted userId dto pair price funds id (s.setEngine e) := ⟨h.own, h.booked, h.held⟩

/-- **A placement.** -/
theorem Accounted.handlePlace (h : Accounted userId dto pair price funds id s)
    (hcovered : s.Covered price id (userId, pair.quoteAsset)) (hids : TradeIdsBelow s)
    (hlisted : s.pg.tradingPairs dto.symbol = some pair) (hdto : dto.LimitBuy)
    (hprice : dto.price = some price) (hpos : 0 < price) (hassets : pair.baseAsset ≠ pair.quoteAsset)
    (ht : Taken p s) (hguard : p.orderId = id → p.quantity ≤ s.crossingVolume p ∨
      (∃ k : ℤ, price * priceScale = k) ∧ ∀ o ∈ s.offers p, price ≤ o.price) :
    Accounted userId dto pair price funds id (Exchange.handlePlace p s).2 ∧
      (Exchange.handlePlace p s).2.Covered price id (userId, pair.quoteAsset) := by
  obtain ⟨e, ready, hstate, hmatched⟩ := matchPlaced_spec ht.consistent.engine p
  have hsame := h.setEngine e
  rcases hmatch : matchPlaced p s with ⟨err | r, s₁⟩ <;> rw [hmatch] at hstate hmatched <;>
    obtain rfl : s₁ = s.setEngine e := hstate
  · rw [handlePlace_unmatched hmatch]
    exact ⟨hsame, hcovered⟩
  obtain ⟨hq, hmakers, hfacts⟩ := hmatched r rfl
  have hmatched : Matched p s r := ⟨hq, hmakers, hfacts⟩
  -- what follows the trades, whether the taker is the order or not
  have hfinish : ∀ t : Store, Accounted userId dto pair price funds id t →
      t.pg.tradingPairs = s.pg.tradingPairs →
      ((p.orderId = id → ∀ o ∈ s.offers p, price ≤ o.price) →
        t.Covered price id (userId, pair.quoteAsset)) →
      Accounted userId dto pair price funds id (finishPlaced p r.remainingQty t).2 ∧
        (finishPlaced p r.remainingQty t).2.Covered price id (userId, pair.quoteAsset) := by
    intro t haccounted hpairs hcovers
    rcases h.takesUp hdto hprice hpos ht.row with ⟨hid, hother⟩ | ⟨hid, huser, hsymbol, hside, htype, hlimit⟩
    · obtain ⟨hafter, hkeeps⟩ := haccounted.finish_other hid hother r.remainingQty
      exact ⟨hafter, hkeeps (hcovers fun h => absurd h hid)⟩
    rcases hmatched.remaining_nonneg.eq_or_lt with hzero | hleft
    · rw [← hzero]
      refine haccounted.refunded ?_ huser hside htype
      rw [hpairs, hsymbol]
      exact hlisted
    · -- it rests, so it has taken nothing below its limit
      have hrests : p.type.rests = true := by
        rw [htype]
        rfl
      have hgetD : p.price.getD 0 = price := by
        rw [hlimit]
        rfl
      have hnot : ¬ p.quantity ≤ s.crossingVolume p := fun hle =>
        hleft.ne' (hmatched.filled_iff.mpr ⟨by rw [htype]; decide, hle⟩)
      obtain ⟨hgrid, hoffers⟩ := (hguard hid).resolve_left hnot
      obtain ⟨hafter, hkeeps⟩ := haccounted.rested hgetD hgrid hrests hleft
      exact ⟨hafter, hkeeps (hcovers fun _ => hoffers)⟩
  rcases handlePlace_matched hmatch with hx | ⟨-, ⟨hnil, hx⟩ | ⟨hne, pair', hpair, ⟨rows, s₂, hbatch, hx⟩ |
    ⟨err, s₂, hbatch, hx⟩⟩⟩ <;> rw [hx]
  · exact ⟨hsame, hcovered⟩
  · exact hfinish _ hsame rfl fun _ => hcovered
  · have hbuys : Buys (s.setEngine e) (batchArgs p pair') (s.domainTrades p r) userId pair.quoteAsset id :=
      h.buys hdto hprice hpos hlisted hassets ht.toPlaceable hmatched hpair
    obtain ⟨haccounted, hkeeps⟩ := hsame.batch hbuys hids (ht.toPlaceable.setEngine ready).fresh hbatch
    obtain ⟨hset, -, -⟩ := persistTradeBatch_spec hbatch
    refine hfinish s₂ haccounted (congrArg (fun x => x.2.1) hset) fun hoffers => ?_
    refine hkeeps hpos (h.tradesAtLimit (fun hid => ?_) hmatched) hcovered
    obtain ⟨-, -, -, hside, -, hlimit⟩ :=
      (h.takesUp hdto hprice hpos ht.row).resolve_left fun hne => hne.1 hid
    exact ⟨hside, hlimit, hoffers hid⟩
  · -- a batch that raises is rolled back
    have hdrained := persistTradeBatch_moves_error (drains_fillSteps _ _) hbatch ht.consistent.ids
    refine ⟨⟨h.own, fun symbol side x hmem hid => ?_, h.held⟩, hcovered⟩
    exact h.booked symbol side x ((hdrained.book symbol side).subset hmem) hid

/-- **A round of the worker.** -/
theorem Living.work (h : Living userId dto pair price funds id s) (hdto : dto.LimitBuy)
    (hprice : dto.price = some price) (hpos : 0 < price) (hassets : pair.baseAsset ≠ pair.quoteAsset)
    (hguard : LimitGuard id s .work) : Living userId dto pair price funds id (s.serve .work) := by
  have horderly := orderly_serve h.orderly .work
  have htradeIds := tradeIds_serve h.tradeIds h.orderly.consistent .work
  have hlisted : (s.serve .work).pg.tradingPairs dto.symbol = some pair := by
    rw [serve_pairs h.orderly.consistent.ids h.orderly.consistent.engine]
    exact h.listed
  obtain ⟨haccounted, hcovered⟩ : Accounted userId dto pair price funds id (s.serve .work) ∧
      (s.serve .work).Covered price id (userId, pair.quoteAsset) := by
    show Accounted userId dto pair price funds id (Exchange.work s).2 ∧
      (Exchange.work s).2.Covered price id (userId, pair.quoteAsset)
    cases hqueue : s.redis.ordersQueue with
    | nil =>
      rw [work_nil hqueue]
      exact ⟨h.toAccounted, h.covered⟩
    | cons p rest =>
      have hpopped : Accounted userId dto pair price funds id (s.setQueue rest) := ⟨h.own, h.booked, h.held⟩
      rw [work_cons hqueue]
      split_ifs with hplace
      · refine hpopped.handlePlace h.covered h.tradeIds h.listed hdto hprice hpos hassets
          (h.orderly.taken hqueue hplace) fun hid => ?_
        have htaken := hpopped.takesUp hdto hprice hpos (h.orderly.taken hqueue hplace).row
        obtain ⟨-, -, -, -, -, hlimit⟩ := htaken.resolve_left fun hne => hne.1 hid
        have hgetD : p.price.getD 0 = price := by
          rw [hlimit]
          rfl
        rw [← hgetD]
        exact hguard p (by rw [hqueue]; rfl) hplace hid
      · exact ⟨hpopped, h.covered⟩
  exact ⟨haccounted, horderly, htradeIds, hlisted, hcovered⟩

/-! ### The whole life -/

/-- **One request.** -/
theorem Living.serve (h : Living userId dto pair price funds id s) (hdto : dto.LimitBuy)
    (hprice : dto.price = some price) (hpos : 0 < price) (hassets : pair.baseAsset ≠ pair.quoteAsset)
    {req : Request} (hreq : req.OnlyCancels userId) (hguard : LimitGuard id s req) :
    Living userId dto pair price funds id (s.serve req) := by
  by_cases hwork : req = .work
  · subst hwork
    exact h.work hdto hprice hpos hassets hguard
  by_cases hcaller : req.caller = some userId
  · obtain ⟨k, rfl⟩ := hreq hcaller
    exact h.cancel hdto hprice k
  · have hc := h.orderly.consistent
    exact h.sameAccount (sameAccount_serve hc.ids h.toAccounted.plain hcaller hwork)
      (orderly_serve h.orderly req) (tradeIds_serve h.tradeIds hc req) (serve_pairs hc.ids hc.engine req)

/-- **A limit buy is placed.** -/
theorem buyPlaced (hdto : dto.LimitBuy) (hlisted : s.pg.tradingPairs dto.symbol = some pair)
    (hplace : placeOrder userId dto s = (.ok id, t)) : ∃ price, BuyPlaced userId dto pair price id s t := by
  have hstop : dto.type.isStop = false := by
    rw [hdto.type]
    rfl
  have hmarket : dto.type ≠ .market := by
    rw [hdto.type]
    decide
  rcases placeOrder_cases userId dto s with ⟨pair', lock, haccepted, -, hx⟩ | ⟨err, s', hx, -⟩
  swap
  · exact absurd (hplace.symm.trans hx) (by simp)
  obtain rfl : pair = pair' := Option.some.inj (hlisted.symm.trans haccepted.listed)
  obtain ⟨rfl, rfl⟩ : id = s.orderIdSeq ∧ t = (s.lockFor userId dto lock).placed userId dto := by
    simpa [hplace] using hx
  obtain ⟨price, hprice, hpos⟩ := haccepted.price hstop hmarket
  have hlock := haccepted.lock_limit hstop hdto.side hmarket
  rw [hprice] at hlock
  obtain rfl : lock = (pair.quoteAsset, price * dto.quantity) := hlock
  have hquantity := haccepted.valid.quantity_pos
  have hcost : 0 < price * dto.quantity := mul_pos hpos hquantity
  -- without children only the order itself is inserted
  have hinserted : ∀ x : Store, x.inserted userId dto = x.insert (newOrder userId dto) := by
    intro x
    rw [Store.inserted, hdto.sl, hdto.tp]
    rfl
  have hpg : ∀ x : Store, (x.placed userId dto).pg = (x.insert (newOrder userId dto)).pg := by
    intro x
    show (x.inserted userId dto).pg = _
    rw [hinserted]
  refine ⟨price, hprice, hpos, hquantity, rfl, ?_, ?_, (handOver_book _ _ _).trans ?_⟩
  · rw [hpg, Store.lockFor, if_pos ⟨hstop, hcost⟩]
    rfl
  · rw [hpg, Store.lockFor, if_pos ⟨hstop, hcost⟩]
    exact Function.update_self ..
  · rw [hinserted, Store.lockFor, if_pos ⟨hstop, hcost⟩]
    rfl

/-- **The order has been placed.** -/
theorem Store.Idle.living (h : s.Idle userId (userId, pair.quoteAsset)) (hdto : dto.LimitBuy)
    (hlisted : s.pg.tradingPairs dto.symbol = some pair) (hplace : placeOrder userId dto s = (.ok id, t))
    (hbuy : BuyPlaced userId dto pair price id s t) :
    Living userId dto pair price (t.available (userId, pair.quoteAsset) + t.settledQuote id) id t := by
  have hserve : s.serve (.place userId dto) = t := by
    have hrun : Exchange.discard (placeOrder userId dto) s = (.ok ⟨⟩, t) := by
      rw [Exchange.discard, Prog.bind_of_ok hplace]
      rfl
    exact congrArg Prod.snd (Prog.atomically_eq_ok.mpr hrun)
  have hc := h.orderly.consistent
  have horderly := orderly_serve h.orderly (.place userId dto)
  have htradeIds := tradeIds_serve h.tradeIds hc (.place userId dto)
  have hpairs := serve_pairs hc.ids hc.engine (.place userId dto)
  rw [hserve] at horderly htradeIds hpairs
  have ho : t.pg.orders id = some (newOrder userId dto) := by
    rw [hbuy.orders]
    exact Function.update_self ..
  have hstatus : (newOrder userId dto).status = .new := by
    show (if dto.type.isStop then OrderStatus.pending else .new) = _
    rw [hdto.type]
    rfl
  have hlocked : (s.rowOrZero (userId, pair.quoteAsset)).lockedBalance = 0 := h.unlocked
  have havailable := available_of_row hbuy.row
  refine ⟨⟨fun k o hk => ?_, fun symbol side x hx hid => ?_, _, _, ho, hbuy.row, rfl, ?_, ?_, ?_, ?_⟩, horderly,
    htradeIds, hpairs ▸ hlisted, fun o row ho' hrow => .inr ?_⟩
  · rw [hbuy.orders] at hk
    by_cases hid : k = id
    · subst hid
      rw [Function.update_self] at hk
      rw [← Option.some.inj hk]
      exact ⟨fun _ => rfl, fun _ => rfl⟩
    · rw [Function.update_of_ne hid] at hk
      exact ⟨fun huser => absurd huser (h.orders k o hk), fun heq => absurd heq hid⟩
  · rw [hbuy.book] at hx
    rw [hbuy.next] at hid
    exact absurd (hid ▸ List.mem_map_of_mem hx) (hc.next_new.2 symbol side)
  · rw [hstatus]
    decide
  · have hbalanced : (s.rowOrZero (userId, pair.quoteAsset)).totalBalance =
        (s.rowOrZero (userId, pair.quoteAsset)).lockedBalance +
          (s.rowOrZero (userId, pair.quoteAsset)).availableBalance := h.balanced
    show (s.rowOrZero (userId, pair.quoteAsset)).totalBalance = (_ + price * dto.quantity) +
      (_ - price * dto.quantity)
    rw [hbalanced]
    ring
  · show 0 ≤ (s.rowOrZero (userId, pair.quoteAsset)).lockedBalance + price * dto.quantity
    rw [hlocked, zero_add]
    exact (mul_pos hbuy.limit_pos hbuy.quantity_pos).le
  · rw [havailable]
    show _ + ((s.rowOrZero (userId, pair.quoteAsset)).lockedBalance + price * dto.quantity) + _ = _
    rw [hlocked]
    ring
  · obtain rfl := Option.some.inj (ho.symm.trans ho')
    obtain rfl := Option.some.inj (hbuy.row.symm.trans hrow)
    refine ⟨hstatus ▸ rfl, ?_⟩
    show (s.rowOrZero (userId, pair.quoteAsset)).lockedBalance + price * dto.quantity =
      price * (dto.quantity - 0)
    rw [hlocked, zero_add, sub_zero]

/-- **An order that has ended** is paid up. -/
theorem Living.paidUp (h : Living userId dto pair price (s.available (userId, pair.quoteAsset) +
    s.settledQuote id) id t) : s.PaidUp t id (userId, pair.quoteAsset) (price * dto.quantity) := by
  intro o ho hterminal
  obtain ⟨x, row, hx, hrow, -, -, hconserved⟩ := h.held
  obtain rfl : o = x := Option.some.inj (ho.symm.trans hx)
  have hzero : row.lockedBalance = 0 := by
    refine (h.covered o row ho hrow).resolve_right fun hactive => ?_
    have hactive := hactive.1
    cases hstatus : o.status <;> rw [hstatus] at hterminal hactive <;> contradiction
  have hsum := hconserved.sum
  rw [hzero] at hsum
  rw [locked_of_row hrow, available_of_row hrow]
  exact ⟨by linarith, hzero⟩

end

/-- **A limit buy is paid up when it ends**, in every run in which the worker fills it at once, or finds
    nothing offered below its limit. -/
theorem run_paidUp {userId : UserId} {dto : OrderCreateDto} {pair : TradingPair} {id : OrderId} {s t : Store}
    {reqs : List Request} (hidle : s.Idle userId (userId, pair.quoteAsset)) (hdto : dto.LimitBuy)
    (hlisted : s.pg.tradingPairs dto.symbol = some pair) (hassets : pair.baseAsset ≠ pair.quoteAsset)
    (hplace : placeOrder userId dto s = (.ok id, t)) (hreqs : ∀ req ∈ reqs, req.OnlyCancels userId)
    (h : Run.Along Store.serve (LimitGuard id) t reqs) :
    t.locked (userId, pair.quoteAsset) = dto.price.getD 0 * dto.quantity ∧
      Run.Along Store.serve (fun u req => t.PaidUp (u.serve req) id (userId, pair.quoteAsset)
        (dto.price.getD 0 * dto.quantity)) t reqs := by
  obtain ⟨price, hbuy⟩ := buyPlaced hdto hlisted hplace
  have hliving := hidle.living hdto hlisted hplace hbuy
  have hgetD : dto.price.getD 0 = price := by
    rw [hbuy.limit]
    rfl
  rw [hgetD]
  refine ⟨?_, ((Run.Along.of_forall fun req hreq _ => hreqs req hreq).and h).mono (fun u req hu hreq => ?_)
    hliving⟩
  · rw [locked_of_row hbuy.row]
    show (s.rowOrZero (userId, pair.quoteAsset)).lockedBalance + _ = _
    rw [show (s.rowOrZero (userId, pair.quoteAsset)).lockedBalance = 0 from hidle.unlocked, zero_add]
  · have hserved := hu.serve hdto hbuy.limit hbuy.limit_pos hassets hreq.1 hreq.2
    exact ⟨hserved, hserved.paidUp⟩

/-! ### A bid that saves something before it rests -/

/-- Deciding that the next round of the worker is guarded. -/
def guardsLimit (id : OrderId) (s : Store) : Bool :=
  s.redis.ordersQueue.head?.all fun p =>
    decide (p.orderId = id → p.quantity ≤ s.crossingVolume p ∨
      (tick (p.price.getD 0) : ℚ) / priceScale = p.price.getD 0 ∧ ∀ o ∈ s.offers p, p.price.getD 0 ≤ o.price)

theorem limitGuard_work {id : OrderId} {s : Store} (h : guardsLimit id s = true) : LimitGuard id s .work := by
  intro p hp _ hid
  unfold guardsLimit at h
  rw [Option.mem_def.mp hp, Option.all_some, decide_eq_true_eq] at h
  exact (h hid).imp_right fun hrests => ⟨tick_exact_iff.mp hrests.1, hrests.2⟩

/-- Two units are bid for. -/
def bidPlaced (s : Store) : Store := (placeOrder 2 (limitDto .buy 2 100) s).2

theorem idle_twoUsers : twoUsers.Idle 2 (2, "USDT") where
  orderly := ⟨consistent_start _ _ _, fresh_start _ _ _⟩
  tradeIds := fun _ ht => absurd ht List.not_mem_nil
  orders := fun _ _ ho => nomatch ho
  unlocked := rfl
  balanced := by
    show (1000 : ℚ) = 0 + 1000
    norm_num

/-- One unit is sold to the bid, and the rest of it is cancelled. -/
def soldAndCanceledRun : List Request := [.work, .place 1 (limitDto .sell 1 100), .work, .cancel 2 1]

theorem run_paidUp_soldAndCanceled :
    (bidPlaced twoUsers).locked (2, "USDT") = 100 * 2 ∧
      Run.Along Store.serve (fun u req => (bidPlaced twoUsers).PaidUp (u.serve req) 1 (2, "USDT") (100 * 2))
        (bidPlaced twoUsers) soldAndCanceledRun := by
  have hplace : placeOrder 2 (limitDto .buy 2 100) twoUsers = (.ok 1, bidPlaced twoUsers) :=
    Prod.ext (by decide +kernel) rfl
  have hreqs : ∀ req ∈ soldAndCanceledRun, req.OnlyCancels 2 := by
    unfold soldAndCanceledRun
    simp [Request.OnlyCancels, Request.caller]
  have hguards : Run.Along Store.serve (LimitGuard 1) (bidPlaced twoUsers) soldAndCanceledRun :=
    ⟨limitGuard_work (by decide +kernel), trivial, limitGuard_work (by decide +kernel), trivial, trivial⟩
  exact run_paidUp idle_twoUsers ⟨rfl, rfl, rfl, rfl⟩ rfl (by decide) hplace hreqs hguards

/-- One unit is asked for at a lower price. -/
def oneAsked : Store := twoUsers.serveAll [.place 1 (limitDto .sell 1 90), .work]

/-- **What a bid has saved stays locked**: one unit is bought at 90 and, when the rest has rested, one at
    100; 10 are neither settled nor unlocked. -/
theorem improvement_stuck : ¬ Run.Along Store.serve (fun u req =>
    (bidPlaced oneAsked).PaidUp (u.serve req) 2 (2, "USDT") (100 * 2)) (bidPlaced oneAsked)
      [.work, .place 1 (limitDto .sell 1 100), .work] := by
  rintro ⟨-, -, h, -⟩
  have hended : ((((((bidPlaced oneAsked).serve .work).serve (.place 1 (limitDto .sell 1 100))).serve
      .work).pg.orders 2).map fun o => o.status.isTerminal) = some true := by decide +kernel
  have hlocked : ((((bidPlaced oneAsked).serve .work).serve (.place 1 (limitDto .sell 1 100))).serve
      .work).locked (2, "USDT") = 10 := by decide +kernel
  obtain ⟨o, ho, hterminal⟩ := Option.map_eq_some_iff.mp hended
  have hzero := (h o ho hterminal).2
  rw [hlocked] at hzero
  exact absurd hzero (by norm_num)

end SpotExchange.Exchange
