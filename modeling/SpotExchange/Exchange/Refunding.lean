import SpotExchange.Exchange.Pushing
import SpotExchange.Exchange.Serving
import SpotExchange.Exchange.Paying

namespace SpotExchange.Exchange

open SpotExchange.Lib
open SpotExchange.Engine (OrderId MatchResult)
open SpotExchange.Ledger (BalanceKey Row Op)

/-!
# The refund of a buy order

What a user has locked of an asset is one amount for all its orders.

* `batchEffect_locked` — what the trades of an order take from it;
* `settled_locked` — the taker of a batch that returns could pay;
* `refund_clears` — the refund unlocks whatever is left;
* `refundsOwn_iff` — which is what is left of the order itself just if nothing is locked for others.
-/

/-- What is available of a balance; a missing row counts as zeros. -/
def Store.available (s : Store) (key : BalanceKey) : ℚ := (s.rowOrZero key).availableBalance

section

variable {s s' t : Store} {p : OrderActionPayload} {r : MatchResult} {pair : TradingPair}
  {args : BatchArgs} {trades : List DomainTrade} {key : BalanceKey}

theorem locked_of_row {row : Row} (h : s.pg.balances key = some row) : s.locked key = row.lockedBalance := by
  unfold Store.locked Store.rowOrZero
  rw [h]
  rfl

theorem available_of_row {row : Row} (h : s.pg.balances key = some row) :
    s.available key = row.availableBalance := by
  unfold Store.available Store.rowOrZero
  rw [h]
  rfl

/-- What a shift does to the locked balance of a row that exists. -/
theorem Shifts.locked {Δ : BalanceKey → Amounts} (h : Shifts Δ s t) (hrow : s.pg.balances key ≠ none) :
    t.locked key = s.locked key + (Δ key).2.1 := by
  obtain ⟨row, hrow⟩ := Option.ne_none_iff_exists'.mp hrow
  obtain ⟨row', hrow', hamounts⟩ := h.row hrow
  rw [locked_of_row hrow, locked_of_row hrow']
  exact congrArg (fun a : Amounts => a.2.1) hamounts

/-- A shift that leaves the locked balance alone. -/
theorem Shifts.locked_of_zero {Δ : BalanceKey → Amounts} (h : Shifts Δ s t) (hzero : (Δ key).2.1 = 0) :
    t.locked key = s.locked key := by
  by_cases hrow : s.pg.balances key = none
  · unfold Store.locked Store.rowOrZero
    rw [hrow, (h.none_iff key).mpr hrow]
  · rw [h.locked hrow, hzero, add_zero]

/-! ### What the trades take -/

/-- What the taker of a batch pays with. -/
def BatchArgs.paidAsset (args : BatchArgs) : Asset :=
  match args.takerSide with
  | .buy => args.quoteAsset
  | .sell => args.baseAsset

/-- What the taker of a batch is paid in. -/
def BatchArgs.receivedAsset (args : BatchArgs) : Asset :=
  match args.takerSide with
  | .buy => args.baseAsset
  | .sell => args.quoteAsset

/-- What an order pays for trades of this quantity and quote quantity. -/
def OrderSide.pays (side : OrderSide) (qty quoteQty : ℚ) : ℚ :=
  match side with
  | .buy => quoteQty
  | .sell => qty

/-- What an order pays for the trades of a batch. -/
def takerTotalPaid (side : OrderSide) (trades : List DomainTrade) : ℚ :=
  side.pays (takerTotalQty trades) (takerTotalQuote trades)

@[simp] theorem takerTotalPaid_buy (trades : List DomainTrade) :
    takerTotalPaid .buy trades = takerTotalQuote trades := rfl

@[simp] theorem takerTotalPaid_sell (trades : List DomainTrade) :
    takerTotalPaid .sell trades = takerTotalQty trades := rfl

theorem receivedAsset_ne (hassets : args.baseAsset ≠ args.quoteAsset) :
    args.receivedAsset ≠ args.paidAsset := by
  unfold BatchArgs.receivedAsset BatchArgs.paidAsset
  cases args.takerSide
  · exact hassets
  · exact hassets.symm

/-- The makers have nothing taken from what is locked in the asset that their taker pays with. -/
theorem makerShift_locked (hassets : args.baseAsset ≠ args.quoteAsset) (maker userId : UserId)
    (qty quoteQty : ℚ) : (tradeShift args false maker qty quoteQty (userId, args.paidAsset)).2.1 = 0 := by
  unfold tradeShift partyShift BatchArgs.paidAsset
  cases args.takerSide <;> simp [Moved.single_apply, hassets, hassets.symm, opAmounts] <;>
    split_ifs <;> rfl

/-- The taker has what it pays taken. -/
theorem takerShift_locked (hassets : args.baseAsset ≠ args.quoteAsset) (taker userId : UserId)
    (qty quoteQty : ℚ) : (tradeShift args true taker qty quoteQty (userId, args.paidAsset)).2.1 =
      if userId = taker then -args.takerSide.pays qty quoteQty else 0 := by
  unfold tradeShift partyShift BatchArgs.paidAsset OrderSide.pays
  by_cases huser : userId = taker <;> cases args.takerSide <;>
    simp [Moved.single_apply, huser, hassets, hassets.symm, opAmounts]

/-- **What the trades of an order take** from what is locked in the asset that it pays with. -/
theorem batchEffect_locked (hassets : args.baseAsset ≠ args.quoteAsset) (owner : OrderId → UserId)
    (trades : List DomainTrade) (userId : UserId) :
    ((batchEffect args owner trades).1 (userId, args.paidAsset)).2.1 =
      if userId = owner args.takerOrderId then -takerTotalPaid args.takerSide trades else 0 := by
  unfold batchEffect takerTotalPaid takerTotalQuote takerTotalQty
  induction trades with
  | nil => cases args.takerSide <;> simp [OrderSide.pays]
  | cons t trades ih =>
    have hmaker := makerShift_locked hassets (owner t.fill.makerId) userId t.fill.qty t.fill.quoteQty
    have htaker := takerShift_locked hassets (owner args.takerOrderId) userId t.quantity
      (t.price * t.quantity)
    simp only [List.map_cons, List.sum_cons, Prod.fst_add, Pi.add_apply, Prod.snd_add, makerEffect,
      takerEffect] at ih ⊢
    rw [ih, hmaker, htaker]
    cases args.takerSide <;> simp only [OrderSide.pays] <;> split_ifs <;> ring

/-- The taker of a batch pays with one asset, and receives the other. -/
theorem settleTaker_party {userId : UserId} {orderId : OrderId} {qty quoteQty : ℚ}
    (h : settleTradeBalances args true userId orderId qty quoteQty s = (.ok ⟨⟩, t)) :
    ∃ amount, settleParty userId orderId args.paidAsset args.receivedAsset
      (args.takerSide.pays qty quoteQty) amount s = (.ok ⟨⟩, t) := by
  unfold settleTradeBalances at h
  unfold BatchArgs.paidAsset BatchArgs.receivedAsset OrderSide.pays
  cases hside : args.takerSide <;> rw [hside] at h <;> exact ⟨_, h⟩

/-- **The taker of a batch that returns could pay.** -/
theorem settled_locked (hassets : args.baseAsset ≠ args.quoteAsset)
    (hne : trades ≠ []) {rows : List Trade} (h : persistTradeBatch args trades s = (.ok rows, t))
    (hrow : s.pg.balances (s.owner args.takerOrderId, args.paidAsset) ≠ none) :
    0 ≤ t.locked (s.owner args.takerOrderId, args.paidAsset) := by
  have hsteps := settlement_setting args trades
  obtain ⟨hset, hrefs, hsettles⟩ := persistTradeBatch_spec h
  obtain ⟨s₁, s₂, -, -, htaker⟩ := persistTradeBatch_eq_ok hne h
  have hset₂ : s₂.setting = s.setting :=
    ((settleTaker_moves hsteps.1.taker hsteps.1.balance hsteps.2).of_ok htaker).symm.trans hset
  have howner := owner_of_setting hset₂
  have hrow' : t.pg.balances (s.owner args.takerOrderId, args.paidAsset) ≠ none := fun hnone =>
    hrow ((hsettles.balances.none_iff _).mp hnone)
  cases horder : s₂.pg.orders args.takerOrderId with
  | none =>
    obtain ⟨d, hd⟩ := List.exists_mem_of_ne_nil trades hne
    have hsome := hrefs d hd
    simp only [Database.tradeRefs, Bool.and_eq_true, Option.isSome_iff_ne_none] at hsome
    exact absurd ((none_of_setting hset₂ _).mp horder) hsome.1.1.1.1
  | some order =>
    rw [settleTaker_apply horder] at htaker
    obtain ⟨_, s₃, hb, hactivate⟩ := Prog.bind_eq_ok.mp htaker
    have huser : order.userId = s.owner args.takerOrderId := by
      rw [← howner, Store.owner, horder]
      rfl
    rw [huser] at hb
    obtain ⟨amount, hsettled⟩ := settleTaker_party hb
    -- what is activated afterwards moves no balance
    have hbalances : t.pg.balances = s₃.pg.balances :=
      (Prog.Moves.whenever fun _ => activateSltpChildren_moves (R := Prog.Keeps fun s : Store =>
        s.pg.balances) args.takerOrderId fun _ _ _ _ _ => rfl).of_ok hactivate
    have hshift := settleParty_shifts hsettled
    rw [hbalances] at hrow'
    obtain ⟨row, hrow₂⟩ := Option.ne_none_iff_exists'.mp (mt (hshift.none_iff _).mpr hrow')
    have hpays := ((settleParty_returns_iff.mp ⟨s₃, hsettled⟩).1 row hrow₂).2.1
    have htaken : ∀ paidAmount, (partyShift (s.owner args.takerOrderId) args.paidAsset args.receivedAsset
        paidAmount amount (s.owner args.takerOrderId, args.paidAsset)).2.1 = -paidAmount := fun _ => by
      simp [partyShift, Moved.single_apply, (receivedAsset_ne hassets).symm, opAmounts]
    have hlocked := hshift.locked (by rw [hrow₂]; simp)
    rw [locked_of_balances hbalances, hlocked, htaken, locked_of_row hrow₂]
    have hzero : row.lockedBalance + ((0 : BalanceKey → Amounts)
      (s.owner args.takerOrderId, args.paidAsset)).2.1 = row.lockedBalance := add_zero _
    linarith

/-! ### What the refund unlocks -/

/-- **A refund unlocks all that its user has locked.** -/
theorem refund_clears {u : Unit} (h : refundMarketBuyLeftover p s = (.ok u, s'))
    (hpair : s.pg.tradingPairs p.symbol = some pair)
    (hlocked : 0 ≤ s.locked (p.userId, pair.quoteAsset)) :
    s'.locked (p.userId, pair.quoteAsset) = 0 ∧ s'.available (p.userId, pair.quoteAsset) =
      s.available (p.userId, pair.quoteAsset) + s.locked (p.userId, pair.quoteAsset) := by
  rcases refund_cases h with ⟨rfl, hnone⟩ | ⟨pair', row, hpair', hrow, hpos, h⟩
  · -- nothing is locked
    have hzero : s'.locked (p.userId, pair.quoteAsset) = 0 := by
      refine le_antisymm ?_ hlocked
      cases hrow : s'.pg.balances (p.userId, pair.quoteAsset) with
      | none =>
        unfold Store.locked Store.rowOrZero
        rw [hrow]
        rfl
      | some row =>
        rw [locked_of_row hrow]
        exact hnone pair row hpair hrow
    rw [hzero, add_zero]
    exact ⟨rfl, rfl⟩
  · obtain rfl : pair = pair' := Option.some.inj (hpair.symm.trans hpair')
    obtain ⟨row₁, row', hrow₁, hop, hs⟩ := pessimistic_eq_ok h
    obtain rfl : row = row₁ := Option.some.inj (hrow.symm.trans hrow₁)
    have hrow' : s'.pg.balances (p.userId, pair.quoteAsset) = some row' := by
      rw [hs]
      exact Function.update_self _ _ _
    obtain ⟨-, hlocked', havailable⟩ : _ ∧ row'.lockedBalance = row.lockedBalance + -row.lockedBalance ∧
        row'.availableBalance = row.availableBalance + row.lockedBalance := by
      simpa only [amounts, opAmounts, Prod.mk_add_mk, Prod.mk.injEq] using amounts_pessimistic hop
    rw [locked_of_row hrow', available_of_row hrow', locked_of_row hrow, available_of_row hrow]
    exact ⟨by rw [hlocked', add_neg_cancel], havailable⟩

/-- The store when the trades of a placement have been persisted. -/
def Store.traded (s : Store) (p : OrderActionPayload) : Store :=
  ((do let r ← matchPlaced p; persistTrades p r.trades) s).2

/-- A match after which `_handle_place` refunds. -/
structure CallsRefund (p : OrderActionPayload) (r : MatchResult) : Prop where
  accepted : isOutcomeReject r.outcome = false
  rests : ¬ (0 < r.remainingQty ∧ p.type.rests = true)
  refunds : refunds p r.remainingQty = true

/-- **The refund touches only its own order's leftover**: this much is moved from locked to available,
    and what is locked for other orders stays. -/
structure RefundsOwn (s : Store) (p : OrderActionPayload) (key : BalanceKey) (leftover others : ℚ) :
    Prop where
  unlocked : (handlePlace p s).2.available key = (s.traded p).available key + leftover
  taken : (handlePlace p s).2.locked key = (s.traded p).locked key - leftover
  covers : others ≤ (handlePlace p s).2.locked key

theorem CallsRefund.side (h : CallsRefund p r) : p.side = .buy := by
  have hrefunds := h.refunds
  unfold Exchange.refunds at hrefunds
  simp only [Bool.and_eq_true, decide_eq_true_eq] at hrefunds
  exact hrefunds.1

/-- **The trades of a placement** take what its order pays, and no more than is there. -/
theorem traded_locked (hengine : EngineReady s.engine) (hrow : s.HasRow p)
    (hpair : s.pg.tradingPairs p.symbol = some pair) (hassets : pair.baseAsset ≠ pair.quoteAsset)
    (hbalance : s.pg.balances (p.userId, (batchArgs p pair).paidAsset) ≠ none)
    (hlocked : 0 ≤ s.locked (p.userId, (batchArgs p pair).paidAsset)) {s₁ s₂ : Store} {persisted : Bool}
    (hmatch : matchPlaced p s = (.ok r, s₁)) (hpersist : persistTrades p r.trades s₁ = (.ok persisted, s₂)) :
    persisted = true ∧ s₂.pg.tradingPairs = s.pg.tradingPairs ∧
      s₂.locked (p.userId, (batchArgs p pair).paidAsset) =
        s.locked (p.userId, (batchArgs p pair).paidAsset) - takerTotalPaid p.side (s.domainTrades p r) ∧
      0 ≤ s₂.locked (p.userId, (batchArgs p pair).paidAsset) := by
  obtain ⟨e, -, hstate, -⟩ := matchPlaced_spec hengine p
  rw [hmatch] at hstate
  obtain rfl : s₁ = s.setEngine e := hstate
  rcases persistTrades_cases p r.trades (s.setEngine e) with
    ⟨hnil, hx⟩ | ⟨-, hnone, hx⟩ | ⟨hne, pair', hpair', ⟨rows, s₃, hbatch, hx⟩ | ⟨err, s₃, hbatch, hx⟩⟩
  · obtain ⟨rfl, rfl⟩ : true = persisted ∧ s.setEngine e = s₂ := by simpa [hpersist] using hx.symm
    have hzero : takerTotalPaid p.side (s.domainTrades p r) = 0 := by
      unfold Store.domainTrades
      rw [hnil]
      cases p.side <;> rfl
    rw [hzero, sub_zero]
    exact ⟨rfl, rfl, rfl, hlocked⟩
  · exact absurd (hnone.symm.trans hpair) (by simp)
  · obtain ⟨rfl, rfl⟩ : true = persisted ∧ s₃ = s₂ := by simpa [hpersist] using hx.symm
    obtain rfl : pair = pair' := Option.some.inj (hpair.symm.trans hpair')
    have howner : (s.setEngine e).owner (batchArgs p pair).takerOrderId = p.userId := by
      obtain ⟨o, ho, hfits⟩ := hrow
      show ((s.pg.orders p.orderId).map Order.userId).getD 0 = _
      rw [ho]
      exact hfits.userId
    obtain ⟨hset, -, hsettles⟩ := persistTradeBatch_spec hbatch
    have hassets : (batchArgs p pair).baseAsset ≠ (batchArgs p pair).quoteAsset := hassets
    have htaken := batchEffect_locked hassets (s.setEngine e).owner
      ((s.setEngine e).domainTrades p r) p.userId
    rw [howner, if_pos rfl] at htaken
    refine ⟨rfl, congrArg (fun x => x.2.1) hset, ?_, ?_⟩
    · rw [hsettles.balances.locked hbalance, sub_eq_add_neg]
      exact congrArg (s.locked (p.userId, (batchArgs p pair).paidAsset) + ·) htaken
    · have hpaid := settled_locked hassets (by simpa using hne) hbatch
        (by rw [howner]; exact hbalance)
      rwa [howner] at hpaid
  · exact absurd (hpersist.symm.trans hx) (by simp)

theorem paidAsset_of_buy (hside : p.side = .buy) : (batchArgs p pair).paidAsset = pair.quoteAsset := by
  have hbuy : (batchArgs p pair).takerSide = .buy := hside
  unfold BatchArgs.paidAsset
  rw [hbuy]
  rfl

/-- **A refund touches only its own order's leftover** just if its user has nothing locked for others. -/
theorem refundsOwn_iff (hengine : EngineReady s.engine) (hrow : s.HasRow p)
    (hpair : s.pg.tradingPairs p.symbol = some pair) (hassets : pair.baseAsset ≠ pair.quoteAsset)
    (hbalance : s.pg.balances (p.userId, pair.quoteAsset) ≠ none)
    (hreturns : (handlePlace p s).1 = .ok r) (hcalls : CallsRefund p r) {lock others : ℚ}
    (hlock : 0 ≤ lock) (hothers : 0 ≤ others)
    (hlocked : s.locked (p.userId, pair.quoteAsset) = lock + others) :
    RefundsOwn s p (p.userId, pair.quoteAsset) (lock - takerTotalQuote (s.domainTrades p r)) others ↔
      others = 0 := by
  have hrun : handlePlace p s = (.ok r, (handlePlace p s).2) := Prod.ext hreturns rfl
  obtain ⟨s₁, hmatch, ⟨hreject, -⟩ | ⟨-, persisted, s₂, hpersist, hfinish⟩⟩ := handlePlace_eq_ok hrun
  · exact absurd (hcalls.accepted.symm.trans hreject) Bool.false_ne_true
  have htraded : s.traded p = s₂ := by
    rw [Store.traded, Prog.bind_of_ok hmatch, hpersist]
  have hasset : (batchArgs p pair).paidAsset = pair.quoteAsset := paidAsset_of_buy hcalls.side
  obtain ⟨htrue, hpairs, hlocked₂, hnonneg⟩ := traded_locked hengine hrow hpair hassets
    (by rw [hasset]; exact hbalance) (by rw [hasset, hlocked]; exact add_nonneg hlock hothers) hmatch hpersist
  rw [hasset] at hlocked₂ hnonneg
  rw [hcalls.side, takerTotalPaid_buy] at hlocked₂
  have hfinish : finishPlaced p r.remainingQty s₂ = (.ok ⟨⟩, (handlePlace p s).2) :=
    (hfinish.resolve_left fun h => absurd (htrue.symm.trans h.1) Bool.noConfusion).2
  unfold finishPlaced at hfinish
  rw [if_neg hcalls.rests, if_pos hcalls.refunds] at hfinish
  obtain ⟨hcleared, hunlocked⟩ := refund_clears hfinish (by rw [hpairs]; exact hpair) hnonneg
  rw [hlocked] at hlocked₂
  constructor
  · rintro ⟨-, -, hcovers⟩
    rw [hcleared] at hcovers
    exact le_antisymm hcovers hothers
  · rintro rfl
    rw [add_zero] at hlocked₂
    refine ⟨?_, ?_, ?_⟩
    · rw [hunlocked, htraded, hlocked₂]
    · rw [hcleared, htraded, hlocked₂, sub_self]
    · rw [hcleared]

end

/-! ### A market buy -/

/-- A market buy. -/
def marketBuyDto (quantity : ℚ) : OrderCreateDto where
  symbol := "BTC/USDT"
  side := .buy
  type := .market
  quantity := quantity

/-- The pair that it buys on. -/
def btcUsdt : TradingPair where
  baseAsset := "BTC"
  quoteAsset := "USDT"
  minLotSize := 1
  maxLotSize := 100
  tickSize := 1
  isActive := true

/-- A unit is asked for at 100, and user 2 buys it. -/
def unitBought : Store :=
  twoUsers.serveAll [.place 1 (limitDto .sell 1 100), .work, .place 2 (marketBuyDto 1)]

/-- The same, but that user 2 bids 50 for another unit. -/
def unitBoughtAndBid : Store :=
  twoUsers.serveAll [.place 1 (limitDto .sell 1 100), .place 2 (limitDto .buy 1 50), .work, .work,
    .place 2 (marketBuyDto 1)]

/-- The placement of the market buy, which is an order of this id. -/
def buyPlacement (orderId : OrderId) : OrderActionPayload :=
  buildOrderActionPayload (placePayload orderId (newOrder 2 (marketBuyDto 1)))

/-- Deciding that a placement is refunded. -/
def refunded (p : OrderActionPayload) (s : Store) : Bool :=
  (handlePlace p s).1.toOption.any fun r => isOutcomeReject r.outcome = false ∧
    ¬ (0 < r.remainingQty ∧ p.type.rests = true) ∧ refunds p r.remainingQty = true

theorem callsRefund_of_refunded {p : OrderActionPayload} {s : Store} (h : refunded p s = true) :
    ∃ r, (handlePlace p s).1 = .ok r ∧ CallsRefund p r := by
  unfold refunded at h
  cases hx : (handlePlace p s).1 with
  | error err => simp [hx, Except.toOption] at h
  | ok r =>
    rw [hx, Except.toOption, Option.any_some, decide_eq_true_eq] at h
    exact ⟨r, rfl, h.1, h.2.1, h.2.2⟩

/-- Of a lock of 100.1 a tenth is left, and nothing else is locked. -/
theorem refundsOwn_unitBought : ∃ r, (handlePlace (buyPlacement 2) unitBought).1 = .ok r ∧
    (RefundsOwn unitBought (buyPlacement 2) (2, "USDT")
      (1001 / 10 - takerTotalQuote (unitBought.domainTrades (buyPlacement 2) r)) 0 ↔ (0 : ℚ) = 0) := by
  have hc : Consistent unitBought := consistent_serveAll (consistent_start _ _ _) _
  have hrow : unitBought.HasRow (buyPlacement 2) := hc.queued _ (by decide +kernel) rfl
  have hpair : unitBought.pg.tradingPairs (buyPlacement 2).symbol = some btcUsdt := by decide +kernel
  obtain ⟨r, hr, hcalls⟩ := callsRefund_of_refunded (p := buyPlacement 2) (s := unitBought)
    (by decide +kernel)
  exact ⟨r, hr, refundsOwn_iff hc.engine hrow hpair (by decide) (by decide +kernel) hr hcalls
    (by norm_num) le_rfl (by decide +kernel)⟩

/-- **The refund takes the lock of another order along**: with 50 locked for a bid, all is unlocked when
    a market buy that locked 100.1 has paid 100. -/
theorem refundsOwn_not_always :
    unitBoughtAndBid.locked (2, "USDT") = 1001 / 10 + 50 ∧
      (unitBoughtAndBid.traded (buyPlacement 3)).locked (2, "USDT") = 1001 / 10 - 100 + 50 ∧
      refunded (buyPlacement 3) unitBoughtAndBid = true ∧
      ¬ RefundsOwn unitBoughtAndBid (buyPlacement 3) (2, "USDT") (1001 / 10 - 100) 50 := by
  refine ⟨by decide +kernel, by decide +kernel, by decide +kernel, fun h => ?_⟩
  have hzero : (handlePlace (buyPlacement 3) unitBoughtAndBid).2.locked (2, "USDT") = 0 := by
    decide +kernel
  have hcovers := h.covers
  rw [hzero] at hcovers
  norm_num at hcovers

end SpotExchange.Exchange
