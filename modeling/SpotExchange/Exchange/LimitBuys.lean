import SpotExchange.Exchange.Accounts
import SpotExchange.Exchange.Buyers
import SpotExchange.Exchange.Discharging
import SpotExchange.Exchange.Scores

namespace SpotExchange.Exchange

open SpotExchange.Lib
open SpotExchange.Engine (OrderId MatchResult)
open SpotExchange.Ledger (BalanceKey Row)

/-!
# What is locked for a limit buy

A limit buy is all that a user has in the exchange. What was locked for it is released piecewise: by the
trades, at what they cost; by a cancellation, what is left at the limit; by the refund of a taker that has
been filled, all that is locked.

* `Accounted` — what has been locked is settled, available again, or locked still;
* `LocksRest` — what is locked is what the rest of the order costs, or nothing;
* `Living` — the invariant of the order's life;
* `Living.sameAccount`, `Living.cancel` — requests of others keep it, and so do cancellations.
-/

/-- A limit buy without children. -/
structure OrderCreateDto.LimitBuy (dto : OrderCreateDto) : Prop where
  side : dto.side = .buy
  type : dto.type = .limit
  sl : dto.sl = none
  tp : dto.tp = none

/-- **What has been locked is conserved**: with what has been settled and what has become available, what is
    left of it adds up to the cost. -/
structure Conserved (cost funds settled : ℚ) (row : Row) : Prop where
  balanced : Balanced (amounts row)
  nonneg : 0 ≤ row.lockedBalance
  sum : settled + row.lockedBalance + (row.availableBalance - funds) = cost

/-- What is locked covers what is left of the order, or nothing is locked. -/
def LocksRest (price : ℚ) (o : Order) (row : Row) : Prop :=
  row.lockedBalance = 0 ∨ o.status.isActive = true ∧ row.lockedBalance = price * o.remainingQuantity

/-- **The lock of an order is accounted for.** -/
structure Accounted (userId : UserId) (dto : OrderCreateDto) (pair : TradingPair) (price funds : ℚ)
    (id : OrderId) (s : Store) : Prop where
  own : ∀ k o, s.pg.orders k = some o → (o.userId = userId ↔ k = id)
  booked : ∀ symbol side, ∀ x ∈ s.redis.book symbol side, x.2 = id → (decodeScore x.1).1 = price
  held : ∃ o row, s.pg.orders id = some o ∧ s.pg.balances (userId, pair.quoteAsset) = some row ∧
    o.terms = (newOrder userId dto).terms ∧ o.status ≠ .pending ∧
    Conserved (price * dto.quantity) funds (s.settledQuote id) row

/-- What is locked covers what is left of the order. -/
def Store.Covered (s : Store) (price : ℚ) (id : OrderId) (key : BalanceKey) : Prop :=
  ∀ o row, s.pg.orders id = some o → s.pg.balances key = some row → LocksRest price o row

/-- **The invariant of the order's life.** -/
structure Living (userId : UserId) (dto : OrderCreateDto) (pair : TradingPair) (price funds : ℚ)
    (id : OrderId) (s : Store) : Prop extends Accounted userId dto pair price funds id s where
  orderly : Orderly s
  tradeIds : TradeIdsBelow s
  listed : s.pg.tradingPairs dto.symbol = some pair
  covered : s.Covered price id (userId, pair.quoteAsset)

section

variable {userId : UserId} {dto : OrderCreateDto} {pair : TradingPair} {price funds cost settled : ℚ}
  {id : OrderId} {s s' t : Store} {p : OrderActionPayload} {r : MatchResult} {o o' : Order} {row row' : Row}

/-! ### Ids of trades -/

theorem addChild_tradeIdSeq (parentId : OrderId) (parent : Order) (config : Option SltpConfig)
    (link : OrderId → Order → Order) (s : Store) :
    (s.addChild parentId parent config link).tradeIdSeq = s.tradeIdSeq := by
  cases config <;> rfl

/-- **Ids of trades** are given out in order. -/
theorem tradeIds_serve (h : TradeIdsBelow s) (hc : Consistent s) (req : Request) :
    TradeIdsBelow (s.serve req) := by
  have hsame : ∀ {s s' : Store}, s'.pg.trades = s.pg.trades → s'.tradeIdSeq = s.tradeIdSeq →
      OrdersTradeIds s s' := by
    intro s s' htrades hseq
    refine ⟨hseq.ge, fun h t ht => ?_⟩
    rw [htrades] at ht
    rw [hseq]
    exact h t ht
  have hquiet : ∀ {s s' : Store}, Quiet s s' → OrdersTradeIds s s' := by
    rintro s s' ⟨balances, updates, rfl⟩
    exact hsame rfl rfl
  have hcalls : CallSteps OrdersTradeIds req :=
    { quiet := hquiet
      placed := fun s userId dto _ _ _ _ => hsame (inserted_redis s userId dto).2.1
        ((addChild_tradeIdSeq _ _ _ _ _).trans (addChild_tradeIdSeq _ _ _ _ _))
      canceled := fun _ _ _ _ _ _ _ _ _ => hsame rfl rfl
      replaced := fun _ _ _ _ _ _ _ _ _ _ _ _ _ _ _ _ _ => hsame rfl rfl }
  have hmonitor : MonitorSteps OrdersTradeIds :=
    { quiet := hquiet, triggered := fun _ _ _ _ _ _ _ => hsame rfl rfl }
  have hwork : WorkSteps OrdersTradeIds :=
    { queue := fun _ _ => hsame rfl rfl
      engine := fun _ _ => hsame rfl rfl
      fill := fun args trades => (settlement_tradeIds args trades).1
      child := fun parentId _ _ _ _ _ => hsame rfl rfl
      undo := fun s s' hs => ⟨hs.1, fun h t ht => (h t ht).trans_le hs.1⟩
      refunded := fun _ _ _ _ => hsame rfl rfl
      unscored := fun _ _ _ => hsame rfl rfl
      rested := fun _ _ _ _ => hsame rfl rfl }
  exact (serve_moves hcalls hmonitor (fun _ _ _ => hsame rfl rfl) (fun _ => hwork.serve hc.engine)
    hc.ids).2 h

/-! ### What others do -/

theorem Accounted.plain (h : Accounted userId dto pair price funds id s) : s.Plain userId := by
  intro k o ho huser
  obtain rfl := (h.own k o ho).mp huser
  obtain ⟨x, -, hx, -, hterms, hpending, -⟩ := h.held
  obtain rfl : x = o := Option.some.inj (hx.symm.trans ho)
  exact ⟨hpending, congrArg OrderTerms.parentOrderId hterms⟩

/-- The order, its balance and its trades stay, and so does its price in the book. -/
theorem Accounted.congr (h : Accounted userId dto pair price funds id s)
    (horders : ∀ k o, o.userId = userId → (s'.pg.orders k = some o ↔ s.pg.orders k = some o))
    (htrades : s'.pg.trades = s.pg.trades) (hbalances : KeptBalances userId s s')
    (hbook : ∀ symbol side, ∀ x ∈ s'.redis.book symbol side, x.2 = id →
      x ∈ s.redis.book symbol side ∨ (decodeScore x.1).1 = price) :
    Accounted userId dto pair price funds id s' ∧
      (s.Covered price id (userId, pair.quoteAsset) → s'.Covered price id (userId, pair.quoteAsset)) := by
  obtain ⟨o, row, ho, hrow, hterms, hpending, hconserved⟩ := h.held
  have huser : o.userId = userId := congrArg OrderTerms.userId hterms
  have ho' : s'.pg.orders id = some o := (horders id o huser).mpr ho
  have hrow' := hbalances _ row hrow
  refine ⟨⟨fun k x hx => ⟨fun hxuser => ?_, ?_⟩, fun symbol side x hx hid => ?_,
    o, row, ho', hrow', hterms, hpending, ?_⟩, fun hcovered x y hx hy => ?_⟩
  · exact (h.own k x ((horders k x hxuser).mp hx)).mp hxuser
  · rintro rfl
    obtain rfl : x = o := Option.some.inj (hx.symm.trans ho')
    exact huser
  · exact (hbook symbol side x hx hid).elim (fun hx => h.booked symbol side x hx hid) fun hprice => hprice
  · have hsettled : s'.settledQuote id = s.settledQuote id := by
      unfold Store.settledQuote Store.rowsOf
      rw [htrades]
    rw [hsettled]
    exact hconserved
  · obtain rfl : x = o := Option.some.inj (hx.symm.trans ho')
    obtain rfl : y = row := Option.some.inj (hy.symm.trans hrow')
    exact hcovered x y ho hrow

/-- **A request of others** leaves the order alone. -/
theorem Living.sameAccount (h : Living userId dto pair price funds id s) (hsame : SameAccount userId s s')
    (horderly : Orderly s') (htradeIds : TradeIdsBelow s') (hlisted : s'.pg.tradingPairs = s.pg.tradingPairs) :
    Living userId dto pair price funds id s' := by
  have horders : ∀ k x, x.userId = userId → (s'.pg.orders k = some x ↔ s.pg.orders k = some x) := by
    intro k x hx
    have hown : s'.ordersOf userId k = some x ↔ s.ordersOf userId k = some x := by rw [hsame.orders]
    simpa [Store.ordersOf, mem_ownOrders, hx] using hown
  obtain ⟨haccounted, hcovered⟩ := h.toAccounted.congr horders hsame.trades hsame.balances
    fun symbol side x hx _ => .inl ((hsame.book symbol side).subset hx)
  exact ⟨haccounted, horderly, htradeIds, hlisted ▸ h.listed, hcovered h.covered⟩

/-! ### Unlocking -/

/-- An unlock of all that is locked. -/
theorem Conserved.unlocked (h : Conserved cost funds settled row)
    (hrow : amounts row' = amounts row + opAmounts .unlock row.lockedBalance) :
    Conserved cost funds settled row' ∧ row'.lockedBalance = 0 := by
  have hlocked : row'.lockedBalance = row.lockedBalance + -row.lockedBalance :=
    congrArg (fun a : Amounts => a.2.1) hrow
  have havailable : row'.availableBalance = row.availableBalance + row.lockedBalance :=
    congrArg (fun a : Amounts => a.2.2) hrow
  rw [add_neg_cancel] at hlocked
  refine ⟨⟨?_, hlocked.ge, ?_⟩, hlocked⟩
  · rw [hrow]
    refine h.balanced.add ?_
    show (0 : ℚ) = -row.lockedBalance + row.lockedBalance
    rw [neg_add_cancel]
  · rw [hlocked, havailable, ← h.sum]
    ring

/-- **A cancellation** releases all that is locked. -/
theorem LocksRest.released (h : LocksRest price o row) (hnonneg : 0 ≤ row.lockedBalance)
    (hprice : o.price = some price) (hside : o.side = .buy) (hstop : o.type.isStop = false)
    (hrow : s.pg.balances (o.userId, pair.quoteAsset) = some row) :
    s.released o (cancelUnlock o pair) = row.lockedBalance := by
  have hunlock : cancelUnlock o pair = (pair.quoteAsset, o.remainingQuantity * price) := by
    unfold cancelUnlock
    rw [hside, hprice]
  rw [hunlock]
  unfold Store.released
  rw [hrow, Option.elim_some]
  rcases h with hzero | ⟨-, hleft⟩
  · rw [hzero]
    split_ifs with hcond
    · rw [min_eq_right hcond.2.le, max_self]
    · rfl
  · rw [hleft, mul_comm o.remainingQuantity, min_self]
    rw [hleft] at hnonneg
    split_ifs with hcond
    · exact max_eq_right hnonneg
    · exact (le_antisymm (not_lt.mp fun hlt => hcond ⟨hstop, hlt⟩) hnonneg).symm

/-- **A refund** does not raise, and unlocks all that is locked. -/
theorem refund_unlocks (hlisted : s.pg.tradingPairs p.symbol = some pair)
    (hrow : s.pg.balances (p.userId, pair.quoteAsset) = some row) (h : Conserved cost funds settled row) :
    ∃ s' row', refundMarketBuyLeftover p s = (.ok ⟨⟩, s') ∧ Quiet s s' ∧
      s'.pg.balances (p.userId, pair.quoteAsset) = some row' ∧
      amounts row' = amounts row + opAmounts .unlock row.lockedBalance := by
  have hreturns : ∃ s', refundMarketBuyLeftover p s = (.ok ⟨⟩, s') := by
    have hread : getPair p.symbol s = (.ok (some pair), s) := by
      rw [← hlisted]
      rfl
    have hbalance : getBalanceForUpdate p.userId pair.quoteAsset s =
        (.ok (some (p.userId, pair.quoteAsset)), s) := by
      rw [getBalanceForUpdate, Prog.read_apply, hrow]
      rfl
    have hlocked : lockedBalance (p.userId, pair.quoteAsset) s = (.ok row.lockedBalance, s) := by
      rw [lockedBalance, Prog.read_apply, hrow]
      rfl
    have hrun : refundLeftover p s = Prog.whenever (0 < row.lockedBalance) (unlockPessimistic
        (p.userId, pair.quoteAsset) row.lockedBalance .marketBuyRefund (some p.orderId)) s := by
      rw [refundLeftover, Prog.bind_of_ok hread]
      show (getBalanceForUpdate _ _ >>= _ : M Unit) s = _
      rw [Prog.bind_of_ok hbalance]
      show (lockedBalance _ >>= _ : M Unit) s = _
      rw [Prog.bind_of_ok hlocked]
    have hcommit : ∀ s', refundLeftover p s = (.ok ⟨⟩, s') →
        refundMarketBuyLeftover p s = (.ok ⟨⟩, s') := fun s' hs' => by
      rw [refundMarketBuyLeftover, transaction, Prog.atomically_eq_ok]
      exact hs'
    by_cases hpos : 0 < row.lockedBalance
    · obtain ⟨s', hs', -⟩ : ∃ s', unlockPessimistic (p.userId, pair.quoteAsset) row.lockedBalance
          .marketBuyRefund (some p.orderId) s = (.ok ⟨⟩, s') ∧ _ :=
        unlockPessimistic_ok hrow h.balanced h.nonneg le_rfl
      refine ⟨s', hcommit s' ?_⟩
      rw [hrun, Prog.whenever, if_pos hpos]
      exact hs'
    · refine ⟨s, hcommit s ?_⟩
      rw [hrun, Prog.whenever, if_neg hpos]
      rfl
  obtain ⟨s', hs'⟩ := hreturns
  rcases refund_cases hs' with ⟨rfl, hle⟩ | ⟨pair', row₁, hpair', hrow₁, -, hunlock⟩
  · have hzero : row.lockedBalance = 0 := le_antisymm (hle pair row hlisted hrow) h.nonneg
    refine ⟨s', row, hs', refl_of Quiet s', hrow, ?_⟩
    rw [hzero, opAmounts_zero, add_zero]
  · obtain rfl : pair = pair' := Option.some.inj (hlisted.symm.trans hpair')
    obtain rfl : row = row₁ := Option.some.inj (hrow.symm.trans hrow₁)
    obtain ⟨row', hrow', hmoved⟩ := (pessimistic_shifts hunlock).row hrow
    rw [Moved.single_apply, if_pos rfl] at hmoved
    obtain ⟨_, _, -, -, rfl⟩ := pessimistic_eq_ok hunlock
    exact ⟨_, row', hs', quiet_moveBalance _ _ _ _, hrow', hmoved⟩

/-! ### Cancelling -/

/-- Every order of a cancellation has its terms from before. -/
theorem cancel_terms {k : OrderId} (ho : s.pg.orders id = some o)
    (hk : (s.cancel id o).pg.orders k = some o') : ∃ x, s.pg.orders k = some x ∧ o'.terms = x.terms := by
  obtain ⟨x, hx, rfl⟩ := Option.map_eq_some_iff.mp hk
  have horphaned : (x.orphaned id).terms = x.terms := by
    unfold Order.orphaned
    split_ifs <;> rfl
  by_cases hid : k = id
  · subst hid
    rw [Function.update_self] at hx
    obtain rfl := Option.some.inj hx
    exact ⟨o, ho, horphaned⟩
  · rw [Function.update_of_ne hid] at hx
    exact ⟨x, hx, horphaned⟩

/-- Whose an order is does not change. -/
theorem Accounted.own_of_terms (h : Accounted userId dto pair price funds id s)
    (hterms : ∀ k o', s'.pg.orders k = some o' → ∃ x, s.pg.orders k = some x ∧ o'.terms = x.terms) :
    ∀ k o', s'.pg.orders k = some o' → (o'.userId = userId ↔ k = id) := by
  intro k o' ho'
  obtain ⟨x, hx, heq⟩ := hterms k o' ho'
  have huser : o'.userId = x.userId := congrArg OrderTerms.userId heq
  rw [huser]
  exact h.own k x hx

/-- **A cancellation by the user.** -/
theorem Living.cancel (h : Living userId dto pair price funds id s) (hdto : dto.LimitBuy)
    (hprice : dto.price = some price) (k : OrderId) :
    Living userId dto pair price funds id (s.serve (.cancel userId k)) := by
  have horderly := orderly_serve h.orderly (.cancel userId k)
  have htradeIds := tradeIds_serve h.tradeIds h.orderly.consistent (.cancel userId k)
  rcases serve_cancel s userId k with ⟨o, pair', s₁, ho, huser, -, hpair, hunlock, hquiet, hx⟩ | hx
  swap
  · rw [hx]
    exact h
  obtain rfl := (h.own k o ho).mp huser
  obtain ⟨x, row, hx', hrow, hterms, hpending, hconserved⟩ := h.held
  obtain rfl : o = x := Option.some.inj (ho.symm.trans hx')
  -- the order is the limit buy that was placed
  have hsymbol : o.symbol = dto.symbol := congrArg OrderTerms.symbol hterms
  have hside : o.side = .buy := (congrArg OrderTerms.side hterms).trans hdto.side
  have hlimit : o.price = some price := (congrArg OrderTerms.price hterms).trans hprice
  have hstop : o.type.isStop = false := by
    rw [show o.type = dto.type from congrArg OrderTerms.type hterms, hdto.type]
    rfl
  obtain rfl : pair = pair' := by
    rw [hsymbol] at hpair
    exact Option.some.inj (h.listed.symm.trans hpair)
  subst huser
  have hasset : (cancelUnlock o pair).1 = pair.quoteAsset := by
    unfold cancelUnlock
    rw [hside, hlimit]
  have hreleased := (h.covered o row ho hrow).released hconserved.nonneg hlimit hside hstop hrow
  obtain ⟨s₂, hrun, -, hshift⟩ : ∃ s₂, unlockCanceled k o (cancelUnlock o pair) s = (.ok ⟨⟩, s₂) ∧
      Quiet s s₂ ∧ _ := unlockCanceled_spec k o (cancelUnlock o pair) fun row₁ hrow₁ => by
    rw [hasset] at hrow₁
    obtain rfl := Option.some.inj (hrow.symm.trans hrow₁)
    exact hconserved.balanced
  obtain rfl : s₁ = s₂ := congrArg Prod.snd (hunlock.symm.trans hrun)
  obtain ⟨row', hrow', hmoved⟩ := hshift.row hrow
  rw [hasset, Moved.single_apply, if_pos rfl, hreleased] at hmoved
  obtain ⟨hconserved', hzero⟩ := hconserved.unlocked hmoved
  obtain ⟨balances, updates, rfl⟩ := hquiet
  rw [hx] at horderly htradeIds ⊢
  refine ⟨⟨h.own_of_terms fun k' o' ho' => cancel_terms ho ho', fun symbol side x hx hid => ?_,
    o.canceled, row', ?_, hrow', hterms, nofun, hconserved'⟩, horderly, htradeIds, h.listed,
    fun o' row₁ _ hrow₁ => ?_⟩
  · have hx : x ∈ (cleanUpCanceled k o { s.redis with balanceUpdates := updates }).book symbol side := hx
    have hmem := (bookShrinks_cleanUpCanceled k o _ symbol side).subset hx
    exact h.booked symbol side x hmem hid
  · show (Function.update s.pg.orders k (some o.canceled) k).map (Order.orphaned k) = _
    rw [Function.update_self, Option.map_some]
    unfold Order.orphaned
    rw [if_neg]
    rw [show o.canceled.parentOrderId = none from congrArg OrderTerms.parentOrderId hterms]
    exact fun h => nomatch h.1
  · obtain rfl : row' = row₁ := Option.some.inj (hrow'.symm.trans hrow₁)
    exact .inl hzero

end

end SpotExchange.Exchange
