import SpotExchange.Exchange.Racing

namespace SpotExchange.Exchange

open SpotExchange.Lib
open SpotExchange.Engine (OrderId)
open SpotExchange.Ledger (BalanceKey Row Op)

/-!
# Whether a cancellation and a batch are serializable

* `Serial` — the outcome is that of the two transactions one after the other, in some order;
* `Store.SameUnlock` — a fill that makes no difference to the cancellation;
* `cancelRace_serial_iff` — a run that ends otherwise is one in which the batch commits while the
  cancellation is under way, and the fill makes a difference;
* `cancelWhileFilled_notSerial` — a filled order is cancelled.
-/

section

variable {s : Store} {userId : UserId} {id : OrderId} {order : Order} {pair : TradingPair}
  {args : BatchArgs} {trades : List DomainTrade}

/-! ### Outcomes -/

/-- **What is committed**: status and filled quantity of the order, and the user's balances. -/
def Store.outcome (s : Store) (userId : UserId) (id : OrderId) :
    Option (OrderStatus × ℚ) × (Asset → Option Amounts) :=
  ((s.pg.orders id).map fun o => (o.status, o.filledQuantity),
    fun asset => (s.pg.balances (userId, asset)).map amounts)

/-- The cancellation, then the batch. -/
def Store.cancelThenFill (s : Store) (userId : UserId) (id : OrderId) (args : BatchArgs)
    (trades : List DomainTrade) : Store :=
  (transaction (persistTradeBatch args trades) (transaction (cancelOrder userId id) s).2).2

/-- The batch, then the cancellation. -/
def Store.fillThenCancel (s : Store) (userId : UserId) (id : OrderId) (args : BatchArgs)
    (trades : List DomainTrade) : Store :=
  (transaction (cancelOrder userId id) (transaction (persistTradeBatch args trades) s).2).2

/-- **The outcome is that of one order of the two.** -/
def Serial (s t : Store) (userId : UserId) (id : OrderId) (args : BatchArgs)
    (trades : List DomainTrade) : Prop :=
  t.outcome userId id = (s.cancelThenFill userId id args trades).outcome userId id ∨
    t.outcome userId id = (s.fillThenCancel userId id args trades).outcome userId id

/-- An order of which more is filled. -/
def Order.filledBy (o : Order) (qty : ℚ) : Order :=
  { o with filledQuantity := o.filledQuantity + qty }

/-- **The fill makes no difference to the cancellation**: it leaves something of the order, and what a
    cancellation would unlock before it and after it is the same. -/
def Store.SameUnlock (s : Store) (order : Order) (pair : TradingPair) (args : BatchArgs)
    (trades : List DomainTrade) (fill : ℚ) : Prop :=
  fill < order.remainingQuantity ∧
    (order.type.isStop = true ∨ (cancelUnlock (order.filledBy fill) pair).2 ≤ 0 ∨
      ∀ row, s.pg.balances (order.userId, (cancelUnlock order pair).1) = some row →
        row.lockedBalance + ((batchEffect args s.owner trades).1
          (order.userId, (cancelUnlock order pair).1)).2.1 ≤
            (cancelUnlock (order.filledBy fill) pair).2)

/-- A cancellation that raises has nothing to undo. -/
theorem transaction_cancelOrder (userId : UserId) (id : OrderId) (s : Store) :
    (transaction (cancelOrder userId id) s).2 = (cancelOrder userId id s).2 := by
  unfold transaction Prog.atomically
  rcases cancelOrder_cases userId id s with ⟨order, pair, s₁, -, -, -, -, -, -, hx⟩ | ⟨err, hx⟩
  · rw [hx]
  · rw [hx]

/-- A cancellation that finds no order to cancel. -/
theorem cancelOrder_of_none (h : s.canceledOrder userId id = none) : (cancelOrder userId id s).2 = s := by
  rcases readCancelable_apply userId id s with ⟨_, _, hsome, -⟩ | ⟨-, err, hread⟩
  · exact absurd (h.symm.trans hsome) (by simp)
  · rw [cancelOrder_eq, Prog.bind_of_error hread]

/-- A cancellation that finds one. -/
theorem cancelOrder_of_some (h : s.canceledOrder userId id = some (order, pair)) :
    (cancelOrder userId id s).2 = cancelFrom userId id (.read order pair) s := by
  rcases readCancelable_apply userId id s with ⟨o, p, hsome, hread⟩ | ⟨hnone, -⟩
  · obtain ⟨rfl, rfl⟩ : o = order ∧ p = pair := by simpa using hsome.symm.trans h
    rw [cancelOrder_eq, Prog.bind_of_ok hread]
    rfl
  · exact absurd (hnone.symm.trans h) (by simp)

/-- **The rest of a cancellation** that has read `order`, whatever the order is by now. -/
theorem cancelFrom_read {current : Order} (userId : UserId) (hok : s.BalancesAddUp) (order : Order) (pair : TradingPair)
    (h : s.pg.orders id = some current) :
    (cancelFrom userId id (.read order pair) s).pg.orders id = some current.canceled ∧
      Shifts (Moved.single (order.userId, (cancelUnlock order pair).1)
        (opAmounts .unlock (s.released order (cancelUnlock order pair)))) s
          (cancelFrom userId id (.read order pair) s) := by
  obtain ⟨s₁, hunlock, hquiet, hshift⟩ :=
    unlockCanceled_spec id order (cancelUnlock order pair) fun row => hok _ row
  have hcurrent : s₁.pg.orders id = some current := by
    obtain ⟨balances, updates, rfl⟩ := hquiet
    exact h
  obtain ⟨s₂, hfinish, horder, hbalances⟩ := finishCancel_apply order hcurrent
  have hrun : cancelFrom userId id (.read order pair) s = s₂ := by
    show ((unlockCanceled id order _ >>= _) s).2 = s₂
    rw [Prog.bind_of_ok hunlock, hfinish]
  rw [hrun]
  refine ⟨horder, ?_⟩
  show Moved amounts _ s.pg.balances s₂.pg.balances
  rw [hbalances]
  exact hshift

theorem balancesAddUp_of_batch {rows : List Trade} {s' : Store} (hok : s.BalancesAddUp)
    (h : persistTradeBatch args trades s = (.ok rows, s')) : s'.BalancesAddUp := by
  intro key row' hrow'
  have hshift := (persistTradeBatch_spec h).2.2.balances
  obtain ⟨row, hrow⟩ : ∃ row, s.pg.balances key = some row := by
    rw [← Option.ne_none_iff_exists', Ne, ← hshift.none_iff, hrow']
    simp
  obtain ⟨_, hrow'', hmoved⟩ := hshift.row hrow
  obtain rfl : row' = _ := Option.some.inj (hrow'.symm.trans hrow'')
  have hbalanced := batchEffect_balanced args s.owner trades key
  have htotal := hok key row hrow
  simp only [amounts, Prod.ext_iff, Prod.fst_add, Prod.snd_add] at hmoved
  linarith [hmoved.1, hmoved.2.1, hmoved.2.2]

/-- Two unlocks of one balance. -/
theorem unlock_eq_iff {t t' : Store} {asset : Asset} {a a' : ℚ}
    (h : Shifts (Moved.single (userId, asset) (opAmounts .unlock a)) s t)
    (h' : Shifts (Moved.single (userId, asset) (opAmounts .unlock a')) s t') :
    (∀ b, (t.pg.balances (userId, b)).map amounts = (t'.pg.balances (userId, b)).map amounts) ↔
      (s.pg.balances (userId, asset) = none ∨ a = a') := by
  constructor
  · intro heq
    by_contra hne
    rw [not_or] at hne
    obtain ⟨row, hrow⟩ := Option.ne_none_iff_exists'.mp hne.1
    have hasset := heq asset
    rw [h, h', hrow, Option.map_some, Option.map_some, Moved.single_apply, if_pos rfl,
      Moved.single_apply, if_pos rfl] at hasset
    have hav := congrArg (fun x : Amounts => x.2.2) (add_left_cancel (Option.some.inj hasset))
    exact hne.2 hav
  · intro heq b
    rw [h, h']
    by_cases hb : b = asset
    · subst hb
      rcases heq with hnone | rfl
      · rw [hnone]
        rfl
      · rfl
    · simp [hb]

/-! ### The outcome of an overtaken cancellation -/

/-- What a cancellation multiplies the remaining quantity with. -/
def Order.unlockPrice (o : Order) : ℚ :=
  match o.side, o.price with
  | .sell, _ => 1
  | .buy, some price => price
  | .buy, none => o.stopPrice.getD 0

theorem cancelUnlock_amount (o : Order) (pair : TradingPair) :
    (cancelUnlock o pair).2 = o.remainingQuantity * o.unlockPrice := by
  unfold cancelUnlock Order.unlockPrice
  cases o.side with
  | sell => exact (mul_one o.remainingQuantity).symm
  | buy => cases o.price <;> rfl

theorem cancelUnlock_asset_congr {o o' : Order} (hterms : o'.terms = o.terms) (pair : TradingPair) :
    (cancelUnlock o' pair).1 = (cancelUnlock o pair).1 := by
  have hside : o'.side = o.side := congrArg OrderTerms.side hterms
  have hprice : o'.price = o.price := congrArg OrderTerms.price hterms
  unfold cancelUnlock
  rw [hside, hprice]
  split <;> rfl

theorem cancelUnlock_congr {o o' : Order} (hterms : o'.terms = o.terms)
    (hfilled : o'.filledQuantity = o.filledQuantity) (pair : TradingPair) :
    cancelUnlock o' pair = cancelUnlock o pair := by
  have hside : o'.side = o.side := congrArg OrderTerms.side hterms
  have hprice : o'.price = o.price := congrArg OrderTerms.price hterms
  have hstop : o'.stopPrice = o.stopPrice := congrArg OrderTerms.stopPrice hterms
  have hquantity : o'.quantity = o.quantity := congrArg OrderTerms.quantity hterms
  unfold cancelUnlock Order.remainingQuantity
  rw [hside, hprice, hstop, hquantity, hfilled]

/-- What is unlocked of a balance when `amount` is asked for. -/
private theorem capped_eq_iff {amount rest held : ℚ} (hrest : 0 < rest) (hlt : rest < amount) :
    max 0 (min amount held) = max 0 (min rest held) ↔ held ≤ rest := by
  constructor
  · intro h
    by_contra hheld
    rw [not_le] at hheld
    rw [min_eq_left hheld.le, max_eq_right hrest.le,
      max_eq_right (le_min (hrest.trans hlt).le (hrest.trans hheld).le)] at h
    exact absurd h (lt_min hlt hheld).ne'
  · intro h
    rw [min_eq_right h, min_eq_right (h.trans hlt.le)]

/-- **Stale and fresh unlock**: both are the same exactly if nothing is unlocked, or no more than what
    is left asks for. -/
theorem released_eq_iff {current : Order} (hterms : current.terms = order.terms)
    (hlt : order.filledQuantity < current.filledQuantity)
    (hrest : 0 < current.remainingQuantity) :
    s.pg.balances (order.userId, (cancelUnlock order pair).1) = none ∨
        s.released order (cancelUnlock order pair) = s.released current (cancelUnlock current pair) ↔
      order.type.isStop = true ∨ (cancelUnlock current pair).2 ≤ 0 ∨
        ∀ row, s.pg.balances (order.userId, (cancelUnlock order pair).1) = some row →
          row.lockedBalance ≤ (cancelUnlock current pair).2 := by
  have hside : current.side = order.side := congrArg OrderTerms.side hterms
  have hprice : current.price = order.price := congrArg OrderTerms.price hterms
  have hstop : current.stopPrice = order.stopPrice := congrArg OrderTerms.stopPrice hterms
  have htype : current.type = order.type := congrArg OrderTerms.type hterms
  have huser : current.userId = order.userId := congrArg OrderTerms.userId hterms
  have hquantity : current.quantity = order.quantity := congrArg OrderTerms.quantity hterms
  have hasset := cancelUnlock_asset_congr hterms pair
  have hunlockPrice : current.unlockPrice = order.unlockPrice := by
    unfold Order.unlockPrice
    rw [hside, hprice, hstop]
  have hmore : current.remainingQuantity < order.remainingQuantity := by
    unfold Order.remainingQuantity
    linarith
  unfold Store.released
  rw [htype, huser, hasset]
  by_cases hs : order.type.isStop = true
  · simp [hs]
  by_cases hpos : 0 < (cancelUnlock current pair).2
  · have hp : 0 < order.unlockPrice := by
      rw [cancelUnlock_amount, hunlockPrice] at hpos
      exact pos_of_mul_pos_right hpos hrest.le
    have hamount : (cancelUnlock current pair).2 < (cancelUnlock order pair).2 := by
      rw [cancelUnlock_amount, cancelUnlock_amount, hunlockPrice]
      exact mul_lt_mul_of_pos_right hmore hp
    rw [if_pos ⟨by simpa using hs, hpos.trans hamount⟩, if_pos ⟨by simpa using hs, hpos⟩]
    cases hrow : s.pg.balances (order.userId, (cancelUnlock order pair).1) with
    | none => simp
    | some row =>
      simp only [Option.elim_some, reduceCtorEq, false_or, hs, Bool.false_eq_true, Option.some.injEq,
        forall_eq', not_le.mpr hpos]
      exact capped_eq_iff hpos hamount
  · have hp : order.unlockPrice ≤ 0 := by
      rw [cancelUnlock_amount, hunlockPrice] at hpos
      by_contra hp
      exact hpos (mul_pos hrest (not_le.mp hp))
    have hnot : ¬ 0 < (cancelUnlock order pair).2 := by
      rw [cancelUnlock_amount]
      exact not_lt.mpr (mul_nonpos_of_nonneg_of_nonpos (hrest.trans hmore).le hp)
    simp [hpos, hnot, not_lt.mp hpos]

/-- **An overtaken cancellation.** -/
theorem serial_overtaken_iff {rows : List Trade} {s' : Store} (hok : s.BalancesAddUp)
    (hfound : s.canceledOrder userId id = some (order, pair)) (hfilled : 0 ≤ order.filledQuantity)
    (hpart : TakesPart args trades id) (hpos : ∀ t ∈ trades, 0 < t.quantity)
    (hbatch : persistTradeBatch args trades s = (.ok rows, s')) :
    Serial s (cancelFrom userId id (.read order pair) s') userId id args trades ↔
      s.SameUnlock order pair args trades (batchFill args trades id) := by
  obtain ⟨horder, huser, hactive, hpair⟩ := canceledOrder_eq_some.mp hfound
  obtain ⟨current, hcurrent, hterms, hfill, hstatus⟩ :=
    persistTradeBatch_order hbatch hpos hpart horder hfilled
  have hfillPos := batchFill_pos hpos hpart
  have hok' := balancesAddUp_of_batch hok hbatch
  obtain ⟨hfinal, hmoved⟩ := cancelFrom_read userId hok' order pair hcurrent
  have hquantity : current.quantity = order.quantity := congrArg OrderTerms.quantity hterms
  -- not the outcome of the cancellation followed by the batch
  have hnot : (cancelFrom userId id (.read order pair) s').outcome userId id ≠
      (s.cancelThenFill userId id args trades).outcome userId id := by
    obtain ⟨hcanceled, -⟩ := cancelFrom_read userId hok order pair horder
    rw [Store.cancelThenFill, transaction_cancelOrder, cancelOrder_of_some hfound]
    intro heq
    have hrow := congrArg Prod.fst heq
    simp only [Store.outcome, hfinal, Option.map_some] at hrow
    unfold transaction Prog.atomically at hrow
    rcases hx : persistTradeBatch args trades (cancelFrom userId id (.read order pair) s) with
      ⟨err | rows', s₂⟩
    · rw [hx] at hrow
      simp only [hcanceled, Option.map_some, Option.some.injEq, Prod.mk.injEq] at hrow
      have hsame : current.filledQuantity = order.filledQuantity := hrow.2
      linarith
    · obtain ⟨order₂, horder₂, -, -, hstatus₂⟩ :=
        persistTradeBatch_order hx hpos hpart hcanceled hfilled
      rw [hx] at hrow
      simp only [horder₂, Option.map_some, Option.some.injEq, Prod.mk.injEq] at hrow
      have hcancel : OrderStatus.canceled = order₂.fillStatus := hrow.1.trans hstatus₂
      unfold Order.fillStatus at hcancel
      split_ifs at hcancel
  -- and when is it the outcome of the batch followed by the cancellation?
  have hfirst : (transaction (persistTradeBatch args trades) s).2 = s' := by
    unfold transaction Prog.atomically
    rw [hbatch]
  have hsetting := (persistTradeBatch_spec hbatch).1
  unfold Serial Store.SameUnlock
  rw [or_iff_right hnot, Store.fillThenCancel, hfirst, transaction_cancelOrder]
  by_cases hrest : batchFill args trades id < order.remainingQuantity
  · have hleft : 0 < current.remainingQuantity := by
      unfold Order.remainingQuantity at hrest ⊢
      linarith
    have hfresh : s'.canceledOrder userId id = some (current, pair) := by
      refine canceledOrder_eq_some.mpr ⟨hcurrent, (congrArg OrderTerms.userId hterms).trans huser, ?_, ?_⟩
      · rw [hstatus, Order.fillStatus, if_neg]
        · rfl
        · unfold Order.remainingQuantity at hleft
          linarith
      · have hsymbol : current.symbol = order.symbol := congrArg OrderTerms.symbol hterms
        have hpairs : s'.pg.tradingPairs = s.pg.tradingPairs := congrArg (fun x => x.2.1) hsetting
        rw [hsymbol, hpairs]
        exact hpair
    obtain ⟨hfinal', hmoved'⟩ := cancelFrom_read userId hok' current pair hcurrent
    have hasset := cancelUnlock_asset_congr hterms pair
    have huser' : current.userId = order.userId := congrArg OrderTerms.userId hterms
    rw [hasset, huser'] at hmoved'
    rw [cancelOrder_of_some hfresh]
    have houtcome : (cancelFrom userId id (.read order pair) s').outcome userId id =
        (cancelFrom userId id (.read current pair) s').outcome userId id ↔
          ∀ b, ((cancelFrom userId id (.read order pair) s').pg.balances (userId, b)).map amounts =
            ((cancelFrom userId id (.read current pair) s').pg.balances (userId, b)).map amounts := by
      simp only [Store.outcome, hfinal, hfinal', Prod.mk.injEq, true_and, funext_iff]
    subst huser
    rw [houtcome, unlock_eq_iff hmoved hmoved', released_eq_iff hterms (by linarith) hleft,
      cancelUnlock_congr (o := order.filledBy (batchFill args trades id)) hterms hfill]
    rw [and_iff_right hrest]
    refine or_congr_right (or_congr_right ?_)
    have hshift := (persistTradeBatch_spec hbatch).2.2.balances
    constructor
    · intro h row hrow
      obtain ⟨row', hrow', hv⟩ := hshift.row hrow
      have hlocked : row'.lockedBalance = row.lockedBalance + _ :=
        congrArg (fun x : Amounts => x.2.1) hv
      rw [← hlocked]
      exact h row' hrow'
    · intro h row' hrow'
      obtain ⟨row, hrow⟩ : ∃ row, s.pg.balances (order.userId, (cancelUnlock order pair).1) =
          some row := by
        rw [← Option.ne_none_iff_exists', Ne, ← hshift.none_iff, hrow']
        simp
      obtain ⟨_, hrow'', hv⟩ := hshift.row hrow
      obtain rfl : row' = _ := Option.some.inj (hrow'.symm.trans hrow'')
      have hlocked : row'.lockedBalance = row.lockedBalance + _ :=
        congrArg (fun x : Amounts => x.2.1) hv
      rw [hlocked]
      exact h row hrow
  · -- the order is filled, and a cancellation that comes after it raises
    refine iff_of_false ?_ fun h => hrest h.1
    have hnone : s'.canceledOrder userId id = none := by
      rw [Option.eq_none_iff_forall_not_mem]
      rintro ⟨o, p⟩ hx
      obtain ⟨ho, -, ho', -⟩ := canceledOrder_eq_some.mp hx
      obtain rfl : current = o := Option.some.inj (hcurrent.symm.trans ho)
      rw [hstatus, Order.fillStatus, if_pos] at ho'
      · exact absurd ho' (by simp [OrderStatus.isActive])
      · unfold Order.remainingQuantity at hrest
        linarith
    rw [cancelOrder_of_none hnone]
    intro heq
    have hrow := congrArg Prod.fst heq
    simp only [Store.outcome, hfinal, hcurrent, Option.map_some, Option.some.injEq,
      Prod.mk.injEq] at hrow
    have hcancel : OrderStatus.canceled = current.fillStatus := hrow.1.trans hstatus
    unfold Order.fillStatus at hcancel
    split_ifs at hcancel

/-- **Every run of a cancellation and a batch that fills the order** ends as one of the two orders
    does, unless the batch commits after the cancellation has read the order and before it writes it,
    and the fill makes a difference. -/
theorem cancelRace_serial_iff (hok : s.BalancesAddUp)
    (hfound : s.canceledOrder userId id = some (order, pair)) (hfilled : 0 ≤ order.filledQuantity)
    (hpart : TakesPart args trades id) (hpos : ∀ t ∈ trades, 0 < t.quantity)
    (hassets : args.baseAsset = pair.baseAsset ∧ args.quoteAsset = pair.quoteAsset) {r : Race}
    (hrun : Relation.ReflTransGen (RaceStep userId id args trades) { store := s } r)
    (hdone : r.cancel = .done) (hcommitted : r.filled = true) :
    Serial s r.store userId id args trades ↔
      (r.overtaken = true → s.SameUnlock order pair args trades (batchFill args trades id)) := by
  cases inv_race hok hfound hpart hassets hrun with
  | cancels hf _ _ _ => exact absurd (hf.symm.trans hcommitted) (by simp)
  | canceled _ ho _ hbatch =>
    refine iff_of_true (.inl (congrArg (Store.outcome · userId id) ?_)) fun h =>
      absurd (ho.symm.trans h) (by simp)
    rw [Store.cancelThenFill, transaction_cancelOrder, transaction, Prog.atomically, hbatch]
  | fills _ ho hbatch hcancel =>
    refine iff_of_true (.inr (congrArg (Store.outcome · userId id) ?_)) fun h =>
      absurd (ho.symm.trans h) (by simp)
    rw [hdone] at hcancel
    rw [Store.fillThenCancel, transaction_cancelOrder, transaction, Prog.atomically, hbatch]
    exact hcancel
  | overtakes _ ho hbatch hcancel =>
    rw [hdone] at hcancel
    have hstore : r.store = cancelFrom userId id (.read order pair) _ := hcancel
    rw [hstore, serial_overtaken_iff hok hfound hfilled hpart hpos hbatch]
    exact ⟨fun h _ => h, fun h => h ho⟩

end

/-! ### A filled order is cancelled -/

/-- The buy order of `sellAndBuy` is the taker. -/
def buyArgs : BatchArgs where
  takerUserId := 2
  takerOrderId := 2
  takerSide := .buy
  symbol := "BTC/USDT"
  baseAsset := "BTC"
  quoteAsset := "USDT"

/-- It fills the sell order. -/
def buyTrades : List DomainTrade :=
  [{ takerOrderId := 2, makerOrderId := 1, symbol := "BTC/USDT", price := 10, quantity := 1,
     quoteQuantity := 10, side := .buy, makerUserId := 1 }]

/-- The sell order has been read by the user 1 who cancels it. -/
def sellRead : Race := Race.cancelStep 1 1 { store := sellAndBuy }

/-- Then it is filled. -/
def sellFilled : Race := (sellRead.workerStep buyArgs buyTrades).getD sellRead

/-- And then the cancellation goes on. -/
def sellCanceled : Race := (sellFilled.cancelStep 1 1).cancelStep 1 1

theorem sellCanceled_reached :
    Relation.ReflTransGen (RaceStep 1 1 buyArgs buyTrades) { store := sellAndBuy } sellCanceled := by
  have hfill : sellRead.workerStep buyArgs buyTrades = some sellFilled := by
    have hsome : (sellRead.workerStep buyArgs buyTrades).isSome = true := by decide +kernel
    obtain ⟨r, hr⟩ := Option.isSome_iff_exists.mp hsome
    rw [sellFilled, hr]
    rfl
  exact (((Relation.ReflTransGen.single .cancel).tail (.worker hfill)).tail .cancel).tail .cancel

theorem sellAndBuy_balancesAddUp : sellAndBuy.BalancesAddUp := by
  intro key row hrow
  change (if key = (1, "BTC") then some (⟨1, 1, 0, 1⟩ : Row)
    else if key = (2, "USDT") then some ⟨10, 10, 0, 1⟩ else none) = some row at hrow
  split_ifs at hrow <;> obtain rfl := Option.some.inj hrow <;> norm_num

theorem cancelRace_serial_iff_sellCanceled :
    Serial sellAndBuy sellCanceled.store 1 1 buyArgs buyTrades ↔ (sellCanceled.overtaken = true →
      sellAndBuy.SameUnlock (orderAtTen 1 .sell)
        { baseAsset := "BTC", quoteAsset := "USDT", minLotSize := 1, maxLotSize := 100, tickSize := 1,
          isActive := true } buyArgs buyTrades (batchFill buyArgs buyTrades 1)) := by
  have hpart : TakesPart buyArgs buyTrades 1 := .inr ⟨_, List.mem_singleton_self _, rfl⟩
  have hpos : ∀ t ∈ buyTrades, 0 < t.quantity := by decide +kernel
  refine cancelRace_serial_iff sellAndBuy_balancesAddUp ?_ ?_ hpart hpos ⟨rfl, rfl⟩
    sellCanceled_reached ?_ ?_
  all_goals decide +kernel

/-- **The order is cancelled although it has been filled**, which neither order of the two allows. -/
theorem cancelWhileFilled_notSerial :
    Relation.ReflTransGen (RaceStep 1 1 buyArgs buyTrades) { store := sellAndBuy } sellCanceled ∧
      sellCanceled.cancel = .done ∧ sellCanceled.filled = true ∧
      (sellCanceled.store.outcome 1 1).1 = some (.canceled, 1) ∧
      ((sellAndBuy.fillThenCancel 1 1 buyArgs buyTrades).outcome 1 1).1 = some (.filled, 1) ∧
      ((sellAndBuy.cancelThenFill 1 1 buyArgs buyTrades).outcome 1 1).1 = some (.canceled, 0) ∧
      ¬ Serial sellAndBuy sellCanceled.store 1 1 buyArgs buyTrades := by
  have hrun : (sellCanceled.store.outcome 1 1).1 = some (.canceled, 1) := by decide +kernel
  have hfirst : ((sellAndBuy.fillThenCancel 1 1 buyArgs buyTrades).outcome 1 1).1 =
      some (.filled, 1) := by decide +kernel
  have hlast : ((sellAndBuy.cancelThenFill 1 1 buyArgs buyTrades).outcome 1 1).1 =
      some (.canceled, 0) := by decide +kernel
  refine ⟨sellCanceled_reached, by decide +kernel, by decide +kernel, hrun, hfirst, hlast, ?_⟩
  rintro (heq | heq)
  · exact absurd (hrun.symm.trans ((congrArg Prod.fst heq).trans hlast)) (by decide +kernel)
  · exact absurd (hrun.symm.trans ((congrArg Prod.fst heq).trans hfirst)) (by decide +kernel)

end SpotExchange.Exchange
