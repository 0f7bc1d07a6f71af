import SpotExchange.Exchange.Reconciling
import SpotExchange.Exchange.Refunding

namespace SpotExchange.Exchange

open SpotExchange.Lib
open SpotExchange.Engine (OrderId)
open SpotExchange.Ledger (BalanceKey Row Op)

/-!
# What a batch makes of a buy order

* `persistTradeBatch_solvent` — no batch overdraws what is locked;
* `batchEffect_charges` — what the trades of a buy order cost is taken from what its user has locked;
* `Buys.bought` — so the row, the balance and the table of trades move together.
-/

/-- What a batch fills of an order, in base and in quote. -/
def batchFills (args : BatchArgs) (trades : List DomainTrade) (id : OrderId) : ℚ × ℚ :=
  (trades.map (DomainTrade.fillsOf args id)).sum

/-- The quote that the trades of an order have settled. -/
def Store.settledQuote (s : Store) (id : OrderId) : ℚ := ((s.rowsOf id).map Trade.quoteQuantity).sum

/-- **A batch in which a user takes part with one order**, if at all, which buys with an asset. -/
structure Buys (s : Store) (args : BatchArgs) (trades : List DomainTrade) (userId : UserId) (asset : Asset)
    (id : OrderId) : Prop where
  taker_ne : ∀ t ∈ trades, t.makerOrderId ≠ args.takerOrderId
  quantity_pos : ∀ t ∈ trades, 0 < t.quantity
  own : ∀ k o, s.pg.orders k = some o → (o.userId = userId ↔ k = id)
  asset : TakesPart args trades id → asset = args.quoteAsset ∧ args.baseAsset ≠ args.quoteAsset
  asTaker : args.takerOrderId = id → args.takerSide = .buy
  asMaker : ∀ t ∈ trades, t.makerOrderId = id → args.takerSide = .sell

/-- **What a batch makes of a buy order** that it fills by `x`: the quote of `x` is settled, and taken from
    what is locked. -/
structure Bought (x : ℚ × ℚ) (id : OrderId) (key : BalanceKey) (s t : Store) (o : Order) (row : Row) :
    Prop where
  order : ∃ o', t.pg.orders id = some o' ∧ o'.terms = o.terms ∧
    o'.filledQuantity = o.filledQuantity + x.1 ∧ (o'.status = o.status ∨ o'.status = o'.fillStatus)
  balance : ∃ row', t.pg.balances key = some row' ∧ amounts row' = amounts row + (-x.2, -x.2, 0)
  settled : t.settledQuote id = s.settledQuote id + x.2

section

variable {s t : Store} {args : BatchArgs} {trades : List DomainTrade} {userId : UserId} {id : OrderId}
  {key : BalanceKey}

/-! ### What is locked -/

theorem locked_moveRow (s : Store) (k key : BalanceKey) (row : Row) (update : BalanceUpdate) :
    (s.moveBalance k row update).locked key = if key = k then row.lockedBalance else s.locked key := by
  by_cases hkey : key = k
  · subst hkey
    rw [if_pos rfl]
    exact locked_of_row (Function.update_self _ _ _)
  · rw [if_neg hkey]
    unfold Store.locked Store.rowOrZero
    rw [show (s.moveBalance k row update).pg.balances key = s.pg.balances key from
      Function.update_of_ne hkey _ _]

/-- Settling and crediting do not overdraw what is locked. -/
theorem pessimistic_solvent {op : Op} (hop : op = .settle ∨ op = .credit) (k : BalanceKey) (amount : ℚ)
    (reason : BalanceReason) (orderId : Option OrderId) :
    Prog.Moves (Prog.Preserves fun s : Store => 0 ≤ s.locked key)
      (pessimistic op k amount reason orderId) := by
  intro s hs
  rcases hx : pessimistic op k amount reason orderId s with ⟨err | u, s'⟩
  · obtain rfl := pessimistic_error hx
    exact hs
  obtain ⟨row, row', hrow, hrun, rfl⟩ := pessimistic_eq_ok hx
  show 0 ≤ (s.moveBalance k row' _).locked key
  rw [locked_moveRow]
  split_ifs with hkey
  swap
  · exact hs
  subst hkey
  rw [locked_of_row hrow] at hs
  have hmoved := congrArg (fun a : Amounts => a.2.1) (amounts_pessimistic hrun)
  rcases hop with rfl | rfl
  · have hmoved : row'.lockedBalance = row.lockedBalance + -amount := hmoved
    have hle := (settlePessimistic_returns_iff.mp ⟨row', hrun⟩).2.1
    rw [hmoved]
    linarith
  · have hmoved : row'.lockedBalance = row.lockedBalance + 0 := hmoved
    rw [hmoved, add_zero]
    exact hs

theorem settleTradeBalances_solvent (args : BatchArgs) (isTaker : Bool) (userId : UserId) (id : OrderId)
    (qty quoteQty : ℚ) : Prog.Moves (Prog.Preserves fun s : Store => 0 ≤ s.locked key)
      (settleTradeBalances args isTaker userId id qty quoteQty) := by
  have hparty : ∀ paid received paidAmount receivedAmount, Prog.Moves
      (Prog.Preserves fun s : Store => 0 ≤ s.locked key)
        (settleParty userId id paid received paidAmount receivedAmount) := by
    intro paid received paidAmount receivedAmount
    refine (Prog.moves_read _).bind fun _ => (Prog.moves_read _).bind fun _ => ?_
    exact (Prog.Moves.whenSome fun _ _ => pessimistic_solvent (.inl rfl) _ _ _ _).bind
      fun _ => Prog.Moves.whenSome fun _ _ => pessimistic_solvent (.inr rfl) _ _ _ _
  unfold settleTradeBalances
  split <;> exact hparty _ _ _ _

/-- **No batch overdraws what is locked.** -/
theorem persistTradeBatch_solvent (args : BatchArgs) (trades : List DomainTrade) :
    Prog.Moves (Prog.Preserves fun s : Store => 0 ≤ s.locked key) (persistTradeBatch args trades) := by
  have hsame : ∀ {x : M Unit}, (∀ s, (x s).2.pg.balances = s.pg.balances) →
      Prog.Moves (Prog.Preserves fun s : Store => 0 ≤ s.locked key) x := by
    intro x hx s hs
    show 0 ≤ (x s).2.locked key
    rw [locked_of_balances (hx s)]
    exact hs
  refine persistTradeBatch_moves_of (fun t _ => insertTrade_moves fun s hs => hs) (fun d _ first => ?_) ?_
  · refine (Prog.moves_read _).bind fun order => Prog.Moves.whenSome fun order _ => ?_
    refine (hsame fun _ => rfl : Prog.Moves _ (onDatabase _)).bind fun _ => ?_
    refine (hsame fun _ => rfl : Prog.Moves _ (setMakerUserId _ _ _)).bind fun _ => ?_
    exact (settleTradeBalances_solvent _ _ _ _ _ _).bind fun _ => hsame fun _ => rfl
  · refine (Prog.moves_read _).bind fun order => Prog.Moves.whenSome fun order _ => ?_
    refine (hsame fun _ => rfl : Prog.Moves _ (onDatabase _)).bind fun _ => ?_
    refine (settleTradeBalances_solvent _ _ _ _ _ _).bind fun _ => Prog.Moves.whenever fun _ => ?_
    exact activateSltpChildren_moves _ fun _ _ _ _ _ hs => hs

/-! ### What the trades move -/

/-- What an order pays in quote is taken from a balance, from what is locked of it. -/
def Effect.Charges (x : Effect) (key : BalanceKey) (id : OrderId) : Prop :=
  x.1 key = (-(x.2 id).2, -(x.2 id).2, 0)

theorem Effect.Charges.add {x y : Effect} (hx : x.Charges key id) (hy : y.Charges key id) :
    (x + y).Charges key id := by
  unfold Effect.Charges at *
  show x.1 key + y.1 key = (-((x.2 id).2 + (y.2 id).2), -((x.2 id).2 + (y.2 id).2), 0)
  rw [hx, hy, neg_add, Prod.mk_add_mk, Prod.mk_add_mk, add_zero]

theorem Effect.Charges.sum {xs : List Effect} (h : ∀ x ∈ xs, x.Charges key id) : xs.sum.Charges key id := by
  induction xs with
  | nil => exact Prod.ext neg_zero.symm (Prod.ext neg_zero.symm rfl)
  | cons x xs ih =>
    rw [List.forall_mem_cons] at h
    rw [List.sum_cons]
    exact h.1.add (ih h.2)

/-- What a party is charged for an order that it buys with; others are charged nothing. -/
theorem charges_party (hassets : args.baseAsset ≠ args.quoteAsset) {isTaker : Bool} {party : UserId}
    {k : OrderId} (hparty : party = userId ↔ id = k)
    (hbuys : id = k → (args.takerSide = .buy ↔ isTaker = true)) (qty quoteQty : ℚ) :
    Effect.Charges (tradeShift args isTaker party qty quoteQty, Moved.single k (qty, quoteQty))
      (userId, args.quoteAsset) id := by
  show tradeShift args isTaker party qty quoteQty (userId, args.quoteAsset) = _
  by_cases hid : id = k
  · have hside := hbuys hid
    obtain rfl := hparty.mpr hid
    subst hid
    unfold tradeShift partyShift
    cases isTaker <;> cases htaker : args.takerSide <;> simp [htaker] at hside <;>
      simp [Moved.single_apply, opAmounts, hassets.symm]
  · have hne : ∀ a, (userId, args.quoteAsset) ≠ (party, a) := fun a h =>
      hid (hparty.mp (congrArg Prod.fst h).symm)
    unfold tradeShift partyShift
    cases isTaker <;> cases args.takerSide <;> simp [Moved.single_apply, hne, hid] <;> rfl

/-- **What the trades of a buy order cost** is taken from what its user has locked. -/
theorem batchEffect_charges {owner : OrderId → UserId} (hassets : args.baseAsset ≠ args.quoteAsset)
    (hparty : ∀ t ∈ trades, (owner t.makerOrderId = userId ↔ id = t.makerOrderId) ∧
      (owner args.takerOrderId = userId ↔ id = args.takerOrderId))
    (htaker : args.takerOrderId = id → args.takerSide = .buy)
    (hmaker : ∀ t ∈ trades, t.makerOrderId = id → args.takerSide = .sell) :
    (batchEffect args owner trades).Charges (userId, args.quoteAsset) id := by
  refine Effect.Charges.sum fun x hx => ?_
  obtain ⟨t, ht, rfl⟩ := List.mem_map.mp hx
  obtain ⟨hmakerIff, htakerIff⟩ := hparty t ht
  refine Effect.Charges.add (charges_party hassets hmakerIff (fun hid => ?_) _ _)
    (charges_party hassets htakerIff (fun hid => ?_) _ _)
  · simp [hmaker t ht hid.symm]
  · simp [htaker hid.symm]

/-- Others are charged nothing, in any asset. -/
theorem batchEffect_other {owner : OrderId → UserId} (asset : Asset)
    (hmaker : ∀ t ∈ trades, owner t.makerOrderId ≠ userId) (htaker : owner args.takerOrderId ≠ userId) :
    (batchEffect args owner trades).1 (userId, asset) = 0 := by
  have hparty : ∀ {isTaker : Bool} {party : UserId}, party ≠ userId → ∀ qty quoteQty,
      tradeShift args isTaker party qty quoteQty (userId, asset) = 0 := by
    intro isTaker party hne qty quoteQty
    have hkey : ∀ a, (userId, asset) ≠ (party, a) := fun a h => hne (congrArg Prod.fst h).symm
    unfold tradeShift partyShift
    cases isTaker <;> cases args.takerSide <;> simp [Moved.single_apply, hkey]
  have hsum : ∀ xs : List Effect, (∀ x ∈ xs, x.1 (userId, asset) = 0) → xs.sum.1 (userId, asset) = 0 := by
    intro xs hxs
    induction xs with
    | nil => rfl
    | cons x xs ih =>
      rw [List.forall_mem_cons] at hxs
      rw [List.sum_cons]
      show x.1 (userId, asset) + xs.sum.1 (userId, asset) = 0
      rw [hxs.1, ih hxs.2, add_zero]
  refine hsum _ fun x hx => ?_
  obtain ⟨t, ht, rfl⟩ := List.mem_map.mp hx
  have hfill : owner t.fill.makerId ≠ userId := hmaker t ht
  show tradeShift _ _ _ _ _ (userId, asset) + tradeShift _ _ _ _ _ (userId, asset) = 0
  rw [hparty hfill, hparty htaker, add_zero]

/-! ### A batch -/

theorem batchFills_of_not_takesPart (h : ¬ TakesPart args trades id) : batchFills args trades id = 0 := by
  unfold batchFills
  refine List.sum_eq_zero fun x hx => ?_
  obtain ⟨t, ht, rfl⟩ := List.mem_map.mp hx
  refine if_neg ?_
  rintro (htaker | hmaker)
  · exact h (.inl ⟨htaker.symm, List.ne_nil_of_mem ht⟩)
  · exact h (.inr ⟨t, ht, hmaker⟩)

/-- What is filled at a price. -/
theorem batchFills_of_price {price : ℚ} (h : ∀ t ∈ trades, args.takerOrderId = id ∨ t.makerOrderId = id →
    t.price = price) : (batchFills args trades id).2 = price * (batchFills args trades id).1 := by
  unfold batchFills
  induction trades with
  | nil => exact (mul_zero price).symm
  | cons t trades ih =>
    rw [List.forall_mem_cons] at h
    rw [List.map_cons, List.sum_cons, Prod.snd_add, Prod.fst_add, ih h.2, mul_add]
    refine congrArg (· + _) ?_
    unfold DomainTrade.fillsOf
    split_ifs with hpart
    · rw [h.1 hpart]
    · exact (mul_zero price).symm

theorem batchFills_nonneg (h : ∀ t ∈ trades, 0 < t.quantity) : 0 ≤ (batchFills args trades id).1 := by
  unfold batchFills
  induction trades with
  | nil => exact le_rfl
  | cons t trades ih =>
    rw [List.forall_mem_cons] at h
    rw [List.map_cons, List.sum_cons, Prod.fst_add]
    refine add_nonneg ?_ (ih h.2)
    unfold DomainTrade.fillsOf
    split_ifs
    · exact h.1.le
    · exact le_rfl

section

variable {asset : Asset} {rows : List Trade} {o : Order} {row : Row}

/-- What such a batch charges. -/
theorem Buys.charges (h : Buys s args trades userId asset id)
    (hbatch : persistTradeBatch args trades s = (.ok rows, t)) :
    (batchEffect args s.owner trades).Charges (userId, asset) id ∧
      (batchEffect args s.owner trades).2 id = batchFills args trades id := by
  obtain ⟨-, hrefs, -⟩ := persistTradeBatch_spec hbatch
  have hfills : (batchEffect args s.owner trades).2 id = batchFills args trades id :=
    batchEffect_fills id h.taker_ne
  refine ⟨?_, hfills⟩
  have howner : ∀ k, s.pg.orders k ≠ none → (s.owner k = userId ↔ id = k) := by
    intro k hk
    obtain ⟨x, hx⟩ := Option.ne_none_iff_exists'.mp hk
    rw [Store.owner, hx]
    exact (h.own k x hx).trans eq_comm
  have hparty : ∀ t ∈ trades, (s.owner t.makerOrderId = userId ↔ id = t.makerOrderId) ∧
      (s.owner args.takerOrderId = userId ↔ id = args.takerOrderId) := by
    intro t ht
    have href := hrefs t ht
    simp only [Database.tradeRefs, Bool.and_eq_true, Option.isSome_iff_ne_none] at href
    exact ⟨howner _ href.1.1.1.2, howner _ href.1.1.1.1⟩
  by_cases hpart : TakesPart args trades id
  · obtain ⟨rfl, hassets⟩ := h.asset hpart
    exact batchEffect_charges hassets hparty h.asTaker h.asMaker
  · rw [batchFills_of_not_takesPart hpart] at hfills
    unfold Effect.Charges
    rw [hfills]
    by_cases hnil : trades = []
    · subst hnil
      exact Prod.ext neg_zero.symm (Prod.ext neg_zero.symm rfl)
    -- neither the makers nor the taker are the user's
    obtain ⟨t, ts, rfl⟩ := List.exists_cons_of_ne_nil hnil
    have hmaker : ∀ u ∈ t :: ts, s.owner u.makerOrderId ≠ userId := fun u hu huser =>
      hpart (.inr ⟨u, hu, ((hparty u hu).1.mp huser).symm⟩)
    have htaker : s.owner args.takerOrderId ≠ userId := fun huser =>
      hpart (.inl ⟨(hparty t List.mem_cons_self).2.mp huser, hnil⟩)
    rw [batchEffect_other asset hmaker htaker]
    exact Prod.ext neg_zero.symm (Prod.ext neg_zero.symm rfl)

/-- **A batch that returns.** -/
theorem Buys.bought (h : Buys s args trades userId asset id) (hids : TradeIdsBelow s)
    (hbatch : persistTradeBatch args trades s = (.ok rows, t)) (ho : s.pg.orders id = some o)
    (hfilled : 0 ≤ o.filledQuantity) (hpending : o.status ≠ .pending)
    (hrow : s.pg.balances (userId, asset) = some row) :
    Bought (batchFills args trades id) id (userId, asset) s t o row := by
  obtain ⟨-, -, hsettles⟩ := persistTradeBatch_spec hbatch
  obtain ⟨hcharges, hfills⟩ := h.charges hbatch
  refine ⟨?_, ?_, ?_⟩
  · obtain ⟨o', ho', hmoved⟩ := hsettles.fills.row ho
    rw [hfills] at hmoved
    refine ⟨o', ho', ?_⟩
    have hto : o.FilledTo o' := by
      by_cases hnil : trades = []
      · subst hnil
        obtain rfl : s = t := congrArg Prod.snd hbatch
        obtain rfl : o = o' := Option.some.inj (ho.symm.trans ho')
        exact .refl o
      have hsteps := settlement_fillsOrder args hnil h.quantity_pos id
      obtain ⟨o'', ho'', hto⟩ := (persistTradeBatch_moves hsteps.1 hsteps.2).of_ok hbatch o ho hfilled
      obtain rfl : o' = o'' := Option.some.inj (ho'.symm.trans ho'')
      exact hto
    refine ⟨hto.terms, congrArg Prod.fst hmoved, ?_⟩
    rcases hto.filled with ⟨-, hstatus | ⟨hp, -⟩⟩ | ⟨-, hstatus⟩
    · exact .inl hstatus
    · exact absurd hp hpending
    · exact .inr hstatus
  · obtain ⟨row', hrow', hmoved⟩ := hsettles.balances.row hrow
    refine ⟨row', hrow', ?_⟩
    rw [hmoved, hcharges, hfills]
  · have htrades := persistTradeBatch_trades (b := ⟨args, trades⟩) hids hbatch
    have hnew := tradeRows_fills args s.owner id s.tradeIdSeq trades
    rw [sum_fills] at hnew
    unfold Store.settledQuote Store.rowsOf
    rw [htrades, List.filter_append, List.map_append, List.sum_append]
    exact congrArg (_ + ·) (congrArg Prod.snd hnew)

end

end

end SpotExchange.Exchange
