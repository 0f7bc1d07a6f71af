import SpotExchange.Exchange.Batch
import Mathlib.Algebra.Order.BigOperators.Group.List

namespace SpotExchange.Exchange

open SpotExchange.Lib
open SpotExchange.Engine (OrderId)
open SpotExchange.Ledger (BalanceKey Row Op)

/-!
# What a batch does to its orders

* `batchFill` — how much of an order a batch fills;
* `Order.FilledTo` — what a batch does to an order: it fills it, or it may activate it;
* `settlement_fillsOrder` — the rule for batches gives this of each order.
-/

/-! ### What a batch moves of one order, and of one row -/

/-- How much of an order a trade fills. -/
def DomainTrade.fills (args : BatchArgs) (id : OrderId) (t : DomainTrade) : ℚ :=
  (if id = t.makerOrderId then t.quantity else 0) + if id = args.takerOrderId then t.quantity else 0

/-- How much of an order a batch fills. -/
def batchFill (args : BatchArgs) (trades : List DomainTrade) (id : OrderId) : ℚ :=
  (trades.map (DomainTrade.fills args id)).sum

theorem batchEffect_fill (args : BatchArgs) (owner : OrderId → UserId) (trades : List DomainTrade)
    (id : OrderId) : ((batchEffect args owner trades).2 id).1 = batchFill args trades id := by
  unfold batchEffect batchFill
  induction trades with
  | nil => rfl
  | cons t trades ih =>
    rw [List.map_cons, List.sum_cons, List.map_cons, List.sum_cons, ← ih]
    refine congrArg (· + _) ?_
    show ((Moved.single t.makerOrderId _ + Moved.single args.takerOrderId _ : OrderId → ℚ × ℚ) id).1 = _
    rw [Pi.add_apply, Moved.single_apply, Moved.single_apply, DomainTrade.fills, Prod.fst_add]
    split_ifs <;> rfl

/-- An order that takes part in a batch. -/
def TakesPart (args : BatchArgs) (trades : List DomainTrade) (id : OrderId) : Prop :=
  id = args.takerOrderId ∧ trades ≠ [] ∨ ∃ t ∈ trades, t.makerOrderId = id

theorem batchFill_pos {args : BatchArgs} {trades : List DomainTrade} {id : OrderId}
    (hpos : ∀ t ∈ trades, 0 < t.quantity) (hpart : TakesPart args trades id) :
    0 < batchFill args trades id := by
  have hnonneg : ∀ t ∈ trades, 0 ≤ t.fills args id := by
    intro t ht
    have := hpos t ht
    unfold DomainTrade.fills
    split_ifs <;> linarith
  obtain ⟨t, ht, hfill⟩ : ∃ t ∈ trades, 0 < t.fills args id := by
    rcases hpart with ⟨htaker, hne⟩ | ⟨t, ht, hmaker⟩
    · obtain ⟨t, ts, rfl⟩ := List.exists_cons_of_ne_nil hne
      have := hpos t List.mem_cons_self
      refine ⟨t, List.mem_cons_self, ?_⟩
      unfold DomainTrade.fills
      rw [if_pos htaker]
      split_ifs <;> linarith
    · have := hpos t ht
      refine ⟨t, ht, ?_⟩
      unfold DomainTrade.fills
      rw [if_pos hmaker.symm]
      split_ifs <;> linarith
  exact hfill.trans_le (List.single_le_sum (by simpa using hnonneg) _ (List.mem_map_of_mem ht))

/-- Settling and crediting keep total minus locked minus available. -/
theorem partyShift_balanced (userId : UserId) (paid received : Asset) (p q : ℚ) (key : BalanceKey) :
    (partyShift userId paid received p q key).1 =
      (partyShift userId paid received p q key).2.1 + (partyShift userId paid received p q key).2.2 := by
  unfold partyShift
  rw [Pi.add_apply, Moved.single_apply, Moved.single_apply]
  split_ifs <;> simp [opAmounts]

theorem batchEffect_balanced (args : BatchArgs) (owner : OrderId → UserId)
    (trades : List DomainTrade) (key : BalanceKey) :
    ((batchEffect args owner trades).1 key).1 =
      ((batchEffect args owner trades).1 key).2.1 + ((batchEffect args owner trades).1 key).2.2 := by
  have htrade : ∀ isTaker userId p q, (tradeShift args isTaker userId p q key).1 =
      (tradeShift args isTaker userId p q key).2.1 + (tradeShift args isTaker userId p q key).2.2 := by
    intro isTaker userId p q
    unfold tradeShift
    cases isTaker <;> cases args.takerSide <;> exact partyShift_balanced _ _ _ _ _ _
  unfold batchEffect
  induction trades with
  | nil => exact (add_zero (0 : ℚ)).symm
  | cons t trades ih =>
    rw [List.map_cons, List.sum_cons]
    have hmaker := htrade false (owner t.makerOrderId) t.quantity (t.price * t.quantity)
    have htaker := htrade true (owner args.takerOrderId) t.quantity (t.price * t.quantity)
    simp only [Prod.fst_add, Pi.add_apply, Prod.snd_add, makerEffect, takerEffect,
      DomainTrade.fill] at ih ⊢
    rw [ih, hmaker, htaker]
    ring

/-! ### The makers of a batch -/

private theorem addFillDelta_makers (id k : OrderId) (p q : ℚ) (ds : List FillDelta) :
    (∃ d ∈ addFillDelta id p q ds, d.makerId = k) ↔ k = id ∨ ∃ d ∈ ds, d.makerId = k := by
  induction ds with
  | nil => simp [addFillDelta, eq_comm]
  | cons d ds ih =>
    by_cases hid : d.makerId = id
    · rw [addFillDelta, if_pos hid]
      simp only [List.exists_mem_cons_iff, hid]
      tauto
    · rw [addFillDelta, if_neg hid]
      simp only [List.exists_mem_cons_iff, ih]
      tauto

/-- Each trade has its maker among the aggregated fills. -/
theorem exists_makerFillDelta {trades : List DomainTrade} {t : DomainTrade} (ht : t ∈ trades) :
    ∃ d ∈ makerFillDeltas trades, d.makerId = t.makerOrderId := by
  have hfold : ∀ ds : List FillDelta, ((∃ d ∈ ds, d.makerId = t.makerOrderId) ∨ t ∈ trades) →
      ∃ d ∈ trades.foldl (fun ds t => addFillDelta t.makerOrderId t.quantity (t.price * t.quantity) ds)
        ds, d.makerId = t.makerOrderId := by
    clear ht
    induction trades with
    | nil => exact fun _ h => h.resolve_right List.not_mem_nil
    | cons u trades ih =>
      intro ds h
      refine ih _ ?_
      rw [addFillDelta_makers]
      rcases h with h | h
      · exact .inl (.inr h)
      · rcases List.mem_cons.mp h with rfl | h
        · exact .inl (.inl rfl)
        · exact .inr h
  exact hfold [] (.inr ht)

/-- Each maker has one entry among the aggregated fills. -/
theorem makerFillDeltas_nodup (trades : List DomainTrade) :
    ((makerFillDeltas trades).map FillDelta.makerId).Nodup := by
  have hone : ∀ (id : OrderId) (p q : ℚ) (ds : List FillDelta), (ds.map FillDelta.makerId).Nodup →
      ((addFillDelta id p q ds).map FillDelta.makerId).Nodup := by
    intro id p q ds hds
    induction ds with
    | nil => simp [addFillDelta]
    | cons d ds ih =>
      rw [List.map_cons, List.nodup_cons] at hds
      by_cases hid : d.makerId = id
      · rw [addFillDelta, if_pos hid]
        exact List.nodup_cons.mpr hds
      · rw [addFillDelta, if_neg hid]
        refine List.nodup_cons.mpr ⟨fun hmem => ?_, ih hds.2⟩
        rcases (addFillDelta_makers id d.makerId p q ds).mp (List.mem_map.mp hmem) with h | h
        · exact hid h
        · exact hds.1 (List.mem_map.mpr h)
  have hfold : ∀ ds : List FillDelta, (ds.map FillDelta.makerId).Nodup →
      ((trades.foldl (fun ds t => addFillDelta t.makerOrderId t.quantity (t.price * t.quantity) ds)
        ds).map FillDelta.makerId).Nodup := by
    induction trades with
    | nil => exact fun _ h => h
    | cons t trades ih => exact fun ds h => ih _ (hone _ _ _ ds h)
  exact hfold [] List.nodup_nil

/-- **The aggregated fill of a maker** is the sum of its trades. -/
theorem makerFillDelta_qty {trades : List DomainTrade} {d : FillDelta}
    (hd : d ∈ makerFillDeltas trades) :
    d.qty = (trades.map fun t => if t.makerOrderId = d.makerId then t.quantity else 0).sum := by
  have hsum := makerFillDeltas_sum (g := fun x : FillDelta => if x.makerId = d.makerId then x.qty else 0)
    (fun id p q p' q' => by
      show (if id = d.makerId then p + p' else 0) = _
      split_ifs
      · rfl
      · exact (add_zero 0).symm) trades
  refine Eq.trans ?_ hsum
  -- the other entries are of other makers
  have hone : ∀ ds : List FillDelta, (ds.map FillDelta.makerId).Nodup → d ∈ ds →
      (ds.map fun x => if x.makerId = d.makerId then x.qty else 0).sum = d.qty := by
    intro ds hds hmem
    induction ds with
    | nil => exact absurd hmem List.not_mem_nil
    | cons x ds ih =>
      rw [List.map_cons, List.nodup_cons] at hds
      rw [List.map_cons, List.sum_cons]
      rcases List.mem_cons.mp hmem with rfl | hmem
      · have hothers : ∀ y ∈ ds, (if y.makerId = d.makerId then y.qty else 0) = 0 := by
          intro y hy
          refine if_neg fun heq => hds.1 ?_
          rw [← heq]
          exact List.mem_map_of_mem hy
        rw [if_pos rfl, List.sum_eq_zero (by simpa using hothers), add_zero]
      · have hne : x.makerId ≠ d.makerId := fun heq => hds.1 (heq ▸ List.mem_map_of_mem hmem)
        rw [if_neg hne, zero_add, ih hds.2 hmem]
  exact (hone _ (makerFillDeltas_nodup trades) hd).symm

/-! ### The orders of a batch -/

/-- The status of an order that has been filled. -/
def Order.fillStatus (o : Order) : OrderStatus :=
  if o.filledQuantity ≥ o.quantity then .filled else .partiallyFilled

/-- What a batch does to an order: it fills it, or it may activate it. -/
structure Order.FilledTo (o o' : Order) : Prop where
  terms : o'.terms = o.terms
  filled : o'.filledQuantity = o.filledQuantity ∧
      (o'.status = o.status ∨ o.status = .pending ∧ o'.status = .new) ∨
    o.filledQuantity < o'.filledQuantity ∧ o'.status = o'.fillStatus

theorem Order.FilledTo.refl (o : Order) : o.FilledTo o := ⟨rfl, .inl ⟨rfl, .inl rfl⟩⟩

theorem Order.fillStatus_ne_pending (o : Order) : o.fillStatus ≠ .pending := by
  unfold Order.fillStatus
  split_ifs <;> simp

theorem Order.FilledTo.trans {o o' o'' : Order} (h : o.FilledTo o') (h' : o'.FilledTo o'') :
    o.FilledTo o'' := by
  refine ⟨h'.terms.trans h.terms, ?_⟩
  rcases h'.filled with ⟨hsame', hstatus'⟩ | ⟨hlt', hstatus'⟩
  · have hquantity : o''.quantity = o'.quantity := congrArg OrderTerms.quantity h'.terms
    rcases h.filled with ⟨hsame, hstatus⟩ | ⟨hlt, hstatus⟩
    · refine .inl ⟨hsame'.trans hsame, ?_⟩
      rcases hstatus' with hs' | ⟨hp', hn'⟩
      · rw [hs']
        exact hstatus
      · rcases hstatus with hs | ⟨-, hn⟩
        · exact .inr ⟨hs ▸ hp', hn'⟩
        · exact absurd (hn ▸ hp') (by simp)
    · -- what has been filled is not activated
      rcases hstatus' with hs' | ⟨hp', -⟩
      · refine .inr ⟨hsame' ▸ hlt, ?_⟩
        rw [hs', hstatus, fillStatus, fillStatus, hsame', hquantity]
      · exact absurd (hstatus ▸ hp') (Order.fillStatus_ne_pending o')
  · refine .inr ⟨?_, hstatus'⟩
    rcases h.filled with ⟨hsame, -⟩ | ⟨hlt, -⟩
    · rwa [← hsame]
    · exact hlt.trans hlt'

/-- An order with a non-negative fill, across a batch. -/
def FillsOrder (id : OrderId) (s s' : Store) : Prop :=
  ∀ o, s.pg.orders id = some o → 0 ≤ o.filledQuantity → ∃ o', s'.pg.orders id = some o' ∧ o.FilledTo o'

instance (id : OrderId) : IsPreorder Store (FillsOrder id) where
  refl _ o ho _ := ⟨o, ho, .refl o⟩
  trans s s' s'' h h' o ho hnonneg := by
    obtain ⟨o', ho', hfilled⟩ := h o ho hnonneg
    have hnonneg' : 0 ≤ o'.filledQuantity := by
      rcases hfilled.filled with ⟨hsame, -⟩ | ⟨hlt, -⟩
      · rwa [hsame]
      · exact hnonneg.trans hlt.le
    obtain ⟨o'', ho'', hfilled'⟩ := h' o' ho' hnonneg'
    exact ⟨o'', ho'', hfilled.trans hfilled'⟩

/-- An order is written. -/
private theorem fillsOrder_put {id k : OrderId} {s : Store} {order order' : Order}
    (h : s.pg.orders k = some order) (hfilled : 0 ≤ order.filledQuantity → order.FilledTo order') :
    FillsOrder id s (s.putOrder k order') := by
  intro o ho hnonneg
  show ∃ o', Function.update s.pg.orders k (some order') id = some o' ∧ _
  by_cases hk : id = k
  · subst hk
    obtain rfl : order = o := Option.some.inj (h.symm.trans ho)
    exact ⟨order', by rw [Function.update_self], hfilled hnonneg⟩
  · exact ⟨o, by rw [Function.update_of_ne hk]; exact ho, .refl o⟩

variable {args : BatchArgs} {trades : List DomainTrade}

/-- **What a batch does to the orders**, if it has trades and they have positive quantities. -/
theorem settlement_fillsOrder (args : BatchArgs) (hne : trades ≠ []) (hpos : ∀ t ∈ trades, 0 < t.quantity)
    (id : OrderId) : FillSteps args trades (FillsOrder id) ∧
      ChildSteps args.takerOrderId (FillsOrder id) where
  left :=
    { trade := fun s _ _ => refl_of (FillsOrder id) s
      makerUser := fun s _ _ _ => refl_of (FillsOrder id) s
      balance := fun s _ _ _ => refl_of (FillsOrder id) s
      redisMaker := fun s _ _ _ _ => refl_of (FillsOrder id) s
      maker := by
        intro s d hd order horder
        have hqty : 0 < d.qty := makerFillDeltas_all (P := fun d => 0 < d.qty)
          (fun _ _ _ _ _ h h' => add_pos h h') hpos d hd
        refine fillsOrder_put horder fun hnonneg => ⟨rfl, .inr ⟨?_, rfl⟩⟩
        exact lt_add_of_pos_right _ hqty
      taker := by
        intro s order horder
        have hqty : 0 < takerTotalQty trades := by
          refine List.sum_pos _ ?_ (by simpa using hne)
          simpa using hpos
        refine fillsOrder_put horder fun hnonneg => ⟨rfl, .inr ⟨lt_add_of_pos_right _ hqty, ?_⟩⟩
        have hfilled : 0 < order.filledQuantity + takerTotalQty trades :=
          add_pos_of_nonneg_of_pos hnonneg hqty
        simp only [Order.filledAsTaker, Order.fillStatus, hfilled, if_true] }
  right := fun s k order horder hp =>
    fillsOrder_put horder fun _ => ⟨rfl, .inl ⟨rfl, .inr ⟨hp, rfl⟩⟩⟩

/-- **An order that a batch fills.** -/
theorem persistTradeBatch_order {rows : List Trade} {s s' : Store} {id : OrderId} {order : Order}
    (h : persistTradeBatch args trades s = (.ok rows, s')) (hpos : ∀ t ∈ trades, 0 < t.quantity)
    (hpart : TakesPart args trades id) (horder : s.pg.orders id = some order)
    (hfilled : 0 ≤ order.filledQuantity) :
    ∃ order', s'.pg.orders id = some order' ∧ order'.terms = order.terms ∧
      order'.filledQuantity = order.filledQuantity + batchFill args trades id ∧
        order'.status = order'.fillStatus := by
  have hne : trades ≠ [] := by
    rcases hpart with ⟨-, hne⟩ | ⟨t, ht, -⟩
    · exact hne
    · exact List.ne_nil_of_mem ht
  have hsteps := settlement_fillsOrder args hne hpos id
  obtain ⟨order', horder', hto⟩ :=
    (persistTradeBatch_moves hsteps.1 hsteps.2).of_ok h order horder hfilled
  obtain ⟨_, horder'', hfills⟩ := (persistTradeBatch_spec h).2.2.fills.row horder
  obtain rfl : order' = _ := Option.some.inj (horder'.symm.trans horder'')
  have hq : order'.filledQuantity = order.filledQuantity + batchFill args trades id := by
    rw [← batchEffect_fill args s.owner trades id]
    exact congrArg Prod.fst hfills
  refine ⟨order', horder', hto.terms, hq, ?_⟩
  rcases hto.filled with ⟨hsame, -⟩ | ⟨-, hstatus⟩
  · have := batchFill_pos hpos hpart
    linarith
  · exact hstatus

end SpotExchange.Exchange
