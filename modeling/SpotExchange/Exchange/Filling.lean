import SpotExchange.Exchange.Crossing

namespace SpotExchange.Exchange

open SpotExchange.Lib
open SpotExchange.Engine (OrderId MatchResult PassiveOrder)

/-!
# Whether orders are overfilled

What is left of an order is kept twice: in its row and in its HASH, from which it is loaded.

* `Tracked` — no order is overfilled, and none is loaded with more than is left of it;
* `LoadedExactly` — each order that is no iceberg is loaded with just what is left of it;
* `settled_batch` — the trades of a match keep both;
* `run_tracked` — so does a run in which whatever rests is loaded with what its match has left.
-/

/-- The quantity that an order is loaded with once it rests. -/
def OrderActionPayload.restedQuantity (p : OrderActionPayload) : ℚ :=
  if p.isIceberg then (p.visibleQty.or (some p.quantity)).getD 0 else p.quantity

/-- **No order is overfilled**, and none that rests is loaded with more than is left of it. -/
structure Tracked (s : Store) : Prop where
  filled_le : ∀ id o, s.pg.orders id = some o → o.filledQuantity ≤ o.quantity
  loaded_le : ∀ symbol side, ∀ id ∈ (s.redis.book symbol side).members, ∀ h o,
    s.redis.orderHash id = some h → s.pg.orders id = some o → h.loadedQuantity ≤ o.remainingQuantity

/-- **Each resting order that is no iceberg** is loaded with just what is left of it. -/
def LoadedExactly (s : Store) : Prop :=
  ∀ symbol side, ∀ id ∈ (s.redis.book symbol side).members, ∀ h o, s.redis.orderHash id = some h →
    s.pg.orders id = some o → h.isIceberg = false → h.loadedQuantity = o.remainingQuantity

/-- Whatever the next round of the worker rests is loaded with no more than its match leaves. -/
def FillGuard (s : Store) : Request → Prop
  | .work => ∀ p ∈ s.redis.ordersQueue.head?, p.action = .place → p.type.rests = true →
      0 < s.leftOf p → p.restedQuantity ≤ s.leftOf p
  | _ => True

/-- Whether the trades of a placement can be persisted. -/
def Store.persists (s : Store) (p : OrderActionPayload) : Bool :=
  match matchPlaced p s with
  | (.ok r, s₁) => (persistTrades p r.trades s₁).1.toOption.isSome
  | (.error _, _) => true

/-- What the next round of the worker trades can be persisted. -/
def PersistGuard (s : Store) : Request → Prop
  | .work => ∀ p rest, s.redis.ordersQueue = p :: rest → p.action = .place →
      (s.setQueue rest).persists p = true
  | _ => True

section

variable {s s' t : Store} {p : OrderActionPayload} {r : MatchResult}

theorem restingHash_loaded (p : OrderActionPayload) (remaining : ℚ) (h : OrderHash) :
    (restingHash p remaining h).loadedQuantity = p.restedQuantity := by
  unfold OrderHash.loadedQuantity OrderActionPayload.restedQuantity restingHash
  cases p.isIceberg <;> rfl

/-! ### Steady steps -/

/-- An order that still rests after a steady step. -/
theorem Steady.resting (hsteady : Steady (0 ≤ ·) s s') (hc : Consistent s) {symbol : Symbol}
    {side : OrderSide} {id : OrderId} {h : OrderHash} {o' : Order}
    (hid : id ∈ (s'.redis.book symbol side).members) (hh : s'.redis.orderHash id = some h)
    (ho' : s'.pg.orders id = some o') :
    id ∈ (s.redis.book symbol side).members ∧ s.redis.orderHash id = some h ∧
      ∃ o, s.pg.orders id = some o ∧ o'.remainingQuantity = o.remainingQuantity := by
  have hbooked := hsteady.book.mem hid
  obtain ⟨o, ho, -⟩ := hc.booked symbol side id hbooked
  have hlt : id < s.orderIdSeq := hc.ids id (by rw [ho]; simp)
  refine ⟨hbooked, ?_, ?_⟩
  · rcases hsteady.hash id with hsame | hnone | hle
    · rw [← hsame]
      exact hh
    · exact absurd (hnone.symm.trans hh) (by simp)
    · exact absurd hlt (not_lt.mpr hle)
  · rcases hsteady.rows id o' ho' with ⟨o, ho, hstays, hfilled⟩ | ⟨hle, -, -⟩
    · have hquantity : o'.quantity = o.quantity := congrArg OrderTerms.quantity hstays.1
      exact ⟨o, ho, by rw [Order.remainingQuantity, hfilled, hquantity]; rfl⟩
    · exact absurd hlt (not_lt.mpr hle)

theorem Tracked.of_steady (h : Tracked s) (hc : Consistent s) (hsteady : Steady (0 ≤ ·) s s') :
    Tracked s' where
  filled_le := by
    intro id o' ho'
    rcases hsteady.rows id o' ho' with ⟨o, ho, hstays, hfilled⟩ | ⟨-, hfilled, hpos⟩
    · have hquantity : o'.quantity = o.quantity := congrArg OrderTerms.quantity hstays.1
      rw [hfilled, hquantity]
      exact h.filled_le id o ho
    · rw [hfilled]
      exact hpos
  loaded_le := by
    intro symbol side id hid hash o' hhash ho'
    obtain ⟨hid, hhash, o, ho, hremaining⟩ := hsteady.resting hc hid hhash ho'
    rw [hremaining]
    exact h.loaded_le symbol side id hid hash o hhash ho

theorem LoadedExactly.of_steady (h : LoadedExactly s) (hc : Consistent s)
    (hsteady : Steady (0 ≤ ·) s s') : LoadedExactly s' := by
  intro symbol side id hid hash o' hhash ho' hplain
  obtain ⟨hid, hhash, o, ho, hremaining⟩ := hsteady.resting hc hid hhash ho'
  rw [hremaining]
  exact h symbol side id hid hash o hhash ho hplain

/-! ### The trades of a match -/

/-- **What holds of a store in which a placement is taken up**, its own order included. -/
structure Taken (p : OrderActionPayload) (s : Store) : Prop extends Placeable p s where
  unfilled : ∀ o, s.pg.orders p.orderId = some o → o.filledQuantity = 0
  apart : ∀ symbol side, p.orderId ∉ (s.redis.book symbol side).members

theorem Orderly.taken (h : Orderly s) {rest : List OrderActionPayload}
    (hqueue : s.redis.ordersQueue = p :: rest) (hplace : p.action = .place) : Taken p (s.setQueue rest) := by
  have hmem : p.orderId ∈ s.placements :=
    mem_placements.mpr ⟨p, by rw [hqueue]; exact List.mem_cons_self, hplace, rfl⟩
  exact ⟨h.placeable hqueue hplace, h.fresh.unfilled _ hmem, h.fresh.apart _ hmem⟩

/-- **No maker is filled with more than is left of it.** -/
theorem Tracked.filled_le_remaining (h : Tracked s) (hmatched : Matched p s r)
    (hdistinct : (s.redis.book p.symbol p.side.opposite).Distinct) {id : OrderId} {o : Order}
    (ho : s.pg.orders id = some o) : Engine.filledWith r.trades id ≤ o.remainingQuantity := by
  by_cases hmaker : ∃ x ∈ s.offers p, x.orderId = id
  · obtain ⟨x, hx, rfl⟩ := hmaker
    have hqty := hmatched.facts.filled_le (offers_distinct hdistinct) hx
    obtain ⟨y, hy, hash, hhash, hid, -, hloaded⟩ := mem_offers hx
    rw [hid] at ho hqty ⊢
    rw [hloaded] at hqty
    exact hqty.trans (h.loaded_le _ _ y.2 (List.mem_map_of_mem hy) hash o hhash ho)
  · have hnone : (s.offers p).filter (fun x => x.orderId = id) = [] :=
      List.filter_eq_nil_iff.mpr fun x hx => by simpa using fun hid => hmaker ⟨x, hx, hid⟩
    have hle := hmatched.facts.filled id
    rw [hnone] at hle
    exact hle.trans (sub_nonneg.mpr (h.filled_le id o ho))

theorem Matched.remaining_nonneg (h : Matched p s r) : 0 ≤ r.remainingQty := by
  have hremaining := h.facts.remaining
  unfold Engine.remainingFor at hremaining
  rw [hremaining]
  split_ifs
  · exact h.quantity_pos.le
  · exact sub_nonneg.mpr (min_le_left _ _)

/-- What a batch fills of the taker. -/
theorem batchFill_taker {pair : TradingPair} (h : Matched p s r) (hconsistent : Consistent s)
    (hrow : s.HasRow p) : batchFill (batchArgs p pair) (s.domainTrades p r) p.orderId =
      p.quantity - r.remainingQty := by
  have hone : ∀ t ∈ s.domainTrades p r, t.fills (batchArgs p pair) p.orderId = t.quantity := by
    intro t ht
    have hne : ¬ p.orderId = t.makerOrderId := fun hid => h.maker_ne hconsistent hrow ht hid.symm
    have htaker : p.orderId = (batchArgs p pair).takerOrderId := rfl
    unfold DomainTrade.fills
    rw [if_neg hne, if_pos htaker, zero_add]
  unfold batchFill
  rw [List.map_congr_left hone]
  show (List.map _ (r.trades.map (domainTrade s.redis p))).sum = _
  rw [List.map_map]
  exact h.facts.total

/-- **The taker's own row** when its trades are persisted: its status says whether any of it is left. -/
theorem batch_taker {e : Engine.CMatchingEngine} {pair : TradingPair} {rows : List Trade} {o : Order}
    (h : Taken p s) (hmatched : Matched p s r) (hne : r.trades ≠ [])
    (hbatch : persistTradeBatch (batchArgs p pair) (s.domainTrades p r) (s.setEngine e) = (.ok rows, t))
    (ho : s.pg.orders p.orderId = some o) :
    ∃ o', t.pg.orders p.orderId = some o' ∧ o'.terms = o.terms ∧
      o'.status = if r.remainingQty = 0 then .filled else .partiallyFilled := by
  obtain ⟨x, hx, hfits⟩ := h.row
  obtain rfl : o = x := Option.some.inj (ho.symm.trans hx)
  have hne : s.domainTrades p r ≠ [] := by simpa [Store.domainTrades] using hne
  have hpart : TakesPart (batchArgs p pair) (s.domainTrades p r) p.orderId := .inl ⟨rfl, hne⟩
  obtain ⟨o', ho', hterms, hfilled, hstatus⟩ :=
    persistTradeBatch_order hbatch hmatched.trade_pos hpart ho (h.unfilled o ho).ge
  rw [batchFill_taker hmatched h.consistent h.row, h.unfilled o ho, zero_add] at hfilled
  have hquantity : o'.quantity = p.quantity := (congrArg OrderTerms.quantity hterms).trans hfits.quantity
  refine ⟨o', ho', hterms, ?_⟩
  rw [hstatus, Order.fillStatus, hfilled, hquantity]
  refine if_congr ?_ rfl rfl
  have hnonneg := hmatched.remaining_nonneg
  exact ⟨fun hge => le_antisymm (by linarith) hnonneg, fun hzero => by rw [hzero, sub_zero]⟩

/-- **The trades of a match are persisted.** -/
structure Settled (p : OrderActionPayload) (r : MatchResult) (s t : Store) : Prop where
  tracked : Tracked t
  exact : LoadedExactly s → LoadedExactly t
  taker : ∃ o, t.pg.orders p.orderId = some o ∧ o.remainingQuantity = r.remainingQty
  apart : ∀ symbol side, p.orderId ∉ (t.redis.book symbol side).members

theorem settled_batch {e : Engine.CMatchingEngine} (h : Taken p s) (htracked : Tracked s)
    (hmatched : Matched p s r) {pair : TradingPair} {rows : List Trade}
    (hbatch : persistTradeBatch (batchArgs p pair) (s.domainTrades p r) (s.setEngine e) = (.ok rows, t)) :
    Settled p r s t := by
  obtain ⟨hset, -, hsettles⟩ := persistTradeBatch_spec hbatch
  have hbook : BookShrinks (s.setEngine e).redis t.redis := persistTradeBatch_book hbatch
  have happart : ∀ symbol side, p.orderId ∉ (t.redis.book symbol side).members :=
    fun symbol side hmem => h.apart symbol side (hbook.mem hmem)
  -- every row comes from one with the same quantity
  have hrow : ∀ id o', t.pg.orders id = some o' → ∃ o, s.pg.orders id = some o ∧
      o'.quantity = o.quantity ∧ o'.filledQuantity = o.filledQuantity +
        batchFill (batchArgs p pair) (s.domainTrades p r) id := by
    intro id o' ho'
    cases ho : s.pg.orders id with
    | none => exact absurd ((hsettles.fills.none_iff id).mpr ho) (by rw [ho']; simp)
    | some o =>
      obtain ⟨o'', ho'', hfills⟩ := hsettles.fills.row ho
      obtain rfl : o' = o'' := Option.some.inj (ho'.symm.trans ho'')
      have hterms := congrFun (congrArg (fun x => x.2.2.2) hset) id
      have hterms : (t.pg.orders id).map Order.terms = (s.pg.orders id).map Order.terms := hterms
      rw [ho, ho'] at hterms
      refine ⟨o, rfl, congrArg OrderTerms.quantity (Option.some.inj hterms), ?_⟩
      rw [← batchEffect_fill _ (s.setEngine e).owner]
      exact congrArg Prod.fst hfills
  -- what the engine left of the taker is what its row leaves
  have htaker : ∀ o', t.pg.orders p.orderId = some o' → o'.remainingQuantity = r.remainingQty := by
    intro o' ho'
    obtain ⟨o, ho, hquantity, hfilled⟩ := hrow p.orderId o' ho'
    obtain ⟨o₁, ho₁, hfits⟩ := h.row
    obtain rfl : o = o₁ := Option.some.inj (ho.symm.trans ho₁)
    rw [batchFill_taker hmatched h.consistent h.row, h.unfilled o ho, zero_add] at hfilled
    rw [Order.remainingQuantity, hfilled, hquantity, hfits.quantity]
    ring
  have hloaded : ∀ symbol side, ∀ id ∈ (t.redis.book symbol side).members, ∀ hash o',
      t.redis.orderHash id = some hash → t.pg.orders id = some o' →
        hash.loadedQuantity = o'.remainingQuantity ∨ id ∈ (s.redis.book symbol side).members ∧
          s.redis.orderHash id = some hash ∧
            ∃ o, s.pg.orders id = some o ∧ o'.remainingQuantity = o.remainingQuantity := by
    intro symbol side id hid hash o' hhash ho'
    have hne : id ≠ (batchArgs p pair).takerOrderId := by
      rintro rfl
      exact happart symbol side hid
    obtain ⟨o, ho, -⟩ := hrow id o' ho'
    -- a HASH the batch did not write, or one it wrote together with the row
    rcases hsettles.loaded id hash hne hhash with ⟨hsame, hremaining⟩ | hremaining
    · have hremaining : (t.pg.orders id).map Order.remainingQuantity =
        (s.pg.orders id).map Order.remainingQuantity := hremaining
      rw [ho, ho'] at hremaining
      exact .inr ⟨hbook.mem hid, hsame, o, ho, Option.some.inj hremaining⟩
    · have hremaining : (t.pg.orders id).map Order.remainingQuantity = some hash.loadedQuantity :=
        hremaining
      rw [ho'] at hremaining
      exact .inl (Option.some.inj hremaining).symm
  refine ⟨⟨fun id o' ho' => ?_, fun symbol side id hid hash o' hhash ho' => ?_⟩,
    fun hexact symbol side id hid hash o' hhash ho' hplain => ?_, ?_, happart⟩
  · obtain ⟨o, ho, hquantity, hfilled⟩ := hrow id o' ho'
    by_cases hid : id = p.orderId
    · subst hid
      have hleft := htaker o' ho'
      have hnonneg := hmatched.remaining_nonneg
      unfold Order.remainingQuantity at hleft
      linarith
    · rw [batchFill_maker hid] at hfilled
      have hle := htracked.filled_le_remaining hmatched (h.fresh.distinct _ _) ho
      rw [hfilled, hquantity]
      unfold Order.remainingQuantity at hle
      linarith
  · rcases hloaded symbol side id hid hash o' hhash ho' with heq | ⟨hid, hhash, o, ho, hremaining⟩
    · exact heq.le
    · rw [hremaining]
      exact htracked.loaded_le symbol side id hid hash o hhash ho
  · rcases hloaded symbol side id hid hash o' hhash ho' with heq | ⟨hid, hhash, o, ho, hremaining⟩
    · exact heq
    · rw [hremaining]
      exact hexact symbol side id hid hash o hhash ho hplain
  · obtain ⟨o, ho, -⟩ := h.row
    obtain ⟨o', ho', -⟩ := hsettles.fills.row ho
    exact ⟨o', ho', htaker o' ho'⟩

/-- What steps of a batch do to HASHes and to what is left of orders, whether it ends or raises. -/
def Lessens (s s' : Store) : Prop :=
  (∀ id o', s'.pg.orders id = some o' → ∃ o, s.pg.orders id = some o ∧
    o'.remainingQuantity ≤ o.remainingQuantity) ∧
  ∀ id h, s'.redis.orderHash id = some h → s.redis.orderHash id = some h ∨
    ∃ o, s.pg.orders id = some o ∧ h.loadedQuantity ≤ o.remainingQuantity

instance : IsPreorder Store Lessens where
  refl _ := ⟨fun _ o ho => ⟨o, ho, le_rfl⟩, fun _ _ hh => .inl hh⟩
  trans s s' s'' h h' := by
    refine ⟨fun id o'' ho'' => ?_, fun id hash hh => ?_⟩
    · obtain ⟨o', ho', hle'⟩ := h'.1 id o'' ho''
      obtain ⟨o, ho, hle⟩ := h.1 id o' ho'
      exact ⟨o, ho, hle'.trans hle⟩
    · rcases h'.2 id hash hh with hh | ⟨o', ho', hle'⟩
      · exact h.2 id hash hh
      · obtain ⟨o, ho, hle⟩ := h.1 id o' ho'
        exact .inr ⟨o, ho, hle'.trans hle⟩

/-- Orders and HASHes stay. -/
theorem lessens_of_eq (horders : s'.pg.orders = s.pg.orders)
    (hhash : s'.redis.orderHash = s.redis.orderHash) : Lessens s s' := by
  refine ⟨fun id o ho => ⟨o, ?_, le_rfl⟩, fun id h hh => .inl ?_⟩
  · rw [← horders]
    exact ho
  · rw [← hhash]
    exact hh

theorem lessens_putOrder {id : OrderId} {o o' : Order} (ho : s.pg.orders id = some o)
    (hle : o'.remainingQuantity ≤ o.remainingQuantity) : Lessens s (s.putOrder id o') := by
  refine ⟨fun k x hx => ?_, fun _ _ hh => .inl hh⟩
  by_cases hk : k = id
  · subst hk
    obtain rfl : o' = x := by simpa using hx
    exact ⟨o, ho, hle⟩
  · exact ⟨x, by simpa [hk] using hx, le_rfl⟩

theorem lessens_fillSteps (args : BatchArgs) {trades : List DomainTrade}
    (hpos : ∀ t ∈ trades, 0 < t.quantity) : FillSteps args trades Lessens where
  trade := fun _ _ _ => lessens_of_eq rfl rfl
  makerUser := fun _ _ _ _ => lessens_of_eq rfl rfl
  balance := fun _ _ _ _ => lessens_of_eq rfl rfl
  maker := fun s d hd o ho => by
    have hqty : 0 < d.qty := makerFillDeltas_all (P := fun d => 0 < d.qty)
      (fun _ _ _ _ _ h h' => add_pos h h') hpos d hd
    refine lessens_putOrder ho ?_
    show o.quantity - (o.filledQuantity + d.qty) ≤ o.quantity - o.filledQuantity
    linarith
  redisMaker := fun s d _ maker ho => by
    refine ⟨fun _ o ho => ⟨o, ho, le_rfl⟩, fun id h hh => ?_⟩
    rcases updateRedisMaker_hash hh with ⟨-, hh⟩ | ⟨rfl, hloaded⟩
    · exact .inl hh
    · exact .inr ⟨maker, ho, hloaded.le⟩
  taker := fun s o ho => by
    have hqty : 0 ≤ takerTotalQty trades := List.sum_nonneg (by simpa using fun t ht => (hpos t ht).le)
    refine lessens_putOrder ho ?_
    show o.quantity - (o.filledQuantity + takerTotalQty trades) ≤ o.quantity - o.filledQuantity
    linarith

/-- **A batch that is rolled back** may leave HASHes behind that say too little is left. -/
theorem Tracked.undone {args : BatchArgs} {trades : List DomainTrade} {err : PyError}
    (h : Tracked s) (hpos : ∀ t ∈ trades, 0 < t.quantity)
    (hbatch : persistTradeBatch args trades s = (.error err, s')) (hbook : BookShrinks s.redis s'.redis) :
    Tracked { s' with pg := s.pg } where
  filled_le := h.filled_le
  loaded_le := by
    intro symbol side id hid hash o hhash ho
    have hlessens := persistTradeBatch_moves_error (lessens_fillSteps args hpos) hbatch
    rcases hlessens.2 id hash hhash with hhash | ⟨o', ho', hle⟩
    · exact h.loaded_le symbol side id (hbook.mem hid) hash o hhash ho
    · obtain rfl : o = o' := Option.some.inj (Eq.trans (Eq.symm ho) ho')
      exact hle

/-! ### A placement -/

/-- An order rests. -/
theorem Settled.rest (h : Settled p r s t) (hrested : p.restedQuantity ≤ r.remainingQty) (score : ℚ) :
    Tracked (t.rest p r.remainingQty score) ∧ (LoadedExactly s → (p.isIceberg = false →
      p.restedQuantity = r.remainingQty) → LoadedExactly (t.rest p r.remainingQty score)) := by
  -- the resting order is the only new member
  have hmem : ∀ {symbol side id}, id ∈ ((t.rest p r.remainingQty score).redis.book symbol side).members →
      id = p.orderId ∨ id ≠ p.orderId ∧ id ∈ (t.redis.book symbol side).members := by
    intro symbol side id hid
    by_cases heq : id = p.orderId
    · exact .inl heq
    · obtain ⟨x, hx, rfl⟩ := List.mem_map.mp hid
      rcases mem_rest hx with hx | ⟨rfl, -, -⟩
      · exact .inr ⟨heq, List.mem_map_of_mem hx⟩
      · exact absurd rfl heq
  have hhash : (t.rest p r.remainingQty score).redis.orderHash =
      Function.update t.redis.orderHash p.orderId
        (some (restingHash p r.remainingQty ((t.redis.orderHash p.orderId).getD {}))) := rfl
  obtain ⟨order, horder, hleft⟩ := h.taker
  refine ⟨⟨h.tracked.filled_le, fun symbol side id hid hash o hh ho => ?_⟩,
    fun hexact hplain symbol side id hid hash o hh ho hnot => ?_⟩ <;>
    rcases hmem hid with rfl | ⟨hne, hid⟩ <;> rw [hhash] at hh
  · rw [Function.update_self] at hh
    obtain rfl : order = o := Option.some.inj (horder.symm.trans ho)
    rw [← Option.some.inj hh, restingHash_loaded, hleft]
    exact hrested
  · rw [Function.update_of_ne hne] at hh
    exact h.tracked.loaded_le symbol side id hid hash o hh ho
  · rw [Function.update_self] at hh
    obtain rfl : order = o := Option.some.inj (horder.symm.trans ho)
    rw [← Option.some.inj hh] at hnot ⊢
    rw [restingHash_loaded, hleft]
    exact hplain hnot
  · rw [Function.update_of_ne hne] at hh
    exact h.exact hexact symbol side id hid hash o hh ho hnot

/-- An order that has no score does not rest: only its own HASH is written. -/
theorem Settled.prepare (h : Settled p r s t) : Tracked (t.prepareResting p r.remainingQty) ∧
    (LoadedExactly s → LoadedExactly (t.prepareResting p r.remainingQty)) := by
  have hhash : ∀ symbol side, ∀ id ∈ (t.redis.book symbol side).members,
      (t.prepareResting p r.remainingQty).redis.orderHash id = t.redis.orderHash id := by
    intro symbol side id hid
    refine Function.update_of_ne ?_ _ _
    rintro rfl
    exact h.apart symbol side hid
  refine ⟨⟨h.tracked.filled_le, fun symbol side id hid hash o hh ho => ?_⟩,
    fun hexact symbol side id hid hash o hh ho hnot => ?_⟩ <;> rw [hhash symbol side id hid] at hh
  · exact h.tracked.loaded_le symbol side id hid hash o hh ho
  · exact h.exact hexact symbol side id hid hash o hh ho hnot

/-- What follows the match. -/
theorem Settled.finish (h : Settled p r s t) (hstep : FinishStep p r.remainingQty t s')
    (hrested : p.type.rests = true → 0 < r.remainingQty → p.restedQuantity ≤ r.remainingQty)
    (hplain : p.isIceberg = false → r.remainingQty ≤ p.restedQuantity) :
    Tracked s' ∧ (LoadedExactly s → LoadedExactly s') := by
  cases hstep with
  | left _ => exact ⟨h.tracked, h.exact⟩
  | refunded _ _ key row update => exact ⟨⟨h.tracked.filled_le, h.tracked.loaded_le⟩, h.exact⟩
  | unscored _ _ _ _ => exact h.prepare
  | rested hpos hrests score _ =>
    obtain ⟨htracked, hexact⟩ := h.rest (hrested hrests hpos) score
    exact ⟨htracked, fun hs => hexact hs fun hnot => le_antisymm (hrested hrests hpos) (hplain hnot)⟩

/-- Without trades. -/
theorem settled_untraded {e : Engine.CMatchingEngine} (h : Taken p s) (htracked : Tracked s)
    (hmatched : Matched p s r) (hnil : r.trades = []) : Settled p r s (s.setEngine e) := by
  refine ⟨⟨htracked.filled_le, htracked.loaded_le⟩, id, ?_, h.apart⟩
  obtain ⟨o, ho, hfits⟩ := h.row
  refine ⟨o, ho, ?_⟩
  have htotal := hmatched.facts.total
  rw [hnil] at htotal
  have htotal : (0 : ℚ) = p.quantity - r.remainingQty := htotal
  rw [Order.remainingQuantity, h.unfilled o ho, hfits.quantity]
  linarith

/-- **A placement.** -/
theorem tracked_handlePlace (h : Taken p s) (htracked : Tracked s)
    (hguard : p.type.rests = true → 0 < s.leftOf p → p.restedQuantity ≤ s.leftOf p) :
    Tracked (handlePlace p s).2 ∧
      (LoadedExactly s → s.persists p = true → LoadedExactly (handlePlace p s).2) := by
  obtain ⟨e, ready, hstate, hmatched⟩ := matchPlaced_spec h.consistent.engine p
  have hsame : Tracked (s.setEngine e) ∧ (LoadedExactly s → s.persists p = true →
      LoadedExactly (s.setEngine e)) := ⟨⟨htracked.filled_le, htracked.loaded_le⟩, fun hexact _ => hexact⟩
  rcases hmatch : matchPlaced p s with ⟨err | r, s₁⟩ <;> rw [hmatch] at hstate hmatched <;>
    obtain rfl : s₁ = s.setEngine e := hstate
  · rw [handlePlace_unmatched hmatch]
    exact hsame
  obtain ⟨hq, hpos, hfacts⟩ := hmatched r rfl
  have hmatched : Matched p s r := ⟨hq, hpos, hfacts⟩
  have hleft : r.remainingQty = s.leftOf p := hfacts.remaining
  -- what is left is at most what was placed
  have hplain : p.isIceberg = false → r.remainingQty ≤ p.restedQuantity := by
    intro hnot
    rw [OrderActionPayload.restedQuantity, hnot, if_neg Bool.false_ne_true, hfacts.remaining]
    unfold Engine.remainingFor
    split_ifs
    · exact le_rfl
    · have hoffers : ∀ x ∈ (s.offers p).map PassiveOrder.offer, 0 ≤ x.2 := by
        intro x hx
        obtain ⟨o, ho, rfl⟩ := List.mem_map.mp hx
        exact (hpos o (List.mem_of_mem_filter ho)).le
      show p.quantity - min p.quantity _ ≤ p.quantity
      exact sub_le_self _ (le_min hq.le (Engine.volumeWithin_nonneg hoffers))
  have hfinish : ∀ {t : Store}, Settled p r s t → Tracked (finishPlaced p r.remainingQty t).2 ∧
      (LoadedExactly s → s.persists p = true → LoadedExactly (finishPlaced p r.remainingQty t).2) := by
    intro t ht
    obtain ⟨htracked, hexact⟩ := ht.finish (finishPlaced_step p r.remainingQty t)
      (by rw [hleft]; exact hguard) hplain
    exact ⟨htracked, fun hs _ => hexact hs⟩
  rcases handlePlace_matched hmatch with hx | ⟨-, ⟨hnil, hx⟩ | ⟨hne, pair, hpair, ⟨rows, s₂, hbatch, hx⟩ |
    ⟨err, s₂, hbatch, hx⟩⟩⟩ <;> rw [hx]
  · exact hsame
  · exact hfinish (settled_untraded h htracked hmatched hnil)
  · exact hfinish (settled_batch h htracked hmatched hbatch)
  · have hdrained := persistTradeBatch_moves_error (drains_fillSteps _ _) hbatch h.consistent.ids
    have hundone : Tracked (s.setEngine e) := hsame.1
    refine ⟨hundone.undone hmatched.trade_pos hbatch hdrained.book, fun _ hpersists => ?_⟩
    -- such a batch is not persisted
    unfold Store.persists at hpersists
    rw [hmatch] at hpersists
    have hpersists : (persistTrades p r.trades (s.setEngine e)).1.toOption.isSome = true := hpersists
    rcases persistTrades_cases p r.trades (s.setEngine e) with ⟨hnil, -⟩ | ⟨-, hnone, -⟩ |
      ⟨-, pair', hpair', ⟨rows, s₃, hok, -⟩ | ⟨err', s₃, -, hx⟩⟩
    · exact absurd hnil hne
    · exact absurd (hnone.symm.trans hpair) (by simp)
    · obtain rfl : pair = pair' := Option.some.inj (hpair.symm.trans hpair')
      exact absurd (hbatch.symm.trans hok) (by simp)
    · rw [hx] at hpersists
      exact absurd hpersists (by simp [Except.toOption])

/-- **A round of the worker.** -/
theorem tracked_work (h : Orderly s) (htracked : Tracked s) (hguard : FillGuard s .work) :
    Tracked (s.serve .work) ∧
      (LoadedExactly s → PersistGuard s .work → LoadedExactly (s.serve .work)) := by
  show Tracked (work s).2 ∧ (LoadedExactly s → PersistGuard s .work → LoadedExactly (work s).2)
  cases hqueue : s.redis.ordersQueue with
  | nil =>
    rw [work_nil hqueue]
    exact ⟨htracked, fun hexact _ => hexact⟩
  | cons p rest =>
    have hpopped : Tracked (s.setQueue rest) := ⟨htracked.filled_le, htracked.loaded_le⟩
    rw [work_cons hqueue]
    split_ifs with hplace
    · obtain ⟨hplaced, hexact⟩ := tracked_handlePlace (h.taken hqueue hplace) hpopped
        (fun hrests hleft => hguard p (by rw [hqueue]; rfl) hplace hrests hleft)
      exact ⟨hplaced, fun hs hpersists => hexact hs (hpersists p rest hqueue hplace)⟩
    · exact ⟨hpopped, fun hexact _ => hexact⟩

/-! ### Runs -/

/-- No quantity is negative. -/
theorem Tracked.sized (h : Tracked s) (hfresh : Fresh s) : s.Sized (0 ≤ ·) :=
  fun id o ho => (hfresh.nonneg id o ho).trans (h.filled_le id o ho)

/-- **One request.** -/
theorem tracked_serve (h : Orderly s) (htracked : Tracked s) {req : Request} (hreq : req.Sized (0 ≤ ·))
    (hguard : FillGuard s req) : Tracked (s.serve req) ∧
      (LoadedExactly s → PersistGuard s req → LoadedExactly (s.serve req)) := by
  by_cases hwork : req = .work
  · subst hwork
    exact tracked_work h htracked hguard
  · have hsteady := steady_serve h.consistent (htracked.sized h.fresh) hreq hwork
    exact ⟨htracked.of_steady h.consistent hsteady, fun hexact _ => hexact.of_steady h.consistent hsteady⟩

end

/-- **No order is overfilled** in a run in which whatever rests is loaded with no more than its match has
    left; and if all trades are persisted, each order that is no iceberg is loaded with what is left. -/
theorem run_tracked (users : Finset UserId) (pairs : Symbol → Option TradingPair)
    (balances : Ledger.BalanceKey → Option Ledger.Row) {reqs : List Request}
    (hsized : ∀ req ∈ reqs, req.Sized (0 ≤ ·))
    (h : Run.Along Store.serve FillGuard (Store.start users pairs balances) reqs) :
    Run.Along Store.serve (fun s req => ∀ id o, (s.serve req).pg.orders id = some o →
      o.filledQuantity ≤ o.quantity) (Store.start users pairs balances) reqs ∧
    (Run.Along Store.serve PersistGuard (Store.start users pairs balances) reqs →
      Run.Along Store.serve (fun s req => LoadedExactly (s.serve req)) (Store.start users pairs balances)
        reqs) := by
  have hstart : Orderly (Store.start users pairs balances) ∧ Tracked (Store.start users pairs balances) :=
    ⟨⟨consistent_start users pairs balances, fresh_start users pairs balances⟩,
      ⟨fun _ _ ho => (nomatch ho), fun _ _ _ hid => absurd hid List.not_mem_nil⟩⟩
  have hguarded : Run.Along Store.serve (fun s req => req.Sized (0 ≤ ·) ∧ FillGuard s req)
      (Store.start users pairs balances) reqs :=
    (Run.Along.of_forall fun req hreq _ => hsized req hreq).and h
  refine ⟨hguarded.mono (I := fun s => Orderly s ∧ Tracked s) (fun s req hI hC => ?_) hstart, fun hp => ?_⟩
  · have htracked := (tracked_serve hI.1 hI.2 hC.1 hC.2).1
    exact ⟨⟨orderly_serve hI.1 req, htracked⟩, htracked.filled_le⟩
  · refine (hguarded.and hp).mono (I := fun s => (Orderly s ∧ Tracked s) ∧ LoadedExactly s)
      (fun s req hI hC => ?_) ⟨hstart, fun _ _ _ hid => absurd hid List.not_mem_nil⟩
    obtain ⟨htracked, hexact⟩ := tracked_serve hI.1.1 hI.1.2 hC.1.1 hC.1.2
    exact ⟨⟨⟨orderly_serve hI.1.1 req, htracked⟩, hexact hI.2 hC.2⟩, hexact hI.2 hC.2⟩

/-! ### A bid that is partly filled before it rests -/

theorem quantities_limitDto {Q : ℚ → Prop} {side : OrderSide} {quantity price : ℚ} (h : Q quantity) :
    (limitDto side quantity price).Quantities Q :=
  ⟨h, (fun _ hc => nomatch hc), (fun _ hc => nomatch hc)⟩

/-- Deciding that the next round of the worker is guarded. -/
def guardsFill (s : Store) : Bool :=
  s.redis.ordersQueue.head?.all fun p =>
    decide (p.type.rests = true → 0 < s.leftOf p → p.restedQuantity ≤ s.leftOf p)

theorem fillGuard_work {s : Store} (h : guardsFill s = true) : FillGuard s .work := by
  intro p hp _ hrests hleft
  unfold guardsFill at h
  rw [Option.mem_def.mp hp, Option.all_some, decide_eq_true_eq] at h
  exact h hrests hleft

/-- Ten units are bid for, and four of them are sold. -/
def soldFourRun : List Request :=
  [.place 2 (limitDto .buy 10 10), .work, .place 1 (limitDto .sell 4 10), .work]

theorem run_tracked_soldFour :
    Run.Along Store.serve (fun s req => ∀ id o, (s.serve req).pg.orders id = some o →
      o.filledQuantity ≤ o.quantity) twoUsers soldFourRun ∧
    (Run.Along Store.serve PersistGuard twoUsers soldFourRun →
      Run.Along Store.serve (fun s req => LoadedExactly (s.serve req)) twoUsers soldFourRun) := by
  refine run_tracked _ _ _ ?_ ⟨trivial, fillGuard_work (by decide +kernel), trivial,
    fillGuard_work (by decide +kernel), trivial⟩
  unfold soldFourRun
  simp only [List.forall_mem_cons]
  exact ⟨quantities_limitDto (by norm_num), trivial, quantities_limitDto (by norm_num), trivial,
    fun _ h => absurd h List.not_mem_nil⟩

/-- Four units are asked for. Ten are bid for, then ten more at a lower price; ten are sold. -/
def bidsRun : List Request :=
  [.place 1 (limitDto .sell 4 10), .place 2 (limitDto .buy 10 10), .place 2 (limitDto .buy 10 9), .work,
    .work, .work, .place 1 (limitDto .sell 10 10), .work]

/-- **Fourteen units are bought for a bid of ten**: it rested with ten when four had been bought. -/
theorem overfilled : ¬ Run.Along Store.serve (fun s req => ∀ id o,
    (s.serve req).pg.orders id = some o → o.filledQuantity ≤ o.quantity) twoUsers bidsRun := by
  rintro ⟨-, -, -, -, -, -, -, h, -⟩
  have h : ∀ id o, (twoUsers.serveAll bidsRun).pg.orders id = some o → o.filledQuantity ≤ o.quantity := h
  have hbid : ((twoUsers.serveAll bidsRun).pg.orders 2).map (fun o => (o.quantity, o.filledQuantity)) =
      some (10, 14) := by decide +kernel
  obtain ⟨o, ho, heq⟩ := Option.map_eq_some_iff.mp hbid
  obtain ⟨hquantity, hfilled⟩ := Prod.mk.inj heq
  have hle := h 2 o ho
  rw [hquantity, hfilled] at hle
  exact absurd hle (by norm_num)

end SpotExchange.Exchange
