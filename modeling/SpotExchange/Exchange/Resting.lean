import SpotExchange.Exchange.Securing

namespace SpotExchange.Exchange

open SpotExchange.Lib
open SpotExchange.Engine (OrderId MatchResult PassiveOrder)

/-!
# What rests

Only the worker trades and rests orders.

* `Steady Q s s'` — no order is filled or rested, and no HASH of an old order is written;
* `steady_serve` — so it is with every request but a round of the worker;
* `offers_distinct`, `mem_offers` — the makers of a match are elements of the book;
* `filled_gone` — a maker that has been filled rests no more.
-/

/-! ### Steady steps -/

/-- **No order is filled or rested**; new orders have quantities that `Q` holds of. -/
structure Steady (Q : ℚ → Prop) (s s' : Store) : Prop where
  seq : s.orderIdSeq ≤ s'.orderIdSeq
  rows : ∀ id o', s'.pg.orders id = some o' →
    (∃ o, s.pg.orders id = some o ∧ RowStays o o' ∧ o'.filledQuantity = o.filledQuantity) ∨
      s.orderIdSeq ≤ id ∧ o'.filledQuantity = 0 ∧ Q o'.quantity
  book : BookShrinks s.redis s'.redis
  hash : ∀ id, s'.redis.orderHash id = s.redis.orderHash id ∨ s'.redis.orderHash id = none ∨
    s.orderIdSeq ≤ id

/-- The quantities of the orders. -/
def Store.Sized (Q : ℚ → Prop) (s : Store) : Prop := ∀ id o, s.pg.orders id = some o → Q o.quantity

/-- The quantities that a request brings. -/
def Request.Sized (Q : ℚ → Prop) : Request → Prop
  | .place _ dto => dto.Quantities Q
  | .placeBulk _ dtos => ∀ dto ∈ dtos, dto.Quantities Q
  | .modify _ _ _ newQuantity => Q newQuantity
  | _ => True

section

variable {Q : ℚ → Prop} {s s' : Store}

theorem Calm.steady (h : Calm Q s s') : Steady Q s s' := ⟨h.seq, h.rows, h.book, h.hash⟩

instance : IsPreorder Store (Steady Q) where
  refl s := (refl_of (Calm Q) s).steady
  trans s s' s'' h h' := by
    refine ⟨h.seq.trans h'.seq, fun id o'' ho'' => ?_, fun symbol side =>
      (h'.book symbol side).trans (h.book symbol side), fun id => ?_⟩
    · rcases h'.rows id o'' ho'' with ⟨o', ho', hs', hf'⟩ | ⟨hle, hf, hq⟩
      · rcases h.rows id o' ho' with ⟨o, ho, hs, hf⟩ | ⟨hle, hf, hq⟩
        · exact .inl ⟨o, ho, hs.trans hs', hf'.trans hf⟩
        · have hquantity : o''.quantity = o'.quantity := congrArg OrderTerms.quantity hs'.1
          exact .inr ⟨hle, hf'.trans hf, hquantity ▸ hq⟩
      · exact .inr ⟨h.seq.trans hle, hf, hq⟩
    · rcases h'.hash id with hh' | hh' | hle
      · rw [hh']
        exact h.hash id
      · exact .inr (.inl hh')
      · exact .inr (.inr (h.seq.trans hle))

/-- After a calm step only new HASHes are written. -/
theorem Calm.steady_setRedis (h : Calm Q s s') {f : Redis → Redis}
    (hbook : (f s'.redis).book = s'.redis.book)
    (hhash : ∀ k, k ≠ s.orderIdSeq → (f s'.redis).orderHash k = s'.redis.orderHash k) :
    Steady Q s (s'.setRedis f) where
  seq := h.seq
  rows := h.rows
  book := fun symbol side => by
    show ((f s'.redis).book symbol side).Sublist _
    rw [hbook]
    exact h.book symbol side
  hash := fun k => by
    by_cases hk : k = s.orderIdSeq
    · exact .inr (.inr hk.ge)
    · show (f s'.redis).orderHash k = _ ∨ (f s'.redis).orderHash k = none ∨ _
      rw [hhash k hk]
      exact h.hash k

theorem handOver_hash {k id : OrderId} (hk : k ≠ id) (order : Order) (r : Redis) :
    (handOver id order r).orderHash k = r.orderHash k := by
  unfold handOver registerStopOrder
  split_ifs <;> exact Function.update_of_ne hk _ _

/-- An order is placed. -/
theorem steady_placed (s : Store) (userId : UserId) {dto : OrderCreateDto} (hq : dto.Quantities Q) :
    Steady Q s (s.placed userId dto) :=
  (calm_inserted userId hq).steady_setRedis (handOver_book _ _ _) fun _ hk => handOver_hash hk _ _

/-- A stop is triggered. -/
theorem steady_trigger {id : OrderId} {order : Order} (lock : Asset × ℚ) (isTrailing : Bool)
    (horder : s.pg.orders id = some order) (hq : Q order.quantity) :
    Steady Q s (s.trigger id order lock isTrailing) :=
  (calm_converted horder hq).steady_setRedis (replaceStop_book _ _ _ _ _)
    fun _ hk => replaceStop_hash hk _ _ _ _

theorem Store.Sized.of_steady (h : s.Sized Q) (hsteady : Steady Q s s') : s'.Sized Q := by
  intro id o' ho'
  rcases hsteady.rows id o' ho' with ⟨o, ho, hstays, -⟩ | ⟨-, -, hq⟩
  · have hquantity : o'.quantity = o.quantity := congrArg OrderTerms.quantity hstays.1
    rw [hquantity]
    exact h id o ho
  · exact hq

/-- What the stop monitor does to a store of such orders. -/
def SteadyIf (Q : ℚ → Prop) (s s' : Store) : Prop := s.Sized Q → Steady Q s s'

instance : IsPreorder Store (SteadyIf Q) where
  refl s _ := refl_of (Steady Q) s
  trans _ _ _ h h' hs := trans_of (Steady Q) (h hs) (h' (hs.of_steady (h hs)))

/-- An order that a call asks for is one of its orders. -/
theorem Request.Sized.of_asks {req : Request} {userId : UserId} {dto : OrderCreateDto} (h : req.Sized Q)
    (hasks : req.Asks userId dto) : dto.Quantities Q := by
  cases req with
  | place userId' dto' => exact hasks.2 ▸ h
  | placeBulk userId' dtos => exact h dto hasks.2
  | _ => exact hasks.elim

theorem steady_calls {req : Request} (hreq : req.Sized Q) : CallSteps (SteadyIf Q) req where
  quiet := fun hq _ => (calm_quiet hq).steady
  placed := fun s userId dto _ hasks _ _ _ => steady_placed s userId (hreq.of_asks hasks)
  canceled := fun _ _ _ _ _ _ ho _ _ _ => (calm_cancel ho).steady
  replaced := fun s userId id old p q _ hmodify hids hold _ _ _ _ _ _ _ _ => by
    subst hmodify
    exact (calm_replace hids hold hreq).steady

theorem steady_monitor : MonitorSteps (SteadyIf Q) where
  quiet := fun hq _ => (calm_quiet hq).steady
  triggered := fun _ id order lock isTrailing ho _ hs => steady_trigger lock isTrailing ho (hs id order ho)

/-- **Every request but a round of the worker** is steady. -/
theorem steady_serve (h : Consistent s) (hs : s.Sized Q) {req : Request} (hreq : req.Sized Q)
    (hwork : req ≠ .work) : Steady Q s (s.serve req) := by
  refine serve_moves (steady_calls hreq) steady_monitor (fun s trailing states _ => ?_)
    (fun hx => absurd hx hwork) h.ids hs
  exact ⟨le_rfl, fun _ o ho => .inl ⟨o, ho, .refl o, rfl⟩, bookShrinks_refl rfl, fun _ => .inl rfl⟩

/-! ### The makers of a match -/

/-- What a maker of a placement is loaded from. -/
theorem mem_offers {p : OrderActionPayload} {o : PassiveOrder} (h : o ∈ s.offers p) :
    ∃ x ∈ s.redis.book p.symbol p.side.opposite, ∃ hash, s.redis.orderHash x.2 = some hash ∧
      o.orderId = x.2 ∧ o.price = (decodeScore x.1).1 ∧ o.qty = hash.loadedQuantity := by
  obtain ⟨b, hb, rfl⟩ := List.mem_map.mp (List.mem_of_mem_filter h)
  obtain ⟨x, hx, hash, hhash, rfl⟩ := mem_oppositeOrdersForMatch hb
  exact ⟨x, hx, hash, hhash, rfl, rfl, rfl⟩

/-- The makers of a placement are different orders. -/
theorem offers_distinct {p : OrderActionPayload}
    (h : (s.redis.book p.symbol p.side.opposite).Distinct) :
    ((s.offers p).map PassiveOrder.orderId).Nodup := by
  have hmakers : ∀ z : SortedSet OrderId, ((z.filterMap fun x =>
      (s.redis.orderHash x.2).map (bookOrder x)).map fun b => b.passive.orderId).Sublist (z.map Prod.snd) := by
    intro z
    induction z with
    | nil => exact List.Sublist.refl _
    | cons x z ih =>
      cases hx : s.redis.orderHash x.2 with
      | none =>
        rw [List.filterMap_cons_none (by rw [hx]; rfl), List.map_cons]
        exact ih.cons _
      | some hash =>
        rw [List.filterMap_cons_some (by rw [hx]; rfl), List.map_cons, List.map_cons]
        exact ih.cons_cons _
  have hraw : (s.makers p.symbol p.side).map PassiveOrder.orderId = (oppositeOrdersForMatch s.redis p.symbol
      p.side makerLimit).map fun b => b.passive.orderId := by
    rw [Store.makers, List.map_map]
    rfl
  refine (hraw ▸ ?_ : ((s.makers p.symbol p.side).map PassiveOrder.orderId).Nodup).sublist
    (List.filter_sublist.map _)
  unfold oppositeOrdersForMatch
  refine List.Nodup.sublist (hmakers _) ?_
  cases hside : p.side with
  | buy =>
    rw [hside] at h
    exact h.sublist ((List.take_sublist _ _).map _)
  | sell =>
    rw [hside] at h
    refine List.Nodup.sublist ((List.take_sublist _ _).map _) ?_
    rw [List.map_reverse, List.nodup_reverse]
    exact h

/-! ### Makers that are filled -/

/-- What a batch fills of a maker, in the trades of its match. -/
theorem batchFill_maker {p : OrderActionPayload} {pair : TradingPair} {id : OrderId}
    (hid : id ≠ p.orderId) (s : Store) (r : MatchResult) :
    batchFill (batchArgs p pair) (s.domainTrades p r) id = Engine.filledWith r.trades id := by
  have hone : ∀ t, (domainTrade s.redis p t).fills (batchArgs p pair) id =
      if t.makerOrderId = id then t.quantity else 0 := by
    intro t
    have hnot : id ≠ (batchArgs p pair).takerOrderId := hid
    unfold DomainTrade.fills
    rw [if_neg hnot, add_zero]
    exact if_congr eq_comm rfl rfl
  unfold batchFill Store.domainTrades Engine.filledWith
  rw [List.map_map]
  induction r.trades with
  | nil => rfl
  | cons t trades ih =>
    rw [List.map_cons, List.sum_cons, ih, Function.comp_apply, hone, List.filter_cons]
    by_cases ht : t.makerOrderId = id <;> simp [ht]

/-- An order that is filled does not rest. -/
def GoneIfFilled (id : OrderId) (s : Store) : Prop :=
  ∀ o, s.pg.orders id = some o → o.quantity ≤ o.filledQuantity →
    id ∉ (s.redis.book o.symbol o.side).members

theorem GoneIfFilled.of_shrinks {id : OrderId} (h : GoneIfFilled id s)
    (horders : s'.pg.orders id = s.pg.orders id) (hbook : BookShrinks s.redis s'.redis) :
    GoneIfFilled id s' := fun o ho hfilled hmem =>
  h o (horders ▸ ho) hfilled (hbook.mem hmem)

/-- What settling a maker does to the orders and to Redis. -/
theorem settleMaker_eq_ok {args : BatchArgs} {first : ℕ} {d : FillDelta} {o : Order}
    (ho : s.pg.orders d.makerId = some o) (h : settleMaker args first d s = (.ok ⟨⟩, s')) :
    s'.pg.orders = Function.update s.pg.orders d.makerId (some (o.filledAsMaker d.qty d.quoteQty)) ∧
      ∃ updates, s'.redis = updateRedisMaker d.makerId (o.filledAsMaker d.qty d.quoteQty)
        { s.redis with balanceUpdates := updates } := by
  rw [settleMaker_apply ho] at h
  obtain ⟨_, s₁, hb, hredis⟩ := Prog.bind_eq_ok.mp h
  -- settling balances publishes updates, and changes nothing else in Redis
  have hkeeps := (settleTradeBalances_moves (R := Prog.Keeps fun s : Store =>
    (s.pg.orders, ({ s.redis with balanceUpdates := [] } : Redis))) (fun _ _ _ _ => rfl) args false o.userId
      d.makerId d.qty d.quoteQty).of_ok hb
  have hpublished : s₁.redis = { s.redis with balanceUpdates := s₁.redis.balanceUpdates } :=
    congrArg (fun r : Redis => { r with balanceUpdates := s₁.redis.balanceUpdates })
      (congrArg Prod.snd hkeeps)
  obtain rfl : s₁.setRedis (updateRedisMaker d.makerId (o.filledAsMaker d.qty d.quoteQty)) = s' :=
    congrArg Prod.snd hredis
  exact ⟨congrArg Prod.fst hkeeps, s₁.redis.balanceUpdates, by rw [← hpublished]; rfl⟩

/-- **A maker that is settled** rests no more if it is filled. -/
theorem settleMaker_goneIfFilled {args : BatchArgs} {first : ℕ} {d : FillDelta}
    (h : settleMaker args first d s = (.ok ⟨⟩, s')) : GoneIfFilled d.makerId s' := by
  cases ho : s.pg.orders d.makerId with
  | none =>
    rw [settleMaker_none ho] at h
    obtain rfl : s = s' := congrArg Prod.snd h
    intro o ho'
    exact absurd (ho.symm.trans ho') (by simp)
  | some o =>
    obtain ⟨horders, updates, hredis⟩ := settleMaker_eq_ok ho h
    intro o' ho' hfilled hmem
    rw [horders, Function.update_self] at ho'
    obtain rfl := Option.some.inj ho'
    have hstatus : (o.filledAsMaker d.qty d.quoteQty).status = .filled := by
      unfold Order.filledAsMaker
      exact if_pos hfilled
    -- a filled maker is removed from the ZSET of its side
    obtain ⟨x, hx, hid⟩ := List.mem_map.mp hmem
    rw [hredis, updateRedisMaker, if_pos hstatus] at hx
    have hx : x ∈ (s.redis.setBook o.symbol o.side ((s.redis.book o.symbol o.side).zrem d.makerId)).book
      o.symbol o.side := hx
    simp only [Redis.setBook, Function.update_self, SortedSet.mem_zrem] at hx
    exact hx.2 hid

/-- Settling any maker. -/
theorem GoneIfFilled.settleMaker {args : BatchArgs} {first : ℕ} {d : FillDelta} {id : OrderId}
    (h : GoneIfFilled id s) (hx : settleMaker args first d s = (.ok ⟨⟩, s')) : GoneIfFilled id s' := by
  by_cases hid : d.makerId = id
  · rw [← hid]
    exact settleMaker_goneIfFilled hx
  cases ho : s.pg.orders d.makerId with
  | none =>
    rw [settleMaker_none ho] at hx
    obtain rfl : s = s' := congrArg Prod.snd hx
    exact h
  | some o =>
    obtain ⟨horders, updates, hredis⟩ := settleMaker_eq_ok ho hx
    refine h.of_shrinks ?_ ?_
    · rw [horders, Function.update_of_ne (Ne.symm hid)]
    · rw [hredis]
      exact bookShrinks_updateRedisMaker d.makerId _ { s.redis with balanceUpdates := updates }

/-- Settling the taker, which is another order. -/
theorem GoneIfFilled.settleTaker {args : BatchArgs} {qty quoteQty : ℚ} {id : OrderId}
    (h : GoneIfFilled id s) (hne : id ≠ args.takerOrderId)
    (hx : settleTaker args qty quoteQty s = (.ok ⟨⟩, s')) : GoneIfFilled id s' := by
  cases ho : s.pg.orders args.takerOrderId with
  | none =>
    rw [settleTaker_none ho] at hx
    obtain rfl : s = s' := congrArg Prod.snd hx
    exact h
  | some o =>
    rw [settleTaker_apply ho] at hx
    obtain ⟨_, s₁, hb, hactivate⟩ := Prog.bind_eq_ok.mp hx
    have hkeeps := (settleTradeBalances_moves (R := Prog.Keeps fun s : Store => (s.pg.orders, s.redis.book))
      (fun _ _ _ _ => rfl) args true o.userId args.takerOrderId qty quoteQty).of_ok hb
    have h₁ : GoneIfFilled id s₁ := by
      refine h.of_shrinks ?_ (bookShrinks_refl (congrArg Prod.snd hkeeps))
      rw [show s₁.pg.orders = _ from congrArg Prod.fst hkeeps]
      exact Function.update_of_ne hne _ _
    -- activating a child changes its status only
    refine (Prog.Moves.whenever (R := Prog.Preserves (GoneIfFilled id)) fun _ =>
      activateSltpChildren_moves args.takerOrderId fun s k child hchild _ hk => ?_).of_ok hactivate h₁
    intro o' ho' hfilled hmem
    by_cases hid : id = k
    · subst hid
      have ho' : Function.update s.pg.orders id _ id = some o' := ho'
      rw [Function.update_self] at ho'
      rw [← Option.some.inj ho'] at hfilled hmem
      exact hk child hchild hfilled hmem
    · have ho' : Function.update s.pg.orders k _ id = some o' := ho'
      rw [Function.update_of_ne hid] at ho'
      exact hk o' ho' hfilled hmem

/-- A batch adds nothing to the book. -/
theorem persistTradeBatch_book {args : BatchArgs} {trades : List DomainTrade} {rows : List Trade}
    (h : persistTradeBatch args trades s = (.ok rows, s')) : BookShrinks s.redis s'.redis := by
  let R := fun s s' : Store => BookShrinks s.redis s'.redis
  have : IsPreorder Store R :=
    { refl := fun _ => bookShrinks_refl rfl
      trans := fun _ _ _ h h' symbol side => (h' symbol side).trans (h symbol side) }
  have hsteps : FillSteps args trades R :=
    { trade := fun _ _ _ => bookShrinks_refl rfl
      makerUser := fun _ _ _ _ => bookShrinks_refl rfl
      balance := fun _ _ _ _ => bookShrinks_refl rfl
      maker := fun _ _ _ _ _ => bookShrinks_refl rfl
      redisMaker := fun _ _ _ _ _ => bookShrinks_updateRedisMaker _ _ _
      taker := fun _ _ _ => bookShrinks_refl rfl }
  exact (persistTradeBatch_moves hsteps fun _ _ _ _ _ => bookShrinks_refl rfl).of_ok h

/-- **A maker that has been filled rests no more** when the trades have been persisted. -/
theorem filled_gone {args : BatchArgs} {trades : List DomainTrade} {rows : List Trade}
    (h : persistTradeBatch args trades s = (.ok rows, s')) {t : DomainTrade} (ht : t ∈ trades)
    (hne : t.makerOrderId ≠ args.takerOrderId) : GoneIfFilled t.makerOrderId s' := by
  obtain ⟨s₁, s₂, -, hmakers, htaker⟩ := persistTradeBatch_eq_ok (List.ne_nil_of_mem ht) h
  obtain ⟨d, hd, hid⟩ := exists_makerFillDelta ht
  refine GoneIfFilled.settleTaker ?_ hne htaker
  refine Prog.forEach_establishes (fun _ _ _ _ hI hx => hI.settleMaker hx) hd (fun _ _ hx => ?_) hmakers
  rw [← hid]
  exact settleMaker_goneIfFilled hx

end

end SpotExchange.Exchange
