import SpotExchange.Exchange.Serving
import SpotExchange.Exchange.Scores

namespace SpotExchange.Exchange

open SpotExchange.Lib
open SpotExchange.Engine (OrderId MatchResult)

/-!
# Orders out of the worker's reach

* `Gone k s` — an order that is not pending, neither rests nor is queued to be placed;
* `gone_work` — the worker leaves such an order alone: its row, its trades, and that it is gone.
-/

/-! ### Leaving an order alone -/

/-- The trades that an order takes part in. -/
def Store.tradesOf (s : Store) (k : OrderId) : List ℕ :=
  (s.pg.trades.filter fun t => t.takerOrderId = k ∨ t.makerOrderId = k).map Trade.id

/-- The order has a row, and is not pending. -/
def Activated (k : OrderId) (s : Store) : Prop := ∃ o, s.pg.orders k = some o ∧ o.status ≠ .pending

/-- What `LeavesAlone` says. -/
structure LeftAlone (k : OrderId) (s s' : Store) : Prop where
  row : s'.pg.orders k = s.pg.orders k
  trades : s'.tradesOf k = s.tradesOf k
  book : ∀ symbol side, k ∈ (s'.redis.book symbol side).members → k ∈ (s.redis.book symbol side).members
  queue : ∀ p ∈ s'.redis.ordersQueue, p.action = .place → p.orderId = k → p ∈ s.redis.ordersQueue

/-- **An order that is not pending is left alone.** -/
def LeavesAlone (k : OrderId) (s s' : Store) : Prop := Activated k s → LeftAlone k s s'

instance (k : OrderId) : IsPreorder Store (LeavesAlone k) where
  refl _ _ := ⟨rfl, rfl, fun _ _ h => h, fun _ h _ _ => h⟩
  trans s s' s'' h h' := by
    intro hact
    have h := h hact
    have h' := h' (by unfold Activated; rwa [h.row])
    exact ⟨h'.row.trans h.row, h'.trades.trans h.trades,
      fun symbol side hk => h.book symbol side (h'.book symbol side hk),
      fun p hp hplace hk => h.queue p (h'.queue p hp hplace hk) hplace hk⟩

section

variable {k : OrderId} {s s' : Store}

/-- Writing another order. -/
theorem leavesAlone_putOrder {id : OrderId} {o : Order} (h : id ≠ k) :
    LeavesAlone k s (s.putOrder id o) := fun _ =>
  ⟨Function.update_of_ne h.symm _ _, rfl, fun _ _ h => h, fun _ h _ _ => h⟩

/-- **The steps of a batch** with other orders. -/
theorem leavesAlone_fillSteps {args : BatchArgs} {trades : List DomainTrade}
    (htaker : args.takerOrderId ≠ k) (hmakers : ∀ t ∈ trades, t.makerOrderId ≠ k) :
    FillSteps args trades (LeavesAlone k) where
  trade := fun s t ht _ => by
    refine ⟨rfl, ?_, fun _ _ h => h, fun _ h _ _ => h⟩
    simp [Store.tradesOf, Store.addTrade, tradeRow, htaker, hmakers t ht]
  makerUser := fun s first makerId userId _ => by
    refine ⟨rfl, ?_, fun _ _ h => h, fun _ h _ _ => h⟩
    simp only [Store.tradesOf, Store.setMakerUser, List.filter_map, List.map_map]
    have hfilter : ((fun t : Trade => decide (t.takerOrderId = k ∨ t.makerOrderId = k)) ∘ fun t =>
        if first ≤ t.id ∧ t.makerOrderId = makerId then { t with makerUserId := userId } else t) =
          fun t => decide (t.takerOrderId = k ∨ t.makerOrderId = k) := by
      funext t
      simp only [Function.comp]
      split_ifs <;> rfl
    rw [hfilter]
    refine List.map_congr_left fun t _ => ?_
    simp only [Function.comp]
    split_ifs <;> rfl
  balance := fun _ _ _ _ _ => ⟨rfl, rfl, fun _ _ h => h, fun _ h _ _ => h⟩
  maker := fun s d hd o _ => leavesAlone_putOrder (by
    obtain ⟨t, ht, hid⟩ := mem_makerFillDeltas hd
    exact hid ▸ hmakers t ht)
  redisMaker := fun s d _ maker _ _ => by
    refine ⟨rfl, rfl, fun symbol side hk =>
      (bookShrinks_updateRedisMaker d.makerId maker s.redis).mem hk, fun p hp _ _ => ?_⟩
    have hp : p ∈ (updateRedisMaker d.makerId maker s.redis).ordersQueue := hp
    rwa [updateRedisMaker_queue] at hp
  taker := fun _ _ _ => leavesAlone_putOrder htaker

/-- A child that is activated is another order: it has been pending. -/
theorem leavesAlone_childSteps (parentId : OrderId) : ChildSteps parentId (LeavesAlone k) := by
  rintro s id child hchild hpending ⟨o, ho, hactive⟩
  have hne : id ≠ k := by
    rintro rfl
    obtain rfl : child = o := Option.some.inj (hchild.symm.trans ho)
    exact hactive hpending
  refine ⟨Function.update_of_ne hne.symm _ _, rfl, fun _ _ h => h, fun p hp _ hk => ?_⟩
  rcases List.mem_append.mp hp with hp | hp
  · exact hp
  · rw [List.mem_singleton.mp hp] at hk
    exact absurd hk hne

/-! ### A placement of another order -/

/-- The makers of a match come from the book. -/
theorem Matched.maker_booked {p : OrderActionPayload} {r : MatchResult} (h : Matched p s r)
    {t : DomainTrade} (ht : t ∈ s.domainTrades p r) :
    t.makerOrderId ∈ (s.redis.book p.symbol p.side.opposite).members := by
  obtain ⟨t', ht', rfl⟩ := List.mem_map.mp ht
  obtain ⟨o, ho, q, -, -, rfl⟩ := h.facts.trade t' ht'
  obtain ⟨b, hb, rfl⟩ := List.mem_map.mp (List.mem_of_mem_filter ho)
  obtain ⟨x, hx, hash, -, rfl⟩ := mem_oppositeOrdersForMatch hb
  exact List.mem_map_of_mem hx

theorem leavesAlone_setEngine (e : Engine.CMatchingEngine) : LeavesAlone k s (s.setEngine e) :=
  fun _ => ⟨rfl, rfl, fun _ _ h => h, fun _ h _ _ => h⟩

/-- What a transaction that raises leaves behind. -/
theorem LeavesAlone.rollback (h : LeavesAlone k s s') : LeavesAlone k s { s' with pg := s.pg } :=
  fun hact => ⟨rfl, rfl, (h hact).book, (h hact).queue⟩

theorem leavesAlone_finish {p : OrderActionPayload} {remaining : ℚ} (hp : p.orderId ≠ k)
    (hstep : FinishStep p remaining s s') : LeavesAlone k s s' := by
  cases hstep with
  | left _ => exact refl_of (LeavesAlone k) s
  | unscored _ _ _ _ => exact fun _ => ⟨rfl, rfl, fun _ _ h => h, fun _ h _ _ => h⟩
  | rested _ _ score _ =>
    refine fun _ => ⟨rfl, rfl, fun symbol side hk => ?_, fun _ h _ _ => h⟩
    rcases members_addToBook hk with hk | ⟨rfl, -, -⟩
    · exact hk
    · exact absurd rfl hp
  | refunded _ _ _ _ _ => exact fun _ => ⟨rfl, rfl, fun _ _ h => h, fun _ h _ _ => h⟩

/-- **A placement of another order** leaves alone whatever does not rest. -/
theorem leavesAlone_place {p : OrderActionPayload} (hp : p.orderId ≠ k)
    (hbook : ∀ symbol side, k ∉ (s.redis.book symbol side).members) (hstep : PlaceStep p s s') :
    LeavesAlone k s s' := by
  have hsteps : ∀ r pair, Matched p s r →
      FillSteps (batchArgs p pair) (s.domainTrades p r) (LeavesAlone k) := fun r pair hmatched =>
    leavesAlone_fillSteps hp fun t ht hk => hbook _ _ (hk ▸ hmatched.maker_booked ht)
  cases hstep with
  | unmatched e _ => exact leavesAlone_setEngine e
  | undone e _ r hmatched pair _ err s₁ hbatch =>
    exact LeavesAlone.rollback (trans_of (LeavesAlone k) (leavesAlone_setEngine e)
      (persistTradeBatch_moves_error (hsteps r pair hmatched) hbatch))
  | untraded e _ r _ _ _ _ finish =>
    exact trans_of (LeavesAlone k) (leavesAlone_setEngine e) (leavesAlone_finish hp finish)
  | traded e _ r hmatched _ pair _ rows s₂ hbatch _ finish =>
    have hmoves := persistTradeBatch_moves (hsteps r pair hmatched)
      (leavesAlone_childSteps (batchArgs p pair).takerOrderId)
    exact trans_of (LeavesAlone k) (trans_of (LeavesAlone k) (leavesAlone_setEngine e)
      (hmoves.of_ok hbatch)) (leavesAlone_finish hp finish)

/-! ### The worker -/

/-- **An order that the worker cannot reach.** -/
structure Gone (k : OrderId) (s : Store) : Prop where
  activated : Activated k s
  book : ∀ symbol side, k ∉ (s.redis.book symbol side).members
  queue : ∀ p ∈ s.redis.ordersQueue, p.action = .place → p.orderId ≠ k

theorem Gone.of_leftAlone (h : Gone k s) (hs : LeftAlone k s s') : Gone k s' where
  activated := by unfold Activated; rw [hs.row]; exact h.activated
  book := fun symbol side hk => h.book symbol side (hs.book symbol side hk)
  queue := fun p hp hplace hk => h.queue p (hs.queue p hp hplace hk) hplace hk

/-- **A round of the worker** leaves an order that is gone alone. -/
theorem gone_work (hready : EngineReady s.engine) (h : Gone k s) : LeftAlone k s (work s).2 := by
  rcases work_cases hready with ⟨-, hx⟩ | ⟨p, rest, s', hqueue, hx, hcases⟩ <;> rw [hx]
  · exact refl_of (LeavesAlone k) s h.activated
  have hpop : LeavesAlone k s (s.setQueue rest) := fun _ =>
    ⟨rfl, rfl, fun _ _ h => h, fun q hq _ _ => by rw [hqueue]; exact List.mem_cons_of_mem _ hq⟩
  rcases hcases with ⟨-, rfl⟩ | ⟨hplace, hstep⟩
  · exact hpop h.activated
  · have hne := h.queue p (by rw [hqueue]; exact List.mem_cons_self) hplace
    exact trans_of (LeavesAlone k) hpop (leavesAlone_place hne h.book hstep) h.activated

/-! ### Other requests -/

theorem Gone.of_drained (h : Gone k s) (hd : Drained s s') : Gone k s' where
  activated := by
    obtain ⟨o, ho, hactive⟩ := h.activated
    obtain ⟨o', ho', hstays⟩ := hd.stays k o ho
    exact ⟨o', ho', fun hp => hactive (hstays.2 hp)⟩
  book := fun symbol side hk => h.book symbol side (hd.book.mem hk)
  queue := fun p hp hplace => (hd.queue p hp).elim (fun hp => h.queue p hp hplace) fun hne =>
    absurd hplace hne

theorem Gone.setRedis (h : Gone k s) {f : Redis → Redis} (hbook : (f s.redis).book = s.redis.book)
    (hqueue : ∀ p ∈ (f s.redis).ordersQueue, p ∈ s.redis.ordersQueue ∨ p.orderId ≠ k) :
    Gone k (s.setRedis f) where
  activated := h.activated
  book := fun symbol side hk => h.book symbol side (by rw [← hbook]; exact hk)
  queue := fun p hp hplace => (hqueue p hp).elim (fun hp => h.queue p hp hplace) fun hne => hne

/-- **An order that is gone, and its trades.** -/
structure Final (k : OrderId) (trades : List ℕ) (s : Store) : Prop where
  consistent : Consistent s
  gone : Gone k s
  trades : s.tradesOf k = trades

variable {trades : List ℕ}

/-- The id of an order that is gone has been given out. -/
theorem Final.lt (h : Final k trades s) : k < s.orderIdSeq := by
  obtain ⟨o, ho, -⟩ := h.gone.activated
  exact h.consistent.ids k (by rw [ho]; simp)

theorem tradesOf_congr (h : s'.pg.trades = s.pg.trades) : s'.tradesOf k = s.tradesOf k := by
  unfold Store.tradesOf
  rw [h]

theorem Final.of_drains (h : Final k trades s) (hd : Drains s s')
    (htrades : s'.pg.trades = s.pg.trades) : Final k trades s' where
  consistent := h.consistent.of_drains hd
  gone := h.gone.of_drained (hd h.consistent.ids)
  trades := (tradesOf_congr htrades).trans h.trades

theorem Final.of_quiet (h : Final k trades s) (hq : Quiet s s') : Final k trades s' := by
  refine h.of_drains (drains_quiet hq) ?_
  obtain ⟨balances, updates, rfl⟩ := hq
  rfl

theorem final_placed (h : Final k trades s) (userId : UserId) (dto : OrderCreateDto) :
    Final k trades (s.placed userId dto) := by
  have hlt := h.lt
  have hc := consistent_placed h.consistent userId dto
  obtain ⟨hredis, htrades, -⟩ := inserted_redis s userId dto
  have h₁ := h.of_drains (drains_inserted s userId dto) htrades
  refine ⟨hc, h₁.gone.setRedis (handOver_book _ _ _) fun p hp => ?_, h₁.trades⟩
  rw [handOver_queue, List.mem_append] at hp
  refine hp.imp_right fun hp => ?_
  split_ifs at hp
  · exact absurd hp List.not_mem_nil
  · rw [List.mem_singleton.mp hp]
    exact hlt.ne'

theorem final_calls (req : Request) : CallSteps (Prog.Preserves (Final k trades)) req where
  quiet := fun hq h => h.of_quiet hq
  placed := fun _ userId dto _ _ _ _ h => final_placed h userId dto
  canceled := fun _ _ _ _ _ _ ho _ _ h => h.of_drains (drains_cancel ho) rfl
  replaced := fun _ _ _ _ _ _ _ _ _ hold _ _ _ _ _ _ _ h => h.of_drains (drains_replace hold) rfl

theorem final_monitor : MonitorSteps (Prog.Preserves (Final k trades)) where
  quiet := fun hq h => h.of_quiet hq
  triggered := by
    intro s id order lock isTrailing horder _ h
    have hlt := h.lt
    have hc := consistent_trigger h.consistent lock isTrailing horder
    have h₁ := h.of_drains (drains_converted lock horder) rfl
    refine ⟨hc, h₁.gone.setRedis (replaceStop_book _ _ _ _ _) fun p hp => ?_, h₁.trades⟩
    rw [replaceStop_queue, List.mem_append] at hp
    refine hp.imp_right fun hp => ?_
    rw [List.mem_singleton.mp hp]
    exact hlt.ne'

/-- **No request** brings an order back, or gives it a trade. -/
theorem final_serve (h : Final k trades s) (req : Request) : Final k trades (s.serve req) := by
  refine serve_moves (final_calls req) final_monitor (fun s trailing states h => ?_) (fun _ h => ?_)
    h.consistent.ids h
  · exact h.of_drains (drains_setRedis (bookShrinks_refl rfl) fun _ h => .inl h) rfl
  · have hs := gone_work h.consistent.engine h.gone
    exact ⟨consistent_work h.consistent, h.gone.of_leftAlone hs, hs.trades.trans h.trades⟩

/-- **Nor does any run.** -/
theorem final_serveAll (h : Final k trades s) (reqs : List Request) :
    Final k trades (s.serveAll reqs) :=
  Run.invariant (I := Final k trades) (fun _ req h => final_serve h req) h reqs

end

end SpotExchange.Exchange
