import SpotExchange.Exchange.Fills
import SpotExchange.Exchange.Absence

namespace SpotExchange.Exchange

open SpotExchange.Lib
open SpotExchange.Engine (OrderId MatchResult)

/-!
# What is queued has not been traded

* `Calm Q s s'` — no order is filled, no HASH of an old order written, nothing queued to be placed;
* `Fresh` — each queued placement is of another order, which does not rest and is unfilled;
* `Trading`, `Placeable` — what this gives for the order that is being placed;
* `orderly_serve` — `Consistent` and `Fresh` are kept by every request.
-/

/-- The orders that are queued to be placed, the oldest first. -/
def Store.placements (s : Store) : List OrderId :=
  (s.redis.ordersQueue.filter fun p => p.action = .place).map OrderActionPayload.orderId

theorem mem_placements {s : Store} {id : OrderId} :
    id ∈ s.placements ↔ ∃ p ∈ s.redis.ordersQueue, p.action = .place ∧ p.orderId = id := by
  simp only [Store.placements, List.mem_map, List.mem_filter, decide_eq_true_eq, and_assoc]

/-! ### Calm steps -/

/-- **No order is filled, rested or queued to be placed**; new orders have quantities that `Q` holds
    of. -/
structure Calm (Q : ℚ → Prop) (s s' : Store) : Prop where
  seq : s.orderIdSeq ≤ s'.orderIdSeq
  rows : ∀ id o', s'.pg.orders id = some o' →
    (∃ o, s.pg.orders id = some o ∧ RowStays o o' ∧ o'.filledQuantity = o.filledQuantity) ∨
      s.orderIdSeq ≤ id ∧ o'.filledQuantity = 0 ∧ Q o'.quantity
  book : BookShrinks s.redis s'.redis
  hash : ∀ id, s'.redis.orderHash id = s.redis.orderHash id ∨ s'.redis.orderHash id = none ∨
    s.orderIdSeq ≤ id
  placements : s'.placements = s.placements

section

variable {Q : ℚ → Prop} {s s' : Store}

theorem calm_of_rows (h : ∀ id o', s'.pg.orders id = some o' →
      (∃ o, s.pg.orders id = some o ∧ RowStays o o' ∧ o'.filledQuantity = o.filledQuantity) ∨
        s.orderIdSeq ≤ id ∧ o'.filledQuantity = 0 ∧ Q o'.quantity)
    (hseq : s.orderIdSeq ≤ s'.orderIdSeq) (hredis : s'.redis = s.redis) : Calm Q s s' where
  seq := hseq
  rows := h
  book := bookShrinks_refl (by rw [hredis])
  hash := fun id => .inl (by rw [hredis])
  placements := by rw [Store.placements, hredis]; rfl

instance : IsPreorder Store (Calm Q) where
  refl s := calm_of_rows (fun _ o ho => .inl ⟨o, ho, .refl o, rfl⟩) le_rfl rfl
  trans s s' s'' h h' := by
    refine ⟨h.seq.trans h'.seq, fun id o'' ho'' => ?_, fun symbol side =>
      (h'.book symbol side).trans (h.book symbol side), fun id => ?_, h'.placements.trans h.placements⟩
    · rcases h'.rows id o'' ho'' with ⟨o', ho', hs', hf'⟩ | ⟨hle, hf, hq⟩
      · rcases h.rows id o' ho' with ⟨o, ho, hs, hf⟩ | ⟨hle, hf, hq⟩
        · exact .inl ⟨o, ho, hs.trans hs', hf'.trans hf⟩
        · have hquantity : o''.quantity = o'.quantity := congrArg OrderTerms.quantity hs'.1
          exact .inr ⟨hle, hf'.trans hf, hquantity ▸ hq⟩
      · exact .inr ⟨h.seq.trans hle, hf, hq⟩
    · rcases h'.hash id with hh' | hh' | hle
      · rw [hh']
        exact h.hash id
      · exact .inr (.inl hh')
      · exact .inr (.inr (h.seq.trans hle))

theorem calm_quiet (h : Quiet s s') : Calm Q s s' := by
  obtain ⟨balances, updates, rfl⟩ := h
  exact ⟨le_rfl, fun _ o ho => .inl ⟨o, ho, .refl o, rfl⟩, bookShrinks_refl rfl, fun _ => .inl rfl, rfl⟩

theorem calm_insert {o : Order} (hfilled : o.filledQuantity = 0) (hq : Q o.quantity) :
    Calm Q s (s.insert o) := by
  refine calm_of_rows (fun id o' ho' => ?_) (Nat.le_succ _) rfl
  by_cases hid : id = s.orderIdSeq
  · subst hid
    obtain rfl : o = o' := by simpa [Store.insert] using ho'
    exact .inr ⟨le_rfl, hfilled, hq⟩
  · exact .inl ⟨o', by simpa [Store.insert, hid] using ho', .refl o', rfl⟩

theorem calm_putOrder {id : OrderId} {o o' : Order} (h : s.pg.orders id = some o)
    (hstays : RowStays o o') (hfilled : o'.filledQuantity = o.filledQuantity) :
    Calm Q s (s.putOrder id o') := by
  refine calm_of_rows (fun k o₁ ho₁ => ?_) le_rfl rfl
  by_cases hk : k = id
  · subst hk
    obtain rfl : o' = o₁ := by simpa using ho₁
    exact .inl ⟨o, h, hstays, hfilled⟩
  · exact .inl ⟨o₁, by simpa [hk] using ho₁, .refl o₁, rfl⟩

theorem calm_mapOrder {id : OrderId} {f : Order → Order} (hf : ∀ o, RowStays o (f o))
    (hfilled : ∀ o, (f o).filledQuantity = o.filledQuantity) : Calm Q s (s.mapOrder id f) := by
  unfold Store.mapOrder
  cases h : s.pg.orders id with
  | none => exact refl_of (Calm Q) s
  | some o => exact calm_putOrder h (hf o) (hfilled o)

theorem calm_addChild {parentId : OrderId} {parent : Order} {config : Option SltpConfig}
    {link : OrderId → Order → Order} (hlink : ∀ childId o, RowStays o (link childId o))
    (hfilled : ∀ childId o, (link childId o).filledQuantity = o.filledQuantity)
    (hq : ∀ c ∈ config, Q (c.quantity.getD parent.quantity)) :
    Calm Q s (s.addChild parentId parent config link) := by
  cases config with
  | none => exact refl_of (Calm Q) s
  | some config =>
    exact trans_of (Calm Q) (calm_insert rfl (hq config rfl)) (calm_mapOrder (hlink _) (hfilled _))

/-- The quantities of an order and of its children. -/
def OrderCreateDto.Quantities (Q : ℚ → Prop) (dto : OrderCreateDto) : Prop :=
  Q dto.quantity ∧ (∀ c ∈ dto.sl, Q (c.quantity.getD dto.quantity)) ∧
    ∀ c ∈ dto.tp, Q (c.quantity.getD dto.quantity)

theorem calm_inserted (userId : UserId) {dto : OrderCreateDto} (h : dto.Quantities Q) :
    Calm Q s (s.inserted userId dto) := by
  have hsl : ∀ childId o, RowStays o { o with slOrderId := some childId } := fun _ _ => ⟨rfl, id⟩
  have htp : ∀ childId o, RowStays o { o with tpOrderId := some childId } := fun _ _ => ⟨rfl, id⟩
  exact trans_of (Calm Q) (trans_of (Calm Q) (calm_insert (o := newOrder userId dto) rfl h.1)
    (calm_addChild hsl (fun _ _ => rfl) h.2.1)) (calm_addChild htp (fun _ _ => rfl) h.2.2)

theorem calm_cancel {id : OrderId} {order : Order} (horder : s.pg.orders id = some order) :
    Calm Q s (s.cancel id order) where
  seq := le_rfl
  rows := by
    intro k o' ho'
    -- the row is canceled first, then the parent's link to it is cleared
    have hput : ∀ o, Function.update s.pg.orders id (some order.canceled) k = some o →
        ∃ o₀, s.pg.orders k = some o₀ ∧ RowStays o₀ o ∧ o.filledQuantity = o₀.filledQuantity := by
      intro o ho
      by_cases hk : k = id
      · subst hk
        obtain rfl : order.canceled = o := by simpa using ho
        exact ⟨order, horder, ⟨rfl, fun hp => nomatch hp⟩, rfl⟩
      · exact ⟨o, by simpa [hk] using ho, .refl o, rfl⟩
    obtain ⟨o, ho, rfl⟩ := Option.map_eq_some_iff.mp ho'
    obtain ⟨o₀, ho₀, hs, hf⟩ := hput o ho
    have horphaned : RowStays o (o.orphaned id) ∧ (o.orphaned id).filledQuantity = o.filledQuantity := by
      unfold Order.orphaned
      split_ifs
      · exact ⟨⟨rfl, fun hp => nomatch hp⟩, rfl⟩
      · exact ⟨.refl o, rfl⟩
    exact .inl ⟨o₀, ho₀, hs.trans horphaned.1, horphaned.2.trans hf⟩
  book := bookShrinks_cleanUpCanceled id order s.redis
  hash := by
    intro k
    show (cleanUpCanceled id order s.redis).orderHash k = s.redis.orderHash k ∨
      (cleanUpCanceled id order s.redis).orderHash k = none ∨ _
    unfold cleanUpCanceled
    split_ifs
    · exact .inl rfl
    · exact .inl rfl
    · show Function.update s.redis.orderHash id none k = _ ∨ Function.update s.redis.orderHash id none k =
        none ∨ _
      by_cases hk : k = id
      · exact .inr (.inl (by rw [hk, Function.update_self]))
      · exact .inl (by rw [Function.update_of_ne hk])
  placements := by
    show (((cleanUpCanceled id order s.redis).ordersQueue ++ _).filter _).map _ = _
    rw [cleanUpCanceled_queue, List.filter_append, List.map_append]
    exact List.append_nil _

theorem calm_replace {id : OrderId} {old : Order} {newPrice newQuantity : ℚ} (hids : IdsBelow s)
    (hold : s.pg.orders id = some old) (hq : Q newQuantity) :
    Calm Q s (s.replace id old newPrice newQuantity) := by
  have hne : id ≠ s.orderIdSeq := (hids id (by rw [hold]; simp)).ne
  have hrow : ((s.putOrder id old.canceled).insert (replacement id old newPrice newQuantity)).pg.orders id =
      some old.canceled := by
    show Function.update (Function.update s.pg.orders id (some old.canceled)) s.orderIdSeq _ id = _
    rw [Function.update_of_ne hne, Function.update_self]
  have hcanceled : RowStays old old.canceled := ⟨rfl, fun hp => nomatch hp⟩
  have hlinked : RowStays old.canceled (old.replacedBy s.orderIdSeq) := ⟨rfl, fun hp => nomatch hp⟩
  have htables : Calm Q s (((s.putOrder id old.canceled).insert
      (replacement id old newPrice newQuantity)).putOrder id (old.replacedBy s.orderIdSeq)) :=
    trans_of (Calm Q) (trans_of (Calm Q) (calm_putOrder hold hcanceled rfl) (calm_insert rfl hq))
      (calm_putOrder hrow hlinked rfl)
  refine ⟨htables.seq, htables.rows, bookShrinks_removeRestingOrder id old.symbol old.side s.redis,
    fun k => ?_, ?_⟩
  · -- the HASH of the old order is deleted, that of the new one is written
    show Function.update (Function.update s.redis.orderHash id none) s.orderIdSeq _ k = _ ∨
      Function.update (Function.update s.redis.orderHash id none) s.orderIdSeq _ k = none ∨ _
    by_cases hks : k = s.orderIdSeq
    · exact .inr (.inr hks.ge)
    · rw [Function.update_of_ne hks]
      by_cases hk : k = id
      · exact .inr (.inl (by rw [hk, Function.update_self]))
      · exact .inl (by rw [Function.update_of_ne hk])
  · show ((s.redis.ordersQueue ++ _).filter _).map _ = _
    rw [List.filter_append, List.map_append]
    exact List.append_nil _

theorem calm_converted {id : OrderId} {order : Order} {lock : Asset × ℚ}
    (horder : s.pg.orders id = some order) (hq : Q order.quantity) :
    Calm Q s (s.converted id order lock) := by
  have hfilled : RowStays order { order with status := .filled, version := order.version + 1 } :=
    ⟨rfl, fun hp => nomatch hp⟩
  exact trans_of (Calm Q) (trans_of (Calm Q) (calm_quiet (quiet_moveBalance s _ _ _))
    (calm_putOrder horder hfilled rfl)) (calm_insert (o := triggeredChild id order) rfl hq)

end

/-! ### The invariant -/

/-- **Each queued placement is of another order**, which does not rest and is unfilled. -/
structure Fresh (s : Store) : Prop where
  nodup : s.placements.Nodup
  apart : ∀ id ∈ s.placements, ∀ symbol side, id ∉ (s.redis.book symbol side).members
  unfilled : ∀ id ∈ s.placements, ∀ o, s.pg.orders id = some o → o.filledQuantity = 0
  pending : ∀ id o, s.pg.orders id = some o → o.status = .pending → o.filledQuantity = 0
  nonneg : ∀ id o, s.pg.orders id = some o → 0 ≤ o.filledQuantity
  distinct : ∀ symbol side, (s.redis.book symbol side).Distinct

theorem fresh_start (users : Finset UserId) (pairs : Symbol → Option TradingPair)
    (balances : Ledger.BalanceKey → Option Ledger.Row) : Fresh (Store.start users pairs balances) where
  nodup := List.nodup_nil
  apart := fun _ h => absurd h List.not_mem_nil
  unfilled := fun _ h => absurd h List.not_mem_nil
  pending := fun _ _ h => absurd h (by simp [Store.start])
  nonneg := fun _ _ h => absurd h (by simp [Store.start])
  distinct := fun _ _ => List.nodup_nil

section

variable {Q : ℚ → Prop} {s s' : Store}

/-- The order of a queued placement has its row. -/
theorem Consistent.placed_row (h : Consistent s) {id : OrderId} (hid : id ∈ s.placements) :
    ∃ p o, p.orderId = id ∧ s.pg.orders id = some o ∧ PayloadFits p o := by
  obtain ⟨p, hp, hplace, rfl⟩ := mem_placements.mp hid
  obtain ⟨o, ho, hfits⟩ := h.queued p hp hplace
  exact ⟨p, o, rfl, ho, hfits⟩

/-- The next id is not queued, and does not rest. -/
theorem Consistent.next_new (h : Consistent s) : s.orderIdSeq ∉ s.placements ∧
    ∀ symbol side, s.orderIdSeq ∉ (s.redis.book symbol side).members := by
  refine ⟨fun hid => ?_, fun symbol side hid => ?_⟩
  · obtain ⟨-, o, -, ho, -⟩ := h.placed_row hid
    exact lt_irrefl _ (h.ids _ (by rw [ho]; simp))
  · obtain ⟨o, ho, -⟩ := h.booked symbol side _ hid
    exact lt_irrefl _ (h.ids _ (by rw [ho]; simp))

theorem Fresh.of_calm (h : Fresh s) (hcalm : Calm Q s s') : Fresh s' where
  nodup := by rw [hcalm.placements]; exact h.nodup
  apart := fun id hid symbol side hmem => by
    rw [hcalm.placements] at hid
    exact h.apart id hid symbol side (hcalm.book.mem hmem)
  unfilled := fun id hid o' ho' => by
    rw [hcalm.placements] at hid
    rcases hcalm.rows id o' ho' with ⟨o, ho, -, hfilled⟩ | ⟨-, hfilled, -⟩
    · exact hfilled.trans (h.unfilled id hid o ho)
    · exact hfilled
  pending := fun id o' ho' hp => by
    rcases hcalm.rows id o' ho' with ⟨o, ho, hstays, hfilled⟩ | ⟨-, hfilled, -⟩
    · exact hfilled.trans (h.pending id o ho (hstays.2 hp))
    · exact hfilled
  nonneg := fun id o' ho' => by
    rcases hcalm.rows id o' ho' with ⟨o, ho, -, hfilled⟩ | ⟨-, hfilled, -⟩
    · rw [hfilled]
      exact h.nonneg id o ho
    · exact hfilled.ge
  distinct := fun symbol side => (h.distinct symbol side).sublist ((hcalm.book symbol side).map Prod.snd)

/-- Nothing is added to the book, and nothing is queued to be placed. -/
theorem Fresh.of_shrinks (h : Fresh s) (horders : s'.pg.orders = s.pg.orders)
    (hbook : BookShrinks s.redis s'.redis) (hqueue : s'.placements = s.placements) : Fresh s' where
  nodup := by rw [hqueue]; exact h.nodup
  apart := fun id hid symbol side hmem => h.apart id (hqueue ▸ hid) symbol side (hbook.mem hmem)
  unfilled := fun id hid => by rw [horders]; exact h.unfilled id (hqueue ▸ hid)
  pending := by rw [horders]; exact h.pending
  nonneg := by rw [horders]; exact h.nonneg
  distinct := fun symbol side => (h.distinct symbol side).sublist ((hbook symbol side).map Prod.snd)

/-- An order is queued to be placed. -/
theorem Fresh.push (h : Fresh s) {f : Redis → Redis} (id : OrderId)
    (hbook : (f s.redis).book = s.redis.book)
    (hqueue : (s.setRedis f).placements = s.placements ++ [id]) (hnew : id ∉ s.placements)
    (hapart : ∀ symbol side, id ∉ (s.redis.book symbol side).members)
    (hunfilled : ∀ o, s.pg.orders id = some o → o.filledQuantity = 0) : Fresh (s.setRedis f) where
  nodup := by
    rw [hqueue]
    exact List.nodup_append'.mpr ⟨h.nodup, List.nodup_singleton _, by simpa using hnew⟩
  apart := fun k hk symbol side hmem => by
    rw [hqueue] at hk
    have hmem : k ∈ (s.redis.book symbol side).members := by rw [← hbook]; exact hmem
    -- queued before, or the pushed id
    rcases List.mem_append.mp hk with hk | hk
    · exact h.apart k hk symbol side hmem
    · rw [List.mem_singleton.mp hk] at hmem
      exact hapart symbol side hmem
  unfilled := fun k hk o ho => by
    rw [hqueue] at hk
    rcases List.mem_append.mp hk with hk | hk
    · exact h.unfilled k hk o ho
    · rw [List.mem_singleton.mp hk] at ho
      exact hunfilled o ho
  pending := h.pending
  nonneg := h.nonneg
  distinct := fun symbol side => by
    show ((f s.redis).book symbol side).Distinct
    rw [hbook]
    exact h.distinct symbol side

/-! ### Requests that place orders -/

/-- Any quantity. -/
theorem quantities_trivial (dto : OrderCreateDto) : dto.Quantities fun _ => True :=
  ⟨trivial, fun _ _ => trivial, fun _ _ => trivial⟩

/-- An order that is placed is queued, unless it is a stop. -/
theorem placed_placements (s : Store) (userId : UserId) (dto : OrderCreateDto) :
    (s.placed userId dto).placements =
      s.placements ++ if dto.type.isStop then [] else [s.orderIdSeq] := by
  have hcalm : Calm (fun _ => True) s (s.inserted userId dto) :=
    calm_inserted userId (quantities_trivial dto)
  rw [← hcalm.placements]
  show ((handOver s.orderIdSeq (newOrder userId dto) (s.inserted userId dto).redis).ordersQueue.filter
    _).map _ = _
  rw [handOver_queue, List.filter_append, List.map_append]
  refine congrArg (_ ++ ·) ?_
  show ((if dto.type.isStop then [] else _ : List OrderActionPayload).filter _).map _ = _
  split_ifs <;> rfl

/-- **An order is placed.** -/
theorem fresh_placed (hc : Consistent s) (h : Fresh s) (userId : UserId) (dto : OrderCreateDto) :
    Fresh (s.placed userId dto) := by
  have hcalm : Calm (fun _ => True) s (s.inserted userId dto) :=
    calm_inserted userId (quantities_trivial dto)
  have hinserted := h.of_calm hcalm
  obtain ⟨hredis, -, -⟩ := inserted_redis s userId dto
  obtain ⟨hnew, hapart⟩ := hc.next_new
  have hbook := handOver_book s.orderIdSeq (newOrder userId dto) (s.inserted userId dto).redis
  have hplacements := placed_placements s userId dto
  rw [← hcalm.placements] at hplacements
  by_cases hstop : dto.type.isStop = true
  · rw [if_pos hstop, List.append_nil] at hplacements
    exact hinserted.of_shrinks rfl (bookShrinks_refl hbook) hplacements
  · rw [if_neg hstop] at hplacements
    refine hinserted.push _ hbook hplacements ?_ (fun symbol side => ?_) fun o ho => ?_
    · rw [hcalm.placements]
      exact hnew
    · rw [hredis]
      exact hapart symbol side
    · rcases hcalm.rows _ o ho with ⟨o', ho', -, -⟩ | ⟨-, hfilled, -⟩
      · exact absurd (hc.ids _ (by rw [ho']; simp)) (lt_irrefl _)
      · exact hfilled

/-- **A stop is triggered.** -/
theorem fresh_trigger (hc : Consistent s) (h : Fresh s) {id : OrderId} {order : Order}
    (lock : Asset × ℚ) (isTrailing : Bool) (horder : s.pg.orders id = some order) :
    Fresh (s.trigger id order lock isTrailing) := by
  have hcalm : Calm (fun _ => True) s (s.converted id order lock) := calm_converted horder trivial
  obtain ⟨hnew, hapart⟩ := hc.next_new
  have hqueue := replaceStop_queue id isTrailing s.orderIdSeq (triggeredChild id order)
    (s.converted id order lock).redis
  refine (h.of_calm hcalm).push s.orderIdSeq (replaceStop_book _ _ _ _ _) ?_ ?_ hapart
    fun o ho => ?_
  · show ((replaceStop id isTrailing s.orderIdSeq (triggeredChild id order)
      (s.converted id order lock).redis).ordersQueue.filter _).map _ = _
    rw [hqueue, List.filter_append, List.map_append]
    rfl
  · rw [hcalm.placements]
    exact hnew
  · rw [converted_row] at ho
    rw [← Option.some.inj ho]
    rfl

/-! ### A batch -/

/-- **What holds while the trades of a placement are persisted**: neither the taker nor a maker is
    pending, or queued to be placed. -/
structure Trading (p : OrderActionPayload) (trades : List DomainTrade) (s : Store) : Prop where
  consistent : Consistent s
  row : s.HasRow p
  fresh : Fresh s
  active : ∀ id, (id = p.orderId ∨ ∃ t ∈ trades, t.makerOrderId = id) →
    id ∉ s.placements ∧ Activated id s

theorem Trading.of_drains {p : OrderActionPayload} {trades : List DomainTrade}
    (h : Trading p trades s) (hd : Drains s s') (hfresh : Fresh s')
    (hqueue : s'.placements = s.placements) : Trading p trades s' where
  consistent := h.consistent.of_drains hd
  row := h.row.of_drains (hd h.consistent.ids)
  fresh := hfresh
  active := fun id hid => by
    obtain ⟨hnew, o, ho, hactive⟩ := h.active id hid
    obtain ⟨o', ho', hstays⟩ := (hd h.consistent.ids).stays id o ho
    exact ⟨by rw [hqueue]; exact hnew, o', ho', fun hp => hactive (hstays.2 hp)⟩

/-- The order of a trade is filled. -/
theorem Fresh.fill (h : Fresh s) {id : OrderId} {o o' : Order} (ho : s.pg.orders id = some o)
    (hnew : id ∉ s.placements) (hactive : o'.status ≠ .pending)
    (hfilled : o.filledQuantity ≤ o'.filledQuantity) : Fresh (s.putOrder id o') := by
  have hrow : ∀ k x, (s.putOrder id o').pg.orders k = some x →
      k = id ∧ x = o' ∨ k ≠ id ∧ s.pg.orders k = some x := by
    intro k x hx
    by_cases hk : k = id
    · subst hk
      exact .inl ⟨rfl, by simpa [eq_comm] using hx⟩
    · exact .inr ⟨hk, by simpa [hk] using hx⟩
  refine ⟨h.nodup, h.apart, fun k hk x hx => ?_, fun k x hx hp => ?_, fun k x hx => ?_, h.distinct⟩
  all_goals rcases hrow k x hx with ⟨rfl, rfl⟩ | ⟨-, hx⟩
  · exact absurd hk hnew
  · exact h.unfilled k hk x hx
  · exact absurd hp hactive
  · exact h.pending k x hx hp
  · exact (h.nonneg k o ho).trans hfilled
  · exact h.nonneg k x hx

/-- **The steps of a batch**, the activation of children apart. -/
theorem trading_fillSteps (p : OrderActionPayload) (pair : TradingPair) {trades : List DomainTrade}
    (hpos : ∀ t ∈ trades, 0 < t.quantity) :
    FillSteps (batchArgs p pair) trades (Prog.Preserves (Trading p trades)) := by
  have hdrains := drains_fillSteps (batchArgs p pair) trades
  -- a step that writes neither an order, a book nor the queue
  have hsame : ∀ {s s' : Store}, Drains s s' → s'.pg.orders = s.pg.orders →
      s'.redis.book = s.redis.book → s'.placements = s.placements → Trading p trades s →
        Trading p trades s' := fun hd horders hbook hqueue h =>
    h.of_drains hd (h.fresh.of_shrinks horders (bookShrinks_refl hbook) hqueue) hqueue
  exact
    { trade := fun s t ht => hsame (hdrains.trade s t ht) rfl rfl rfl
      makerUser := fun s first makerId userId =>
        hsame (hdrains.makerUser s first makerId userId) rfl rfl rfl
      balance := fun s key row update => hsame (hdrains.balance s key row update) rfl rfl rfl
      redisMaker := fun s d hd maker ho h => by
        have hqueue : (s.setRedis (updateRedisMaker d.makerId maker)).placements = s.placements := by
          unfold Store.placements
          exact congrArg (fun q => (List.filter _ q).map _) (updateRedisMaker_queue _ _ _)
        exact h.of_drains (hdrains.redisMaker s d hd maker ho)
          (h.fresh.of_shrinks rfl (bookShrinks_updateRedisMaker _ _ _) hqueue) hqueue
      maker := fun s d hd o ho h => by
        have hqty : 0 < d.qty := makerFillDeltas_all (P := fun d => 0 < d.qty)
          (fun _ _ _ _ _ h h' => add_pos h h') hpos d hd
        refine h.of_drains (hdrains.maker s d hd o ho) (h.fresh.fill ho
          (h.active _ (.inr (mem_makerFillDeltas hd))).1 ?_ ?_) rfl
        · simp only [Order.filledAsMaker]
          split_ifs <;> simp
        · exact le_add_of_nonneg_right hqty.le
      taker := fun s o ho h => by
        have hqty : 0 ≤ takerTotalQty trades :=
          List.sum_nonneg (by simpa using fun t ht => (hpos t ht).le)
        obtain ⟨hnew, o', ho', hactive⟩ := h.active p.orderId (.inl rfl)
        obtain rfl : o = o' := Option.some.inj (ho.symm.trans ho')
        refine h.of_drains (hdrains.taker s o ho) (h.fresh.fill ho hnew (fun hp => hactive ?_) ?_) rfl
        · exact (rowStays_filledAsTaker o _ _).2 hp
        · exact le_add_of_nonneg_right hqty }

/-- **A child is activated**: it has been pending, so it is not queued yet. -/
theorem trading_childSteps (p : OrderActionPayload) (trades : List DomainTrade) (parentId : OrderId) :
    ChildSteps parentId (Prog.Preserves (Trading p trades)) := by
  intro s id child hchild hpending h
  obtain ⟨hconsistent, hrow⟩ := consistent_activate parentId h.consistent hchild
  have hcalm : Calm (fun _ => True) s
      (s.putOrder id { child with status := .new, version := child.version + 1 }) :=
    calm_putOrder hchild ⟨rfl, fun hp => absurd hp (by simp)⟩ rfl
  have hplacements : (s.activate parentId id child).placements = s.placements ++ [id] := by
    show ((s.redis.ordersQueue ++ _).filter _).map _ = _
    rw [List.filter_append, List.map_append]
    rfl
  -- a pending child is not queued yet, since what is queued is active
  have hnew : id ∉ s.placements := by
    intro hid
    obtain ⟨_, o, -, ho, hfits⟩ := h.consistent.placed_row hid
    obtain rfl : child = o := Option.some.inj (hchild.symm.trans ho)
    exact hfits.active hpending
  refine ⟨hconsistent, hrow p h.row, (h.fresh.of_calm hcalm).push id rfl hplacements hnew
    (fun symbol side hmem => ?_) fun o ho => ?_, fun k hk => ?_⟩
  · obtain ⟨o, ho, hrests⟩ := h.consistent.booked symbol side id hmem
    obtain rfl : child = o := Option.some.inj (hchild.symm.trans ho)
    exact hrests.active hpending
  · have ho : Function.update s.pg.orders id _ id = some o := ho
    rw [Function.update_self] at ho
    rw [← Option.some.inj ho]
    exact h.fresh.pending id child hchild hpending
  · obtain ⟨hk, o, ho, hactive⟩ := h.active k hk
    -- whoever takes part is active, so it is not the child
    have hne : k ≠ id := by
      rintro rfl
      obtain rfl : child = o := Option.some.inj (hchild.symm.trans ho)
      exact hactive hpending
    refine ⟨?_, o, ?_, hactive⟩
    · show k ∉ (s.activate parentId id child).placements
      rw [hplacements, List.mem_append, List.mem_singleton, not_or]
      exact ⟨hk, hne⟩
    · show Function.update s.pg.orders id _ k = some o
      rw [Function.update_of_ne hne]
      exact ho

/-! ### A placement -/

/-- **What holds of a store in which the placement of `p` is taken up.** -/
structure Placeable (p : OrderActionPayload) (s : Store) : Prop where
  consistent : Consistent s
  row : s.HasRow p
  fresh : Fresh s
  popped : p.orderId ∉ s.placements

theorem Placeable.setEngine {p : OrderActionPayload} {e : Engine.CMatchingEngine} (h : Placeable p s)
    (ready : EngineReady e) : Placeable p (s.setEngine e) where
  consistent := h.consistent.of_drains (drains_setEngine ready)
  row := h.row
  fresh := h.fresh.of_shrinks rfl (bookShrinks_refl rfl) rfl
  popped := h.popped

/-- Its trades can be persisted. -/
theorem Placeable.trading {p : OrderActionPayload} {r : MatchResult} (h : Placeable p s)
    (hmatched : Matched p s r) : Trading p (s.domainTrades p r) s where
  consistent := h.consistent
  row := h.row
  fresh := h.fresh
  active := by
    rintro id (rfl | ⟨t, ht, rfl⟩)
    · obtain ⟨o, ho, hfits⟩ := h.row
      exact ⟨h.popped, o, ho, hfits.active⟩
    · have hbooked := hmatched.maker_booked ht
      obtain ⟨o, ho, hrests⟩ := h.consistent.booked _ _ _ hbooked
      exact ⟨fun hid => h.fresh.apart _ hid _ _ hbooked, o, ho, hrests.active⟩

theorem Matched.trade_pos {p : OrderActionPayload} {r : MatchResult} (h : Matched p s r) :
    ∀ t ∈ s.domainTrades p r, 0 < t.quantity := by
  intro t ht
  obtain ⟨t', ht', rfl⟩ := List.mem_map.mp ht
  obtain ⟨o, -, q, hq, -, rfl⟩ := h.facts.trade t' ht'
  exact hq

/-- The taker is on the other side than its makers. -/
theorem Matched.maker_ne {p : OrderActionPayload} {r : MatchResult} (h : Matched p s r)
    (hconsistent : Consistent s) (hrow : s.HasRow p) {t : DomainTrade} (ht : t ∈ s.domainTrades p r) :
    t.makerOrderId ≠ p.orderId := by
  intro hid
  obtain ⟨maker, hmaker, hrests⟩ := hconsistent.booked _ _ _ (h.maker_booked ht)
  obtain ⟨taker, htaker, hfits⟩ := hrow
  rw [hid] at hmaker
  obtain rfl : taker = maker := Option.some.inj (htaker.symm.trans hmaker)
  have hside : p.side = p.side.opposite := hfits.side.symm.trans hrests.side
  cases hp : p.side <;> rw [hp] at hside <;> exact absurd hside (by decide)

/-- A batch that raises leaves the queue alone. -/
theorem persistTradeBatch_queue_error {args : BatchArgs} {trades : List DomainTrade} {err : PyError}
    (h : persistTradeBatch args trades s = (.error err, s')) :
    s'.redis.ordersQueue = s.redis.ordersQueue := by
  have hsteps : FillSteps args trades (Prog.Keeps fun s : Store => s.redis.ordersQueue) :=
    { trade := fun _ _ _ => rfl
      makerUser := fun _ _ _ _ => rfl
      balance := fun _ _ _ _ => rfl
      maker := fun _ _ _ _ _ => rfl
      redisMaker := fun _ _ _ _ _ => updateRedisMaker_queue _ _ _
      taker := fun _ _ _ => rfl }
  exact persistTradeBatch_moves_error hsteps h

theorem fresh_finish {p : OrderActionPayload} {remaining : ℚ} (h : Fresh s)
    (hpopped : p.orderId ∉ s.placements) (hstep : FinishStep p remaining s s') : Fresh s' := by
  cases hstep with
  | left _ => exact h
  | unscored _ _ _ _ => exact h.of_shrinks rfl (bookShrinks_refl rfl) rfl
  | refunded _ _ key row update => exact h.of_shrinks rfl (bookShrinks_refl rfl) rfl
  | rested _ _ score _ =>
    refine ⟨h.nodup, fun id hid symbol side hmem => ?_, h.unfilled, h.pending, h.nonneg,
      fun symbol side => ?_⟩
    -- the book grows by the popped order, which is queued no more
    · rcases members_addToBook hmem with hmem | ⟨rfl, -, -⟩
      · exact h.apart id hid symbol side hmem
      · exact hpopped hid
    · -- the member is added to one of the ZSETs
      show SortedSet.Distinct (Function.update s.redis.book p.symbol (Function.update
        (s.redis.book p.symbol) p.side ((s.redis.book p.symbol p.side).zadd memberKey score p.orderId))
          symbol side)
      by_cases hsym : symbol = p.symbol
      · subst hsym
        rw [Function.update_self]
        by_cases hside : side = p.side
        · subst hside
          rw [Function.update_self]
          exact (h.distinct _ _).zadd
        · rw [Function.update_of_ne hside]
          exact h.distinct _ _
      · rw [Function.update_of_ne hsym]
        exact h.distinct _ _

/-- **A placement.** -/
theorem fresh_place {p : OrderActionPayload} (h : Placeable p s) (hstep : PlaceStep p s s') :
    Fresh s' := by
  cases hstep with
  | unmatched e ready => exact (h.setEngine ready).fresh
  | undone e ready r _ pair _ err s₁ hbatch =>
    have hdrained := persistTradeBatch_moves_error (drains_fillSteps _ _) hbatch h.consistent.ids
    have hqueue := persistTradeBatch_queue_error hbatch
    refine (h.setEngine ready).fresh.of_shrinks rfl hdrained.book ?_
    unfold Store.placements
    exact congrArg (fun q => (List.filter _ q).map _) hqueue
  | untraded e ready r _ _ _ _ finish =>
    exact fresh_finish (h.setEngine ready).fresh h.popped finish
  | traded e ready r hmatched _ pair _ rows s₂ hbatch _ finish =>
    have htrading : Trading p (s.domainTrades p r) (s.setEngine e) :=
      ⟨(h.setEngine ready).consistent, h.row, (h.setEngine ready).fresh, (h.trading hmatched).active⟩
    have h₂ := (persistTradeBatch_moves (trading_fillSteps p pair hmatched.trade_pos)
      (trading_childSteps p _ _)).of_ok hbatch htrading
    exact fresh_finish h₂.fresh (h₂.active p.orderId (.inl rfl)).1 finish

/-! ### Requests -/

/-- **What holds between two requests**, of the queue as well. -/
structure Orderly (s : Store) : Prop where
  consistent : Consistent s
  fresh : Fresh s

/-- The oldest placement is taken up. -/
theorem Orderly.placeable (h : Orderly s) {p : OrderActionPayload} {rest : List OrderActionPayload}
    (hqueue : s.redis.ordersQueue = p :: rest) (hplace : p.action = .place) :
    Placeable p (s.setQueue rest) := by
  have hplacements : s.placements = p.orderId :: (s.setQueue rest).placements := by
    unfold Store.placements
    rw [hqueue, List.filter_cons_of_pos (by simpa using hplace)]
    rfl
  have hnodup := h.fresh.nodup
  rw [hplacements, List.nodup_cons] at hnodup
  have hsub : ∀ id ∈ (s.setQueue rest).placements, id ∈ s.placements := fun id hid => by
    rw [hplacements]
    exact List.mem_cons_of_mem _ hid
  exact
    { consistent := h.consistent.of_drains (drains_setRedis
        (f := fun r => { r with ordersQueue := rest }) (bookShrinks_refl rfl)
          fun q hq => .inl (by rw [hqueue]; exact List.mem_cons_of_mem _ hq))
      row := h.consistent.queued p (by rw [hqueue]; exact List.mem_cons_self) hplace
      fresh := ⟨hnodup.2, fun id hid => h.fresh.apart id (hsub id hid),
        fun id hid => h.fresh.unfilled id (hsub id hid), h.fresh.pending, h.fresh.nonneg,
          h.fresh.distinct⟩
      popped := hnodup.1 }

/-- A round of the worker that places nothing. -/
theorem Fresh.setQueue (h : Fresh s) {p : OrderActionPayload} {rest : List OrderActionPayload}
    (hqueue : s.redis.ordersQueue = p :: rest) (hplace : p.action ≠ .place) :
    Fresh (s.setQueue rest) := by
  refine h.of_shrinks rfl (bookShrinks_refl rfl) ?_
  unfold Store.placements
  rw [hqueue, List.filter_cons_of_neg (by simpa using hplace)]
  rfl

theorem Orderly.quiet (h : Orderly s) (hq : Quiet s s') : Orderly s' :=
  ⟨h.consistent.of_drains (drains_quiet hq), h.fresh.of_calm (calm_quiet (Q := fun _ => True) hq)⟩

theorem orderly_calls (req : Request) : CallSteps (Prog.Preserves Orderly) req where
  quiet := fun hq h => h.quiet hq
  placed := fun _ userId dto _ _ _ _ h =>
    ⟨consistent_placed h.consistent userId dto, fresh_placed h.consistent h.fresh userId dto⟩
  canceled := fun _ _ _ _ _ _ ho _ _ h =>
    ⟨h.consistent.of_drains (drains_cancel ho), h.fresh.of_calm (calm_cancel (Q := fun _ => True) ho)⟩
  replaced := fun _ _ _ _ _ _ _ _ hids hold _ _ _ _ _ _ _ h =>
    ⟨h.consistent.of_drains (drains_replace hold),
      h.fresh.of_calm (calm_replace (Q := fun _ => True) hids hold trivial)⟩

theorem orderly_monitor : MonitorSteps (Prog.Preserves Orderly) where
  quiet := fun hq h => h.quiet hq
  triggered := fun _ _ _ lock isTrailing ho _ h =>
    ⟨consistent_trigger h.consistent lock isTrailing ho, fresh_trigger h.consistent h.fresh lock isTrailing ho⟩

/-- **One request.** -/
theorem orderly_serve (h : Orderly s) (req : Request) : Orderly (s.serve req) := by
  refine serve_moves (orderly_calls req) orderly_monitor (fun s trailing states h => ?_) (fun _ h => ?_)
    h.consistent.ids h
  · exact ⟨h.consistent.of_drains (drains_setRedis (bookShrinks_refl rfl) fun _ h => .inl h),
      h.fresh.of_shrinks rfl (bookShrinks_refl rfl) rfl⟩
  · refine ⟨consistent_work h.consistent, ?_⟩
    show Fresh (work _).2
    rcases work_cases h.consistent.engine with ⟨-, hx⟩ | ⟨p, rest, s', hqueue, hx, hcases⟩ <;> rw [hx]
    · exact h.fresh
    · rcases hcases with ⟨hne, rfl⟩ | ⟨hplace, hstep⟩
      · exact h.fresh.setQueue hqueue hne
      · exact fresh_place (h.placeable hqueue hplace) hstep

theorem orderly_start (users : Finset UserId) (pairs : Symbol → Option TradingPair)
    (balances : Ledger.BalanceKey → Option Ledger.Row) : Orderly (Store.start users pairs balances) :=
  ⟨consistent_start users pairs balances, fresh_start users pairs balances⟩

end

end SpotExchange.Exchange
