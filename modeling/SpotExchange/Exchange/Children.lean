import SpotExchange.Exchange.Resting
import SpotExchange.Exchange.Rows

namespace SpotExchange.Exchange

open SpotExchange.Lib
open SpotExchange.Engine (OrderId MatchResult)

/-!
# Stop-loss and take-profit children

A child waits until its parent is filled, and is then handed to the worker.

* `activateSltpChildren_spec` — what activation does to every row, and to the queue;
* `Waiting` — the invariant: the children of an order that is not filled are pending or canceled, those
  of a filled order are not pending;
* `BatchRow` — what a batch does to an order: it fills it, or activates it, or leaves it alone;
* `Triggers` — what the monitor does when it triggers stops;
* `children_follow` — every run keeps the invariant if nothing but the taker's branch fills a parent,
  and the monitor leaves children alone.
-/

/-! ### Activation -/

section

variable {s s' t : Store}

/-- A child after its parent is filled. -/
def Order.activated (o : Order) : Order :=
  if o.status = .pending then { o with status := .new, version := o.version + 1 } else o

theorem Order.activated_of_not {o : Order} (h : o.status ≠ .pending) : o.activated = o := if_neg h

theorem Order.activated_status (o : Order) : o.activated.status ≠ .pending := by
  unfold Order.activated
  split_ifs with h
  · exact OrderStatus.noConfusion
  · exact h

theorem Order.activated_terms (o : Order) : o.activated.terms = o.terms := by
  unfold Order.activated
  split_ifs <;> rfl

/-- **The listed orders are activated** as far as they are pending, and queued. -/
structure ActivatedAll (ids : List OrderId) (s s' : Store) : Prop where
  seq : s'.orderIdSeq = s.orderIdSeq
  rows : ∀ k, s'.pg.orders k = if k ∈ ids then (s.pg.orders k).map Order.activated else s.pg.orders k
  book : s'.redis.book = s.redis.book
  queued : ∀ k ∈ ids, ∀ o, s.pg.orders k = some o → o.status = .pending → k ∈ s'.placements
  kept : ∀ k ∈ s.placements, k ∈ s'.placements
  new : ∀ k ∈ s'.placements, k ∈ s.placements ∨
    k ∈ ids ∧ ∃ o, s.pg.orders k = some o ∧ o.status = .pending

/-- One child. -/
theorem activateChild_all (parentId childId : OrderId) (s : Store) :
    ∃ s', activateChild parentId childId s = (.ok ⟨⟩, s') ∧ ActivatedAll [childId] s s' := by
  by_cases h : ∃ child, s.pg.orders childId = some child ∧ child.status = .pending
  -- a pending child: its row is activated and its event is queued
  · obtain ⟨child, hchild, hpending⟩ := h
    have hplacements : (s.activate parentId childId child).placements = s.placements ++ [childId] := by
      show ((s.redis.ordersQueue ++ _).filter _).map _ = _
      rw [List.filter_append, List.map_append]
      rfl
    refine ⟨_, activateChild_of_pending parentId hchild hpending, rfl, fun k => ?_, rfl,
      fun k hk _ _ _ => ?_, fun k hk => ?_, fun k hk => ?_⟩
    · show Function.update s.pg.orders childId (some _) k = _
      by_cases hk : k = childId
      · rw [if_pos (List.mem_singleton.mpr hk), hk, Function.update_self, hchild, Option.map_some,
          Order.activated, if_pos hpending]
      · rw [if_neg fun h => hk (List.mem_singleton.mp h), Function.update_of_ne hk]
    · rw [hplacements]
      exact List.mem_append_right _ hk
    · rw [hplacements]
      exact List.mem_append_left _ hk
    · rw [hplacements, List.mem_append] at hk
      refine hk.imp_right fun hk => ⟨hk, child, ?_, hpending⟩
      rwa [List.mem_singleton.mp hk]
  -- nothing to activate: the store is not written
  · have hnot : ∀ child, s.pg.orders childId = some child → child.status ≠ .pending :=
      fun child hchild hpending => h ⟨child, hchild, hpending⟩
    refine ⟨s, activateChild_of_not parentId hnot, rfl, fun k => ?_, rfl, fun k hk o ho hp => ?_,
      fun _ hk => hk, fun _ hk => .inl hk⟩
    · split_ifs with hk
      · rw [List.mem_singleton.mp hk]
        cases ho : s.pg.orders childId with
        | none => rfl
        | some o => rw [Option.map_some, Order.activated_of_not (hnot o ho)]
      · rfl
    · rw [List.mem_singleton.mp hk] at ho
      exact absurd hp (hnot o ho)

/-- **Several children**, one after the other. -/
theorem forEach_activateChild (parentId : OrderId) (ids : List OrderId) (s : Store) :
    ∃ s', Prog.forEach ids (activateChild parentId) s = (.ok ⟨⟩, s') ∧ ActivatedAll ids s s' := by
  induction ids generalizing s with
  | nil =>
    exact ⟨s, rfl, rfl, fun k => (if_neg List.not_mem_nil).symm, rfl,
      fun k hk => absurd hk List.not_mem_nil, fun _ hk => hk, fun _ hk => .inl hk⟩
  | cons id ids ih =>
    obtain ⟨s₁, hone, h₁⟩ := activateChild_all parentId id s
    obtain ⟨s₂, hrest, h₂⟩ := ih s₁
    -- what is activated already is not pending any more
    have hback : ∀ k o, s₁.pg.orders k = some o → o.status = .pending →
        k ≠ id ∧ s.pg.orders k = some o := by
      intro k o ho hp
      rw [h₁.rows k] at ho
      split_ifs at ho with hk
      · obtain ⟨o₀, -, rfl⟩ := Option.map_eq_some_iff.mp ho
        exact absurd hp o₀.activated_status
      · exact ⟨fun h => hk (List.mem_singleton.mpr h), ho⟩
    refine ⟨s₂, ?_, h₂.seq.trans h₁.seq, fun k => ?_, h₂.book.trans h₁.book, fun k hk o ho hp => ?_,
      fun k hk => h₂.kept k (h₁.kept k hk), fun k hk => ?_⟩
    · rw [Prog.forEach_cons, Prog.bind_of_ok hone, hrest]
    · rw [h₂.rows k, h₁.rows k]
      by_cases hid : k = id
      · rw [if_pos (List.mem_singleton.mpr hid), if_pos (List.mem_cons.mpr (.inl hid)), Option.map_map]
        have hagain : Order.activated ∘ Order.activated = Order.activated :=
          funext fun o => Order.activated_of_not o.activated_status
        rw [hagain, ite_self]
      · rw [if_neg fun h => hid (List.mem_singleton.mp h)]
        simp only [List.mem_cons, hid, false_or]
    · by_cases hid : k = id
      · exact h₂.kept k (h₁.queued k (List.mem_singleton.mpr hid) o ho hp)
      · refine h₂.queued k ((List.mem_cons.mp hk).resolve_left hid) o ?_ hp
        rw [h₁.rows k, if_neg fun h => hid (List.mem_singleton.mp h)]
        exact ho
    · rcases h₂.new k hk with hk | ⟨hk, o, ho, hp⟩
      · rcases h₁.new k hk with hk | ⟨hk, ho⟩
        · exact .inl hk
        · exact .inr ⟨List.mem_cons.mpr (.inl (List.mem_singleton.mp hk)), ho⟩
      · exact .inr ⟨List.mem_cons_of_mem _ hk, o, (hback k o ho hp).2, hp⟩

/-- **`_activate_sltp_children`** activates the pending children, and nothing else. -/
theorem activateSltpChildren_spec (hids : IdsBelow s) (parentId : OrderId) :
    ∃ s' ids, activateSltpChildren parentId s = (.ok ⟨⟩, s') ∧ ActivatedAll ids s s' ∧
      ∀ k o, s.pg.orders k = some o → (k ∈ ids ↔ o.parentOrderId = some parentId) := by
  let ids := (List.range s.orderIdSeq).filter fun id =>
    (s.pg.orders id).any fun order => order.parentOrderId = some parentId
  obtain ⟨s', hx, h⟩ := forEach_activateChild parentId ids s
  refine ⟨s', ids, hx, h, fun k o ho => ?_⟩
  have hlt : k < s.orderIdSeq := hids k (by rw [ho]; simp)
  simp only [ids, List.mem_filter, List.mem_range, hlt, true_and, ho, Option.any_some,
    decide_eq_true_eq]

/-! ### A batch -/

/-- The orders of `W` are filled: no other row is written, no order becomes pending, and nothing is
    queued. -/
structure Touches (W : OrderId → Prop) (s s' : Store) : Prop where
  seq : s'.orderIdSeq = s.orderIdSeq
  ids : IdsBelow s → IdsBelow s'
  queue : s'.redis.ordersQueue = s.redis.ordersQueue
  rows : ∀ k, ¬ W k → s'.pg.orders k = s.pg.orders k
  pending : ∀ k o, s'.pg.orders k = some o → o.status = .pending → s.pg.orders k = some o
  book : BookShrinks s.redis s'.redis

variable {W : OrderId → Prop}

instance : IsPreorder Store (Touches W) where
  refl _ := ⟨rfl, id, rfl, fun _ _ => rfl, fun _ _ ho _ => ho, bookShrinks_refl rfl⟩
  trans _ _ _ h h' := ⟨h'.seq.trans h.seq, h'.ids ∘ h.ids, h'.queue.trans h.queue,
    fun k hk => (h'.rows k hk).trans (h.rows k hk),
    fun k o ho hp => h.pending k o (h'.pending k o ho hp) hp,
    fun symbol side => (h'.book symbol side).trans (h.book symbol side)⟩

/-- Nothing but balances and trades. -/
theorem touches_of_orders (hseq : s'.orderIdSeq = s.orderIdSeq) (horders : s'.pg.orders = s.pg.orders)
    (hredis : s'.redis.ordersQueue = s.redis.ordersQueue) (hbook : BookShrinks s.redis s'.redis) :
    Touches W s s' :=
  ⟨hseq, fun h id hne => by rw [hseq]; exact h id (by rwa [horders] at hne), hredis,
    fun _ _ => by rw [horders], fun _ _ ho _ => by rwa [horders] at ho, hbook⟩

/-- An order of `W` is written. -/
theorem touches_putOrder {id : OrderId} {o o' : Order} (hW : W id) (ho : s.pg.orders id = some o)
    (hactive : o'.status ≠ .pending) : Touches W s (s.putOrder id o') := by
  refine ⟨rfl, fun h k hk => ?_, rfl, fun k hk => ?_, fun k x hx hp => ?_, bookShrinks_refl rfl⟩
  · by_cases hid : k = id
    · subst hid
      exact h k (by rw [ho]; simp)
    · exact h k (by simpa [hid] using hk)
  · have hne : k ≠ id := fun h => hk (h ▸ hW)
    simp [hne]
  · by_cases hid : k = id
    · subst hid
      obtain rfl : o' = x := by simpa using hx
      exact absurd hp hactive
    · simpa [hid] using hx

theorem touches_settle (args : BatchArgs) (isTaker : Bool) (userId : UserId) (orderId : OrderId)
    (qty quoteQty : ℚ) :
    Prog.Moves (Touches W) (settleTradeBalances args isTaker userId orderId qty quoteQty) :=
  settleTradeBalances_moves (fun _ _ _ _ => touches_of_orders rfl rfl rfl (bookShrinks_refl rfl)) args
    isTaker userId orderId qty quoteQty

/-- A maker. -/
theorem touches_settleMaker {args : BatchArgs} {d : FillDelta} (hW : W d.makerId) (first : ℕ) :
    Prog.Moves (Touches W) (settleMaker args first d) := by
  intro s
  cases horder : s.pg.orders d.makerId with
  | none =>
    rw [settleMaker_none horder]
    exact refl_of (Touches W) s
  | some order =>
    have hactive : (order.filledAsMaker d.qty d.quoteQty).status ≠ .pending := by
      simp only [Order.filledAsMaker]
      split_ifs <;> exact OrderStatus.noConfusion
    have huser : Touches W (s.putOrder d.makerId (order.filledAsMaker d.qty d.quoteQty))
        (s.fillMaker first d order) := touches_of_orders rfl rfl rfl (bookShrinks_refl rfl)
    have hfill := trans_of (Touches W) (touches_putOrder hW horder hactive) huser
    have hredis : Prog.Moves (Touches W)
        (onRedis (updateRedisMaker d.makerId (order.filledAsMaker d.qty d.quoteQty))) :=
      Prog.moves_modify fun s => touches_of_orders rfl rfl (updateRedisMaker_queue _ _ _)
        (bookShrinks_updateRedisMaker _ _ _)
    rw [settleMaker_apply horder]
    exact trans_of (Touches W) hfill
      (((touches_settle args false order.userId d.makerId d.qty d.quoteQty).bind fun _ => hredis) _)

/-- **A batch** fills the orders that take part; then the children of its taker are activated, if that
    is filled. -/
theorem persistTradeBatch_children {args : BatchArgs} {trades : List DomainTrade} {rows : List Trade}
    {order : Order} (h : persistTradeBatch args trades s = (.ok rows, t)) (hne : trades ≠ [])
    (hids : IdsBelow s) (horder : s.pg.orders args.takerOrderId = some order)
    (hactive : order.status ≠ .pending)
    (hmakers : ∀ t ∈ trades, t.makerOrderId ≠ args.takerOrderId) :
    ∃ s₁ ids taker, Touches (TakesPart args trades) s s₁ ∧ ActivatedAll ids s₁ t ∧
      s₁.pg.orders args.takerOrderId = some taker ∧ ∀ k o, s₁.pg.orders k = some o →
        (k ∈ ids ↔ taker.status = .filled ∧ o.parentOrderId = some args.takerOrderId) := by
  obtain ⟨s₁, s₂, hinsert, hdeltas, htaker⟩ := persistTradeBatch_eq_ok hne h
  have h₁ : Touches (TakesPart args trades) s s₁ := (insertTrades_moves
    (R := Touches (TakesPart args trades)) fun _ _ _ =>
      touches_of_orders rfl rfl rfl (bookShrinks_refl rfl)).of_ok hinsert
  have hmakers₂ : Touches (fun k => ∃ t ∈ trades, t.makerOrderId = k) s₁ s₂ :=
    (Prog.Moves.forEach fun d hd => touches_settleMaker (mem_makerFillDeltas hd) _).of_ok hdeltas
  have h₂ : Touches (TakesPart args trades) s₁ s₂ :=
    { hmakers₂ with rows := fun k hk => hmakers₂.rows k fun hmaker => hk (.inr hmaker) }
  -- the taker is no maker, so its row is as it was
  have hrow : s₂.pg.orders args.takerOrderId = some order := by
    have hkeeps : Prog.Moves (Prog.Keeps fun s : Store => s.pg.orders)
        (Prog.forEach trades (insertTrade args)) := insertTrades_moves fun _ _ _ => rfl
    have hinserted : s₁.pg.orders = s.pg.orders := hkeeps.of_ok hinsert
    rw [hmakers₂.rows _ fun ⟨t, ht, hid⟩ => hmakers t ht hid, hinserted]
    exact horder
  rw [settleTaker_apply hrow] at htaker
  obtain ⟨_, s₃, hb, htaker⟩ := Prog.bind_eq_ok.mp htaker
  have hpart : TakesPart args trades args.takerOrderId := .inl ⟨rfl, hne⟩
  -- the taker stays active, so writing its row touches no pending row
  have htakerActive : (order.filledAsTaker (takerTotalQty trades) (takerTotalQuote trades)).status ≠
      .pending := by
    simp only [Order.filledAsTaker]
    split_ifs
    · exact OrderStatus.noConfusion
    · exact OrderStatus.noConfusion
    · exact hactive
  have hput := touches_putOrder hpart hrow htakerActive
  have hsettle : Touches (TakesPart args trades) _ s₃ := (touches_settle args true order.userId
    args.takerOrderId (takerTotalQty trades) (takerTotalQuote trades)).of_ok hb
  have h₃ : Touches (TakesPart args trades) s s₃ :=
    trans_of (Touches (TakesPart args trades)) h₁ (trans_of (Touches (TakesPart args trades)) h₂
      (trans_of (Touches (TakesPart args trades)) hput hsettle))
  have hrow₃ : s₃.pg.orders args.takerOrderId =
      some (order.filledAsTaker (takerTotalQty trades) (takerTotalQuote trades)) := by
    have hkept : s₃.pg.orders = (s₂.putOrder args.takerOrderId _).pg.orders :=
      (settleTradeBalances_moves (R := Prog.Keeps fun s => s.pg.orders) (fun _ _ _ _ => rfl) args true
        order.userId args.takerOrderId (takerTotalQty trades) (takerTotalQuote trades)).of_ok hb
    rw [hkept]
    exact Function.update_self ..
  -- the children are activated only when the taker is filled
  rcases Prog.whenever_eq_ok.mp htaker with ⟨hnot, rfl⟩ | ⟨hfilled, htaker⟩
  · refine ⟨s₃, [], _, h₃, ⟨rfl, fun k => (if_neg List.not_mem_nil).symm, rfl,
      fun k hk => absurd hk List.not_mem_nil, fun _ hk => hk, fun _ hk => .inl hk⟩, hrow₃,
        fun k o _ => iff_of_false List.not_mem_nil fun h => hnot h.1⟩
  · obtain ⟨s₄, ids, hx, hall, hmem⟩ := activateSltpChildren_spec (h₃.ids hids) args.takerOrderId
    obtain rfl : s₄ = t := congrArg Prod.snd (hx.symm.trans htaker)
    exact ⟨s₃, ids, _, h₃, hall, hrow₃, fun k o ho => (hmem k o ho).trans (by simp [hfilled])⟩

/-! ### The invariant -/

/-- A child waits until its parent is filled, or is canceled; then it does not wait any more. -/
def Order.WaitsFor (c p : Order) : Prop :=
  (p.status ≠ .filled → c.status = .pending ∨ c.status = .canceled) ∧
    (p.status = .filled → c.status ≠ .pending)

/-- The order is queued to be placed, or rests. -/
def Store.InPlay (s : Store) (id : OrderId) : Prop :=
  id ∈ s.placements ∨ ∃ symbol side, id ∈ (s.redis.book symbol side).members

/-- **Children wait for their parents**: none is among the orders of `P` before its parent is filled.
    An order of `P` that is filled is so because of its fills. -/
structure WaitingOn (P : OrderId → Prop) (s : Store) : Prop where
  family : ∀ id c parentId, s.pg.orders id = some c → c.parentOrderId = some parentId →
    ∃ p, s.pg.orders parentId = some p ∧ c.WaitsFor p ∧ (P id → p.status = .filled)
  complete : ∀ id o, P id → s.pg.orders id = some o → o.status = .filled →
    o.quantity ≤ o.filledQuantity

/-- Children wait for their parents, and none is in play before its parent is filled. -/
abbrev Waiting (s : Store) : Prop := WaitingOn s.InPlay s

/-- An order in play has its row, and is not pending. -/
theorem Consistent.inPlay_row (h : Consistent s) {id : OrderId} (hplay : s.InPlay id) :
    ∃ o, s.pg.orders id = some o ∧ o.status ≠ .pending := by
  rcases hplay with hid | ⟨symbol, side, hid⟩
  · obtain ⟨p, o, -, ho, hfits⟩ := h.placed_row hid
    exact ⟨o, ho, hfits.active⟩
  · obtain ⟨o, ho, hrests⟩ := h.booked symbol side id hid
    exact ⟨o, ho, hrests.active⟩

theorem waiting_start (users : Finset UserId) (pairs : Symbol → Option TradingPair)
    (balances : Ledger.BalanceKey → Option Ledger.Row) : Waiting (Store.start users pairs balances) where
  family := fun _ _ _ h => absurd h (by simp [Store.start])
  complete := fun _ _ _ h => absurd h (by simp [Store.start])

/-- The same rows, and nothing new in play. -/
theorem WaitingOn.of_rows {P P' : OrderId → Prop} (h : WaitingOn P s)
    (horders : s'.pg.orders = s.pg.orders) (hplay : ∀ id, P' id → P id) : WaitingOn P' s' where
  family := fun id c parentId hc hparent => by
    rw [horders] at hc ⊢
    obtain ⟨p, hp, hwaits, hin⟩ := h.family id c parentId hc hparent
    exact ⟨p, hp, hwaits, fun hid => hin (hplay id hid)⟩
  complete := fun id o hid ho => by
    rw [horders] at ho
    exact h.complete id o (hplay id hid) ho

theorem inPlay_of_placements (hqueue : s'.placements = s.placements)
    (hbook : BookShrinks s.redis s'.redis) {id : OrderId} (h : s'.InPlay id) : s.InPlay id := by
  rcases h with hid | ⟨symbol, side, hid⟩
  · exact .inl (hqueue ▸ hid)
  · exact .inr ⟨symbol, side, hbook.mem hid⟩

/-! ### The API -/

/-- What the API does to an order: it may cancel it, but it does not fill it. -/
def SameOrCanceled (o o' : Order) : Prop :=
  o'.terms = o.terms ∧ o'.filledQuantity = o.filledQuantity ∧
    (o'.status = .filled ↔ o.status = .filled) ∧ (o'.status = o.status ∨ o'.status = .canceled)

theorem SameOrCanceled.refl (o : Order) : SameOrCanceled o o := ⟨rfl, rfl, .rfl, .inl rfl⟩

/-- A new order is not filled; a new child is pending. -/
def NewOrder (o : Order) : Prop :=
  o.status ≠ .filled ∧ (o.parentOrderId ≠ none → o.status = .pending ∨ o.status = .canceled)

theorem sameOrCanceled_rowSteps : RowSteps SameOrCanceled NewOrder where
  refl := SameOrCanceled.refl
  trans := by
    rintro o o' o'' ⟨hterms, hfilled, hiff, hstatus⟩ ⟨hterms', hfilled', hiff', hstatus'⟩
    refine ⟨hterms'.trans hterms, hfilled'.trans hfilled, hiff'.trans hiff, ?_⟩
    rcases hstatus' with h' | h'
    · rw [h']
      exact hstatus
    · exact .inr h'
  stays := by
    rintro o o' ⟨hnot, hchild⟩ ⟨hterms, -, hiff, hstatus⟩
    refine ⟨fun h => hnot (hiff.mp h), fun hparent => ?_⟩
    have hparent' := congrArg OrderTerms.parentOrderId hterms
    rcases hstatus with h | h
    · rw [h]
      exact hchild fun hnone => hparent (hparent'.trans hnone)
    · exact .inr h
  slLink := fun o _ => ⟨rfl, rfl, .rfl, .inl rfl⟩
  tpLink := fun o _ => ⟨rfl, rfl, .rfl, .inl rfl⟩
  replacedLink := fun o _ => ⟨rfl, rfl, .rfl, .inl rfl⟩
  cancel := fun o hactive => by
    refine ⟨rfl, rfl, iff_of_false OrderStatus.noConfusion fun hfilled => ?_, .inr rfl⟩
    rw [hfilled] at hactive
    exact absurd hactive (by decide)
  newRow := fun userId dto => by
    refine ⟨?_, fun h => absurd rfl h⟩
    unfold newOrder
    cases dto.type.isStop <;> exact OrderStatus.noConfusion
  childRow := fun _ _ _ => ⟨OrderStatus.noConfusion, fun _ => .inl rfl⟩
  replacementRow := fun _ _ _ _ => ⟨OrderStatus.noConfusion, fun h => absurd rfl h⟩

/-- No row is deleted. -/
def Kept (s s' : Store) : Prop :=
  ∀ id o, s.pg.orders id = some o → ∃ o', s'.pg.orders id = some o'

theorem Kept.trans {s'' : Store} (h : Kept s s') (h' : Kept s' s'') : Kept s s'' := fun id o ho => by
  obtain ⟨o', ho'⟩ := h id o ho
  exact h' id o' ho'

/-- **A call of the API**: rows stay or are canceled, and the parent of a new child is new. -/
theorem Waiting.call (hc : Consistent s) (h : Waiting s) (hstays : Kept s s')
    (hmove : RowsMove SameOrCanceled NewOrder s s')
    (hplay : ∀ id, s'.InPlay id → s.InPlay id ∨
      s.orderIdSeq ≤ id ∧ ∀ o', s'.pg.orders id = some o' → o'.parentOrderId = none)
    (hparents : ∀ id o' parentId, s'.pg.orders id = some o' → s.orderIdSeq ≤ id →
      o'.parentOrderId = some parentId →
        s.orderIdSeq ≤ parentId ∧ ∃ p, s'.pg.orders parentId = some p) : Waiting s' := by
  have hold : ∀ {id o}, s.pg.orders id = some o → ¬ s.orderIdSeq ≤ id := fun ho =>
    not_le.mpr (hc.ids _ (by rw [ho]; simp))
  refine ⟨fun id c' parentId hc' hparent => ?_, fun id o' hid ho' hfilled => ?_⟩
  -- an old child: its parent has moved, and only forward
  · rcases hmove.rows id c' hc' with ⟨c, hcrow, hterms, -, -, hstatus⟩ | ⟨hle, hnew⟩
    · have hparent₀ : c.parentOrderId = some parentId :=
        (congrArg OrderTerms.parentOrderId hterms).symm.trans hparent
      obtain ⟨p, hp, hwaits, hin⟩ := h.family id c parentId hcrow hparent₀
      obtain ⟨p', hp'⟩ := hstays parentId p hp
      obtain ⟨p₀, hp₀, -, -, hiff, -⟩ := (hmove.rows parentId p' hp').resolve_right
        fun hnew => hold hp hnew.1
      obtain rfl : p = p₀ := Option.some.inj (hp.symm.trans hp₀)
      refine ⟨p', hp', ⟨fun hnot => ?_, fun hfilled hpending => ?_⟩, fun hid => hiff.mpr (hin ?_)⟩
      · rcases hstatus with hs | hs
        · rw [hs]
          exact hwaits.1 fun hf => hnot (hiff.mpr hf)
        · exact .inr hs
      · rcases hstatus with hs | hs
        · exact hwaits.2 (hiff.mp hfilled) (hs ▸ hpending)
        · rw [hs] at hpending
          exact absurd hpending OrderStatus.noConfusion
      · rcases hplay id hid with hid | ⟨hle, -⟩
        · exact hid
        · exact absurd hle (hold hcrow)
    · -- a new child of a new order
      obtain ⟨hle', p', hp'⟩ := hparents id c' parentId hc' hle hparent
      have hnot : p'.status ≠ .filled := by
        rcases hmove.rows parentId p' hp' with ⟨p, hp, -⟩ | ⟨-, hnew⟩
        · exact absurd hle' (hold hp)
        · exact hnew.1
      refine ⟨p', hp', ⟨fun _ => hnew.2 (by rw [hparent]; simp), fun hf => absurd hf hnot⟩, fun hid => ?_⟩
      rcases hplay id hid with hid | ⟨-, hnone⟩
      · obtain ⟨o, ho, -⟩ := hc.inPlay_row hid
        exact absurd hle (hold ho)
      · exact absurd (hparent.symm.trans (hnone c' hc')) (by simp)
  -- what is filled now was filled before, a new row is not
  · rcases hmove.rows id o' ho' with ⟨o, ho, hterms, hquantity, hiff, -⟩ | ⟨-, hnew⟩
    · rcases hplay id hid with hid | ⟨hle, -⟩
      · have hle := h.complete id o hid ho (hiff.mp hfilled)
        rw [hquantity, show o'.quantity = o.quantity from congrArg OrderTerms.quantity hterms]
        exact hle
      · exact absurd hle (hold ho)
    · exact absurd hfilled hnew.1

/-- A row after a child has been added is one that was there, or the child. -/
theorem addChild_parent {parentId : OrderId} {parent : Order} {config : Option SltpConfig}
    (link : OrderId → Order → Order) (hlink : ∀ k o, (link k o).parentOrderId = o.parentOrderId)
    {id : OrderId} {o' : Order} (ho' : (s.addChild parentId parent config link).pg.orders id = some o') :
    (∃ o, s.pg.orders id = some o ∧ o'.parentOrderId = o.parentOrderId) ∨
      o'.parentOrderId = some parentId := by
  cases config with
  | none => exact .inl ⟨o', ho', rfl⟩
  | some config =>
    -- the inserted child is the only row whose parent is new
    have hinsert : ∀ k o, (s.insert (sltpChild parentId parent config)).pg.orders k = some o →
        (∃ o₀, s.pg.orders k = some o₀ ∧ o.parentOrderId = o₀.parentOrderId) ∨
          o.parentOrderId = some parentId := by
      intro k o ho
      by_cases hk : k = s.orderIdSeq
      · subst hk
        obtain rfl : sltpChild parentId parent config = o := by simpa [Store.insert] using ho
        exact .inr rfl
      · exact .inl ⟨o, by simpa [Store.insert, hk] using ho, rfl⟩
    have ho' : ((s.insert (sltpChild parentId parent config)).mapOrder parentId
        (link s.orderIdSeq)).pg.orders id = some o' := ho'
    unfold Store.mapOrder at ho'
    -- the link is written back to the parent, if its row exists
    cases hp : (s.insert (sltpChild parentId parent config)).pg.orders parentId with
    | none =>
      simp only [hp] at ho'
      exact hinsert id o' ho'
    | some p =>
      simp only [hp] at ho'
      have ho' : Function.update (s.insert (sltpChild parentId parent config)).pg.orders parentId
        (some (link s.orderIdSeq p)) id = some o' := ho'
      by_cases hid : id = parentId
      · subst hid
        rw [Function.update_self] at ho'
        rw [← Option.some.inj ho', hlink]
        exact hinsert id p hp
      · rw [Function.update_of_ne hid] at ho'
        exact hinsert id o' ho'

/-- **An order is placed.** -/
theorem waiting_placed (hc : Consistent s) (h : Waiting s) (userId : UserId) (dto : OrderCreateDto) :
    Waiting (s.placed userId dto) ∧ Kept s (s.placed userId dto) := by
  obtain ⟨order, horder, hterms, -⟩ := inserted_row hc.ids userId dto
  have hnone : order.parentOrderId = none := congrArg OrderTerms.parentOrderId hterms
  have hstays : Kept s (s.placed userId dto) := fun id o ho => by
    obtain ⟨o', ho', -⟩ := (drains_inserted s userId dto hc.ids).stays id o ho
    exact ⟨o', ho'⟩
  refine ⟨h.call hc hstays (sameOrCanceled_rowSteps.placed userId dto) (fun id hid => ?_)
    fun id o' parentId ho' hle hparent => ?_, hstays⟩
  -- in play now: queued before, or the new order itself
  · rcases hid with hid | ⟨symbol, side, hid⟩
    · rw [placed_placements, List.mem_append] at hid
      refine hid.imp .inl fun hid => ?_
      split_ifs at hid
      · exact absurd hid List.not_mem_nil
      · rw [List.mem_singleton.mp hid]
        refine ⟨le_rfl, fun o' ho' => ?_⟩
        obtain rfl : order = o' := Option.some.inj (horder.symm.trans ho')
        exact hnone
    · refine .inl (.inr ⟨symbol, side, ?_⟩)
      have hid : id ∈ ((handOver s.orderIdSeq (newOrder userId dto)
        (s.inserted userId dto).redis).book symbol side).members := hid
      rw [handOver_book, (inserted_redis s userId dto).1] at hid
      exact hid
  · have ho' : (((s.insert (newOrder userId dto)).addChild s.orderIdSeq (newOrder userId dto) dto.sl
      fun childId o => { o with slOrderId := some childId }).addChild s.orderIdSeq (newOrder userId dto)
        dto.tp fun childId o => { o with tpOrderId := some childId }).pg.orders id = some o' := ho'
    -- a new row with a parent is one of the two children of the new order
    have hseq : parentId = s.orderIdSeq := by
      rcases addChild_parent (fun childId o => { o with tpOrderId := some childId })
        (fun _ _ => rfl) ho' with ⟨o₁, ho₁, h₁⟩ | h₁
      · rcases addChild_parent (fun childId o => { o with slOrderId := some childId })
          (fun _ _ => rfl) ho₁ with ⟨o₂, ho₂, h₂⟩ | h₂
        · have hparent₂ : o₂.parentOrderId = some parentId := h₂.symm.trans (h₁.symm.trans hparent)
          by_cases hid : id = s.orderIdSeq
          · subst hid
            obtain rfl : newOrder userId dto = o₂ := by simpa [Store.insert] using ho₂
            exact absurd hparent₂ (by simp [newOrder])
          · have ho₂ : s.pg.orders id = some o₂ := by simpa [Store.insert, hid] using ho₂
            exact absurd hle (not_le.mpr (hc.ids id (by rw [ho₂]; simp)))
        · exact Option.some.inj (hparent.symm.trans (h₁.trans h₂))
      · exact Option.some.inj (hparent.symm.trans h₁)
    rw [hseq]
    exact ⟨le_rfl, order, horder⟩

theorem waiting_quiet (h : Waiting s) (hq : Quiet s s') : Waiting s' ∧ Kept s s' := by
  obtain ⟨balances, updates, rfl⟩ := hq
  exact ⟨h.of_rows rfl fun _ hid => hid, fun _ o ho => ⟨o, ho⟩⟩

theorem waiting_canceled (hc : Consistent s) (h : Waiting s) {id : OrderId} {order : Order}
    (ho : s.pg.orders id = some order) (hactive : order.status.isActive = true) :
    Waiting (s.cancel id order) ∧ Kept s (s.cancel id order) := by
  have hcalm : Calm (fun _ => True) s (s.cancel id order) := calm_cancel ho
  have hrows : ∀ k o', (s.cancel id order).pg.orders k = some o' → s.pg.orders k ≠ none := by
    intro k o' ho' hnone
    have ho' : (Function.update s.pg.orders id (some order.canceled) k).map (Order.orphaned id) = some o' :=
      ho'
    have hne : k ≠ id := by
      rintro rfl
      rw [ho] at hnone
      exact absurd hnone (by simp)
    rw [Function.update_of_ne hne, hnone] at ho'
    exact absurd ho' (by simp)
  have hstays : Kept s (s.cancel id order) := fun k o hk => by
    obtain ⟨o', ho', -⟩ := (drains_cancel ho hc.ids).stays k o hk
    exact ⟨o', ho'⟩
  exact ⟨h.call hc hstays (sameOrCanceled_rowSteps.canceled ho hactive)
    (fun k hk => .inl (inPlay_of_placements hcalm.placements hcalm.book hk))
      fun k o' _ ho' hle _ => absurd hle (not_le.mpr (hc.ids k (hrows k o' ho'))), hstays⟩

theorem waiting_replaced (hc : Consistent s) (h : Waiting s) {id : OrderId} {old : Order}
    (hold : s.pg.orders id = some old) (hactive : old.status.isActive = true) (newPrice newQuantity : ℚ) :
    Waiting (s.replace id old newPrice newQuantity) ∧ Kept s (s.replace id old newPrice newQuantity) := by
  have hcalm : Calm (fun _ => True) s (s.replace id old newPrice newQuantity) :=
    calm_replace hc.ids hold trivial
  have hlt : id < s.orderIdSeq := hc.ids id (by rw [hold]; simp)
  have hstays : Kept s (s.replace id old newPrice newQuantity) := fun k o hk => by
    obtain ⟨o', ho', -⟩ := (drains_replace hold hc.ids).stays k o hk
    exact ⟨o', ho'⟩
  refine ⟨h.call hc hstays (sameOrCanceled_rowSteps.replaced hc.ids hold hactive ..)
    (fun k hk => .inl (inPlay_of_placements hcalm.placements hcalm.book hk))
      fun k o' parentId ho' hle hparent => ?_, hstays⟩
  -- the only new row is the replacement, which has no parent
  rcases replace_cases hlt ho' with ⟨rfl, rfl⟩ | ⟨rfl, rfl⟩ | ⟨-, ho'⟩
  · exact absurd hle (not_le.mpr hlt)
  · exact absurd hparent (by simp [replacement])
  · exact absurd hle (not_le.mpr (hc.ids k (by rw [ho']; simp)))

/-- What a call does to families that wait. -/
def WaitingIf (s s' : Store) : Prop := Consistent s → Waiting s → Consistent s' ∧ Waiting s' ∧ Kept s s'

instance : IsPreorder Store WaitingIf where
  refl _ hc h := ⟨hc, h, fun _ o ho => ⟨o, ho⟩⟩
  trans _ _ _ h h' hc hw := by
    obtain ⟨hc₁, hw₁, hkept⟩ := h hc hw
    obtain ⟨hc₂, hw₂, hkept'⟩ := h' hc₁ hw₁
    exact ⟨hc₂, hw₂, hkept.trans hkept'⟩

theorem waiting_calls (req : Request) : CallSteps WaitingIf req where
  quiet := fun hq hc h => ⟨hc.of_drains (drains_quiet hq), waiting_quiet h hq⟩
  placed := fun _ userId dto _ _ _ _ hc h => ⟨consistent_placed hc userId dto, waiting_placed hc h userId dto⟩
  canceled := fun _ _ _ _ _ _ ho _ hactive hc h =>
    ⟨hc.of_drains (drains_cancel ho), waiting_canceled hc h ho hactive⟩
  replaced := fun _ _ _ _ p q _ _ _ hold _ hactive _ _ _ _ _ hc h =>
    ⟨hc.of_drains (drains_replace hold), waiting_replaced hc h hold hactive p q⟩

/-- **A call of the API.** -/
theorem waiting_call (hc : Consistent s) (h : Waiting s) {req : Request} (hcall : req.isCall = true) :
    Waiting (s.serve req) ∧ Kept s (s.serve req) :=
  ((waiting_calls req).serve hc.ids hcall hc h).2

/-! ### A round of the worker -/

/-- **What the trades of a round complete**: a maker of `trades` with all that is filled of it. -/
def Store.Completes (s : Store) (trades : List Engine.TradeResult) (id : OrderId) : Prop :=
  (∃ t ∈ trades, t.makerOrderId = id) ∧ ∀ o, s.pg.orders id = some o →
    o.quantity ≤ o.filledQuantity + Engine.filledWith trades id


/-- The order has been filled. -/
def Store.Filled (s : Store) (id : OrderId) : Prop := ∃ o, s.pg.orders id = some o ∧ o.status = .filled

/-- **What a batch makes of an order**: it fills it, or activates it, or leaves it as it was. -/
inductive BatchRow (takesPart activated : Prop) (o o' : Order) : Prop
  | fill (part : takesPart) (active : o.status ≠ .pending) (terms : o'.terms = o.terms)
      (more : o.filledQuantity ≤ o'.filledQuantity) (status : o'.status = o'.fillStatus) :
      BatchRow takesPart activated o o'
  | activate (aside : ¬ takesPart) (child : activated) (pending : o.status = .pending)
      (eq : o' = o.activated) : BatchRow takesPart activated o o'
  | keep (aside : ¬ takesPart) (idle : activated → o.status ≠ .pending) (eq : o' = o) :
      BatchRow takesPart activated o o'

/-- **What a batch does**: the pending children of its taker are activated if that is filled. -/
structure Batched (args : BatchArgs) (trades : List DomainTrade) (s t : Store) : Prop where
  rows : ∀ k o, s.pg.orders k = some o → ∃ o', t.pg.orders k = some o' ∧
    BatchRow (TakesPart args trades k)
      (t.Filled args.takerOrderId ∧ o.parentOrderId = some args.takerOrderId) o o'
  old : ∀ k o', t.pg.orders k = some o' → ∃ o, s.pg.orders k = some o
  queued : ∀ k o, s.pg.orders k = some o → o.status = .pending →
    o.parentOrderId = some args.takerOrderId → t.Filled args.takerOrderId → k ∈ t.placements
  new : ∀ k ∈ t.placements, k ∈ s.placements ∨ ∃ o, s.pg.orders k = some o ∧ o.status = .pending ∧
    o.parentOrderId = some args.takerOrderId ∧ t.Filled args.takerOrderId
  book : BookShrinks s.redis t.redis

theorem persistTradeBatch_batched {args : BatchArgs} {trades : List DomainTrade} {rows : List Trade}
    (h : persistTradeBatch args trades s = (.ok rows, t)) (hne : trades ≠ [])
    (hpos : ∀ t ∈ trades, 0 < t.quantity) (hids : IdsBelow s)
    (hparts : ∀ k, TakesPart args trades k →
      ∃ o, s.pg.orders k = some o ∧ o.status ≠ .pending ∧ 0 ≤ o.filledQuantity)
    (hmakers : ∀ t ∈ trades, t.makerOrderId ≠ args.takerOrderId) : Batched args trades s t := by
  obtain ⟨order, horder, hactive, -⟩ := hparts args.takerOrderId (.inl ⟨rfl, hne⟩)
  obtain ⟨s₁, ids, taker, htouch, hall, htaker, hmem⟩ :=
    persistTradeBatch_children h hne hids horder hactive hmakers
  -- the taker is active, so its row is not written once more
  have hfilled : t.Filled args.takerOrderId ↔ taker.status = .filled := by
    have hnot : taker.status ≠ .pending := fun hp => by
      obtain rfl : order = taker :=
        Option.some.inj (horder.symm.trans (htouch.pending _ _ htaker hp))
      exact hactive hp
    have hrow : t.pg.orders args.takerOrderId = some taker := by
      rw [hall.rows, htaker, Option.map_some, Order.activated_of_not hnot, ite_self]
    constructor
    · rintro ⟨o, ho, hf⟩
      rwa [Option.some.inj (hrow.symm.trans ho)]
    · exact fun hf => ⟨taker, hrow, hf⟩
  have hback : ∀ k o, s₁.pg.orders k = some o → o.status = .pending →
      s.pg.orders k = some o := htouch.pending
  -- the rows that take part
  have hpart : ∀ k, TakesPart args trades k → ∀ o, s.pg.orders k = some o → ∃ o',
      t.pg.orders k = some o' ∧ o.status ≠ .pending ∧ o'.terms = o.terms ∧
        o.filledQuantity ≤ o'.filledQuantity ∧ o'.status = o'.fillStatus := by
    intro k hk o ho
    obtain ⟨o₀, ho₀, hnot, hnonneg⟩ := hparts k hk
    obtain rfl : o = o₀ := Option.some.inj (ho.symm.trans ho₀)
    obtain ⟨o', ho', hterms, hquantity, hstatus⟩ := persistTradeBatch_order h hpos hk ho hnonneg
    refine ⟨o', ho', hnot, hterms, ?_, hstatus⟩
    rw [hquantity]
    exact le_add_of_nonneg_right (batchFill_pos hpos hk).le
  refine ⟨fun k o ho => ?_, fun k o' ho' => ?_, fun k o ho hp hparent hf => ?_, fun k hk => ?_,
    fun symbol side => ?_⟩
  -- a row is filled by the batch, activated as a child, or left alone
  · by_cases hk : TakesPart args trades k
    · obtain ⟨o', ho', hnot, hterms, hmore, hstatus⟩ := hpart k hk o ho
      exact ⟨o', ho', .fill hk hnot hterms hmore hstatus⟩
    · have ho₁ : s₁.pg.orders k = some o := (htouch.rows k hk).trans ho
      have hrow := hall.rows k
      rw [ho₁, Option.map_some] at hrow
      by_cases hchild : k ∈ ids
      · rw [if_pos hchild] at hrow
        have hchild' := (hmem k o ho₁).mp hchild
        by_cases hp : o.status = .pending
        · exact ⟨_, hrow, .activate hk ⟨hfilled.mpr hchild'.1, hchild'.2⟩ hp rfl⟩
        · exact ⟨_, hrow, .keep hk (fun _ => hp) (Order.activated_of_not hp)⟩
      · rw [if_neg hchild] at hrow
        exact ⟨o, hrow, .keep hk (fun h => absurd ((hmem k o ho₁).mpr ⟨hfilled.mp h.1, h.2⟩) hchild) rfl⟩
  · by_cases hk : TakesPart args trades k
    · obtain ⟨o, ho, -⟩ := hparts k hk
      exact ⟨o, ho⟩
    · rw [hall.rows, htouch.rows k hk] at ho'
      split_ifs at ho'
      · obtain ⟨o, ho, -⟩ := Option.map_eq_some_iff.mp ho'
        exact ⟨o, ho⟩
      · exact ⟨o', ho'⟩
  · have hk : ¬ TakesPart args trades k := fun hk => by
      obtain ⟨o₀, ho₀, hnot, -⟩ := hparts k hk
      exact hnot (Option.some.inj (ho.symm.trans ho₀) ▸ hp)
    have ho₁ : s₁.pg.orders k = some o := (htouch.rows k hk).trans ho
    exact hall.queued k ((hmem k o ho₁).mpr ⟨hfilled.mp hf, hparent⟩) o ho₁ hp
  · rcases hall.new k hk with hk | ⟨hk, o, ho₁, hp⟩
    · unfold Store.placements at hk ⊢
      rw [htouch.queue] at hk
      exact .inl hk
    · have hchild := (hmem k o ho₁).mp hk
      exact .inr ⟨o, hback k o ho₁ hp, hp, hchild.2, hfilled.mpr hchild.1⟩
  · rw [hall.book]
    exact htouch.book symbol side

/-- An order that is filled and takes part in a batch stays filled. -/
theorem Batched.stays_filled {args : BatchArgs} {trades : List DomainTrade} {P : OrderId → Prop}
    (hb : Batched args trades s t) (h : WaitingOn P s) (hpart : ∀ k, TakesPart args trades k → P k)
    {id : OrderId} {o o' : Order} (ho : s.pg.orders id = some o) (ho' : t.pg.orders id = some o')
    (hfilled : o.status = .filled) : o'.status = .filled := by
  obtain ⟨o₁, ho₁, hrow⟩ := hb.rows id o ho
  obtain rfl : o' = o₁ := Option.some.inj (ho'.symm.trans ho₁)
  cases hrow with
  | fill part active terms more status =>
    have hcomplete := h.complete id o (hpart id part) ho hfilled
    have hquantity : o'.quantity = o.quantity := congrArg OrderTerms.quantity terms
    rw [status, Order.fillStatus, if_pos]
    show o'.quantity ≤ o'.filledQuantity
    rw [hquantity]
    exact hcomplete.trans more
  | activate aside child pending eq =>
    rw [hfilled] at pending
    exact absurd pending OrderStatus.noConfusion
  | keep aside idle eq => rw [eq, hfilled]

/-- **Who a batch completes**: only what takes part. -/
theorem Batched.completes {args : BatchArgs} {trades : List DomainTrade}
    (hb : Batched args trades s t) {id : OrderId} {o o' : Order} (ho : s.pg.orders id = some o)
    (ho' : t.pg.orders id = some o') (hnot : o.status ≠ .filled) (hfilled : o'.status = .filled) :
    TakesPart args trades id := by
  obtain ⟨o₁, ho₁, hrow⟩ := hb.rows id o ho
  obtain rfl : o' = o₁ := Option.some.inj (ho'.symm.trans ho₁)
  cases hrow with
  | fill part active terms more status => exact part
  | activate aside child pending eq =>
    rw [eq, Order.activated, if_pos pending] at hfilled
    exact absurd hfilled OrderStatus.noConfusion
  | keep aside idle eq => exact absurd (eq ▸ hfilled) hnot

/-- **A child of an order that a batch completes**: the taker's children are activated; a maker has
    none that are pending. -/
theorem Batched.child {args : BatchArgs} {trades : List DomainTrade} (hb : Batched args trades s t)
    (hguard : ∀ t' ∈ trades, t.Filled t'.makerOrderId → s.NoPending t'.makerOrderId)
    {parentId id : OrderId} {p p' c : Order} (hp : s.pg.orders parentId = some p)
    (hp' : t.pg.orders parentId = some p') (hnot : p.status ≠ .filled) (hfilled : p'.status = .filled)
    (hc : s.pg.orders id = some c) (hparent : c.parentOrderId = some parentId) :
    parentId = args.takerOrderId ∨ c.status ≠ .pending := by
  rcases hb.completes hp hp' hnot hfilled with ⟨htaker, -⟩ | ⟨t', ht', hmaker⟩
  · exact .inl htaker
  · refine .inr (hguard t' ht' ⟨p', ?_, hfilled⟩ id c hc ?_)
    · rwa [hmaker]
    · rwa [hmaker]

/-- **A batch** keeps children waiting. -/
theorem WaitingOn.batch {args : BatchArgs} {trades : List DomainTrade} {P P' : OrderId → Prop}
    (h : WaitingOn P s) (hb : Batched args trades s t) (hpart : ∀ k, TakesPart args trades k → P k)
    (hguard : ∀ t' ∈ trades, t.Filled t'.makerOrderId → s.NoPending t'.makerOrderId)
    (hplay : ∀ k, P' k → P k ∨ ∃ o, s.pg.orders k = some o ∧ o.status = .pending ∧
      o.parentOrderId = some args.takerOrderId ∧ t.Filled args.takerOrderId) : WaitingOn P' t := by
  refine ⟨fun id c' parentId hc' hparent => ?_, fun id o' hid ho' hfilled => ?_⟩
  · obtain ⟨c, hc⟩ := hb.old id c' hc'
    obtain ⟨c₁, hc₁, hrow⟩ := hb.rows id c hc
    obtain rfl : c' = c₁ := Option.some.inj (hc'.symm.trans hc₁)
    have hparent₀ : c.parentOrderId = some parentId := by
      cases hrow with
      | fill _ _ terms _ _ => exact (congrArg OrderTerms.parentOrderId terms).symm.trans hparent
      | activate _ _ _ eq =>
        rw [eq] at hparent
        exact (congrArg OrderTerms.parentOrderId c.activated_terms).symm.trans hparent
      | keep _ _ eq => rwa [← eq]
    -- the family as it was before the batch
    obtain ⟨p, hp, hwaits, hin⟩ := h.family id c parentId hc hparent₀
    obtain ⟨p', hp', -⟩ := hb.rows parentId p hp
    have hstays : p.status = .filled → p'.status = .filled := hb.stays_filled h hpart hp hp'
    refine ⟨p', hp', ?_, fun hid => ?_⟩
    · cases hrow with
      | fill part active terms more status =>
        -- what is traded is in play, so its parent was filled before
        refine ⟨fun hnot => absurd (hstays (hin (hpart id part))) hnot, fun _ => ?_⟩
        rw [status]
        exact c'.fillStatus_ne_pending
      | activate aside child pending eq =>
        -- only the taker's children are activated
        have hparent' : parentId = args.takerOrderId :=
          Option.some.inj (hparent₀.symm.trans child.2)
        obtain ⟨o, ho, hf⟩ := child.1
        obtain rfl : o = p' := Option.some.inj (ho.symm.trans (hparent' ▸ hp'))
        refine ⟨fun hnot => absurd hf hnot, fun _ => ?_⟩
        rw [eq]
        exact c.activated_status
      | keep aside idle eq =>
        rw [eq]
        refine ⟨fun hnot => hwaits.1 fun hf => hnot (hstays hf), fun hf => ?_⟩
        by_cases hbefore : p.status = .filled
        -- filled by this batch: the guard leaves no pending child of a maker
        · exact hwaits.2 hbefore
        · rcases hb.child hguard hp hp' hbefore hf hc hparent₀ with rfl | hnot
          · exact idle ⟨⟨p', hp', hf⟩, hparent₀⟩
          · exact hnot
    · rcases hplay id hid with hid | ⟨o, ho, -, hchild, hf⟩
      · exact hstays (hin hid)
      · obtain rfl : c = o := Option.some.inj (hc.symm.trans ho)
        have hparent' : parentId = args.takerOrderId := Option.some.inj (hparent₀.symm.trans hchild)
        obtain ⟨x, hx, hf⟩ := hf
        obtain rfl : x = p' := Option.some.inj (hx.symm.trans (hparent' ▸ hp'))
        exact hf
  · obtain ⟨o, ho⟩ := hb.old id o' ho'
    obtain ⟨o₁, ho₁, hrow⟩ := hb.rows id o ho
    obtain rfl : o' = o₁ := Option.some.inj (ho'.symm.trans ho₁)
    cases hrow with
    | fill part active terms more status =>
      rw [status, Order.fillStatus] at hfilled
      split_ifs at hfilled with hle
      exact hle
    | activate aside child pending eq =>
      rw [eq, Order.activated, if_pos pending] at hfilled
      exact absurd hfilled OrderStatus.noConfusion
    | keep aside idle eq =>
      subst eq
      rcases hplay id hid with hid | ⟨x, hx, hp, -⟩
      · exact h.complete id o' hid ho hfilled
      · obtain rfl : o' = x := Option.some.inj (ho.symm.trans hx)
        rw [hfilled] at hp
        exact absurd hp OrderStatus.noConfusion

/-! ### What a request does to a pending child -/

/-- **Pending children follow their parents**: if the parent has been filled, the child is new and has
    been queued, once; if not, it is still pending, or has been canceled.  Nothing becomes pending
    again. -/
structure ChildFollows (s s' : Store) : Prop where
  once : ∀ id o o', s.pg.orders id = some o → s'.pg.orders id = some o' → o'.status = .pending →
    o.status = .pending
  child : ∀ id c parentId, s.pg.orders id = some c → c.status = .pending →
    c.parentOrderId = some parentId → ∃ c' p', s'.pg.orders id = some c' ∧
      s'.pg.orders parentId = some p' ∧
      (p'.status = .filled → c'.status = .new ∧ s.placements.count id = 0 ∧ s'.placements.count id = 1) ∧
      (p'.status ≠ .filled → c'.status = .pending ∨ c'.status = .canceled)

theorem Orderly.count_pending (h : Orderly s) {id : OrderId} {o : Order} (ho : s.pg.orders id = some o)
    (hp : o.status = .pending) : s.placements.count id = 0 := by
  refine List.count_eq_zero.mpr fun hid => ?_
  obtain ⟨o', ho', hnot⟩ := h.consistent.inPlay_row (.inl hid)
  exact hnot (Option.some.inj (ho.symm.trans ho') ▸ hp)

/-- A batch. -/
theorem Batched.childFollows {args : BatchArgs} {trades : List DomainTrade} {P : OrderId → Prop}
    {s₀ s' : Store} (hb : Batched args trades s t) (hs : Orderly s₀) (hs' : Orderly s')
    (h : WaitingOn P s) (hbefore : s.pg.orders = s₀.pg.orders) (horders : s'.pg.orders = t.pg.orders)
    (hplacements : s'.placements = t.placements)
    (hguard : ∀ t' ∈ trades, t.Filled t'.makerOrderId → s.NoPending t'.makerOrderId) :
    ChildFollows s₀ s' := by
  refine ⟨fun id o o' ho ho' hp => ?_, fun id c parentId hc hpending hparent => ?_⟩
  · rw [← hbefore] at ho
    rw [horders] at ho'
    obtain ⟨o₁, ho₁, hrow⟩ := hb.rows id o ho
    obtain rfl : o' = o₁ := Option.some.inj (ho'.symm.trans ho₁)
    cases hrow with
    | fill _ _ _ _ status => exact absurd (status ▸ hp) o'.fillStatus_ne_pending
    | activate _ _ pending _ => exact pending
    | keep _ _ eq => exact eq ▸ hp
  have hcount := hs.count_pending hc hpending
  rw [← hbefore] at hc
  rw [horders, hplacements]
  obtain ⟨p, hp, hwaits, -⟩ := h.family id c parentId hc hparent
  have hnot : p.status ≠ .filled := fun hf => hwaits.2 hf hpending
  obtain ⟨c', hc', hrow⟩ := hb.rows id c hc
  obtain ⟨p', hp', -⟩ := hb.rows parentId p hp
  refine ⟨c', p', hc', hp', fun hf => ?_, fun hnf => ?_⟩
  -- the parent is filled now: it is the taker, and the child is queued once
  · have htaker := (hb.child hguard hp hp' hnot hf hc hparent).resolve_right fun h => h hpending
    rw [htaker] at hparent hp'
    have hfilled : t.Filled args.takerOrderId := ⟨p', hp', hf⟩
    have hqueued := hb.queued id c hc hpending hparent hfilled
    refine ⟨?_, hcount, ?_⟩
    · cases hrow with
      | fill _ active _ _ _ => exact absurd hpending active
      | activate _ _ _ eq => rw [eq, Order.activated, if_pos hpending]
      | keep _ idle _ => exact absurd hpending (idle ⟨hfilled, hparent⟩)
    · rw [← hplacements] at hqueued ⊢
      exact List.count_eq_one_of_mem hs'.fresh.nodup hqueued
  · cases hrow with
    | fill _ active _ _ _ => exact absurd hpending active
    | activate _ child _ _ =>
      have htaker : parentId = args.takerOrderId := Option.some.inj (hparent.symm.trans child.2)
      obtain ⟨o, ho, hf⟩ := child.1
      exact absurd (Option.some.inj (hp'.symm.trans (htaker ▸ ho)) ▸ hf) hnf
    | keep _ _ eq => exact .inl (eq ▸ hpending)

/-- Where no pending child and no parent of one is written. -/
theorem WaitingOn.childFollows {P : OrderId → Prop} (h : WaitingOn P s)
    (honce : ∀ id o o', s.pg.orders id = some o → s'.pg.orders id = some o' → o'.status = .pending →
      o.status = .pending)
    (hchild : ∀ id c, s.pg.orders id = some c → c.status = .pending → c.parentOrderId ≠ none →
      ∃ c', s'.pg.orders id = some c' ∧ (c'.status = .pending ∨ c'.status = .canceled))
    (hparent : ∀ id p, s.pg.orders id = some p → ∃ p', s'.pg.orders id = some p' ∧
      (p'.status = .filled → p.status = .filled ∨ s.NoPending id)) : ChildFollows s s' := by
  refine ⟨honce, fun id c parentId hc hpending hof => ?_⟩
  obtain ⟨p, hp, hwaits, -⟩ := h.family id c parentId hc hof
  obtain ⟨c', hc', hstatus⟩ := hchild id c hc hpending (by rw [hof]; simp)
  obtain ⟨p', hp', hfilled⟩ := hparent parentId p hp
  refine ⟨c', p', hc', hp', fun hf => ?_, fun _ => hstatus⟩
  rcases hfilled hf with hf | hnone
  · exact absurd hpending (hwaits.2 hf)
  · exact absurd hpending (hnone id c hc hof)

/-- The rows are as they were, and nothing new is in play. -/
theorem follows_of_rows (h : Waiting s) (horders : s'.pg.orders = s.pg.orders)
    (hplay : ∀ id, s'.InPlay id → s.InPlay id) : Waiting s' ∧ ChildFollows s s' := by
  refine ⟨h.of_rows horders hplay, h.childFollows (fun id o o' ho ho' hp => ?_)
    (fun id c hc hp _ => ?_) fun id p hp => ?_⟩
  · rw [horders] at ho'
    rwa [Option.some.inj (ho.symm.trans ho')]
  · exact ⟨c, by rw [horders]; exact hc, .inl hp⟩
  · exact ⟨p, by rw [horders]; exact hp, .inl⟩

/-- What follows a match writes no order, and may rest the one that is placed. -/
theorem FinishStep.quiet {p : OrderActionPayload} {remaining : ℚ} (h : FinishStep p remaining s t) :
    t.pg.orders = s.pg.orders ∧ t.placements = s.placements ∧
      ∀ id, t.InPlay id → s.InPlay id ∨ id = p.orderId := by
  cases h with
  | left _ => exact ⟨rfl, rfl, fun _ h => .inl h⟩
  | unscored _ _ _ _ => exact ⟨rfl, rfl, fun _ h => .inl h⟩
  | refunded _ _ _ _ _ => exact ⟨rfl, rfl, fun _ h => .inl h⟩
  | rested _ _ score _ =>
    refine ⟨rfl, rfl, fun id hid => ?_⟩
    rcases hid with hid | ⟨symbol, side, hid⟩
    · exact .inl (.inl hid)
    · rcases members_addToBook hid with hid | ⟨rfl, -, -⟩
      · exact .inl (.inr ⟨symbol, side, hid⟩)
      · exact .inr rfl

/-- Triggering the order does not concern children: if it is pending, it is none, and has none that are
    pending. -/
def Store.Bare (s : Store) (id : OrderId) : Prop :=
  ∀ o, s.pg.orders id = some o → o.status = .pending → o.parentOrderId = none ∧ s.NoPending id

/-- **The requests that leave children to the taker's branch**: no batch completes a maker that has
    pending children; the monitor selects no pending child, and no pending stop that has some. -/
def SltpGuard (s : Store) (req : Request) : Prop :=
  match req with
  | .print m symbol price =>
      let r := trailingUpdate m symbol price s.redis
      ∀ id ∈ getAllTriggeredStops r symbol price ++ getTriggeredTrailingStops r symbol price, s.Bare id
  | .rescan symbol lastPrice =>
      ∀ id ∈ rescanSelected s.pg s.orderIdSeq symbol lastPrice, s.Bare id
  | .work => ∀ p rest r, s.redis.ordersQueue = p :: rest → p.action = .place →
      (matchPlaced p (s.setQueue rest)).1 = .ok r → ∀ id, s.Completes r.trades id → s.NoPending id
  | _ => True

/-- **A batch of a round**, and what follows it. -/
theorem follows_traded {p : OrderActionPayload} {rest : List OrderActionPayload} {r : MatchResult}
    {e : Engine.CMatchingEngine} {pair : TradingPair} {rows : List Trade} (hs : Orderly s) (hw : Waiting s)
    (hs' : Orderly s') (hqueue : s.redis.ordersQueue = p :: rest) (hplace : p.action = .place)
    (hmatched : Matched p (s.setQueue rest) r) (hne : r.trades ≠ [])
    (hguard : ∀ id, s.Completes r.trades id → s.NoPending id)
    (hbatch : persistTradeBatch (batchArgs p pair) ((s.setQueue rest).domainTrades p r)
      ((s.setQueue rest).setEngine e) = (.ok rows, t))
    (finish : FinishStep p r.remainingQty t s') : Waiting s' ∧ ChildFollows s s' := by
  have hp := hs.placeable hqueue hplace
  have htrading := hp.trading hmatched
  have hpos := hmatched.trade_pos
  have hmakers : ∀ t ∈ (s.setQueue rest).domainTrades p r, t.makerOrderId ≠ p.orderId :=
    fun t ht => hmatched.maker_ne hp.consistent hp.row ht
  have hparts : ∀ k, TakesPart (batchArgs p pair) ((s.setQueue rest).domainTrades p r) k →
      ∃ o, s.pg.orders k = some o ∧ o.status ≠ .pending ∧ 0 ≤ o.filledQuantity := by
    intro k hk
    obtain ⟨-, o, ho, hnot⟩ := htrading.active k (hk.imp (·.1) id)
    exact ⟨o, ho, hnot, hs.fresh.nonneg k o ho⟩
  have hb : Batched (batchArgs p pair) ((s.setQueue rest).domainTrades p r)
      ((s.setQueue rest).setEngine e) t :=
    persistTradeBatch_batched hbatch (by simpa [Store.domainTrades] using hne) hpos hs.consistent.ids
      hparts hmakers
  have hin : p.orderId ∈ s.placements := mem_placements.mpr
    ⟨p, by rw [hqueue]; exact List.mem_cons_self, hplace, rfl⟩
  -- whatever takes part is the queued taker or a booked maker
  have hplaying : ∀ k, TakesPart (batchArgs p pair) ((s.setQueue rest).domainTrades p r) k →
      s.InPlay k := by
    rintro k (⟨rfl, -⟩ | ⟨t, ht, rfl⟩)
    · exact .inl hin
    · exact .inr ⟨_, _, hmatched.maker_booked ht⟩
  -- a maker is completed by its trades
  have hnone : ∀ t' ∈ (s.setQueue rest).domainTrades p r, t.Filled t'.makerOrderId →
      s.NoPending t'.makerOrderId := by
    rintro t' ht' ⟨o', ho', hf⟩
    have hpart : TakesPart (batchArgs p pair) ((s.setQueue rest).domainTrades p r) t'.makerOrderId :=
      .inr ⟨t', ht', rfl⟩
    obtain ⟨o, ho, -, hnonneg⟩ := hparts _ hpart
    obtain ⟨o₁, ho₁, hterms, hquantity, hstatus⟩ := persistTradeBatch_order hbatch hpos hpart ho hnonneg
    obtain rfl : o' = o₁ := Option.some.inj (ho'.symm.trans ho₁)
    refine hguard _ ⟨?_, fun x hx => ?_⟩
    · obtain ⟨t₀, ht₀, rfl⟩ := List.mem_map.mp ht'
      exact ⟨t₀, ht₀, rfl⟩
    · obtain rfl : o = x := Option.some.inj (ho.symm.trans hx)
      rw [hstatus, Order.fillStatus] at hf
      split_ifs at hf with hle
      rw [hquantity, batchFill_maker (hmakers t' ht'),
        show o'.quantity = o.quantity from congrArg OrderTerms.quantity hterms] at hle
      exact hle
  have hon : WaitingOn s.InPlay ((s.setQueue rest).setEngine e) := hw.of_rows rfl fun _ h => h
  obtain ⟨horders, hplacements, hplay⟩ := finish.quiet
  have hwaiting : WaitingOn s'.InPlay t := by
    refine hon.batch hb hplaying hnone fun k hk => ?_
    rcases hplay k hk with (hk | ⟨symbol, side, hk⟩) | rfl
    · refine (hb.new k hk).imp (fun hk => .inl ?_) id
      obtain ⟨q, hq, h⟩ := mem_placements.mp hk
      exact mem_placements.mpr ⟨q, by rw [hqueue]; exact List.mem_cons_of_mem _ hq, h⟩
    · exact .inl (.inr ⟨symbol, side, hb.book.mem hk⟩)
    · exact .inl (.inl hin)
  exact ⟨hwaiting.of_rows horders fun _ h => h, hb.childFollows hs hs' hon rfl horders hplacements hnone⟩

/-- **A round of the worker.** -/
theorem follows_work (hs : Orderly s) (hw : Waiting s) (hguard : SltpGuard s .work) :
    Waiting (s.serve .work) ∧ ChildFollows s (s.serve .work) := by
  have hs' := orderly_serve hs .work
  have hx : s.serve .work = (work s).2 := rfl
  rw [hx] at hs' ⊢
  cases hqueue : s.redis.ordersQueue with
  | nil =>
    rw [work_nil hqueue]
    exact follows_of_rows hw rfl fun _ h => h
  | cons p rest =>
    -- popping the payload puts nothing into play
    have hsub : ∀ id, (s.setQueue rest).InPlay id → s.InPlay id := by
      rintro id (hid | hid)
      · obtain ⟨q, hq, h⟩ := mem_placements.mp hid
        exact .inl (mem_placements.mpr ⟨q, by rw [hqueue]; exact List.mem_cons_of_mem _ hq, h⟩)
      · exact .inr hid
    rw [work_cons hqueue] at hs' ⊢
    by_cases hplace : p.action = .place
    swap
    · -- a payload that is no placement is dropped
      rw [if_neg hplace] at hs' ⊢
      exact follows_of_rows hw rfl hsub
    rw [if_pos hplace] at hs' ⊢
    have hin : s.InPlay p.orderId := .inl (mem_placements.mpr
      ⟨p, by rw [hqueue]; exact List.mem_cons_self, hplace, rfl⟩)
    have hready : EngineReady (s.setQueue rest).engine := hs.consistent.engine
    obtain ⟨e, ready, hstate, hmatched⟩ := matchPlaced_spec hready p
    rcases hmatch : matchPlaced p (s.setQueue rest) with ⟨err | r, s₁⟩ <;>
      rw [hmatch] at hstate hmatched <;> obtain rfl : s₁ = (s.setQueue rest).setEngine e := hstate
    · rw [handlePlace_unmatched hmatch]
      exact follows_of_rows hw rfl hsub
    obtain ⟨hq, hpos, hfacts⟩ := hmatched r rfl
    have matched : Matched p (s.setQueue rest) r := ⟨hq, hpos, hfacts⟩
    -- a placement ends refused or without a pair, without a trade, with its batch committed, or with
    -- the batch rolled back
    rcases handlePlace_matched hmatch with hx | ⟨-, ⟨-, hx⟩ | ⟨hne, pair, -,
      ⟨rows, s₂, hbatch, hx⟩ | ⟨err, s₂, hbatch, hx⟩⟩⟩ <;> rw [hx] at hs' ⊢
    · exact follows_of_rows hw rfl hsub
    · obtain ⟨horders, -, hplay⟩ := (finishPlaced_step p r.remainingQty _).quiet
      refine follows_of_rows hw horders fun id hid => ?_
      rcases hplay id hid with hid | rfl
      · exact hsub id hid
      · exact hin
    · exact follows_traded hs hw hs' hqueue hplace matched hne
        (hguard p rest r hqueue hplace (congrArg Prod.fst hmatch)) hbatch (finishPlaced_step p _ _)
    · have hp := (hs.placeable hqueue hplace).setEngine ready
      have hdrained := persistTradeBatch_moves_error (drains_fillSteps _ _) hbatch hp.consistent.ids
      have hqueue' := persistTradeBatch_queue_error hbatch
      refine follows_of_rows hw rfl fun id hid => hsub id (inPlay_of_placements ?_ hdrained.book hid)
      unfold Store.placements
      exact congrArg (fun q => (List.filter _ q).map _) hqueue'

/-! ### Triggers -/

/-- **What triggering the stops of `D` does**: pending ones are filled, and new orders are inserted and
    queued whose parents these are. -/
structure Triggers (D : OrderId → Prop) (s s' : Store) : Prop where
  seq : s.orderIdSeq ≤ s'.orderIdSeq
  stays : ∀ k o, s.pg.orders k = some o → ∃ o', s'.pg.orders k = some o' ∧
    (o' = o ∨ D k ∧ o.status = .pending ∧ o'.status = .filled ∧ o'.parentOrderId = o.parentOrderId)
  old : ∀ k o', s'.pg.orders k = some o' → (∃ o, s.pg.orders k = some o) ∨
    s.orderIdSeq ≤ k ∧ o'.status = .new ∧ ∃ stop p', D stop ∧ o'.parentOrderId = some stop ∧
      s'.pg.orders stop = some p' ∧ p'.status = .filled
  play : ∀ k, s'.InPlay k → s.InPlay k ∨ s.orderIdSeq ≤ k

theorem triggers_of_orders {D : OrderId → Prop} (hseq : s'.orderIdSeq = s.orderIdSeq)
    (horders : s'.pg.orders = s.pg.orders) (hplay : ∀ k, s'.InPlay k → s.InPlay k) :
    Triggers D s s' where
  seq := hseq.ge
  stays := fun _ o ho => ⟨o, by rw [horders]; exact ho, .inl rfl⟩
  old := fun _ o' ho' => .inl ⟨o', by rw [horders] at ho'; exact ho'⟩
  play := fun k hk => .inl (hplay k hk)

theorem Triggers.trans {D : OrderId → Prop} {s'' : Store} (h : Triggers D s s')
    (h' : Triggers D s' s'') : Triggers D s s'' := by
  refine ⟨h.seq.trans h'.seq, fun k o ho => ?_, fun k o'' ho'' => ?_, fun k hk => ?_⟩
  · obtain ⟨o', ho', hrow⟩ := h.stays k o ho
    obtain ⟨o'', ho'', hrow'⟩ := h'.stays k o' ho'
    refine ⟨o'', ho'', ?_⟩
    rcases hrow' with rfl | ⟨hD, hpending, hfilled, hparent⟩
    · exact hrow
    · rcases hrow with rfl | ⟨-, -, hf, -⟩
      · exact .inr ⟨hD, hpending, hfilled, hparent⟩
      · rw [hf] at hpending
        exact absurd hpending OrderStatus.noConfusion
  · rcases h'.old k o'' ho'' with ⟨o', ho'⟩ | ⟨hle, hnew, stop, p'', hD, hparent, hp'', hf⟩
    · rcases h.old k o' ho' with hold | ⟨hle, hnew, stop, p', hD, hparent, hp', hf⟩
      · exact .inl hold
      · -- neither the child nor its parent is pending, so both stay
        obtain ⟨o₁, ho₁, rfl | ⟨-, hpending, -⟩⟩ := h'.stays k o' ho'
        · obtain ⟨p₁, hp₁, rfl | ⟨-, hpending, -⟩⟩ := h'.stays stop p' hp'
          · obtain rfl : o'' = o₁ := Option.some.inj (ho''.symm.trans ho₁)
            exact .inr ⟨hle, hnew, stop, p₁, hD, hparent, hp₁, hf⟩
          · rw [hf] at hpending
            exact absurd hpending OrderStatus.noConfusion
        · rw [hnew] at hpending
          exact absurd hpending OrderStatus.noConfusion
    · exact .inr ⟨h.seq.trans hle, hnew, stop, p'', hD, hparent, hp'', hf⟩
  · rcases h'.play k hk with hk | hle
    · exact h.play k hk
    · exact .inr (h.seq.trans hle)

/-- One stop. -/
theorem triggers_tryTrigger {D : OrderId → Prop} {id : OrderId} (hD : D id) (hc : Consistent s)
    (isTrailing : Bool) : Triggers D s (tryTrigger isTrailing id s).2 := by
  obtain ⟨s', hx, hcases⟩ := triggerStopOrder_cases id isTrailing s
  have hx' : tryTrigger isTrailing id s = (.ok ⟨⟩, s') := by
    unfold tryTrigger Prog.tryExcept
    rw [hx]
  rw [hx']
  -- refused, refused after the balance row was made, or triggered
  rcases hcases with rfl | ⟨key, rfl⟩ | ⟨order, pair, lock, horder, hpending, -, -, -, -, rfl⟩
  · exact triggers_of_orders rfl rfl fun _ h => h
  · obtain ⟨balances, updates, hq⟩ := quiet_withRow s key
    rw [hq]
    exact triggers_of_orders rfl rfl fun _ h => h
  -- the new order's id is fresh, so the two writes do not meet
  · have hlt : id < s.orderIdSeq := hc.ids id (by rw [horder]; simp)
    have hrow : ∀ k, (s.trigger id order lock isTrailing).pg.orders k =
        Function.update (Function.update s.pg.orders id
          (some { order with status := .filled, version := order.version + 1 })) s.orderIdSeq
            (some (triggeredChild id order)) k := fun _ => rfl
    have hstop : (s.trigger id order lock isTrailing).pg.orders id =
        some { order with status := .filled, version := order.version + 1 } := by
      rw [hrow, Function.update_of_ne hlt.ne, Function.update_self]
    refine ⟨Nat.le_succ _, fun k o ho => ?_, fun k o' ho' => ?_, fun k hk => ?_⟩
    · by_cases hk : k = id
      · subst hk
        obtain rfl : order = o := Option.some.inj (horder.symm.trans ho)
        exact ⟨_, hstop, .inr ⟨hD, hpending, rfl, rfl⟩⟩
      · have hne : k ≠ s.orderIdSeq := (hc.ids k (by rw [ho]; simp)).ne
        refine ⟨o, ?_, .inl rfl⟩
        rw [hrow, Function.update_of_ne hne, Function.update_of_ne hk]
        exact ho
    · rw [hrow] at ho'
      by_cases hk : k = s.orderIdSeq
      · subst hk
        rw [Function.update_self] at ho'
        rw [← Option.some.inj ho']
        exact .inr ⟨le_rfl, rfl, id, _, hD, rfl, hstop, rfl⟩
      · rw [Function.update_of_ne hk] at ho'
        by_cases hid : k = id
        · exact .inl ⟨order, by rw [hid]; exact horder⟩
        · rw [Function.update_of_ne hid] at ho'
          exact .inl ⟨o', ho'⟩
    · rcases hk with hk | ⟨symbol, side, hk⟩
      · have hqueue : (s.trigger id order lock isTrailing).placements =
            s.placements ++ [s.orderIdSeq] := by
          have hredis : (s.trigger id order lock isTrailing).redis.ordersQueue =
              s.redis.ordersQueue ++ [buildOrderActionPayload
                (triggeredPayload id s.orderIdSeq (triggeredChild id order))] := replaceStop_queue ..
          unfold Store.placements
          rw [hredis, List.filter_append, List.map_append]
          rfl
        rw [hqueue, List.mem_append] at hk
        exact hk.imp .inl fun hk => (List.mem_singleton.mp hk).ge
      · have hbook : (s.trigger id order lock isTrailing).redis.book = s.redis.book :=
          replaceStop_book ..
        rw [hbook] at hk
        exact .inl (.inr ⟨symbol, side, hk⟩)

/-- **Several stops**, one after the other. -/
theorem triggers_triggerAll {D : OrderId → Prop} (isTrailing : Bool) {ids : List OrderId}
    (hD : ∀ id ∈ ids, D id) (hc : Consistent s) :
    Triggers D s (triggerAll isTrailing ids s) ∧ Consistent (triggerAll isTrailing ids s) := by
  induction ids generalizing s with
  | nil => exact ⟨triggers_of_orders rfl rfl fun _ h => h, hc⟩
  | cons id ids ih =>
    rw [List.forall_mem_cons] at hD
    have hone := triggers_tryTrigger hD.1 hc isTrailing
    obtain ⟨hrest, hc'⟩ := ih hD.2 (consistent_monitor.tryTrigger isTrailing id s hc)
    exact ⟨hone.trans hrest, hc'⟩

/-- **Triggers of bare stops** keep children waiting. -/
theorem follows_triggers {D : OrderId → Prop} (hc : Consistent s) (hw : Waiting s)
    (h : Triggers D s s') (hbare : ∀ k, D k → s.Bare k) : Waiting s' ∧ ChildFollows s s' := by
  have hold : ∀ {k o}, s.pg.orders k = some o → s'.InPlay k → s.InPlay k := fun ho hk =>
    (h.play _ hk).resolve_right (not_le.mpr (hc.ids _ (by rw [ho]; simp)))
  refine ⟨⟨fun id c' parentId hc' hparent => ?_, fun id o' hid ho' hfilled => ?_⟩,
    hw.childFollows (fun id o o' ho ho' hp => ?_) (fun id c hrow hp hne => ?_) fun id p hp => ?_⟩
  · rcases h.old id c' hc' with ⟨c, hrow⟩ | ⟨hle, hnew, stop, p', -, hof, hp', hf⟩
    · have hsame : c' = c := by
        obtain ⟨c₁, hc₁, rfl | ⟨hD, hp, -, hof⟩⟩ := h.stays id c hrow
        · exact Option.some.inj (hc'.symm.trans hc₁)
        · obtain rfl : c' = c₁ := Option.some.inj (hc'.symm.trans hc₁)
          rw [hparent, ((hbare id hD) c hrow hp).1] at hof
          exact absurd hof (by simp)
      subst hsame
      obtain ⟨p, hp, hwaits, hin⟩ := hw.family id c' parentId hrow hparent
      obtain ⟨p', hp', rfl | ⟨hD, hpending, hf, -⟩⟩ := h.stays parentId p hp
      · exact ⟨p', hp', hwaits, fun hid => hin (hold hrow hid)⟩
      -- the parent is a stop that triggered: it has no child waiting
      · exact ⟨p', hp', ⟨fun hnot => absurd hf hnot,
          fun _ => (hbare parentId hD p hp hpending).2 id c' hrow hparent⟩, fun _ => hf⟩
    · obtain rfl : stop = parentId := Option.some.inj (hof.symm.trans hparent)
      refine ⟨p', hp', ⟨fun hnot => absurd hf hnot, fun _ => ?_⟩, fun _ => hf⟩
      rw [hnew]
      exact OrderStatus.noConfusion
  · rcases h.old id o' ho' with ⟨o, ho⟩ | ⟨-, hnew, -⟩
    · have hplay := hold ho hid
      obtain ⟨o₁, ho₁, rfl | ⟨-, hp, -⟩⟩ := h.stays id o ho
      · obtain rfl : o' = o₁ := Option.some.inj (ho'.symm.trans ho₁)
        exact hw.complete id o' hplay ho hfilled
      · obtain ⟨o₂, ho₂, hnot⟩ := hc.inPlay_row hplay
        exact absurd hp (Option.some.inj (ho.symm.trans ho₂) ▸ hnot)
    · rw [hfilled] at hnew
      exact absurd hnew OrderStatus.noConfusion
  · obtain ⟨o₁, ho₁, rfl | ⟨-, hpending, -⟩⟩ := h.stays id o ho
    · rwa [Option.some.inj (ho'.symm.trans ho₁)] at hp
    · exact hpending
  · obtain ⟨c', hc', rfl | ⟨hD, -⟩⟩ := h.stays id c hrow
    · exact ⟨c', hc', .inl hp⟩
    · exact absurd (hbare id hD c hrow hp).1 hne
  · obtain ⟨p', hp', rfl | ⟨hD, hpending, -⟩⟩ := h.stays id p hp
    · exact ⟨p', hp', .inl⟩
    · exact ⟨p', hp', fun _ => .inr (hbare id hD p hp hpending).2⟩

/-! ### Runs -/

/-- **One request** that is guarded. -/
theorem follows_serve (hs : Orderly s) (hw : Waiting s) (req : Request) (hguard : SltpGuard s req) :
    Waiting (s.serve req) ∧ ChildFollows s (s.serve req) := by
  -- the calls fill no order: a row stays as it is or is canceled
  have hcall : req.isCall = true → Waiting (s.serve req) ∧ ChildFollows s (s.serve req) := by
    intro hcall
    obtain ⟨hw', hkept⟩ := waiting_call hs.consistent hw hcall
    have hmove := sameOrCanceled_rowSteps.serve hs.consistent.ids hcall
    have hrow : ∀ id o, s.pg.orders id = some o →
        ∃ o', (s.serve req).pg.orders id = some o' ∧ SameOrCanceled o o' := by
      intro id o ho
      obtain ⟨o', ho'⟩ := hkept id o ho
      rcases hmove.rows id o' ho' with ⟨o₁, ho₁, hsame⟩ | ⟨hle, -⟩
      · obtain rfl : o = o₁ := Option.some.inj (ho.symm.trans ho₁)
        exact ⟨o', ho', hsame⟩
      · exact absurd hle (not_le.mpr (hs.consistent.ids id (by rw [ho]; simp)))
    refine ⟨hw', hw.childFollows (fun id o o' ho ho' hp => ?_) (fun id c hc hp _ => ?_)
      fun id p hp => ?_⟩
    · obtain ⟨o₁, ho₁, -, -, -, hstatus⟩ := hrow id o ho
      obtain rfl : o' = o₁ := Option.some.inj (ho'.symm.trans ho₁)
      rcases hstatus with h | h
      · exact h.symm.trans hp
      · exact absurd (h.symm.trans hp) OrderStatus.noConfusion
    · obtain ⟨c', hc', -, -, -, hstatus⟩ := hrow id c hc
      exact ⟨c', hc', hstatus.imp_left fun h => h.trans hp⟩
    · obtain ⟨p', hp', -, -, hiff, -⟩ := hrow id p hp
      exact ⟨p', hp', fun hf => .inl (hiff.mp hf)⟩
  cases req with
  | place userId dto => exact hcall rfl
  | placeBulk userId dtos => exact hcall rfl
  | cancel userId orderId => exact hcall rfl
  | modify userId orderId newPrice newQuantity => exact hcall rfl
  | print m symbol price =>
    -- the trailing update writes only the two trailing indexes
    have hupdate : ∃ trailing states, s.setRedis (trailingUpdate m symbol price) =
        s.setRedis fun r => { r with trailing := trailing, trailingState := states } := by
      obtain ⟨trailing, states, hx⟩ := trailingUpdate_eq m symbol price s.redis
      refine ⟨trailing, states, ?_⟩
      unfold Store.setRedis
      rw [hx]
    obtain ⟨trailing, states, hset⟩ := hupdate
    have hc : Consistent (s.setRedis (trailingUpdate m symbol price)) := by
      rw [hset]
      exact hs.consistent.of_drains (drains_setRedis (bookShrinks_refl rfl) fun _ h => .inl h)
    let r := trailingUpdate m symbol price s.redis
    let D := fun id => id ∈ getAllTriggeredStops r symbol price ++ getTriggeredTrailingStops r symbol price
    have hstart : Triggers D s (s.setRedis (trailingUpdate m symbol price)) := by
      rw [hset]
      exact triggers_of_orders rfl rfl fun _ h => h
    have hplain : ∀ id ∈ getAllTriggeredStops r symbol price, D id := fun id => List.mem_append_left _
    have htrailing : ∀ id ∈ getTriggeredTrailingStops r symbol price, D id :=
      fun id => List.mem_append_right _
    obtain ⟨h₁, hc₁⟩ := triggers_triggerAll false hplain hc
    have h₂ := (triggers_triggerAll true htrailing hc₁).1
    rw [serve_print]
    exact follows_triggers hs.consistent hw (hstart.trans (h₁.trans h₂)) hguard
  | rescan symbol lastPrice =>
    have hx : s.serve (.rescan symbol lastPrice) =
        triggerAll false (rescanSelected s.pg s.orderIdSeq symbol lastPrice) s :=
      congrArg Prod.snd (forEach_tryTrigger false (rescanSelected s.pg s.orderIdSeq symbol lastPrice) s)
    have hD : ∀ id ∈ rescanSelected s.pg s.orderIdSeq symbol lastPrice,
        (fun id => id ∈ rescanSelected s.pg s.orderIdSeq symbol lastPrice) id := fun _ h => h
    rw [hx]
    exact follows_triggers hs.consistent hw (triggers_triggerAll false hD hs.consistent).1 hguard
  | work => exact follows_work hs hw hguard

end

/-- **Children follow their parents** in every run that leaves them to the taker's branch: a child waits
    until its parent is filled, and is queued by the request that fills it. -/
theorem children_follow (users : Finset UserId) (pairs : Symbol → Option TradingPair)
    (balances : Ledger.BalanceKey → Option Ledger.Row) {reqs : List Request}
    (h : Run.Along Store.serve SltpGuard (Store.start users pairs balances) reqs) :
    Run.Along Store.serve (fun s req => ChildFollows s (s.serve req)) (Store.start users pairs balances)
        reqs ∧
      ∀ id c parentId, ((Store.start users pairs balances).serveAll reqs).pg.orders id = some c →
        c.parentOrderId = some parentId →
          ∃ p, ((Store.start users pairs balances).serveAll reqs).pg.orders parentId = some p ∧
            c.WaitsFor p := by
  let I := fun s : Store => Orderly s ∧ Waiting s
  have hstep : ∀ s req, I s → SltpGuard s req →
      I (s.serve req) ∧ ChildFollows s (s.serve req) := by
    rintro s req ⟨hs, hw⟩ hguard
    obtain ⟨hw', hfollows⟩ := follows_serve hs hw req hguard
    exact ⟨⟨orderly_serve hs req, hw'⟩, hfollows⟩
  have hstart : I (Store.start users pairs balances) :=
    ⟨orderly_start users pairs balances, waiting_start users pairs balances⟩
  refine ⟨h.mono (I := I) hstep hstart, fun id c parentId hc hparent => ?_⟩
  obtain ⟨-, hw⟩ := Run.Along.invariant (I := I) (fun s req hI hC => (hstep s req hI hC).1) hstart h
  obtain ⟨p, hp, hwaits, -⟩ := hw.family id c parentId hc hparent
  exact ⟨p, hp, hwaits⟩

/-- Deciding that the next round completes no maker with pending children. -/
def guardsMakers (s : Store) : Bool :=
  match s.redis.ordersQueue with
  | [] => true
  | p :: rest =>
    match (matchPlaced p (s.setQueue rest)).1 with
    | .error _ => true
    | .ok r => r.trades.all fun t => (List.range s.orderIdSeq).all fun id => (s.pg.orders id).all fun c =>
        decide (c.parentOrderId = some t.makerOrderId → c.status ≠ .pending)

theorem sltpGuard_work {s : Store} (hids : IdsBelow s) (h : guardsMakers s = true) :
    SltpGuard s .work := by
  rintro p rest r hqueue - hmatch id ⟨⟨t, ht, rfl⟩, -⟩ k c hc hparent
  unfold guardsMakers at h
  simp only [hqueue, hmatch, List.all_eq_true] at h
  have hlt : k < s.orderIdSeq := hids k (by rw [Option.mem_def.mp hc]; simp)
  have hone := h t ht k (List.mem_range.mpr hlt)
  rw [Option.mem_def.mp hc, Option.all_some, decide_eq_true_eq] at hone
  exact hone hparent

/-- A parent that takes what rests. -/
theorem children_follow_takenParent :
    Run.Along Store.serve (fun s req => ChildFollows s (s.serve req)) twoUsers (stopLossRun 1) ∧
      ∀ id c parentId, (twoUsers.serveAll (stopLossRun 1)).pg.orders id = some c →
        c.parentOrderId = some parentId →
          ∃ p, (twoUsers.serveAll (stopLossRun 1)).pg.orders parentId = some p ∧ c.WaitsFor p := by
  have hids : ∀ reqs, IdsBelow (twoUsers.serveAll reqs) := fun reqs =>
    (consistent_serveAll (consistent_start _ _ _) reqs).ids
  exact children_follow _ _ _ ⟨trivial, trivial,
    sltpGuard_work (hids ((stopLossRun 1).take 2)) (by decide +kernel),
    sltpGuard_work (hids ((stopLossRun 1).take 3)) (by decide +kernel), trivial⟩

/-! ### A parent that is filled as a maker -/

/-- A buy order with a stop-loss rests, and is then sold to. -/
def restingParentRun : List Request :=
  [.place 2 (protectedDto 1), .work, .place 1 (limitDto .sell 1 100), .work]

/-- **The stop-loss of an order that is filled as a maker** stays pending. -/
theorem childFollows_restingParent :
    ¬ Run.Along Store.serve (fun s req => ChildFollows s (s.serve req)) twoUsers restingParentRun := by
  rintro ⟨-, -, -, hlast, -⟩
  have hrows : ((twoUsers.serveAll restingParentRun).pg.orders 1).map Order.status = some .filled ∧
      ((twoUsers.serveAll restingParentRun).pg.orders 2).map Order.status = some .pending := by
    decide +kernel
  have hbefore : ((twoUsers.serveAll (restingParentRun.take 3)).pg.orders 2).map
      (fun o => (o.status, o.parentOrderId)) = some (.pending, some 1) := by
    decide +kernel
  obtain ⟨c, hc, hpair⟩ := Option.map_eq_some_iff.mp hbefore
  obtain ⟨hpending, hparent⟩ := Prod.mk.inj hpair
  obtain ⟨c', p', hc', hp', hfilled, -⟩ := hlast.child 2 c 1 hc hpending hparent
  obtain ⟨p₁, hp₁, hf⟩ := Option.map_eq_some_iff.mp hrows.1
  obtain ⟨c₁, hc₁, hp⟩ := Option.map_eq_some_iff.mp hrows.2
  obtain rfl : p' = p₁ := Option.some.inj (hp'.symm.trans hp₁)
  obtain rfl : c' = c₁ := Option.some.inj (hc'.symm.trans hc₁)
  have hnew := (hfilled hf).1
  rw [hp] at hnew
  exact absurd hnew OrderStatus.noConfusion

end SpotExchange.Exchange
