import SpotExchange.Exchange.Settlement

namespace SpotExchange.Exchange

open SpotExchange.Lib
open SpotExchange.Engine (OrderId)
open SpotExchange.Ledger (BalanceKey Row Op)

/-!
# What a committed batch adds up to

* `Settles x s s'` — balances and fills have moved by `x`, and the HASH of every order but the taker
  goes on showing what is left of it, if it did;
* `batchEffect` — the sum over the trades of what each moves for its maker and for its taker;
* `persistTradeBatch_spec` — a batch that returns settles `batchEffect`, and its trades refer to rows
  that exist.
-/

/-! ### Effects -/

/-- How much of an order is filled, in base and in quote. -/
def Order.fills (o : Order) : ℚ × ℚ := (o.filledQuantity, o.filledQuoteQty)

/-- What the matcher is given of an order with this HASH. -/
def OrderHash.loadedQuantity (h : OrderHash) : ℚ :=
  if h.isIceberg then (h.visibleQuantity.or h.quantity).getD 0 else h.quantity.getD 0

theorem bookOrder_loadedQuantity (x : ℚ × OrderId) (h : OrderHash) :
    (bookOrder x h).loadedQuantity = h.loadedQuantity := rfl

/-- What is left of an order. -/
def Store.remaining (s : Store) (id : OrderId) : Option ℚ :=
  (s.pg.orders id).map Order.remainingQuantity

/-- Whose order it is. -/
def Store.owner (s : Store) (id : OrderId) : UserId := ((s.pg.orders id).map Order.userId).getD 0

/-- What a batch moves of balances, and of fills. -/
abbrev Effect := (BalanceKey → Amounts) × (OrderId → ℚ × ℚ)

/-- **Balances and fills have moved**, and HASHes have followed. -/
structure Settles (taker : OrderId) (x : Effect) (s s' : Store) : Prop where
  balances : Shifts x.1 s s'
  fills : Moved Order.fills x.2 s.pg.orders s'.pg.orders
  loaded : ∀ id h, id ≠ taker → s'.redis.orderHash id = some h →
    s.redis.orderHash id = some h ∧ s'.remaining id = s.remaining id ∨
      s'.remaining id = some h.loadedQuantity

theorem Settles.refl (taker : OrderId) (s : Store) : Settles taker 0 s s where
  balances := Moved.refl _
  fills := Moved.refl _
  loaded := fun _ _ _ h => .inl ⟨h, rfl⟩

theorem Settles.trans {taker : OrderId} {x y : Effect} {s s' s'' : Store} (h : Settles taker x s s')
    (h' : Settles taker y s' s'') : Settles taker (x + y) s s'' where
  balances := h.balances.trans h'.balances
  fills := h.fills.trans h'.fills
  loaded := by
    intro id hash hid hs
    rcases h'.loaded id hash hid hs with ⟨hs', hrem⟩ | hrem
    · rcases h.loaded id hash hid hs' with ⟨hs₀, hrem₀⟩ | hrem₀
      · exact .inl ⟨hs₀, hrem.trans hrem₀⟩
      · exact .inr (hrem.trans hrem₀)
    · exact .inr hrem

/-! ### What a trade moves -/

/-- What a trade moves for its taker, or for its maker. -/
def tradeShift (args : BatchArgs) (isTaker : Bool) (userId : UserId) (qty quoteQty : ℚ) :
    BalanceKey → Amounts :=
  match isTaker, args.takerSide with
  | true, .buy => partyShift userId args.quoteAsset args.baseAsset quoteQty qty
  | true, .sell => partyShift userId args.baseAsset args.quoteAsset qty quoteQty
  | false, .buy => partyShift userId args.baseAsset args.quoteAsset qty quoteQty
  | false, .sell => partyShift userId args.quoteAsset args.baseAsset quoteQty qty

theorem tradeShift_add (args : BatchArgs) (isTaker : Bool) (userId : UserId) (p q p' q' : ℚ) :
    tradeShift args isTaker userId (p + p') (q + q') =
      tradeShift args isTaker userId p q + tradeShift args isTaker userId p' q' := by
  unfold tradeShift
  cases isTaker <;> cases args.takerSide <;> exact partyShift_add _ _ _ _ _ _ _

theorem tradeShift_zero (args : BatchArgs) (isTaker : Bool) (userId : UserId) :
    tradeShift args isTaker userId 0 0 = 0 := by
  unfold tradeShift
  cases isTaker <;> cases args.takerSide <;> exact partyShift_zero _ _ _

theorem settleTradeBalances_shifts {args : BatchArgs} {isTaker : Bool} {userId : UserId}
    {orderId : OrderId} {qty quoteQty : ℚ} {s s' : Store} {u : Unit}
    (h : settleTradeBalances args isTaker userId orderId qty quoteQty s = (.ok u, s')) :
    Shifts (tradeShift args isTaker userId qty quoteQty) s s' := by
  unfold settleTradeBalances at h
  unfold tradeShift
  cases isTaker <;> cases hside : args.takerSide <;> rw [hside] at h <;> exact settleParty_shifts h

/-- What a maker's fills move. -/
def makerEffect (args : BatchArgs) (owner : OrderId → UserId) (d : FillDelta) : Effect :=
  (tradeShift args false (owner d.makerId) d.qty d.quoteQty,
    Moved.single d.makerId (d.qty, d.quoteQty))

/-- What the taker's fills move. -/
def takerEffect (args : BatchArgs) (owner : OrderId → UserId) (qty quoteQty : ℚ) : Effect :=
  (tradeShift args true (owner args.takerOrderId) qty quoteQty,
    Moved.single args.takerOrderId (qty, quoteQty))

/-- The fill of a trade. -/
def DomainTrade.fill (t : DomainTrade) : FillDelta where
  makerId := t.makerOrderId
  qty := t.quantity
  quoteQty := t.price * t.quantity

/-- **What a batch moves**: the sum over its trades. -/
def batchEffect (args : BatchArgs) (owner : OrderId → UserId) (trades : List DomainTrade) : Effect :=
  (trades.map fun t => makerEffect args owner t.fill +
    takerEffect args owner t.quantity (t.price * t.quantity)).sum

/-! ### Aggregation -/

section

variable {N : Type*} [AddCommMonoid N] {g : FillDelta → N}

private theorem addFillDelta_sum
    (hg : ∀ id p q p' q', g ⟨id, p + p', q + q'⟩ = g ⟨id, p, q⟩ + g ⟨id, p', q'⟩) (id : OrderId)
    (p q : ℚ) (ds : List FillDelta) :
    ((addFillDelta id p q ds).map g).sum = (ds.map g).sum + g ⟨id, p, q⟩ := by
  induction ds with
  | nil => simp [addFillDelta]
  | cons d ds ih =>
    obtain ⟨m, qty, quoteQty⟩ := d
    by_cases hm : m = id
    · subst hm
      rw [addFillDelta, if_pos rfl, List.map_cons, List.sum_cons, List.map_cons, List.sum_cons, hg]
      abel
    · rw [addFillDelta, if_neg hm, List.map_cons, List.sum_cons, ih, List.map_cons, List.sum_cons,
        add_assoc]

/-- **The aggregated fills** sum to what the trades sum to. -/
theorem makerFillDeltas_sum
    (hg : ∀ id p q p' q', g ⟨id, p + p', q + q'⟩ = g ⟨id, p, q⟩ + g ⟨id, p', q'⟩)
    (trades : List DomainTrade) :
    ((makerFillDeltas trades).map g).sum = (trades.map fun t => g t.fill).sum := by
  have hfold : ∀ ds : List FillDelta, ((trades.foldl (fun ds t => addFillDelta t.makerOrderId
      t.quantity (t.price * t.quantity) ds) ds).map g).sum =
        (ds.map g).sum + (trades.map fun t => g t.fill).sum := by
    induction trades with
    | nil => simp
    | cons t trades ih =>
      intro ds
      rw [List.foldl_cons, ih, addFillDelta_sum hg, List.map_cons, List.sum_cons, add_assoc]
      rfl
  simpa [makerFillDeltas] using hfold []

end

/-- What the totals move for the taker is what the trades move for it. -/
theorem takerEffect_totals (args : BatchArgs) (owner : OrderId → UserId)
    (trades : List DomainTrade) :
    takerEffect args owner (takerTotalQty trades) (takerTotalQuote trades) =
      (trades.map fun t => takerEffect args owner t.quantity (t.price * t.quantity)).sum := by
  unfold takerTotalQty takerTotalQuote
  induction trades with
  | nil =>
    simp only [List.map_nil, List.sum_nil, takerEffect, tradeShift_zero]
    exact congrArg (Prod.mk 0) (Moved.single_zero _)
  | cons t trades ih =>
    simp only [List.map_cons, List.sum_cons]
    rw [← ih]
    simp only [takerEffect, tradeShift_add, Prod.mk_add_mk, ← Moved.single_add]

/-- What holds of the fills of the trades, and of sums of fills, holds of the aggregated fills. -/
theorem makerFillDeltas_all {P : FillDelta → Prop} {trades : List DomainTrade}
    (hadd : ∀ id p q p' q', P ⟨id, p, q⟩ → P ⟨id, p', q'⟩ → P ⟨id, p + p', q + q'⟩)
    (h : ∀ t ∈ trades, P t.fill) : ∀ d ∈ makerFillDeltas trades, P d := by
  have hone : ∀ (id : OrderId) (p q : ℚ) (ds : List FillDelta), P ⟨id, p, q⟩ → (∀ d ∈ ds, P d) →
      ∀ d ∈ addFillDelta id p q ds, P d := by
    intro id p q ds hnew hds
    induction ds with
    | nil => simpa [addFillDelta] using hnew
    | cons d ds ih =>
      rw [List.forall_mem_cons] at hds
      unfold addFillDelta
      split_ifs with hid
      · subst hid
        exact List.forall_mem_cons.mpr ⟨hadd _ _ _ _ _ hds.1 hnew, hds.2⟩
      · exact List.forall_mem_cons.mpr ⟨hds.1, ih hds.2⟩
  have hfold : ∀ ds : List FillDelta, (∀ d ∈ ds, P d) → ∀ d ∈ trades.foldl (fun ds t =>
      addFillDelta t.makerOrderId t.quantity (t.price * t.quantity) ds) ds, P d := by
    induction trades with
    | nil => exact fun _ hds => hds
    | cons t trades ih =>
      rw [List.forall_mem_cons] at h
      exact fun ds hds => ih h.2 _ (hone _ _ _ ds h.1 hds)
  exact hfold [] (by simp)

theorem mem_makerFillDeltas {trades : List DomainTrade} {d : FillDelta}
    (h : d ∈ makerFillDeltas trades) : ∃ t ∈ trades, t.makerOrderId = d.makerId :=
  makerFillDeltas_all (P := fun d => ∃ t ∈ trades, t.makerOrderId = d.makerId)
    (fun _ _ _ _ _ h _ => h) (fun t ht => ⟨t, ht, rfl⟩) d h

/-! ### Makers -/

/-- The HASH of a maker shows what is left of it, or is gone. -/
theorem updateRedisMaker_hash {maker : Order} {id k : OrderId} {r : Redis} {h : OrderHash}
    (hk : (updateRedisMaker id maker r).orderHash k = some h) :
    k ≠ id ∧ r.orderHash k = some h ∨ k = id ∧ h.loadedQuantity = maker.remainingQuantity := by
  by_cases hkid : k = id
  · subst hkid
    refine .inr ⟨rfl, ?_⟩
    unfold updateRedisMaker at hk
    split_ifs at hk
    · exact absurd hk (by simp [removeOpenOrder, deleteOrderHash])
    · simp only [hset, Function.update_self, Option.some.injEq] at hk
      subst hk
      simp [OrderHash.loadedQuantity]
  · refine .inl ⟨hkid, ?_⟩
    unfold updateRedisMaker at hk
    split_ifs at hk
    · simpa [removeOpenOrder, deleteOrderHash, removeRestingOrder, Redis.setBook, hkid] using hk
    · simpa [hset, hkid] using hk

section

variable {args : BatchArgs} {trades : List DomainTrade} {s s' : Store}

/-- Settling balances touches neither the HASHes nor the orders. -/
private theorem settleTradeBalances_keeps {isTaker : Bool} {userId : UserId} {orderId : OrderId}
    {qty quoteQty : ℚ} {u : Unit}
    (h : settleTradeBalances args isTaker userId orderId qty quoteQty s = (.ok u, s')) :
    s'.pg.orders = s.pg.orders ∧ s'.redis.orderHash = s.redis.orderHash := by
  have := (settleTradeBalances_moves (R := Prog.Keeps fun s => (s.pg.orders, s.redis.orderHash))
    (fun _ _ _ _ => rfl) args isTaker userId orderId qty quoteQty).of_ok h
  exact Prod.ext_iff.mp this

/-- **A maker** that exists settles its effect. -/
theorem settleMaker_settles {first : ℕ} {d : FillDelta} {u : Unit}
    (hsome : s.pg.orders d.makerId ≠ none) (h : settleMaker args first d s = (.ok u, s')) :
    Settles args.takerOrderId (makerEffect args s.owner d) s s' := by
  obtain ⟨order, horder⟩ := Option.ne_none_iff_exists'.mp hsome
  rw [settleMaker_apply horder] at h
  obtain ⟨_, s₁, hb, h⟩ := Prog.bind_eq_ok.mp h
  obtain rfl : s₁.setRedis (updateRedisMaker d.makerId (order.filledAsMaker d.qty d.quoteQty)) = s' :=
    congrArg Prod.snd h
  obtain ⟨horders, hhash⟩ := settleTradeBalances_keeps hb
  have howner : s.owner d.makerId = order.userId := by simp [Store.owner, horder]
  have horders' : s₁.pg.orders =
      Function.update s.pg.orders d.makerId (some (order.filledAsMaker d.qty d.quoteQty)) := horders
  refine ⟨?_, ?_, fun id hash _ hs => ?_⟩
  · show Shifts (tradeShift args false (s.owner d.makerId) d.qty d.quoteQty) s _
    rw [howner]
    have hshift := settleTradeBalances_shifts hb
    exact hshift
  · show Moved Order.fills _ s.pg.orders s₁.pg.orders
    rw [horders']
    exact Moved.update horder rfl
  · show _ ∨ (s₁.pg.orders id).map Order.remainingQuantity = _
    rcases updateRedisMaker_hash hs with ⟨hne, hs⟩ | ⟨rfl, hloaded⟩
    · rw [hhash] at hs
      refine .inl ⟨hs, ?_⟩
      show (s₁.pg.orders id).map Order.remainingQuantity = _
      rw [horders', Function.update_of_ne hne]
      rfl
    · rw [horders', Function.update_self, hloaded]
      exact .inr rfl

/-! ### The taker -/

/-- Activating children moves neither balances nor fills, and changes no HASH. -/
private theorem activateSltpChildren_settles {parentId : OrderId} {u : Unit}
    (h : activateSltpChildren parentId s = (.ok u, s')) : Settles parentId 0 s s' := by
  have hkeeps := (activateSltpChildren_moves (R := Prog.Keeps fun s => (s.pg.balances,
    s.redis.orderHash, (fun id => (s.pg.orders id).map Order.fills), s.remaining)) parentId ?_).of_ok h
  · obtain ⟨hbal, hhash, hfills, hrem⟩ : _ ∧ _ ∧ _ ∧ _ := by
      simpa only [Prog.Keeps, Prod.mk.injEq] using hkeeps
    refine ⟨?_, fun k => ?_, fun id hash _ hs => ?_⟩
    · show Moved amounts 0 s.pg.balances s'.pg.balances
      rw [hbal]
      exact Moved.refl _
    · rw [congrFun hfills k]
      simp
    · exact .inl ⟨by rw [← hhash]; exact hs, congrFun hrem id⟩
  · intro s id child hchild _
    have hrow : ∀ {α : Type} (f : Order → α), (∀ o : Order, f { o with
        status := .new, version := o.version + 1 } = f o) → ∀ k,
        ((s.activate parentId id child).pg.orders k).map f = (s.pg.orders k).map f := by
      intro α f hf k
      show (Function.update s.pg.orders id _ k).map f = _
      by_cases hk : k = id
      · subst hk
        simp [hchild, hf]
      · simp [hk]
    refine Prod.ext rfl (Prod.ext rfl (Prod.ext (funext fun k => ?_) (funext fun k => ?_)))
    · exact hrow Order.fills (fun _ => rfl) k
    · exact hrow Order.remainingQuantity (fun _ => rfl) k

/-- **The taker**, if it exists, settles its effect. -/
theorem settleTaker_settles (args : BatchArgs) {qty quoteQty : ℚ} {u : Unit}
    (hsome : s.pg.orders args.takerOrderId ≠ none)
    (h : settleTaker args qty quoteQty s = (.ok u, s')) :
    Settles args.takerOrderId (takerEffect args s.owner qty quoteQty) s s' := by
  obtain ⟨order, horder⟩ := Option.ne_none_iff_exists'.mp hsome
  rw [settleTaker_apply horder] at h
  obtain ⟨_, s₁, hb, h⟩ := Prog.bind_eq_ok.mp h
  obtain ⟨horders, hhash⟩ := settleTradeBalances_keeps hb
  have howner : s.owner args.takerOrderId = order.userId := by simp [Store.owner, horder]
  have horders' : s₁.pg.orders =
      Function.update s.pg.orders args.takerOrderId (some (order.filledAsTaker qty quoteQty)) := horders
  have htaker : Settles args.takerOrderId (takerEffect args s.owner qty quoteQty) s s₁ := by
    refine ⟨?_, ?_, fun id hash hid hs => .inl ⟨?_, ?_⟩⟩
    · show Shifts (tradeShift args true (s.owner args.takerOrderId) qty quoteQty) s s₁
      rw [howner]
      have hshift := settleTradeBalances_shifts hb
      exact hshift
    · rw [horders']
      exact Moved.update horder rfl
    · rw [hhash] at hs
      exact hs
    · show (s₁.pg.orders id).map Order.remainingQuantity = _
      rw [horders', Function.update_of_ne hid]
      rfl
  rcases Prog.whenever_eq_ok.mp h with ⟨-, rfl⟩ | ⟨-, h⟩
  · exact htaker
  · have := htaker.trans (activateSltpChildren_settles h)
    rwa [add_zero] at this

/-! ### The batch -/

/-- In stores of the same setting, an order has the same owner. -/
theorem owner_of_setting {s s' : Store} (h : s'.setting = s.setting) : s'.owner = s.owner := by
  funext id
  have hterms := congrFun (congrArg (fun x => x.2.2.2) h) id
  have huser := congrArg (Option.map OrderTerms.userId) hterms
  simp only [Store.setting, Option.map_map] at huser
  exact congrArg (fun o => Option.getD o 0) huser

/-- In stores of the same setting, the same orders exist. -/
theorem none_of_setting {s s' : Store} (h : s'.setting = s.setting) (id : OrderId) :
    s'.pg.orders id = none ↔ s.pg.orders id = none := by
  have hterms := congrArg Option.isNone (congrFun (congrArg (fun x => x.2.2.2) h) id)
  simp only [Store.setting, Option.isNone_map] at hterms
  rw [← Option.isNone_iff_eq_none, ← Option.isNone_iff_eq_none, hterms]

/-- The references of a trade are those of the setting. -/
theorem tradeRefs_of_setting {s s' : Store} (h : s'.setting = s.setting) (args : BatchArgs)
    (t : DomainTrade) : s'.pg.tradeRefs args t = s.pg.tradeRefs args t := by
  have hsome : ∀ id, (s'.pg.orders id).isSome = (s.pg.orders id).isSome := fun id => by
    have := none_of_setting h id
    cases h' : s'.pg.orders id <;> cases h₀ : s.pg.orders id <;> simp_all
  have husers : s'.pg.users = s.pg.users := congrArg (fun x => x.1) h
  have hpairs : s'.pg.tradingPairs = s.pg.tradingPairs := congrArg (fun x => x.2.1) h
  simp only [Database.tradeRefs, hsome, husers, hpairs]

/-- Inserting trades moves neither balances nor fills, and changes no HASH. -/
private theorem insertTrades_settles {u : Unit}
    (h : Prog.forEach trades (insertTrade args) s = (.ok u, s')) :
    Settles args.takerOrderId 0 s s' := by
  have hkeeps := (insertTrades_moves (R := Prog.Keeps fun s : Store => (s.pg.orders, s.pg.balances,
    s.redis.orderHash)) fun _ _ _ => rfl).of_ok h
  obtain ⟨horders, hbal, hhash⟩ : _ ∧ _ ∧ _ := by
    simpa only [Prog.Keeps, Prod.mk.injEq] using hkeeps
  refine ⟨?_, ?_, fun id hash _ hs => .inl ⟨by rw [← hhash]; exact hs, ?_⟩⟩
  · show Moved amounts 0 s.pg.balances s'.pg.balances
    rw [hbal]
    exact Moved.refl _
  · rw [horders]
    exact Moved.refl _
  · show (s'.pg.orders id).map _ = _
    rw [horders]
    rfl

/-- **A batch that returns.** -/
theorem persistTradeBatch_spec {rows : List Trade}
    (h : persistTradeBatch args trades s = (.ok rows, s')) :
    s'.setting = s.setting ∧ (∀ t ∈ trades, s.pg.tradeRefs args t = true) ∧
      Settles args.takerOrderId (batchEffect args s.owner trades) s s' := by
  have hsteps := settlement_setting args trades
  refine ⟨(persistTradeBatch_moves hsteps.1 hsteps.2).of_ok h, ?_⟩
  by_cases hne : trades = []
  · subst hne
    obtain rfl : s = s' := congrArg Prod.snd h
    exact ⟨by simp, Settles.refl _ _⟩
  obtain ⟨s₁, s₂, hinsert, hmakers, htaker⟩ := persistTradeBatch_eq_ok hne h
  -- each trade has been inserted in a store of the same setting
  have hrefs : ∀ t ∈ trades, s.pg.tradeRefs args t = true := by
    intro t ht
    obtain ⟨s₃, s₄, hset, hx⟩ := Prog.forEach_eq_ok_mem (R := Prog.Keeps Store.setting)
      (fun t ht => hsteps.1.insertTrade ht) hinsert t ht
    obtain ⟨refs, s₅, hread, hx⟩ := Prog.bind_eq_ok.mp hx
    obtain ⟨hrefs, rfl⟩ : s₃.pg.tradeRefs args t = refs ∧ s₃ = s₅ := by simpa using hread
    obtain ⟨_, s₆, hreq, -⟩ := Prog.bind_eq_ok.mp hx
    rw [← tradeRefs_of_setting hset, hrefs]
    exact (Prog.require_eq_ok.mp hreq).1
  refine ⟨hrefs, ?_⟩
  have hsome : ∀ t ∈ trades, s.pg.orders t.makerOrderId ≠ none ∧
      s.pg.orders args.takerOrderId ≠ none := by
    intro t ht
    have := hrefs t ht
    simp only [Database.tradeRefs, Bool.and_eq_true, Option.isSome_iff_ne_none] at this
    exact ⟨this.1.1.1.2, this.1.1.1.1⟩
  have hset₁ : s₁.setting = s.setting :=
    (Prog.Moves.forEach (R := Prog.Keeps Store.setting) fun t ht => hsteps.1.insertTrade ht).of_ok
      hinsert
  -- the makers, one after the other
  have hmakerEffect : ∀ d ∈ makerFillDeltas trades, ∀ s₃ s₄, s₃.setting = s.setting →
      settleMaker args s.tradeIdSeq d s₃ = (.ok ⟨⟩, s₄) → s₄.setting = s.setting ∧
        Settles args.takerOrderId (makerEffect args s.owner d) s₃ s₄ := by
    intro d hd s₃ s₄ hset hx
    obtain ⟨t, ht, hid⟩ := mem_makerFillDeltas hd
    have hset₄ : s₄.setting = s₃.setting := (hsteps.1.settleMaker hd s.tradeIdSeq).of_ok hx
    rw [← owner_of_setting hset]
    refine ⟨hset₄.trans hset, settleMaker_settles ?_ hx⟩
    rw [Ne, none_of_setting hset, ← hid]
    exact (hsome t ht).1
  obtain ⟨hset₂, hmk⟩ := Prog.forEach_eq_ok_sum (T := Settles args.takerOrderId)
    (Settles.refl _) Settles.trans _ hmakerEffect hset₁ hmakers
  have hsum := makerFillDeltas_sum (g := makerEffect args s.owner) (fun id p q p' q' => by
    simp only [makerEffect, tradeShift_add, ← Moved.single_add, Prod.mk_add_mk]) trades
  -- the taker, with the totals
  have htk := settleTaker_settles args (by
    obtain ⟨t, ts, rfl⟩ := List.exists_cons_of_ne_nil hne
    rw [Ne, none_of_setting hset₂]
    exact (hsome t List.mem_cons_self).2) htaker
  rw [owner_of_setting hset₂] at htk
  have hall := ((insertTrades_settles hinsert).trans hmk).trans htk
  rw [zero_add, hsum, takerEffect_totals, ← List.sum_map_add] at hall
  exact hall

end

end SpotExchange.Exchange
