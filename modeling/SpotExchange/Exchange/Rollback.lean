import SpotExchange.Exchange.Fills
import SpotExchange.Exchange.Paying
import SpotExchange.Exchange.RowLocks

namespace SpotExchange.Exchange

open SpotExchange.Lib
open SpotExchange.Engine (OrderId)
open SpotExchange.Ledger (BalanceKey Row Op)

/-!
# What a batch that raises leaves behind in Redis

The tables are rolled back, Redis is not: what a maker's settlement has written there stays.

* `Redis.resting`, `Redis.view` — the book, the HASHes and the indexes, and what they say of one order;
* `Redis.Shows` — they say already what the fills of a maker would make them say;
* `Store.ShownUpTo` — so it is with each maker up to the first one that cannot pay;
* `failedBatch_redis_iff` — just then a batch that raises leaves Redis as it was.
-/

/-! ### What Redis says of an order -/

/-- The book, the HASHes, and the indexes of open orders. -/
def Redis.resting (r : Redis) : (Symbol → OrderSide → SortedSet OrderId) ×
    (OrderId → Option OrderHash) × (UserId → Finset OrderId) × (UserId → Symbol → Finset OrderId) ×
      (Symbol → Finset OrderId) :=
  (r.book, r.orderHash, r.userOpenOrders, r.userOpenOrdersBySymbol, r.symbolOpenOrders)

/-- What they say of one order. -/
def Redis.view (id : OrderId) (r : Redis) : (Symbol → OrderSide → SortedSet OrderId) ×
    Option OrderHash × (UserId → Prop) × (UserId → Symbol → Prop) × (Symbol → Prop) :=
  (fun symbol side => (r.book symbol side).filter fun x => x.2 = id, r.orderHash id,
    fun userId => id ∈ r.userOpenOrders userId,
    fun userId symbol => id ∈ r.userOpenOrdersBySymbol userId symbol,
    fun symbol => id ∈ r.symbolOpenOrders symbol)

/-- **Redis shows a maker** as `_update_redis_maker` would leave it. -/
def Redis.Shows (r : Redis) (id : OrderId) (maker : Order) : Prop :=
  if maker.status = .filled then
    id ∉ (r.book maker.symbol maker.side).members ∧ r.orderHash id = none ∧
      id ∉ r.userOpenOrders maker.userId ∧ id ∉ r.userOpenOrdersBySymbol maker.userId maker.symbol ∧
        id ∉ r.symbolOpenOrders maker.symbol
  else
    ∃ h, r.orderHash id = some h ∧ h.filledQuantity = some maker.filledQuantity ∧
      h.visibleQuantity = some maker.remainingQuantity ∧
        h.quantity = some maker.remainingQuantity ∧ h.status = some maker.status

section

variable {r r' : Redis} {id k : OrderId} {maker : Order}

theorem view_of_resting (h : r'.resting = r.resting) (k : OrderId) : r'.view k = r.view k := by
  obtain ⟨hbook, hhash, huser, hbySymbol, hsymbol⟩ : _ ∧ _ ∧ _ ∧ _ ∧ _ := by
    simpa only [Redis.resting, Prod.mk.injEq] using h
  unfold Redis.view
  rw [hbook, hhash, huser, hbySymbol, hsymbol]

/-- A member of a ZSET, by what the ZSET says of it. -/
private theorem mem_members_iff {z : SortedSet OrderId} :
    id ∈ z.members ↔ z.filter (fun x => x.2 = id) ≠ [] := by
  rw [Ne, List.filter_eq_nil_iff, SortedSet.members]
  simp [List.mem_map]

/-- **Whether Redis shows a maker** is seen from what it says of it. -/
theorem shows_of_view (h : r'.view id = r.view id) (hshows : r.Shows id maker) :
    r'.Shows id maker := by
  obtain ⟨hbook, hhash, huser, hbySymbol, hsymbol⟩ : _ ∧ _ ∧ _ ∧ _ ∧ _ := by
    simpa only [Redis.view, Prod.mk.injEq] using h
  unfold Redis.Shows at hshows ⊢
  split_ifs at hshows ⊢ with hfilled
  · obtain ⟨h₁, h₂, h₃, h₄, h₅⟩ := hshows
    refine ⟨?_, hhash.trans h₂, ?_, ?_, ?_⟩
    · rwa [mem_members_iff, congrFun (congrFun hbook _) _, ← mem_members_iff]
    · rwa [congrFun huser maker.userId]
    · rwa [congrFun (congrFun hbySymbol maker.userId) maker.symbol]
    · rwa [congrFun hsymbol maker.symbol]
  · rwa [hhash]

/-- The update of a maker that Redis shows changes nothing. -/
theorem updateRedisMaker_of_shows (h : r.Shows id maker) : updateRedisMaker id maker r = r := by
  unfold Redis.Shows at h
  unfold updateRedisMaker
  split_ifs at h ⊢ with hfilled
  · obtain ⟨hbook, hhash, huser, hbySymbol, hsymbol⟩ := h
    -- a member that is not there is not removed
    have hzrem : (r.book maker.symbol maker.side).zrem id = r.book maker.symbol maker.side := by
      refine List.filter_eq_self.mpr fun x hx => ?_
      have hne : x.2 ≠ id := by
        rintro rfl
        exact hbook (List.mem_map_of_mem hx)
      simpa using hne
    simp only [removeOpenOrder, deleteOrderHash, removeRestingOrder, Redis.setBook, hzrem,
      Function.update_eq_self, Finset.erase_eq_of_notMem huser, Finset.erase_eq_of_notMem hbySymbol,
      Finset.erase_eq_of_notMem hsymbol]
    rw [← hhash, Function.update_eq_self]
  · obtain ⟨h, hhash, h₁, h₂, h₃, h₄⟩ := h
    -- the four fields already hold what is written
    have hsame : ({ h with filledQuantity := some maker.filledQuantity
                           visibleQuantity := some maker.remainingQuantity
                           quantity := some maker.remainingQuantity
                           status := some maker.status } : OrderHash) = h := by
      cases h
      subst h₁ h₂ h₃ h₄
      rfl
    rw [hset, hhash, Option.getD_some, hsame, ← hhash, Function.update_eq_self]

/-- The update of a maker says nothing new of other orders. -/
theorem updateRedisMaker_view (hne : k ≠ id) :
    (updateRedisMaker id maker r).view k = r.view k := by
  unfold updateRedisMaker
  split_ifs
  -- a filled maker leaves the book, the HASHes and the three sets
  · refine Prod.ext ?_ (Prod.ext ?_ (Prod.ext ?_ (Prod.ext ?_ ?_)))
    · funext symbol side
      show (Function.update r.book maker.symbol (Function.update (r.book maker.symbol) maker.side
        ((r.book maker.symbol maker.side).zrem id)) symbol side).filter _ = (r.book symbol side).filter _
      by_cases hsymbol : symbol = maker.symbol
      · subst hsymbol
        rw [Function.update_self]
        by_cases hside : side = maker.side
        · subst hside
          rw [Function.update_self, SortedSet.zrem, List.filter_filter]
          refine List.filter_congr fun x _ => ?_
          by_cases hx : x.2 = k <;> simp [hx, hne]
        · rw [Function.update_of_ne hside]
      · rw [Function.update_of_ne hsymbol]
    · exact Function.update_of_ne hne _ _
    · funext userId
      show (k ∈ Function.update r.userOpenOrders maker.userId
        ((r.userOpenOrders maker.userId).erase id) userId) = (k ∈ r.userOpenOrders userId)
      by_cases huser : userId = maker.userId
      · subst huser
        simp [hne]
      · simp [huser]
    · funext userId symbol
      show (k ∈ Function.update r.userOpenOrdersBySymbol maker.userId
        (Function.update (r.userOpenOrdersBySymbol maker.userId) maker.symbol
          ((r.userOpenOrdersBySymbol maker.userId maker.symbol).erase id)) userId symbol) =
            (k ∈ r.userOpenOrdersBySymbol userId symbol)
      by_cases huser : userId = maker.userId
      · subst huser
        by_cases hsymbol : symbol = maker.symbol
        · subst hsymbol
          simp [hne]
        · simp [hsymbol]
      · simp [huser]
    · funext symbol
      show (k ∈ Function.update r.symbolOpenOrders maker.symbol
        ((r.symbolOpenOrders maker.symbol).erase id) symbol) = (k ∈ r.symbolOpenOrders symbol)
      by_cases hsymbol : symbol = maker.symbol
      · subst hsymbol
        simp [hne]
      · simp [hsymbol]
  · exact Prod.ext rfl (Prod.ext (Function.update_of_ne hne _ _) rfl)

/-- **The update of a maker that Redis does not show** says something new of it. -/
theorem shows_of_updateRedisMaker (h : (updateRedisMaker id maker r).view id = r.view id) :
    r.Shows id maker := by
  -- what the update has written shows the maker
  refine shows_of_view h.symm ?_
  unfold Redis.Shows updateRedisMaker
  split_ifs
  · refine ⟨?_, ?_, ?_, ?_, ?_⟩
    · show id ∉ (Function.update r.book maker.symbol (Function.update (r.book maker.symbol) maker.side
        ((r.book maker.symbol maker.side).zrem id)) maker.symbol maker.side).members
      rw [Function.update_self, Function.update_self]
      intro hmem
      obtain ⟨x, hx, hid⟩ := List.mem_map.mp hmem
      exact (SortedSet.mem_zrem.mp hx).2 hid
    · exact Function.update_self ..
    · simp [removeOpenOrder]
    · simp [removeOpenOrder]
    · simp [removeOpenOrder]
  · exact ⟨_, Function.update_self .., rfl, rfl, rfl, rfl⟩

end

/-! ### The makers, one after the other -/

/-- **A maker can pay** once balances have moved by `Δ`. -/
def Store.Covers (s : Store) (args : BatchArgs) (Δ : BalanceKey → Amounts) (d : FillDelta) : Prop :=
  match args.takerSide with
  | .buy => s.Pays Δ (s.owner d.makerId) args.baseAsset args.quoteAsset d.qty d.quoteQty
  | .sell => s.Pays Δ (s.owner d.makerId) args.quoteAsset args.baseAsset d.quoteQty d.qty

/-- **Redis shows each maker** as its fills would leave it, up to the first maker that cannot pay once
    those before it have been settled. -/
def Store.ShownUpTo (s : Store) (args : BatchArgs) : (BalanceKey → Amounts) → List FillDelta → Prop
  | _, [] => True
  | Δ, d :: ds => s.Covers args Δ d →
      (∀ maker, s.pg.orders d.makerId = some maker →
        s.redis.Shows d.makerId (maker.filledAsMaker d.qty d.quoteQty)) ∧
      s.ShownUpTo args (Δ + (makerEffect args s.owner d).1) ds

section

variable {args : BatchArgs} {trades : List DomainTrade} {s s' t t' : Store}

/-- Settling balances changes neither orders nor what Redis says of them. -/
theorem settleTradeBalances_resting (args : BatchArgs) (isTaker : Bool) (userId : UserId)
    (orderId : OrderId) (qty quoteQty : ℚ) :
    Prog.Moves (Prog.Keeps fun s : Store => (s.pg.orders, s.redis.resting))
      (settleTradeBalances args isTaker userId orderId qty quoteQty) :=
  settleTradeBalances_moves (fun _ _ _ _ => rfl) args isTaker userId orderId qty quoteQty

theorem makerShift_balanced (args : BatchArgs) (owner : OrderId → UserId) (d : FillDelta)
    (key : BalanceKey) : Balanced ((makerEffect args owner d).1 key) := by
  show Balanced (tradeShift args false (owner d.makerId) d.qty d.quoteQty key)
  unfold tradeShift
  cases args.takerSide <;> exact partyShift_balanced _ _ _ _ _ _

/-- **A maker is settled** just if it can pay. -/
theorem settleTradeBalances_returns_iff (args : BatchArgs) (d : FillDelta) (orderId : OrderId)
    {Δ : BalanceKey → Amounts} (h : Shifts Δ s t) (hΔ : ∀ key, Balanced (Δ key)) :
    (∃ t', settleTradeBalances args false (s.owner d.makerId) orderId d.qty d.quoteQty t =
      (.ok ⟨⟩, t')) ↔ s.Covers args Δ d := by
  unfold settleTradeBalances Store.Covers
  cases args.takerSide
  · exact settleParty_returns_iff.trans (pays_of_shifts h hΔ)
  · exact settleParty_returns_iff.trans (pays_of_shifts h hΔ)

/-- **The loop over the makers**, whether it ends or raises: a maker cannot pay and nothing follows, or it
    is settled, and the loop goes on with the balances moved. -/
theorem settleMakers_rule {first : ℕ} {Q : (BalanceKey → Amounts) → List FillDelta → Store → Store → Prop}
    (hnil : ∀ Δ t, Q Δ [] t t)
    (hstop : ∀ Δ d ds (t t' : Store), ¬ s.Covers args Δ d → t'.redis.resting = t.redis.resting → Q Δ (d :: ds) t t')
    (hsettle : ∀ Δ d ds maker (t t₁ t' : Store), s.pg.orders d.makerId = some maker →
      d.makerId ∉ ds.map FillDelta.makerId → s.Covers args Δ d → t₁.redis.resting = t.redis.resting →
      Q (Δ + (makerEffect args s.owner d).1) ds
        (t₁.setRedis (updateRedisMaker d.makerId (maker.filledAsMaker d.qty d.quoteQty))) t' →
      Q Δ (d :: ds) t t')
    {ds : List FillDelta} {Δ : BalanceKey → Amounts} {result : Except PyError Unit}
    (hnodup : (ds.map FillDelta.makerId).Nodup)
    (horders : ∀ d ∈ ds, s.pg.orders d.makerId ≠ none ∧ t.pg.orders d.makerId = s.pg.orders d.makerId)
    (hΔ : ∀ key, Balanced (Δ key)) (hshift : Shifts Δ s t)
    (hrun : Prog.forEach ds (settleMaker args first) t = (result, t')) : Q Δ ds t t' := by
  induction ds generalizing t Δ with
  | nil =>
    obtain rfl : t = t' := congrArg Prod.snd hrun
    exact hnil Δ t
  | cons d ds ih =>
    rw [List.forall_mem_cons] at horders
    rw [List.map_cons, List.nodup_cons] at hnodup
    obtain ⟨maker, hmaker⟩ := Option.ne_none_iff_exists'.mp horders.1.1
    have hmaker' : t.pg.orders d.makerId = some maker := horders.1.2.trans hmaker
    have howner : s.owner d.makerId = maker.userId := by simp [Store.owner, hmaker]
    -- the maker pays if and only if what it has covers what it owes so far
    have hcovers := settleTradeBalances_returns_iff args d d.makerId
      (t := t.fillMaker first d maker) (show Shifts Δ s (t.fillMaker first d maker) from hshift) hΔ
    rw [howner] at hcovers
    rw [Prog.forEach_cons, Prog.bind_apply, settleMaker_apply hmaker'] at hrun
    have hkeeps := settleTradeBalances_resting args false maker.userId d.makerId d.qty d.quoteQty
    rcases hb : settleTradeBalances args false maker.userId d.makerId d.qty d.quoteQty
      (t.fillMaker first d maker) with ⟨err | u, t₁⟩
    · -- the maker cannot pay
      rw [Prog.bind_of_error hb] at hrun
      obtain rfl : t₁ = t' := congrArg Prod.snd hrun
      refine hstop Δ d ds t t₁ ?_ (congrArg Prod.snd (hkeeps.of_error hb))
      rw [← hcovers, hb]
      rintro ⟨_, h⟩
      exact absurd (congrArg Prod.fst h) (by simp)
    · rw [Prog.bind_of_ok hb] at hrun
      have hkept := hkeeps.of_ok hb
      refine hsettle Δ d ds maker t t₁ t' hmaker hnodup.1 (hcovers.mp ⟨t₁, hb⟩) (congrArg Prod.snd hkept)
        (ih hnodup.2 (fun d' hd' => ⟨(horders.2 d' hd').1, ?_⟩)
          (fun key => (hΔ key).add (makerShift_balanced args s.owner d key)) ?_ hrun)
      · have hne : d'.makerId ≠ d.makerId := fun h => hnodup.1 (h ▸ List.mem_map_of_mem hd')
        have horders₁ : t₁.pg.orders = Function.update t.pg.orders d.makerId
          (some (maker.filledAsMaker d.qty d.quoteQty)) := congrArg Prod.fst hkept
        show t₁.pg.orders d'.makerId = _
        rw [horders₁, Function.update_of_ne hne]
        exact (horders.2 d' hd').2
      · have hmoved := settleTradeBalances_shifts hb
        rw [← howner] at hmoved
        exact Moved.trans hshift hmoved

/-- **What Redis says after the loop.**  It says nothing new of other orders; if it says nothing new of
    its makers, it has shown them all along, and the other way round. -/
theorem settleMakers_resting {first : ℕ} {ds : List FillDelta} {Δ : BalanceKey → Amounts}
    {result : Except PyError Unit} (hnodup : (ds.map FillDelta.makerId).Nodup)
    (horders : ∀ d ∈ ds, s.pg.orders d.makerId ≠ none ∧
      t.pg.orders d.makerId = s.pg.orders d.makerId)
    (hview : ∀ d ∈ ds, t.redis.view d.makerId = s.redis.view d.makerId)
    (hΔ : ∀ key, Balanced (Δ key)) (hshift : Shifts Δ s t)
    (hrun : Prog.forEach ds (settleMaker args first) t = (result, t')) :
    (∀ k ∉ ds.map FillDelta.makerId, t'.redis.view k = t.redis.view k) ∧
      ((∀ d ∈ ds, t'.redis.view d.makerId = s.redis.view d.makerId) → s.ShownUpTo args Δ ds) ∧
      (s.ShownUpTo args Δ ds → t'.redis.resting = t.redis.resting) := by
  refine settleMakers_rule (Q := fun Δ ds t t' =>
    (∀ d ∈ ds, t.redis.view d.makerId = s.redis.view d.makerId) →
      (∀ k ∉ ds.map FillDelta.makerId, t'.redis.view k = t.redis.view k) ∧
        ((∀ d ∈ ds, t'.redis.view d.makerId = s.redis.view d.makerId) → s.ShownUpTo args Δ ds) ∧
        (s.ShownUpTo args Δ ds → t'.redis.resting = t.redis.resting))
    (fun _ _ _ => ⟨fun _ _ => rfl, fun _ => trivial, fun _ => rfl⟩)
    (fun Δ d ds t t' hnot hresting _ =>
      ⟨fun k _ => view_of_resting hresting k, fun _ h => absurd h hnot, fun _ => hresting⟩)
    (fun Δ d ds maker t t₁ t' hmaker hmem hcovers hresting ih hview => ?_) hnodup horders hΔ hshift hrun hview
  rw [List.forall_mem_cons] at hview
  obtain ⟨hframe, hshown, hsame⟩ := ih fun d' hd' => by
    have hne : d'.makerId ≠ d.makerId := fun h => hmem (h ▸ List.mem_map_of_mem hd')
    exact (updateRedisMaker_view hne).trans ((view_of_resting hresting _).trans (hview.2 d' hd'))
  have hviewMaker : t₁.redis.view d.makerId = s.redis.view d.makerId :=
    (view_of_resting hresting _).trans hview.1
  refine ⟨fun k hk => ?_, fun h _ => ⟨fun maker' hmaker₁ => ?_, ?_⟩, fun h => ?_⟩
  · rw [List.map_cons, List.mem_cons, not_or] at hk
    exact (hframe k hk.2).trans ((updateRedisMaker_view hk.1).trans (view_of_resting hresting k))
  · -- what was written of the maker is still there at the end
    obtain rfl : maker = maker' := Option.some.inj (hmaker.symm.trans hmaker₁)
    rw [List.forall_mem_cons] at h
    refine shows_of_view hviewMaker.symm (shows_of_updateRedisMaker ?_)
    exact (hframe d.makerId hmem).symm.trans (h.1.trans hviewMaker.symm)
  · exact hshown fun d' hd' => h d' (List.mem_cons_of_mem _ hd')
  · obtain ⟨hshows, hrest⟩ := h hcovers
    -- what Redis already shows is not changed by writing it once more
    have hnothing := updateRedisMaker_of_shows (shows_of_view hviewMaker (hshows maker hmaker))
    refine (hsame hrest).trans (Eq.trans ?_ hresting)
    exact congrArg Redis.resting hnothing

/-- **The loop over the makers** leaves Redis as it was exactly if Redis has shown them all along. -/
theorem settleMakers_resting_iff {first : ℕ} {ds : List FillDelta} {result : Except PyError Unit}
    (hnodup : (ds.map FillDelta.makerId).Nodup) (hsome : ∀ d ∈ ds, s.pg.orders d.makerId ≠ none)
    (horders : t.pg.orders = s.pg.orders) (hbalances : t.pg.balances = s.pg.balances)
    (hredis : t.redis = s.redis)
    (hrun : Prog.forEach ds (settleMaker args first) t = (result, t')) :
    t'.redis.resting = s.redis.resting ↔ s.ShownUpTo args 0 ds := by
  have hshift : Shifts 0 s t := by
    show Moved amounts 0 s.pg.balances t.pg.balances
    rw [hbalances]
    exact Moved.refl _
  have hzero : ∀ key, Balanced ((0 : BalanceKey → Amounts) key) := fun _ => (add_zero (0 : ℚ)).symm
  obtain ⟨-, hshown, hsame⟩ := settleMakers_resting hnodup
    (fun d hd => ⟨hsome d hd, by rw [horders]⟩) (fun d _ => by rw [hredis]) hzero hshift hrun
  constructor
  · exact fun h => hshown fun d _ => view_of_resting h d.makerId
  · intro h
    rw [hsame h, hredis]

/-! ### The batch -/

/-- Inserting a trade touches neither orders, balances nor Redis. -/
private theorem insertTrade_keeps (args : BatchArgs) (t : DomainTrade) :
    Prog.Moves (Prog.Keeps fun s : Store => (s.pg.users, s.pg.tradingPairs, s.pg.orders, s.pg.balances,
      s.redis)) (insertTrade args t) := insertTrade_moves fun _ => rfl

theorem insertTrade_apply (args : BatchArgs) (t : DomainTrade) (s : Store) :
    insertTrade args t s =
      if s.pg.tradeRefs args t = true then (.ok ⟨⟩, s.addTrade (tradeRow args s.tradeIdSeq t))
      else (.error (.tradeForeignKey t.makerOrderId), s) := by
  have hread : (Prog.read fun s => s.pg.tradeRefs args t : M Bool) s =
      (.ok (s.pg.tradeRefs args t), s) := rfl
  rw [insertTrade, Prog.bind_of_ok hread]
  unfold Prog.require
  split_ifs <;> rfl

/-- **The insertion of the trades** returns just if the rows that they refer to are there. -/
theorem insertTrades_cases (args : BatchArgs) (trades : List DomainTrade) (s : Store) :
    (∃ s', Prog.forEach trades (insertTrade args) s = (.ok ⟨⟩, s') ∧
      ∀ t ∈ trades, s.pg.tradeRefs args t = true) ∨
    ∃ err s', Prog.forEach trades (insertTrade args) s = (.error err, s') ∧
      ∃ t ∈ trades, s.pg.tradeRefs args t = false := by
  induction trades generalizing s with
  | nil => exact .inl ⟨s, rfl, by simp⟩
  | cons t trades ih =>
    rw [Prog.forEach_cons, Prog.bind_apply, insertTrade_apply]
    by_cases hrefs : s.pg.tradeRefs args t = true
    · rw [if_pos hrefs]
      -- the next trades find the same rows
      have hsame : ∀ u, (s.addTrade (tradeRow args s.tradeIdSeq t)).pg.tradeRefs args u =
          s.pg.tradeRefs args u := fun _ => rfl
      rcases ih (s.addTrade (tradeRow args s.tradeIdSeq t)) with ⟨s', hs', hall⟩ | ⟨err, s', hs', hone⟩
      · refine .inl ⟨s', hs', ?_⟩
        rw [List.forall_mem_cons]
        exact ⟨hrefs, fun u hu => hsame u ▸ hall u hu⟩
      · obtain ⟨u, hu, hmissing⟩ := hone
        exact .inr ⟨err, s', hs', u, List.mem_cons_of_mem _ hu, hsame u ▸ hmissing⟩
    · rw [if_neg hrefs]
      exact .inr ⟨_, s, rfl, t, List.mem_cons_self, by simpa using hrefs⟩

/-- The taker's settlement does not touch what Redis says of orders, unless it returns. -/
theorem settleTaker_error_resting {qty quoteQty : ℚ} {err : PyError}
    (h : settleTaker args qty quoteQty s = (.error err, s')) : s'.redis.resting = s.redis.resting := by
  cases horder : s.pg.orders args.takerOrderId with
  | none =>
    rw [settleTaker_none horder] at h
    exact absurd (congrArg Prod.fst h) (by simp)
  | some order =>
    rw [settleTaker_apply horder] at h
    rcases Prog.bind_eq_error.mp h with hb | ⟨_, s₁, -, h⟩
    · exact congrArg Prod.snd ((settleTradeBalances_resting _ _ _ _ _ _).of_error hb)
    · exfalso
      unfold Prog.whenever at h
      split_ifs at h
      · obtain ⟨s₂, hok⟩ := activateSltpChildren_total args.takerOrderId s₁
        rw [hok] at h
        exact absurd (congrArg Prod.fst h) (by simp)
      · exact absurd (congrArg Prod.fst h) (by simp)

/-- **A batch that raises**: a trade has no row to refer to, or a maker or the taker cannot be settled. -/
theorem failedBatch_cases {err : PyError} (h : persistTradeBatch args trades s = (.error err, s')) :
    (∃ t ∈ trades, s.pg.tradeRefs args t = false) ∧ s'.redis = s.redis ∨
    (∀ t ∈ trades, s.pg.tradeRefs args t = true) ∧ ∃ result t t',
      t.pg.orders = s.pg.orders ∧ t.pg.balances = s.pg.balances ∧ t.redis = s.redis ∧
      Prog.forEach (makerFillDeltas trades) (settleMaker args s.tradeIdSeq) t = (result, t') ∧
      s'.redis.resting = t'.redis.resting := by
  unfold persistTradeBatch at h
  split_ifs at h with hne
  · exact absurd (congrArg Prod.fst h) (by simp)
  change (Prog.forEach trades (insertTrade args) >>= fun _ => _) s = _ at h
  have hkeeps := Prog.Moves.forEach fun t (_ : t ∈ trades) => insertTrade_keeps args t
  rcases insertTrades_cases args trades s with ⟨s₂, hinsert, hrefs⟩ | ⟨err', s₂, hinsert, hmissing⟩
  · rw [Prog.bind_of_ok hinsert] at h
    obtain ⟨-, -, horders, hbalances, hredis⟩ : _ ∧ _ ∧ _ ∧ _ ∧ _ := by
      simpa only [Prog.Keeps, Prod.mk.injEq] using hkeeps.of_ok hinsert
    rcases Prog.bind_eq_error.mp h with hmakers | ⟨_, s₃, hmakers, hrest⟩
    · exact .inr ⟨hrefs, _, s₂, s', horders, hbalances, hredis, hmakers, rfl⟩
    · -- the taker's settlement has raised
      refine .inr ⟨hrefs, _, s₂, s₃, horders, hbalances, hredis, hmakers, ?_⟩
      rcases Prog.bind_eq_error.mp hrest with hx | ⟨_, s₄, -, hx⟩
      · exact settleTaker_error_resting hx
      · exact absurd (congrArg Prod.fst hx) (by simp)
  -- a trade row was refused, before Redis was touched
  · rw [Prog.bind_of_error hinsert] at h
    obtain rfl : s₂ = s' := congrArg Prod.snd h
    obtain ⟨-, -, -, -, hredis⟩ : _ ∧ _ ∧ _ ∧ _ ∧ _ := by
      simpa only [Prog.Keeps, Prod.mk.injEq] using hkeeps.of_error hinsert
    exact .inl ⟨hmissing, hredis⟩

/-- The makers of trades that have their rows are there. -/
theorem makers_of_refs (hrefs : ∀ t ∈ trades, s.pg.tradeRefs args t = true) :
    ∀ d ∈ makerFillDeltas trades, s.pg.orders d.makerId ≠ none := by
  intro d hd
  obtain ⟨t, ht, hid⟩ := mem_makerFillDeltas hd
  have := hrefs t ht
  simp only [Database.tradeRefs, Bool.and_eq_true, Option.isSome_iff_ne_none] at this
  exact hid ▸ this.1.1.1.2

/-- **A batch that raises** leaves Redis as it was exactly if it has inserted no trade, or Redis has
    shown the makers that it has settled all along. -/
theorem failedBatch_redis_iff {err : PyError}
    (h : transaction (persistTradeBatch args trades) s = (.error err, s')) :
    s'.pg = s.pg ∧ (s'.redis.resting = s.redis.resting ↔
      (∃ t ∈ trades, s.pg.tradeRefs args t = false) ∨ s.ShownUpTo args 0 (makerFillDeltas trades)) := by
  obtain ⟨s₁, hraise, rfl⟩ : ∃ s₁, persistTradeBatch args trades s = (.error err, s₁) ∧
      { s₁ with pg := s.pg } = s' := by
    unfold transaction Prog.atomically at h
    rcases hx : persistTradeBatch args trades s with ⟨err' | rows, s₁⟩ <;> rw [hx] at h
    · obtain ⟨rfl, rfl⟩ : err' = err ∧ { s₁ with pg := s.pg } = s' := by simpa using h
      exact ⟨s₁, rfl, rfl⟩
    · exact absurd (congrArg Prod.fst h) (by simp)
  refine ⟨rfl, ?_⟩
  show s₁.redis.resting = s.redis.resting ↔ _
  rcases failedBatch_cases hraise with ⟨hmissing, hredis⟩ | ⟨hrefs, result, t, t', horders, hbalances, hredis,
    hmakers, hresting⟩
  · exact iff_of_true (by rw [hredis]) (.inl hmissing)
  · have hnot : ¬ ∃ t ∈ trades, s.pg.tradeRefs args t = false := by
      rintro ⟨t, ht, hf⟩
      exact absurd ((hrefs t ht).symm.trans hf) (by simp)
    rw [or_iff_right hnot, hresting]
    exact settleMakers_resting_iff (makerFillDeltas_nodup trades) (makers_of_refs hrefs) horders hbalances
      hredis hmakers

end

/-! ### A second maker that cannot pay -/

/-- A sell order rests in Redis. -/
def restInRedis (id : OrderId) (order : Order) (r : Redis) : Redis :=
  let r := addOpenOrder order.userId order.symbol id (hset id (placedHash order) r)
  r.setBook order.symbol order.side
    ((r.book order.symbol order.side).zadd memberKey (100000 * scoreMultiplier + id) id)

/-- Sell orders of the users 1 and 2, a buy order of the user 3.  The user 2 has nothing locked. -/
def twoSells : Store :=
  let start := Store.start {1, 2, 3} (fun _ => some
    { baseAsset := "BTC", quoteAsset := "USDT", minLotSize := 1, maxLotSize := 100, tickSize := 1,
      isActive := true })
    fun key => if key = (1, "BTC") then some ⟨1, 1, 0, 1⟩
      else if key = (2, "BTC") then some ⟨1, 0, 1, 1⟩
      else if key = (3, "USDT") then some ⟨20, 20, 0, 1⟩ else none
  let orders := ((start.putOrder 1 (orderAtTen 1 .sell)).putOrder 2 (orderAtTen 2 .sell)).putOrder 3
    { orderAtTen 3 .buy with quantity := 2 }
  { (orders.setRedis (restInRedis 1 (orderAtTen 1 .sell))).setRedis
      (restInRedis 2 (orderAtTen 2 .sell)) with orderIdSeq := 4 }

/-- The buy order fills both. -/
def bothArgs : BatchArgs where
  takerUserId := 3
  takerOrderId := 3
  takerSide := .buy
  symbol := "BTC/USDT"
  baseAsset := "BTC"
  quoteAsset := "USDT"

/-- A fill of one unit at 10. -/
def unitTrade (makerOrderId : OrderId) (makerUserId : UserId) : DomainTrade where
  takerOrderId := 3
  makerOrderId := makerOrderId
  symbol := "BTC/USDT"
  price := 10
  quantity := 1
  quoteQuantity := 10
  side := .buy
  makerUserId := makerUserId

/-- The batch. -/
def bothTrades : List DomainTrade := [unitTrade 1 1, unitTrade 2 2]

/-- It raises: the user 2 cannot pay. -/
theorem twoSells_raises : transaction (persistTradeBatch bothArgs bothTrades) twoSells =
    (.error (.balance (.insufficient (2, "BTC") 1 0)),
      (transaction (persistTradeBatch bothArgs bothTrades) twoSells).2) := by
  have hraise : (transaction (persistTradeBatch bothArgs bothTrades) twoSells).1 =
      .error (.balance (.insufficient (2, "BTC") 1 0)) := by decide +kernel
  exact Prod.ext hraise rfl

theorem failedBatch_redis_iff_twoSells :
    (transaction (persistTradeBatch bothArgs bothTrades) twoSells).2.pg = twoSells.pg ∧
      ((transaction (persistTradeBatch bothArgs bothTrades) twoSells).2.redis.resting =
          twoSells.redis.resting ↔
        (∃ t ∈ bothTrades, twoSells.pg.tradeRefs bothArgs t = false) ∨
          twoSells.ShownUpTo bothArgs 0 (makerFillDeltas bothTrades)) :=
  failedBatch_redis_iff twoSells_raises

/-- **The first maker is gone from Redis although nothing has been committed**: it is still active, and
    rests nowhere. -/
theorem failedBatch_loses_maker :
    ∃ err s', transaction (persistTradeBatch bothArgs bothTrades) twoSells = (.error err, s') ∧
      s'.pg.orders 1 = some (orderAtTen 1 .sell) ∧
      1 ∈ (twoSells.redis.book "BTC/USDT" .sell).members ∧
      1 ∉ (s'.redis.book "BTC/USDT" .sell).members ∧
      s'.redis.orderHash 1 = none ∧ s'.redis.resting ≠ twoSells.redis.resting := by
  refine ⟨_, _, twoSells_raises, by decide +kernel, by decide +kernel, by decide +kernel,
    by decide +kernel, fun hresting => ?_⟩
  have hhash : (transaction (persistTradeBatch bothArgs bothTrades) twoSells).2.redis.orderHash 1 ≠
      twoSells.redis.orderHash 1 := by decide +kernel
  exact hhash (congrFun (congrArg (fun x => x.2.1) hresting) 1)

end SpotExchange.Exchange
