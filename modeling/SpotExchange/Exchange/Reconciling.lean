import SpotExchange.Exchange.Queued

namespace SpotExchange.Exchange

open SpotExchange.Lib
open SpotExchange.Engine (OrderId)
open SpotExchange.Ledger (Row)

/-!
# Fills and the table of trades

`persist_trade_batch` adds to the fills of an order in one place and inserts trades in another; the
makers' users are patched in afterwards.

* `Store.settleAll` — a run of transactions of `persist_trade_batch`;
* `Reconciled` — the fills, the statuses and the owners are those that the table of trades shows;
* `persistTradeBatch_trades` — the rows that a batch inserts, with the owners of their makers;
* `settleAll_reconciled` — a run from an empty table is reconciled.
-/

/-- A call of `persist_trade_batch`. -/
structure Batch where
  args : BatchArgs
  trades : List DomainTrade

/-- The store after a transaction of `persist_trade_batch`, which commits or rolls back. -/
def Store.settle (s : Store) (b : Batch) : Store :=
  (transaction (persistTradeBatch b.args b.trades) s).2

/-- The store after a run of such transactions. -/
def Store.settleAll (s : Store) (bs : List Batch) : Store := Run.after Store.settle s bs

/-- The order is one of the two of the trade. -/
def Trade.Involves (id : OrderId) (t : Trade) : Prop := t.takerOrderId = id ∨ t.makerOrderId = id

instance (id : OrderId) : DecidablePred (Trade.Involves id) :=
  fun t => inferInstanceAs (Decidable (t.takerOrderId = id ∨ t.makerOrderId = id))

/-- The rows of the trades of an order. -/
def Store.rowsOf (s : Store) (id : OrderId) : List Trade := s.pg.trades.filter (Trade.Involves id)

/-- **The orders are as the table of trades shows.** -/
structure Reconciled (s : Store) : Prop where
  filledQuantity : ∀ id o, s.pg.orders id = some o →
    o.filledQuantity = ((s.rowsOf id).map Trade.quantity).sum
  filledQuoteQty : ∀ id o, s.pg.orders id = some o →
    o.filledQuoteQty = ((s.rowsOf id).map Trade.quoteQuantity).sum
  status : ∀ id o, s.pg.orders id = some o → s.rowsOf id ≠ [] → o.status = o.fillStatus
  takerUserId : ∀ t ∈ s.pg.trades,
    ∃ o, s.pg.orders t.takerOrderId = some o ∧ o.userId = t.takerUserId
  makerUserId : ∀ t ∈ s.pg.trades,
    ∃ o, s.pg.orders t.makerOrderId = some o ∧ o.userId = t.makerUserId

/-- What a caller of `persist_trade_batch` sees to: positive quantities, a taker that is none of its
    makers, and the taker's own user. -/
structure Batch.Proper (s : Store) (b : Batch) : Prop where
  quantity_pos : ∀ t ∈ b.trades, 0 < t.quantity
  taker_ne : ∀ t ∈ b.trades, t.makerOrderId ≠ b.args.takerOrderId
  takerUserId : ∀ o, s.pg.orders b.args.takerOrderId = some o → o.userId = b.args.takerUserId

/-- Nothing has been traded. -/
structure Untraded (s : Store) : Prop where
  trades : s.pg.trades = []
  unfilled : ∀ id o, s.pg.orders id = some o → o.filledQuantity = 0 ∧ o.filledQuoteQty = 0

/-! ### The rows of a batch -/

variable {args : BatchArgs} {trades : List DomainTrade} {s s' : Store}

/-- The rows of the trades, from id `n` on. -/
def tradeRows (args : BatchArgs) : ℕ → List DomainTrade → List Trade
  | _, [] => []
  | n, t :: ts => tradeRow args n t :: tradeRows args (n + 1) ts

theorem mem_tradeRows {n : ℕ} {r : Trade} (h : r ∈ tradeRows args n trades) :
    (n ≤ r.id ∧ r.id < n + trades.length) ∧ ∃ t ∈ trades, r = tradeRow args r.id t := by
  induction trades generalizing n with
  | nil => exact absurd h List.not_mem_nil
  | cons t ts ih =>
    rcases List.mem_cons.mp h with rfl | h
    · refine ⟨⟨le_rfl, ?_⟩, t, List.mem_cons_self, rfl⟩
      show n < n + (ts.length + 1)
      omega
    · obtain ⟨⟨hlo, hhi⟩, u, hu, hr⟩ := ih h
      refine ⟨⟨by omega, ?_⟩, u, List.mem_cons_of_mem _ hu, hr⟩
      rw [List.length_cons]
      omega

theorem insertTrades_trades {u : Unit} (h : Prog.forEach trades (insertTrade args) s = (.ok u, s')) :
    s'.pg.trades = s.pg.trades ++ tradeRows args s.tradeIdSeq trades ∧
      s'.tradeIdSeq = s.tradeIdSeq + trades.length := by
  induction trades generalizing s with
  | nil =>
    obtain rfl : s = s' := congrArg Prod.snd h
    exact ⟨(List.append_nil _).symm, rfl⟩
  | cons t ts ih =>
    rw [Prog.forEach_cons] at h
    obtain ⟨_, s₁, ht, hts⟩ := Prog.bind_eq_ok.mp h
    obtain ⟨refs, s₂, hread, ht⟩ := Prog.bind_eq_ok.mp ht
    obtain rfl : s = s₂ := congrArg Prod.snd hread
    obtain ⟨_, s₃, hreq, ht⟩ := Prog.bind_eq_ok.mp ht
    obtain ⟨-, rfl⟩ := Prog.require_eq_ok.mp hreq
    obtain rfl : s.addTrade (tradeRow args s.tradeIdSeq t) = s₁ := congrArg Prod.snd ht
    obtain ⟨htrades, hseq⟩ := ih hts
    rw [htrades, hseq]
    refine ⟨?_, ?_⟩
    · show (s.pg.trades ++ [tradeRow args s.tradeIdSeq t]) ++ tradeRows args (s.tradeIdSeq + 1) ts = _
      rw [List.append_assoc]
      rfl
    · show s.tradeIdSeq + 1 + ts.length = s.tradeIdSeq + (ts.length + 1)
      omega

/-- A row with the owner of its maker. -/
def Trade.withMaker (owner : OrderId → UserId) (t : Trade) : Trade :=
  { t with makerUserId := owner t.makerOrderId }

/-- A row whose maker is among `ids`, with the maker's owner. -/
def assignMaker (first : ℕ) (owner : OrderId → UserId) (ids : List OrderId) (t : Trade) : Trade :=
  if first ≤ t.id ∧ t.makerOrderId ∈ ids then t.withMaker owner else t

theorem assignMaker_nil (first : ℕ) (owner : OrderId → UserId) (t : Trade) :
    assignMaker first owner [] t = t := if_neg fun h => absurd h.2 List.not_mem_nil

theorem assignMaker_cons (first : ℕ) (owner : OrderId → UserId) (id : OrderId) (ids : List OrderId)
    (t : Trade) :
    assignMaker first owner ids (assignMaker first owner [id] t) = assignMaker first owner (id :: ids) t := by
  unfold assignMaker Trade.withMaker
  by_cases hfirst : first ≤ t.id
  · by_cases hid : t.makerOrderId = id
    · simp [hfirst, hid]
    · simp [hfirst, hid]
  · simp [hfirst]

/-- Settling balances leaves the trades alone. -/
private theorem settleTradeBalances_trades {isTaker : Bool} {userId : UserId} {orderId : OrderId}
    {qty quoteQty : ℚ} {u : Unit}
    (h : settleTradeBalances args isTaker userId orderId qty quoteQty s = (.ok u, s')) :
    s'.pg.trades = s.pg.trades :=
  (settleTradeBalances_moves (R := Prog.Keeps fun s => s.pg.trades) (fun _ _ _ _ => rfl) args
    isTaker userId orderId qty quoteQty).of_ok h

/-- **A maker** gives its owner to its trades. -/
theorem settleMaker_trades {first : ℕ} {d : FillDelta} {u : Unit}
    (hsome : s.pg.orders d.makerId ≠ none) (h : settleMaker args first d s = (.ok u, s')) :
    s'.pg.trades = s.pg.trades.map (assignMaker first s.owner [d.makerId]) := by
  obtain ⟨order, horder⟩ := Option.ne_none_iff_exists'.mp hsome
  rw [settleMaker_apply horder] at h
  obtain ⟨_, s₁, hb, h⟩ := Prog.bind_eq_ok.mp h
  obtain rfl : s₁.setRedis (updateRedisMaker d.makerId (order.filledAsMaker d.qty d.quoteQty)) = s' :=
    congrArg Prod.snd h
  have howner : s.owner d.makerId = order.userId := by simp [Store.owner, horder]
  show s₁.pg.trades = _
  rw [settleTradeBalances_trades hb]
  refine List.map_congr_left fun t _ => ?_
  unfold assignMaker Trade.withMaker
  by_cases hid : t.makerOrderId = d.makerId
  · simp [hid, howner]
  · simp [hid]

theorem settleMakers_trades {first : ℕ} {ds : List FillDelta} {u : Unit}
    (hds : ∀ d ∈ ds, d ∈ makerFillDeltas trades) (hsome : ∀ d ∈ ds, s.pg.orders d.makerId ≠ none)
    (h : Prog.forEach ds (settleMaker args first) s = (.ok u, s')) :
    s'.pg.trades = s.pg.trades.map (assignMaker first s.owner (ds.map FillDelta.makerId)) := by
  induction ds generalizing s with
  | nil =>
    obtain rfl : s = s' := congrArg Prod.snd h
    exact (List.map_id'' (fun t => assignMaker_nil first s.owner t) _).symm
  | cons d ds ih =>
    rw [Prog.forEach_cons] at h
    obtain ⟨_, s₁, hd, hrest⟩ := Prog.bind_eq_ok.mp h
    have hset : s₁.setting = s.setting :=
      ((settlement_setting args trades).1.settleMaker (hds d List.mem_cons_self) first).of_ok hd
    have hsome₁ : ∀ d' ∈ ds, s₁.pg.orders d'.makerId ≠ none := by
      intro d' hd'
      rw [Ne, none_of_setting hset]
      exact hsome d' (List.mem_cons_of_mem _ hd')
    rw [ih (fun d' hd' => hds d' (List.mem_cons_of_mem _ hd')) hsome₁ hrest, owner_of_setting hset,
      settleMaker_trades (hsome d List.mem_cons_self) hd, List.map_map, List.map_cons]
    exact List.map_congr_left fun t _ => assignMaker_cons first s.owner d.makerId _ t

/-- The taker leaves the trades alone. -/
theorem settleTaker_trades {qty quoteQty : ℚ} {u : Unit}
    (h : settleTaker args qty quoteQty s = (.ok u, s')) : s'.pg.trades = s.pg.trades := by
  cases horder : s.pg.orders args.takerOrderId with
  | none =>
    rw [settleTaker_none horder] at h
    exact congrArg (fun x => x.2.pg.trades) h.symm
  | some order =>
    rw [settleTaker_apply horder] at h
    obtain ⟨_, s₁, hb, h⟩ := Prog.bind_eq_ok.mp h
    have hb' := settleTradeBalances_trades hb
    rcases Prog.whenever_eq_ok.mp h with ⟨-, rfl⟩ | ⟨-, h⟩
    · exact hb'
    · refine Eq.trans ?_ hb'
      exact (activateSltpChildren_moves (R := Prog.Keeps fun s => s.pg.trades) args.takerOrderId
        fun _ _ _ _ _ => rfl).of_ok h

/-- The rows of a batch, with the owners of their makers. -/
def Store.newRows (s : Store) (b : Batch) : List Trade :=
  (tradeRows b.args s.tradeIdSeq b.trades).map (Trade.withMaker s.owner)

/-- **The rows that a batch inserts.** -/
theorem persistTradeBatch_trades {b : Batch} {rows : List Trade}
    (hids : ∀ t ∈ s.pg.trades, t.id < s.tradeIdSeq)
    (h : persistTradeBatch b.args b.trades s = (.ok rows, s')) :
    s'.pg.trades = s.pg.trades ++ s.newRows b := by
  by_cases hne : b.trades = []
  · unfold persistTradeBatch at h
    rw [if_pos hne] at h
    obtain rfl : s = s' := congrArg Prod.snd h
    rw [Store.newRows, hne]
    exact (List.append_nil _).symm
  obtain ⟨-, hrefs, -⟩ := persistTradeBatch_spec h
  obtain ⟨s₁, s₂, hinsert, hmakers, htaker⟩ := persistTradeBatch_eq_ok hne h
  have hset : s₁.setting = s.setting := (Prog.Moves.forEach (R := Prog.Keeps Store.setting)
    fun t ht => (settlement_setting b.args b.trades).1.insertTrade ht).of_ok hinsert
  have hsome : ∀ d ∈ makerFillDeltas b.trades, s₁.pg.orders d.makerId ≠ none := by
    intro d hd
    obtain ⟨t, ht, hid⟩ := mem_makerFillDeltas hd
    have href := hrefs t ht
    simp only [Database.tradeRefs, Bool.and_eq_true, Option.isSome_iff_ne_none] at href
    rw [Ne, none_of_setting hset, ← hid]
    exact href.1.1.1.2
  rw [settleTaker_trades htaker, settleMakers_trades (fun d hd => hd) hsome hmakers,
    owner_of_setting hset, (insertTrades_trades hinsert).1, List.map_append]
  refine congrArg₂ (· ++ ·) ?_ ?_
  · -- the rows of earlier batches have smaller ids
    refine (List.map_congr_left fun t ht => ?_).trans (List.map_id _)
    exact if_neg fun hold => absurd (hids t ht) (not_lt.mpr hold.1)
  -- each new row gets its maker's user from the maker's delta
  · refine List.map_congr_left fun t ht => ?_
    obtain ⟨⟨hle, -⟩, u, hu, hrow⟩ := mem_tradeRows ht
    obtain ⟨d, hd, hmaker⟩ := exists_makerFillDelta hu
    have hmem : t.makerOrderId ∈ (makerFillDeltas b.trades).map FillDelta.makerId := by
      rw [hrow]
      exact List.mem_map.mpr ⟨d, hd, hmaker⟩
    exact if_pos ⟨hle, hmem⟩

/-! ### One batch -/

/-- Ids are given out in order. -/
def TradeIdsBelow (s : Store) : Prop := ∀ t ∈ s.pg.trades, t.id < s.tradeIdSeq

/-- Ids go on being given out in order. -/
def OrdersTradeIds (s s' : Store) : Prop :=
  s.tradeIdSeq ≤ s'.tradeIdSeq ∧ (TradeIdsBelow s → TradeIdsBelow s')

instance : IsPreorder Store OrdersTradeIds where
  refl _ := ⟨le_rfl, fun h => h⟩
  trans _ _ _ h h' := ⟨h.1.trans h'.1, h'.2 ∘ h.2⟩

theorem settlement_tradeIds (args : BatchArgs) (trades : List DomainTrade) :
    FillSteps args trades OrdersTradeIds ∧ ChildSteps args.takerOrderId OrdersTradeIds where
  left :=
    { trade := by
        refine fun s t _ => ⟨Nat.le_succ _, fun h r hr => ?_⟩
        rcases List.mem_append.mp hr with hr | hr
        · exact (h r hr).trans (Nat.lt_succ_self _)
        · obtain rfl := List.mem_singleton.mp hr
          exact Nat.lt_succ_self _
      makerUser := by
        refine fun s first makerId userId => ⟨le_rfl, fun h r hr => ?_⟩
        obtain ⟨t, ht, rfl⟩ := List.mem_map.mp hr
        have hlt := h t ht
        split_ifs <;> exact hlt
      balance := fun s _ _ _ => refl_of OrdersTradeIds s
      maker := fun s _ _ _ _ => refl_of OrdersTradeIds s
      redisMaker := fun s _ _ _ _ => refl_of OrdersTradeIds s
      taker := fun s _ _ => refl_of OrdersTradeIds s }
  right := fun s _ _ _ _ => refl_of OrdersTradeIds s

/-- **A transaction** commits the batch, or leaves the tables as they were. -/
theorem settle_cases (s : Store) (b : Batch) :
    (∃ rows, persistTradeBatch b.args b.trades s = (.ok rows, s.settle b)) ∨
      (s.settle b).pg = s.pg ∧ s.tradeIdSeq ≤ (s.settle b).tradeIdSeq := by
  have hsteps := settlement_tradeIds b.args b.trades
  unfold Store.settle transaction Prog.atomically
  rcases hx : persistTradeBatch b.args b.trades s with ⟨err | rows, s₁⟩
  · exact .inr ⟨rfl, (persistTradeBatch_moves_error hsteps.1 hx).1⟩
  · exact .inl ⟨rows, rfl⟩

/-- What a trade fills, in base and in quote. -/
def Trade.fills (t : Trade) : ℚ × ℚ := (t.quantity, t.quoteQuantity)

theorem sum_fills (ts : List Trade) : (ts.map Trade.fills).sum =
    ((ts.map Trade.quantity).sum, (ts.map Trade.quoteQuantity).sum) := by
  induction ts with
  | nil => rfl
  | cons t ts ih =>
    simp only [List.map_cons, List.sum_cons, ih]
    rfl

/-- What the trades of a batch fill of an order. -/
def DomainTrade.fillsOf (args : BatchArgs) (id : OrderId) (t : DomainTrade) : ℚ × ℚ :=
  if args.takerOrderId = id ∨ t.makerOrderId = id then (t.quantity, t.price * t.quantity) else 0

theorem tradeRows_fills (args : BatchArgs) (owner : OrderId → UserId) (id : OrderId) (n : ℕ)
    (trades : List DomainTrade) :
    ((((tradeRows args n trades).map (Trade.withMaker owner)).filter (Trade.Involves id)).map
      Trade.fills).sum = (trades.map (DomainTrade.fillsOf args id)).sum := by
  induction trades generalizing n with
  | nil => rfl
  | cons t ts ih =>
    have hiff : Trade.Involves id ((tradeRow args n t).withMaker owner) ↔
        args.takerOrderId = id ∨ t.makerOrderId = id := Iff.rfl
    rw [tradeRows, List.map_cons, List.map_cons, List.sum_cons, ← ih (n + 1), DomainTrade.fillsOf]
    by_cases hid : args.takerOrderId = id ∨ t.makerOrderId = id
    · rw [if_pos hid, List.filter_cons_of_pos (by simpa using hiff.mpr hid), List.map_cons,
        List.sum_cons]
      rfl
    · rw [if_neg hid, List.filter_cons_of_neg (by simpa using fun h => hid (hiff.mp h)), zero_add]

/-- The taker is none of the makers, so that no trade fills an order twice. -/
theorem batchEffect_fills {owner : OrderId → UserId} (id : OrderId)
    (hne : ∀ t ∈ trades, t.makerOrderId ≠ args.takerOrderId) :
    (batchEffect args owner trades).2 id = (trades.map (DomainTrade.fillsOf args id)).sum := by
  unfold batchEffect
  induction trades with
  | nil => rfl
  | cons t ts ih =>
    rw [List.forall_mem_cons] at hne
    rw [List.map_cons, List.sum_cons, List.map_cons, List.sum_cons, ← ih hne.2, DomainTrade.fillsOf]
    refine congrArg (fun x : ℚ × ℚ => x + _) ?_
    show (Moved.single t.makerOrderId _ + Moved.single args.takerOrderId _ : OrderId → ℚ × ℚ) id = _
    rw [Pi.add_apply, Moved.single_apply, Moved.single_apply]
    by_cases hmaker : id = t.makerOrderId
    · have htaker : id ≠ args.takerOrderId := hmaker ▸ hne.1
      rw [if_pos hmaker, if_neg htaker, if_pos (.inr hmaker.symm), add_zero]
      rfl
    · by_cases htaker : id = args.takerOrderId
      · rw [if_neg hmaker, if_pos htaker, if_pos (.inl htaker.symm), zero_add]
      · rw [if_neg hmaker, if_neg htaker, if_neg (by tauto), add_zero]

/-! ### Runs -/

/-- What holds between two batches. -/
structure Booked (s : Store) : Prop where
  reconciled : Reconciled s
  ids : TradeIdsBelow s
  quantity_pos : ∀ t ∈ s.pg.trades, 0 < t.quantity

theorem Booked.filled_nonneg (h : Booked s) {id : OrderId} {o : Order} (ho : s.pg.orders id = some o) :
    0 ≤ o.filledQuantity := by
  rw [h.reconciled.filledQuantity id o ho]
  refine List.sum_nonneg ?_
  simp only [List.mem_map, forall_exists_index, and_imp]
  rintro _ t ht rfl
  exact (h.quantity_pos t (List.mem_filter.mp ht).1).le

/-- The tables are all that `Booked` is about, the sequence apart. -/
theorem Booked.of_pg (h : Booked s) (hpg : s'.pg = s.pg) (hseq : s.tradeIdSeq ≤ s'.tradeIdSeq) :
    Booked s' := by
  obtain ⟨⟨hq, hquote, hstatus, htaker, hmaker⟩, hids, hpos⟩ := h
  have htrades : ∀ id, s'.rowsOf id = s.rowsOf id := fun id => by
    rw [Store.rowsOf, Store.rowsOf, hpg]
  refine ⟨⟨?_, ?_, ?_, ?_, ?_⟩, ?_, ?_⟩
  · simpa only [htrades, hpg] using hq
  · simpa only [htrades, hpg] using hquote
  · simpa only [htrades, hpg] using hstatus
  · simpa only [hpg] using htaker
  · simpa only [hpg] using hmaker
  · intro t ht
    rw [hpg] at ht
    exact (hids t ht).trans_le hseq
  · simpa only [hpg] using hpos

/-- A row of a batch, and its trade. -/
theorem mem_newRows {b : Batch} {r : Trade} (h : r ∈ s.newRows b) :
    ∃ t ∈ b.trades, r.takerOrderId = b.args.takerOrderId ∧ r.makerOrderId = t.makerOrderId ∧
      r.quantity = t.quantity ∧ r.takerUserId = b.args.takerUserId ∧
      r.makerUserId = s.owner t.makerOrderId := by
  obtain ⟨r₀, hr₀, rfl⟩ := List.mem_map.mp h
  obtain ⟨-, t, ht, hr₀⟩ := mem_tradeRows hr₀
  rw [hr₀]
  exact ⟨t, ht, rfl, rfl, rfl, rfl, rfl⟩

/-- An order that takes no part in a batch has no new trades. -/
theorem newRows_of_not_takesPart {b : Batch} {id : OrderId} (h : ¬ TakesPart b.args b.trades id) :
    (s.newRows b).filter (Trade.Involves id) = [] := by
  rw [List.filter_eq_nil_iff]
  intro r hr hinvolves
  obtain ⟨t, ht, htaker, hmaker, -⟩ := mem_newRows hr
  rw [decide_eq_true_eq, Trade.Involves, htaker, hmaker] at hinvolves
  rcases hinvolves with hid | hid
  · exact h (.inl ⟨hid.symm, List.ne_nil_of_mem ht⟩)
  · exact h (.inr ⟨t, ht, hid⟩)

/-- **The status** of an order that has trades after a batch. -/
theorem Booked.commit_status {b : Batch} {rows : List Trade} {id : OrderId} {o : Order} (h : Booked s)
    (hb : b.Proper s) (hx : persistTradeBatch b.args b.trades s = (.ok rows, s'))
    (ho : s'.pg.orders id = some o) (hne : s'.rowsOf id ≠ []) : o.status = o.fillStatus := by
  obtain ⟨hset, -, -⟩ := persistTradeBatch_spec hx
  obtain ⟨o₀, ho₀, -⟩ := terms_of_setting hset.symm ho
  by_cases hpart : TakesPart b.args b.trades id
  · obtain ⟨o', ho', -, -, hstatus⟩ :=
      persistTradeBatch_order hx hb.quantity_pos hpart ho₀ (h.filled_nonneg ho₀)
    obtain rfl : o = o' := Option.some.inj (ho.symm.trans ho')
    exact hstatus
  -- its trades are those of earlier batches
  have hold : o₀.status = o₀.fillStatus := by
    refine h.reconciled.status id o₀ ho₀ ?_
    rw [Store.rowsOf, persistTradeBatch_trades h.ids hx, List.filter_append,
      newRows_of_not_takesPart hpart, List.append_nil] at hne
    exact hne
  by_cases hempty : b.trades = []
  · unfold persistTradeBatch at hx
    rw [if_pos hempty] at hx
    obtain rfl : s = s' := congrArg Prod.snd hx
    obtain rfl : o₀ = o := Option.some.inj (ho₀.symm.trans ho)
    exact hold
  have hsteps := settlement_fillsOrder b.args hempty hb.quantity_pos id
  obtain ⟨o', ho', hto⟩ :=
    (persistTradeBatch_moves hsteps.1 hsteps.2).of_ok hx o₀ ho₀ (h.filled_nonneg ho₀)
  obtain rfl : o = o' := Option.some.inj (ho.symm.trans ho')
  -- no fill and no status, activated, or filled
  rcases hto.filled with ⟨hsame, hstatus | ⟨hpending, -⟩⟩ | ⟨-, hstatus⟩
  · have hquantity : o.quantity = o₀.quantity := congrArg OrderTerms.quantity hto.terms
    rw [hstatus, hold, Order.fillStatus, Order.fillStatus, hsame, hquantity]
  · exact absurd (hold.symm.trans hpending) (Order.fillStatus_ne_pending o₀)
  · exact hstatus

/-- An order of the old store, after a batch. -/
private theorem owner_stays (hset : s'.setting = s.setting) {id : OrderId} {userId : UserId}
    (h : ∃ o, s.pg.orders id = some o ∧ o.userId = userId) :
    ∃ o, s'.pg.orders id = some o ∧ o.userId = userId := by
  obtain ⟨o, ho, huser⟩ := h
  obtain ⟨o', ho', hterms⟩ := terms_of_setting hset ho
  exact ⟨o', ho', (congrArg OrderTerms.userId hterms).trans huser⟩

/-- **A batch that commits.** -/
theorem Booked.commit {b : Batch} {rows : List Trade} (h : Booked s) (hb : b.Proper s)
    (hx : persistTradeBatch b.args b.trades s = (.ok rows, s')) : Booked s' := by
  obtain ⟨hset, hrefs, hsettles⟩ := persistTradeBatch_spec hx
  have htrades := persistTradeBatch_trades h.ids hx
  have hof : ∀ id, s'.rowsOf id = s.rowsOf id ++ (s.newRows b).filter (Trade.Involves id) :=
    fun id => by rw [Store.rowsOf, htrades, List.filter_append, Store.rowsOf]
  -- each order of the new store is one of the old store, with the fills of the batch added
  have hfills : ∀ id o', s'.pg.orders id = some o' → o'.fills = ((s'.rowsOf id).map Trade.fills).sum := by
    intro id o' ho'
    obtain ⟨o, ho, -⟩ := terms_of_setting hset.symm ho'
    obtain ⟨o'', ho'', hmoved⟩ := hsettles.fills.row ho
    obtain rfl : o' = o'' := Option.some.inj (ho'.symm.trans ho'')
    rw [hmoved, batchEffect_fills id hb.taker_ne, ← tradeRows_fills b.args s.owner id s.tradeIdSeq,
      hof, List.map_append, List.sum_append,
      sum_fills (s.rowsOf id)]
    refine congrArg (· + _) ?_
    exact Prod.ext (h.reconciled.filledQuantity id o ho) (h.reconciled.filledQuoteQty id o ho)
  have hmem : ∀ t ∈ s'.pg.trades, t ∈ s.pg.trades ∨ t ∈ s.newRows b := by
    intro t ht
    rwa [htrades, List.mem_append] at ht
  -- the foreign keys of the trades held, so both rows are there
  have hrow : ∀ t ∈ b.trades, (s.pg.orders b.args.takerOrderId).isSome = true ∧
      (s.pg.orders t.makerOrderId).isSome = true := by
    intro t ht
    have href := hrefs t ht
    simp only [Database.tradeRefs, Bool.and_eq_true] at href
    exact href.1.1.1
  have hsteps := settlement_tradeIds b.args b.trades
  refine ⟨⟨fun id o ho => ?_, fun id o ho => ?_, fun id o ho => h.commit_status hb hx ho, ?_, ?_⟩,
    ((persistTradeBatch_moves hsteps.1 hsteps.2).of_ok hx).2 h.ids, ?_⟩
  · exact congrArg Prod.fst ((hfills id o ho).trans (sum_fills _))
  · exact congrArg Prod.snd ((hfills id o ho).trans (sum_fills _))
  · intro t ht
    refine owner_stays hset ?_
    rcases hmem t ht with ht | ht
    · exact h.reconciled.takerUserId t ht
    · obtain ⟨u, hu, htaker, -, -, huser, -⟩ := mem_newRows ht
      obtain ⟨o, ho⟩ := Option.isSome_iff_exists.mp (hrow u hu).1
      rw [htaker, huser]
      exact ⟨o, ho, hb.takerUserId o ho⟩
  · intro t ht
    refine owner_stays hset ?_
    rcases hmem t ht with ht | ht
    · exact h.reconciled.makerUserId t ht
    · obtain ⟨u, hu, -, hmaker, -, -, huser⟩ := mem_newRows ht
      obtain ⟨o, ho⟩ := Option.isSome_iff_exists.mp (hrow u hu).2
      rw [hmaker, huser]
      exact ⟨o, ho, by simp [Store.owner, ho]⟩
  · intro t ht
    rcases hmem t ht with ht | ht
    · exact h.quantity_pos t ht
    · obtain ⟨u, hu, -, -, hq, -, -⟩ := mem_newRows ht
      rw [hq]
      exact hb.quantity_pos u hu

/-- **A transaction.** -/
theorem Booked.settle {b : Batch} (h : Booked s) (hb : b.Proper s) : Booked (s.settle b) := by
  rcases settle_cases s b with ⟨rows, hx⟩ | ⟨hpg, hseq⟩
  · exact h.commit hb hx
  · exact h.of_pg hpg hseq

/-- Callers go on seeing to what they have to: no batch changes whose an order is. -/
theorem Batch.Proper.settle {b : Batch} (hb : b.Proper s) (b' : Batch) : b.Proper (s.settle b') := by
  refine ⟨hb.quantity_pos, hb.taker_ne, fun o ho => ?_⟩
  rcases settle_cases s b' with ⟨rows, hx⟩ | ⟨hpg, -⟩
  · obtain ⟨o₀, ho₀, hterms⟩ := terms_of_setting (persistTradeBatch_spec hx).1.symm ho
    rw [← hb.takerUserId o₀ ho₀]
    exact (congrArg OrderTerms.userId hterms).symm
  · rw [hpg] at ho
    exact hb.takerUserId o ho

theorem Booked.settleAll {bs : List Batch} (h : Booked s) (hbs : ∀ b ∈ bs, b.Proper s) :
    Booked (s.settleAll bs) := by
  induction bs generalizing s with
  | nil => exact h
  | cons b bs ih =>
    rw [List.forall_mem_cons] at hbs
    exact ih (h.settle hbs.1) fun b' hb' => (hbs.2 b' hb').settle b

theorem Untraded.booked (h : Untraded s) : Booked s := by
  have hnone : ∀ id, s.rowsOf id = [] := fun id => by rw [Store.rowsOf, h.trades, List.filter_nil]
  have hrow : ∀ t, t ∉ s.pg.trades := fun t ht => by
    rw [h.trades] at ht
    exact List.not_mem_nil ht
  refine ⟨⟨fun id o ho => ?_, fun id o ho => ?_, fun id o _ hne => absurd (hnone id) hne,
    fun t ht => absurd ht (hrow t), fun t ht => absurd ht (hrow t)⟩,
    fun t ht => absurd ht (hrow t), fun t ht => absurd ht (hrow t)⟩
  · rw [hnone]
    exact (h.unfilled id o ho).1
  · rw [hnone]
    exact (h.unfilled id o ho).2

/-- **The worker** sees to what `persist_trade_batch` needs. -/
theorem Matched.proper {p : OrderActionPayload} {r : Engine.MatchResult} (h : Matched p s r)
    (hconsistent : Consistent s) (hrow : s.HasRow p) (pair : TradingPair) :
    Batch.Proper s { args := batchArgs p pair, trades := s.domainTrades p r } where
  quantity_pos := h.trade_pos
  taker_ne := fun _ ht => h.maker_ne hconsistent hrow ht
  takerUserId := by
    intro o ho
    obtain ⟨o', ho', hfits⟩ := hrow
    obtain rfl : o = o' := Option.some.inj (ho.symm.trans ho')
    exact hfits.userId

/-- **The fills reconcile with the table of trades** after every run of batches. -/
theorem settleAll_reconciled {bs : List Batch} (h : Untraded s) (hbs : ∀ b ∈ bs, b.Proper s) :
    Reconciled (s.settleAll bs) :=
  (h.booked.settleAll hbs).reconciled

/-! ### A maker that is filled twice, and a taker that rests -/

/-- Orders 1 and 3 of user 1 sell two units each, order 2 of user 2 buys three. -/
def threeOrders : Store :=
  let start := Store.start {1, 2}
    (fun symbol => if symbol = "BTC/USDT" then some
      { baseAsset := "BTC", quoteAsset := "USDT", minLotSize := 1, maxLotSize := 100,
        tickSize := 1, isActive := true } else none)
    (fun key => [((1, "BTC"), (⟨4, 4, 0, 1⟩ : Row)), ((1, "USDT"), ⟨0, 0, 0, 1⟩),
      ((2, "BTC"), ⟨0, 0, 0, 1⟩), ((2, "USDT"), ⟨300, 300, 0, 1⟩)].lookup key)
  let seller : Order := { userId := 1, symbol := "BTC/USDT", side := .sell, type := .limit,
                          status := .new, price := some 100, quantity := 2 }
  let buyer : Order := { userId := 2, symbol := "BTC/USDT", side := .buy, type := .limit,
                         status := .new, price := some 100, quantity := 3 }
  ((start.putOrder 1 seller).putOrder 2 buyer).putOrder 3 seller

/-- Order 2 takes order 1 in two fills; then it rests, and order 3 takes one unit from it. -/
def takenThenResting : List Batch :=
  let args : BatchArgs := { takerUserId := 2, takerOrderId := 2, takerSide := .buy,
                            symbol := "BTC/USDT", baseAsset := "BTC", quoteAsset := "USDT" }
  let trade : DomainTrade := { takerOrderId := 2, makerOrderId := 1, symbol := "BTC/USDT",
                               price := 100, quantity := 1, quoteQuantity := 100, side := .buy,
                               makerUserId := 1 }
  [{ args := args, trades := [trade, trade] },
   { args := { args with takerUserId := 1, takerOrderId := 3, takerSide := .sell },
     trades := [{ trade with takerOrderId := 3, makerOrderId := 2, makerUserId := 2, side := .sell }] }]

theorem settleAll_reconciled_takenThenResting :
    ((threeOrders.settleAll takenThenResting).rowsOf 2).length = 3 ∧
      Reconciled (threeOrders.settleAll takenThenResting) := by
  refine ⟨by decide +kernel, settleAll_reconciled ⟨rfl, fun id o ho => ?_⟩ ?_⟩
  · simp only [threeOrders, putOrder_orders, Function.update_apply] at ho
    split_ifs at ho
    · obtain rfl := Option.some.inj ho
      exact ⟨rfl, rfl⟩
    · obtain rfl := Option.some.inj ho
      exact ⟨rfl, rfl⟩
    · obtain rfl := Option.some.inj ho
      exact ⟨rfl, rfl⟩
    · exact absurd ho (by simp [Store.start])
  · intro b hb
    rcases List.mem_pair.mp hb with rfl | rfl
    · refine ⟨by decide +kernel, by decide, fun o ho => ?_⟩
      obtain rfl := Option.some.inj ho
      rfl
    · refine ⟨by decide +kernel, by decide, fun o ho => ?_⟩
      obtain rfl := Option.some.inj ho
      rfl

end SpotExchange.Exchange
