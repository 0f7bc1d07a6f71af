import SpotExchange.Exchange.Statuses

namespace SpotExchange.Exchange

open SpotExchange.Lib
open SpotExchange.Engine (OrderId)

/-!
# The books of the exchange

* `Trade.Between` — a row of trades is one between two orders of its market, on opposite sides, at a price
  that the taker's limit allows;
* `Recorded` — the fills of every order are the sums over its rows, and the rows are such;
* `recorded_serve` — every request keeps this;
* `run_recorded` — the books of a run are kept so, and nothing in them is changed afterwards.
-/

/-- The limit of an order allows a price. -/
def Order.Allows (o : Order) (price : ℚ) : Prop :=
  ∀ limit, orNone o.price = some limit →
    match o.side with
    | .buy => price ≤ limit
    | .sell => limit ≤ price

/-- **The orders of a trade**, as its row has them. -/
structure Trade.Between (t : Trade) (taker maker : Order) : Prop where
  takerUserId : taker.userId = t.takerUserId
  makerUserId : maker.userId = t.makerUserId
  takerSymbol : taker.symbol = t.symbol
  makerSymbol : maker.symbol = t.symbol
  takerSide : taker.side = t.side
  makerSide : maker.side = t.side.opposite
  rests : maker.type.rests = true
  allows : taker.Allows t.price

/-- **A row of trades.** -/
structure Store.Records (s : Store) (t : Trade) : Prop where
  quantity_pos : 0 < t.quantity
  quoteQuantity : t.quoteQuantity = t.price * t.quantity
  parties : ∃ taker maker, s.pg.orders t.takerOrderId = some taker ∧
    s.pg.orders t.makerOrderId = some maker ∧ t.Between taker maker

/-- **The books.** -/
structure Recorded (s : Store) : Prop where
  fills : ∀ id o, s.pg.orders id = some o → o.fills = ((s.rowsOf id).map Trade.fills).sum
  rows : ∀ t ∈ s.pg.trades, s.Records t
  ids : TradeIdsBelow s
  increasing : s.pg.trades.Pairwise fun t t' => t.id < t'.id

section

variable {s s' : Store} {id : OrderId} {o o' : Order} {t : Trade} {req : Request}

/-- The two orders of a trade are on opposite sides, so they are not the same. -/
theorem Store.Records.ne (h : s.Records t) : t.takerOrderId ≠ t.makerOrderId := by
  intro hid
  obtain ⟨taker, maker, htaker, hmaker, hbetween⟩ := h.parties
  rw [hid, hmaker] at htaker
  obtain rfl := Option.some.inj htaker
  have hside := hbetween.takerSide.symm.trans hbetween.makerSide
  cases ht : t.side <;> rw [ht] at hside <;> exact absurd hside (by decide)

/-! ### Terms -/

theorem Trade.Between.of_terms {taker taker' maker maker' : Order} (h : t.Between taker maker)
    (htaker : taker'.terms = taker.terms) (hmaker : maker'.terms = maker.terms) : t.Between taker' maker' where
  takerUserId := (congrArg OrderTerms.userId htaker).trans h.takerUserId
  makerUserId := (congrArg OrderTerms.userId hmaker).trans h.makerUserId
  takerSymbol := (congrArg OrderTerms.symbol htaker).trans h.takerSymbol
  makerSymbol := (congrArg OrderTerms.symbol hmaker).trans h.makerSymbol
  takerSide := (congrArg OrderTerms.side htaker).trans h.takerSide
  makerSide := (congrArg OrderTerms.side hmaker).trans h.makerSide
  rests := by
    rw [show maker'.type = maker.type from congrArg OrderTerms.type hmaker]
    exact h.rests
  allows := by
    unfold Order.Allows
    rw [show taker'.price = taker.price from congrArg OrderTerms.price htaker,
      show taker'.side = taker.side from congrArg OrderTerms.side htaker]
    exact h.allows

/-- The rows of orders are kept with their terms. -/
def TermsKept (s s' : Store) : Prop := ∀ id o, s.pg.orders id = some o →
  ∃ o', s'.pg.orders id = some o' ∧ o'.terms = o.terms

theorem termsKept_serve (h : Orderly s) (req : Request) : TermsKept s (s.serve req) := fun _ _ ho =>
  (lives_row h req ho).imp fun _ hl => ⟨hl.1, hl.2.terms⟩

/-- What a trade says of its orders stays true. -/
theorem Store.Records.of_terms (h : s.Records t) (hterms : TermsKept s s') : s'.Records t := by
  refine ⟨h.quantity_pos, h.quoteQuantity, ?_⟩
  obtain ⟨taker, maker, htaker, hmaker, hbetween⟩ := h.parties
  obtain ⟨taker', htaker', htakerTerms⟩ := hterms _ taker htaker
  obtain ⟨maker', hmaker', hmakerTerms⟩ := hterms _ maker hmaker
  exact ⟨taker', maker', htaker', hmaker', hbetween.of_terms htakerTerms hmakerTerms⟩

/-- An order without a row has no trades. -/
theorem Recorded.rowsOf_eq_nil (h : Recorded s) (hnone : s.pg.orders id = none) : s.rowsOf id = [] := by
  rw [Store.rowsOf, List.filter_eq_nil_iff]
  intro t ht hinvolves
  obtain ⟨taker, maker, htaker, hmaker, -⟩ := (h.rows t ht).parties
  rw [decide_eq_true_eq] at hinvolves
  rcases hinvolves with hid | hid
  · rw [hid, hnone] at htaker
    exact Option.some_ne_none taker htaker.symm
  · rw [hid, hnone] at hmaker
    exact Option.some_ne_none maker hmaker.symm

/-- An order without a fill has no trades: each would have filled it. -/
theorem Recorded.rowsOf_eq_nil_iff (h : Recorded s) (ho : s.pg.orders id = some o) :
    s.rowsOf id = [] ↔ o.filledQuantity = 0 := by
  have hfills : o.filledQuantity = ((s.rowsOf id).map Trade.quantity).sum :=
    congrArg Prod.fst ((h.fills id o ho).trans (sum_fills _))
  rw [hfills]
  constructor
  · intro hnil
    rw [hnil]
    rfl
  · intro hzero
    by_contra hne
    have hpos : 0 < ((s.rowsOf id).map Trade.quantity).sum := by
      refine List.sum_pos _ ?_ (by simpa using hne)
      simp only [List.mem_map, forall_exists_index, and_imp]
      rintro _ t ht rfl
      exact (h.rows t (List.mem_filter.mp ht).1).quantity_pos
    exact hpos.ne' hzero

/-! ### Requests other than rounds -/

/-- **A request other than a round of the worker** leaves the table of trades alone. -/
theorem trades_serve (hids : IdsBelow s) (hwork : req ≠ .work) :
    (s.serve req).pg.trades = s.pg.trades ∧ (s.serve req).tradeIdSeq = s.tradeIdSeq := by
  let R := Prog.Keeps fun s : Store => (s.pg.trades, s.tradeIdSeq)
  have hquiet : ∀ {s s'}, Quiet s s' → R s s' := by
    rintro s s' ⟨balances, updates, rfl⟩
    exact rfl
  have hchild : ∀ (s : Store) parentId parent config link, R s (s.addChild parentId parent config link) := by
    intro s parentId parent config link
    cases config with
    | none => rfl
    | some config =>
      show (_, _) = (_, _)
      simp only [Store.addChild, Store.mapOrder]
      split <;> rfl
  have hcalls : CallSteps R req :=
    { quiet := hquiet
      placed := fun s userId dto _ _ _ _ => (hchild _ _ _ _ _).trans (hchild _ _ _ _ _)
      canceled := fun _ _ _ _ _ _ _ _ _ => rfl
      replaced := fun _ _ _ _ _ _ _ _ _ _ _ _ _ _ _ _ _ => rfl }
  have hmonitor : MonitorSteps R := { quiet := hquiet, triggered := fun _ _ _ _ _ _ _ => rfl }
  have hkeeps : R s (s.serve req) :=
    serve_moves hcalls hmonitor (fun _ _ _ => rfl) (fun hreq => absurd hreq hwork) hids
  exact ⟨congrArg Prod.fst hkeeps, congrArg Prod.snd hkeeps⟩

theorem Recorded.of_fillsStay (h : Recorded s) (hids : IdsBelow s) (hstay : FillsStay s s')
    (hterms : TermsKept s s') (htrades : s'.pg.trades = s.pg.trades) (hseq : s.tradeIdSeq ≤ s'.tradeIdSeq) :
    Recorded s' where
  fills := by
    intro id o' ho'
    have hrowsOf : s'.rowsOf id = s.rowsOf id := by rw [Store.rowsOf, htrades, Store.rowsOf]
    rw [hrowsOf]
    rcases hstay.rows id o' ho' with ⟨o, ho, -, hfills⟩ | ⟨hle, hfills⟩
    · exact hfills.trans (h.fills id o ho)
    · have hnone : s.pg.orders id = none := by
        by_contra hne
        exact absurd (hids id hne) (not_lt.mpr hle)
      rw [hfills, h.rowsOf_eq_nil hnone]
      rfl
  rows := fun t ht => (h.rows t (htrades ▸ ht)).of_terms hterms
  ids := fun t ht => (h.ids t (htrades ▸ ht)).trans_le hseq
  increasing := by
    rw [htrades]
    exact h.increasing

/-! ### A round -/

/-- The ids of the rows of a batch. -/
theorem tradeRows_increasing (args : BatchArgs) (n : ℕ) (trades : List DomainTrade) :
    (tradeRows args n trades).Pairwise fun t t' => t.id < t'.id := by
  induction trades generalizing n with
  | nil => exact .nil
  | cons t ts ih => exact .cons (fun r hr => (mem_tradeRows hr).1.1) (ih (n + 1))

/-- The limit of a taker allows what it takes. -/
theorem allows_of_within {p : OrderActionPayload} {price : ℚ} (hfits : PayloadFits p o)
    (h : (takerOrder p).outOfLimit price = false) : o.Allows price := by
  intro limit hlimit
  have hprice : (takerOrder p).price = some limit := hfits.price.symm.trans hlimit
  have hside : (takerOrder p).side = toCSide o.side := congrArg toCSide hfits.side.symm
  unfold Engine.COrder.outOfLimit at h
  rw [hprice, hside] at h
  cases hs : o.side <;> simpa [hs, toCSide] using h

/-- **A trade of a match** is between two orders of the market. -/
theorem records_matched {p : OrderActionPayload} {r : Engine.MatchResult} {pair : TradingPair}
    {d : DomainTrade} {n : ℕ} (h : Placeable p s) (hmatched : Matched p s r) (hd : d ∈ s.domainTrades p r) :
    s.Records ((tradeRow (batchArgs p pair) n d).withMaker s.owner) where
  quantity_pos := hmatched.trade_pos d hd
  quoteQuantity := rfl
  parties := by
    obtain ⟨taker, htaker, hfits⟩ := h.row
    obtain ⟨maker, hmaker, hrests⟩ := h.consistent.booked _ _ _ (hmatched.maker_booked hd)
    refine ⟨taker, maker, htaker, hmaker, ?_⟩
    constructor
    · exact hfits.userId
    · show maker.userId = s.owner d.makerOrderId
      simp [Store.owner, hmaker]
    · exact hfits.symbol
    · exact hrests.symbol
    · exact hfits.side
    · exact hrests.side
    · exact hrests.type
    · obtain ⟨t, ht, rfl⟩ := List.mem_map.mp hd
      obtain ⟨x, -, q, -, hin, rfl⟩ := hmatched.facts.trade t ht
      exact allows_of_within hfits hin

/-- **A batch of a match** is booked. -/
theorem Recorded.persisted {p : OrderActionPayload} {r : Engine.MatchResult} {pair : TradingPair}
    {e : Engine.CMatchingEngine} {rows : List Trade} (h : Recorded s) (hp : Placeable p s)
    (hmatched : Matched p s r)
    (hbatch : persistTradeBatch (batchArgs p pair) (s.domainTrades p r) (s.setEngine e) = (.ok rows, s')) :
    Recorded s' ∧ s.pg.trades <+: s'.pg.trades := by
  let b : Batch := { args := batchArgs p pair, trades := s.domainTrades p r }
  have hproper : b.Proper s := hmatched.proper hp.consistent hp.row pair
  obtain ⟨hset, -, hsettles⟩ := persistTradeBatch_spec hbatch
  have htrades : s'.pg.trades = s.pg.trades ++ s.newRows b :=
    persistTradeBatch_trades (b := b) (s := s.setEngine e) h.ids hbatch
  have hterms : TermsKept s s' := fun id o ho => terms_of_setting (s := s.setEngine e) hset ho
  have hnew : ∀ t ∈ s.newRows b, s.tradeIdSeq ≤ t.id ∧ s.Records t := by
    intro t ht
    obtain ⟨t₀, ht₀, rfl⟩ := List.mem_map.mp ht
    obtain ⟨⟨hle, -⟩, d, hd, hrow⟩ := mem_tradeRows ht₀
    refine ⟨hle, ?_⟩
    rw [hrow]
    exact records_matched hp hmatched hd
  refine ⟨⟨fun id o' ho' => ?_, fun t ht => ?_, ?_, ?_⟩, ?_⟩
  · -- each order is one of the old store, with the fills of the batch added
    obtain ⟨o, ho, -⟩ := terms_of_setting hset.symm ho'
    obtain ⟨o'', ho'', hmoved⟩ := hsettles.fills.row ho
    obtain rfl : o' = o'' := Option.some.inj (ho'.symm.trans ho'')
    have hof : s'.rowsOf id = s.rowsOf id ++ (s.newRows b).filter (Trade.Involves id) := by
      rw [Store.rowsOf, htrades, List.filter_append, Store.rowsOf]
    have hbatchFills : (batchEffect (batchArgs p pair) s.owner (s.domainTrades p r)).2 id =
        (((s.newRows b).filter (Trade.Involves id)).map Trade.fills).sum :=
      (batchEffect_fills id hproper.taker_ne).trans (tradeRows_fills b.args s.owner id s.tradeIdSeq _).symm
    rw [hof, List.map_append, List.sum_append, ← hbatchFills, ← h.fills id o ho]
    exact hmoved
  · rw [htrades, List.mem_append] at ht
    rcases ht with ht | ht
    · exact (h.rows t ht).of_terms hterms
    · exact (hnew t ht).2.of_terms hterms
  · have hsteps := settlement_tradeIds (batchArgs p pair) (s.domainTrades p r)
    exact ((persistTradeBatch_moves hsteps.1 hsteps.2).of_ok hbatch).2 h.ids
  · -- the new ids come after those given out before
    rw [htrades, List.pairwise_append]
    refine ⟨h.increasing, ?_, fun t ht t' ht' => (h.ids t ht).trans_le (hnew t' ht').1⟩
    exact (tradeRows_increasing b.args s.tradeIdSeq b.trades).map _ fun _ _ hlt => hlt
  · rw [htrades]
    exact List.prefix_append _ _

/-! ### Runs -/

/-- **One request.** -/
theorem recorded_serve (h : Orderly s) (hr : Recorded s) (req : Request) :
    Recorded (s.serve req) ∧ s.pg.trades <+: (s.serve req).pg.trades := by
  by_cases hwork : req = .work
  · subst hwork
    cases worked_serve h.consistent.engine with
    | kept horders htrades hseq =>
      have hstay : FillsStay s (s.serve .work) :=
        ⟨(work_orderIdSeq h.consistent.engine).ge, fun id o ho => .inl ⟨o, horders ▸ ho, rfl, rfl⟩⟩
      refine ⟨hr.of_fillsStay h.consistent.ids hstay (termsKept_serve h .work) htrades hseq, ?_⟩
      rw [htrades]
    | persisted p rest hqueue hplace r hmatched pair e _ rows s₂ hbatch horders htrades hseq =>
      have hpopped : Recorded (s.setQueue rest) :=
        ⟨hr.fills, fun t ht => (hr.rows t ht).of_terms fun _ o ho => ⟨o, ho, rfl⟩, hr.ids, hr.increasing⟩
      obtain ⟨hbooked, hprefix⟩ := hpopped.persisted (h.placeable hqueue hplace) hmatched hbatch
      have hids : (s.serve .work).tradeIdSeq = s₂.tradeIdSeq := hseq
      refine ⟨⟨fun id o ho => ?_, fun t ht => ?_, fun t ht => ?_, ?_⟩, ?_⟩
      · rw [Store.rowsOf, htrades]
        exact hbooked.fills id o (horders ▸ ho)
      · rw [htrades] at ht
        refine (hbooked.rows t ht).of_terms fun id o ho => ⟨o, ?_, rfl⟩
        rw [horders]
        exact ho
      · rw [hids]
        exact hbooked.ids t (htrades ▸ ht)
      · rw [htrades]
        exact hbooked.increasing
      · rw [htrades]
        exact hprefix
  · obtain ⟨htrades, hseq⟩ := trades_serve h.consistent.ids hwork
    refine ⟨hr.of_fillsStay h.consistent.ids (fillsStay_serve h.consistent.ids hwork)
      (termsKept_serve h req) htrades hseq.ge, ?_⟩
    rw [htrades]

theorem recorded_serveAll (h : Orderly s) (hr : Recorded s) (reqs : List Request) :
    Recorded (s.serveAll reqs) ∧ s.pg.trades <+: (s.serveAll reqs).pg.trades := by
  induction reqs generalizing s with
  | nil => exact ⟨hr, List.prefix_rfl⟩
  | cons req reqs ih =>
    obtain ⟨hr₁, hprefix₁⟩ := recorded_serve h hr req
    obtain ⟨hr', hprefix'⟩ := ih (orderly_serve h req) hr₁
    exact ⟨hr', hprefix₁.trans hprefix'⟩

theorem recorded_start (users : Finset UserId) (pairs : Symbol → Option TradingPair)
    (balances : Ledger.BalanceKey → Option Ledger.Row) : Recorded (Store.start users pairs balances) where
  fills := fun _ _ ho => nomatch ho
  rows := fun _ ht => nomatch ht
  ids := fun _ ht => nomatch ht
  increasing := .nil

end

end SpotExchange.Exchange
