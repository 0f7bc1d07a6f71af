import SpotExchange.Exchange.Buyers
import SpotExchange.Exchange.Discharging
import SpotExchange.Exchange.Scores

namespace SpotExchange.Exchange

open SpotExchange.Lib
open SpotExchange.Engine (OrderId MatchResult)

/-!
# What buy orders pay

* `FillsStay` — no order is filled, and none gets other terms; only new orders appear;
* `PaysWithin` — no buy order has paid more than its limit, and none rests above it;
* `paysWithin_serve` — every request keeps this, if whatever buys and rests does so at no more than its
  limit.
-/

/-- An order that buys at a limit. -/
def Order.Limited (o : Order) (price : ℚ) : Prop :=
  o.side = .buy ∧ o.type ≠ .market ∧ o.price = some price ∧ price ≠ 0

/-- **No order is filled** or gets other terms; the orders that are added are unfilled. -/
structure FillsStay (s s' : Store) : Prop where
  seq : s.orderIdSeq ≤ s'.orderIdSeq
  rows : ∀ id o', s'.pg.orders id = some o' →
    (∃ o, s.pg.orders id = some o ∧ o'.terms = o.terms ∧ o'.fills = o.fills) ∨
      s.orderIdSeq ≤ id ∧ o'.fills = 0

/-- **No buy order has paid more than its limit**, or is in the book at more. -/
structure PaysWithin (s : Store) : Prop where
  paid : ∀ id o price, s.pg.orders id = some o → o.Limited price →
    o.filledQuoteQty ≤ price * o.filledQuantity
  booked : ∀ symbol side, ∀ x ∈ s.redis.book symbol side, ∀ o price, s.pg.orders x.2 = some o →
    o.Limited price → (decodeScore x.1).1 ≤ price

/-- What buys and is about to rest has a score that says no more than its limit. -/
def ScoreGuard (s : Store) : Request → Prop
  | .work => ∀ p ∈ s.redis.ordersQueue.head?, p.action = .place → p.side = .buy → p.type.rests = true →
      0 < s.leftOf p → (tick (p.price.getD 0) : ℚ) / priceScale ≤ p.price.getD 0
  | _ => True

section

variable {s s' t : Store} {p : OrderActionPayload} {r : MatchResult} {id : OrderId} {o o' : Order}
  {price : ℚ} {args : BatchArgs} {trades : List DomainTrade}

/-! ### Requests other than rounds -/

theorem fillsStay_of_orders (horders : s'.pg.orders = s.pg.orders) (hseq : s'.orderIdSeq = s.orderIdSeq) :
    FillsStay s s' := by
  refine ⟨hseq.ge, fun id o' ho' => .inl ⟨o', ?_, rfl, rfl⟩⟩
  rw [← horders]
  exact ho'

instance : IsPreorder Store FillsStay where
  refl _ := fillsStay_of_orders rfl rfl
  trans s s' s'' h h' := by
    refine ⟨h.seq.trans h'.seq, fun id o'' ho'' => ?_⟩
    rcases h'.rows id o'' ho'' with ⟨o', ho', hterms', hfills'⟩ | ⟨hle, hfills⟩
    · rcases h.rows id o' ho' with ⟨o, ho, hterms, hfills⟩ | ⟨hle, hfills⟩
      · exact .inl ⟨o, ho, hterms'.trans hterms, hfills'.trans hfills⟩
      · exact .inr ⟨hle, hfills'.trans hfills⟩
    · exact .inr ⟨h.seq.trans hle, hfills⟩

theorem fillsStay_quiet (h : Quiet s s') : FillsStay s s' := by
  obtain ⟨balances, updates, rfl⟩ := h
  exact fillsStay_of_orders rfl rfl

theorem fillsStay_insert (ho : o.fills = 0) : FillsStay s (s.insert o) := by
  refine ⟨Nat.le_succ _, fun id o' ho' => ?_⟩
  have ho' : Function.update s.pg.orders s.orderIdSeq (some o) id = some o' := ho'
  by_cases hid : id = s.orderIdSeq
  · subst hid
    rw [Function.update_self] at ho'
    exact .inr ⟨le_rfl, Option.some.inj ho' ▸ ho⟩
  · rw [Function.update_of_ne hid] at ho'
    exact .inl ⟨o', ho', rfl, rfl⟩

theorem fillsStay_putOrder (h : s.pg.orders id = some o) (hterms : o'.terms = o.terms)
    (hfills : o'.fills = o.fills) : FillsStay s (s.putOrder id o') := by
  refine ⟨le_rfl, fun k x hx => .inl ?_⟩
  have hx : Function.update s.pg.orders id (some o') k = some x := hx
  by_cases hk : k = id
  · subst hk
    rw [Function.update_self] at hx
    obtain rfl := Option.some.inj hx
    exact ⟨o, h, hterms, hfills⟩
  · rw [Function.update_of_ne hk] at hx
    exact ⟨x, hx, rfl, rfl⟩

theorem fillsStay_addChild (parentId : OrderId) (parent : Order) (config : Option SltpConfig)
    {link : OrderId → Order → Order} (hterms : ∀ childId o, (link childId o).terms = o.terms)
    (hfills : ∀ childId o, (link childId o).fills = o.fills) (s : Store) :
    FillsStay s (s.addChild parentId parent config link) := by
  cases config with
  | none => exact refl_of FillsStay s
  | some config =>
    refine trans_of FillsStay (fillsStay_insert (o := sltpChild parentId parent config) rfl) ?_
    show FillsStay _ ((s.insert _).mapOrder parentId (link s.orderIdSeq))
    unfold Store.mapOrder
    cases h : (s.insert (sltpChild parentId parent config)).pg.orders parentId with
    | none => exact refl_of FillsStay _
    | some o => exact fillsStay_putOrder h (hterms _ o) (hfills _ o)

theorem fillsStay_placed (s : Store) (userId : UserId) (dto : OrderCreateDto) :
    FillsStay s (s.placed userId dto) := by
  have hsl : ∀ childId (o : Order), ({ o with slOrderId := some childId } : Order).terms = o.terms :=
    fun _ _ => rfl
  have htp : ∀ childId (o : Order), ({ o with tpOrderId := some childId } : Order).terms = o.terms :=
    fun _ _ => rfl
  have hinserted : FillsStay s (s.inserted userId dto) :=
    trans_of FillsStay (trans_of FillsStay (fillsStay_insert (o := newOrder userId dto) rfl)
      (fillsStay_addChild _ _ dto.sl hsl (fun _ _ => rfl) _))
        (fillsStay_addChild _ _ dto.tp htp (fun _ _ => rfl) _)
  exact ⟨hinserted.seq, hinserted.rows⟩

theorem fillsStay_cancel (ho : s.pg.orders id = some o) : FillsStay s (s.cancel id o) := by
  refine ⟨le_rfl, fun k o' ho' => .inl ?_⟩
  obtain ⟨x, hx, rfl⟩ := Option.map_eq_some_iff.mp ho'
  have horphaned : (x.orphaned id).terms = x.terms ∧ (x.orphaned id).fills = x.fills := by
    unfold Order.orphaned
    split_ifs <;> exact ⟨rfl, rfl⟩
  by_cases hk : k = id
  · subst hk
    rw [Function.update_self] at hx
    obtain rfl := Option.some.inj hx
    exact ⟨o, ho, horphaned.1, horphaned.2⟩
  · rw [Function.update_of_ne hk] at hx
    exact ⟨x, hx, horphaned.1, horphaned.2⟩

theorem fillsStay_replace {newPrice newQuantity : ℚ} (hids : IdsBelow s) (ho : s.pg.orders id = some o) :
    FillsStay s (s.replace id o newPrice newQuantity) := by
  have hne : id ≠ s.orderIdSeq := (hids id (by rw [ho]; simp)).ne
  refine ⟨Nat.le_succ _, fun k o' ho' => ?_⟩
  rw [replace_orders] at ho'
  by_cases hk : k = id
  · subst hk
    rw [Function.update_self] at ho'
    obtain rfl := Option.some.inj ho'
    exact .inl ⟨o, ho, rfl, rfl⟩
  rw [Function.update_of_ne hk] at ho'
  by_cases hnew : k = s.orderIdSeq
  · subst hnew
    rw [Function.update_self] at ho'
    obtain rfl := Option.some.inj ho'
    exact .inr ⟨le_rfl, rfl⟩
  · rw [Function.update_of_ne hnew] at ho'
    exact .inl ⟨o', ho', rfl, rfl⟩

theorem fillsStay_trigger (lock : Asset × ℚ) (isTrailing : Bool) (ho : s.pg.orders id = some o) :
    FillsStay s (s.trigger id o lock isTrailing) := by
  have hput : ∀ t : Store, t.pg.orders id = some o →
      FillsStay t (t.putOrder id { o with status := .filled, version := o.version + 1 }) :=
    fun t ht => fillsStay_putOrder ht rfl rfl
  have hconverted : FillsStay s (s.converted id o lock) :=
    trans_of FillsStay (trans_of FillsStay (fillsStay_quiet (quiet_moveBalance s _ _ _)) (hput _ ho))
      (fillsStay_insert (o := triggeredChild id o) rfl)
  exact ⟨hconverted.seq, hconverted.rows⟩

/-- **A request other than a round of the worker** fills nothing. -/
theorem fillsStay_serve (hids : IdsBelow s) {req : Request} (hwork : req ≠ .work) :
    FillsStay s (s.serve req) := by
  refine serve_moves (R := FillsStay) ⟨fillsStay_quiet, fun s userId dto _ _ _ _ => fillsStay_placed s userId dto,
    fun s _ id o _ _ ho _ _ => fillsStay_cancel ho,
    fun s _ id o p q _ _ hids ho _ _ _ _ _ _ _ => fillsStay_replace hids ho⟩
    ⟨fillsStay_quiet, fun s id o lock isTrailing ho _ => fillsStay_trigger lock isTrailing ho⟩
    (fun s trailing states => fillsStay_of_orders rfl rfl) (fun hx => absurd hx hwork) hids

/-! ### Limits -/

theorem Order.Limited.of_terms (h : o'.Limited price) (hterms : o'.terms = o.terms) : o.Limited price := by
  have hside : o'.side = o.side := congrArg OrderTerms.side hterms
  have htype : o'.type = o.type := congrArg OrderTerms.type hterms
  have hprice : o'.price = o.price := congrArg OrderTerms.price hterms
  exact ⟨hside ▸ h.1, htype ▸ h.2.1, hprice ▸ h.2.2.1, h.2.2.2⟩

/-- What is placed for such an order carries its limit. -/
theorem Order.Limited.payload (h : o.Limited price) (hrow : s.HasRow p) (ho : s.pg.orders p.orderId = some o) :
    p.side = .buy ∧ p.price = some price := by
  obtain ⟨x, hx, hfits⟩ := hrow
  obtain rfl : o = x := Option.some.inj (ho.symm.trans hx)
  refine ⟨hfits.side.symm.trans h.1, hfits.price.symm.trans ?_⟩
  rw [h.2.2.1, orNone, Option.filter_some, if_pos (by simpa using h.2.2.2)]

theorem PaysWithin.of_fillsStay (h : PaysWithin s) (hc : Consistent s) (hstay : FillsStay s s')
    (hbook : BookShrinks s.redis s'.redis) : PaysWithin s' := by
  refine ⟨fun id o' price ho' hlimited => ?_, fun symbol side x hx o' price ho' hlimited => ?_⟩
  · rcases hstay.rows id o' ho' with ⟨o, ho, hterms, hfills⟩ | ⟨-, hfills⟩
    · have hpaid := h.paid id o price ho (hlimited.of_terms hterms)
      rw [show o'.filledQuoteQty = o.filledQuoteQty from congrArg Prod.snd hfills,
        show o'.filledQuantity = o.filledQuantity from congrArg Prod.fst hfills]
      exact hpaid
    · rw [show o'.filledQuoteQty = 0 from congrArg Prod.snd hfills,
        show o'.filledQuantity = 0 from congrArg Prod.fst hfills, mul_zero]
  · have hx := (hbook symbol side).subset hx
    obtain ⟨o₀, ho₀, -⟩ := hc.booked symbol side x.2 (List.mem_map_of_mem hx)
    rcases hstay.rows x.2 o' ho' with ⟨o, ho, hterms, -⟩ | ⟨hle, -⟩
    · exact h.booked symbol side x hx o price ho (hlimited.of_terms hterms)
    · exact absurd (hc.ids x.2 (by rw [ho₀]; simp)) (not_lt.mpr hle)

/-! ### Rounds -/

/-- What is filled within a limit. -/
theorem batchFills_le (hquantity : ∀ t ∈ trades, 0 ≤ t.quantity)
    (hprice : ∀ t ∈ trades, args.takerOrderId = id ∨ t.makerOrderId = id → t.price ≤ price) :
    (batchFills args trades id).2 ≤ price * (batchFills args trades id).1 := by
  unfold batchFills
  induction trades with
  | nil => exact (mul_zero price).ge
  | cons t trades ih =>
    rw [List.forall_mem_cons] at hquantity hprice
    rw [List.map_cons, List.sum_cons, Prod.snd_add, Prod.fst_add, mul_add]
    refine add_le_add ?_ (ih hquantity.2 hprice.2)
    unfold DomainTrade.fillsOf
    split_ifs with hpart
    · exact mul_le_mul_of_nonneg_right (hprice.1 hpart) hquantity.1
    · exact (mul_zero price).ge

/-- **An order trades within its limit**, as a taker and as a maker. -/
theorem PaysWithin.trades_le (h : PaysWithin s) (ht : Placeable p s) (hmatched : Matched p s r)
    (ho : s.pg.orders id = some o) (hlimited : o.Limited price) :
    ∀ t ∈ s.domainTrades p r, p.orderId = id ∨ t.makerOrderId = id → t.price ≤ price := by
  intro t hmem hpart
  obtain ⟨t', ht', rfl⟩ := List.mem_map.mp hmem
  obtain ⟨x, hx, q, -, hin, rfl⟩ := hmatched.facts.trade t' ht'
  rcases hpart with rfl | hid
  · obtain ⟨hside, hprice⟩ := hlimited.payload ht.row ho
    exact price_le_of_within hside hprice hin
  · obtain ⟨y, hy, -, -, hyid, hyprice, -⟩ := mem_offers hx
    have hyid : y.2 = id := hyid.symm.trans hid
    show x.price ≤ price
    rw [hyprice]
    exact h.booked _ _ y hy o price (hyid ▸ ho) hlimited

/-- **A batch.** -/
theorem PaysWithin.batch {e : Engine.CMatchingEngine} {pair : TradingPair} {rows : List Trade}
    (h : PaysWithin s) (ht : Placeable p s) (hmatched : Matched p s r)
    (hbatch : persistTradeBatch (batchArgs p pair) (s.domainTrades p r) (s.setEngine e) = (.ok rows, t)) :
    PaysWithin t ∧ ∀ id o', t.pg.orders id = some o' → ∃ o, s.pg.orders id = some o ∧ o'.terms = o.terms := by
  obtain ⟨hset, -, hsettles⟩ := persistTradeBatch_spec hbatch
  have hrow : ∀ id o', t.pg.orders id = some o' → ∃ o, s.pg.orders id = some o ∧ o'.terms = o.terms := by
    intro id o' ho'
    have hterms := congrFun (congrArg (fun x => x.2.2.2) hset) id
    have hterms : (t.pg.orders id).map Order.terms = (s.pg.orders id).map Order.terms := hterms
    rw [ho'] at hterms
    exact (Option.map_eq_some_iff.mp hterms.symm).imp fun o ho => ⟨ho.1, ho.2.symm⟩
  refine ⟨⟨fun id o' price ho' hlimited => ?_, fun symbol side x hx o' price ho' hlimited => ?_⟩, hrow⟩
  · obtain ⟨o, ho, hterms⟩ := hrow id o' ho'
    have hlimited := hlimited.of_terms hterms
    obtain ⟨o₁, ho₁, hfills⟩ := hsettles.fills.row (show (s.setEngine e).pg.orders id = some o from ho)
    obtain rfl : o' = o₁ := Option.some.inj (ho'.symm.trans ho₁)
    rw [batchEffect_fills id fun t ht' => hmatched.maker_ne ht.consistent ht.row ht'] at hfills
    have hquantity : o'.filledQuantity = o.filledQuantity + (batchFills _ _ id).1 := congrArg Prod.fst hfills
    have hquote : o'.filledQuoteQty = o.filledQuoteQty + (batchFills _ _ id).2 := congrArg Prod.snd hfills
    rw [hquantity, hquote, mul_add]
    exact add_le_add (h.paid id o price ho hlimited) (batchFills_le (fun t ht' => (hmatched.trade_pos t ht').le)
      (h.trades_le ht hmatched ho hlimited))
  · obtain ⟨o, ho, hterms⟩ := hrow x.2 o' ho'
    have hx : x ∈ (s.setEngine e).redis.book symbol side := (persistTradeBatch_book hbatch symbol side).subset hx
    exact h.booked symbol side x hx o price ho (hlimited.of_terms hterms)

/-- What follows the trades. -/
theorem PaysWithin.finish (h : PaysWithin t) {remaining : ℚ} (hstep : FinishStep p remaining t s')
    (hpayload : ∀ o price, t.pg.orders p.orderId = some o → o.Limited price →
      p.side = .buy ∧ p.price = some price)
    (hguard : p.side = .buy → p.type.rests = true → 0 < remaining →
      (tick (p.price.getD 0) : ℚ) / priceScale ≤ p.price.getD 0) : PaysWithin s' := by
  cases hstep with
  | left _ => exact h
  | unscored _ _ _ _ => exact ⟨h.paid, h.booked⟩
  | refunded _ _ _ _ _ => exact ⟨h.paid, h.booked⟩
  | rested hpos hrests score hscore =>
    refine ⟨h.paid, fun symbol side x hx o price ho hlimited => ?_⟩
    rcases mem_rest hx with hx | ⟨rfl, -, -⟩
    · exact h.booked symbol side x hx o price ho hlimited
    · obtain ⟨hside, hprice⟩ := hpayload o price ho hlimited
      have hle := hguard hside hrests hpos
      rw [hprice] at hle
      rw [decodeScore_encodeScore hscore, hprice]
      exact hle

/-- **A placement.** -/
theorem PaysWithin.place (h : PaysWithin s) (ht : Placeable p s) (hstep : PlaceStep p s s')
    (hguard : p.side = .buy → p.type.rests = true → 0 < s.leftOf p →
      (tick (p.price.getD 0) : ℚ) / priceScale ≤ p.price.getD 0) : PaysWithin s' := by
  have hleft : ∀ {r}, Matched p s r → p.side = .buy → p.type.rests = true → 0 < r.remainingQty →
      (tick (p.price.getD 0) : ℚ) / priceScale ≤ p.price.getD 0 := by
    intro r hmatched hside hrests hpos
    refine hguard hside hrests ?_
    rw [hmatched.facts.remaining] at hpos
    exact hpos
  cases hstep with
  | unmatched e _ => exact ⟨h.paid, h.booked⟩
  | undone e _ r _ pair _ err s₁ hbatch =>
    have hdrained := persistTradeBatch_moves_error (drains_fillSteps _ _) hbatch ht.consistent.ids
    exact ⟨h.paid, fun symbol side x hx => h.booked symbol side x ((hdrained.book symbol side).subset hx)⟩
  | untraded e _ r hmatched _ _ _ finish =>
    have hsame : PaysWithin (s.setEngine e) := ⟨h.paid, h.booked⟩
    exact hsame.finish finish (fun o price ho hlimited => hlimited.payload ht.row ho) (hleft hmatched)
  | traded e _ r hmatched _ pair _ rows s₂ hbatch _ finish =>
    obtain ⟨hafter, hrow⟩ := h.batch ht hmatched hbatch
    refine hafter.finish finish (fun o' price ho' hlimited => ?_) (hleft hmatched)
    obtain ⟨o, ho, hterms⟩ := hrow p.orderId o' ho'
    exact (hlimited.of_terms hterms).payload ht.row ho

/-- **Every request.** -/
theorem paysWithin_serve (h : Orderly s) (hpays : PaysWithin s) {req : Request} (hguard : ScoreGuard s req) :
    PaysWithin (s.serve req) := by
  by_cases hwork : req = .work
  · subst hwork
    show PaysWithin (work s).2
    rcases work_cases h.consistent.engine with ⟨-, hx⟩ | ⟨p, rest, s', hqueue, hx, hcases⟩ <;> rw [hx]
    · exact hpays
    · have hpopped : PaysWithin (s.setQueue rest) := ⟨hpays.paid, hpays.booked⟩
      rcases hcases with ⟨-, rfl⟩ | ⟨hplace, hstep⟩
      · exact hpopped
      · exact hpopped.place (h.placeable hqueue hplace) hstep (hguard p (by rw [hqueue]; rfl) hplace)
  · have hsized : s.Sized fun _ => True := fun _ _ _ => trivial
    have hreq : req.Sized fun _ => True := by
      cases req <;> first | trivial | exact quantities_trivial _ | exact fun _ _ => quantities_trivial _
    exact hpays.of_fillsStay h.consistent (fillsStay_serve h.consistent.ids hwork)
      (steady_serve h.consistent hsized hreq hwork).book

end

end SpotExchange.Exchange
