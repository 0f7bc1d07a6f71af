import SpotExchange.Exchange.Releasing

namespace SpotExchange.Exchange

open SpotExchange.Lib
open SpotExchange.Engine (OrderId)

/-!
# The life of an order

The service writes the status of an order in six places, and none of them asks what it has been.

* `Order.Lives` — how a row can go on: without a fill along `OrderStatus.Goes`, or with one;
* `lives_serve` — every request leads every row on so;
* `Order.Stated` — what the status of a row says of its fill;
* `Retired` — a stop that is `FILLED` without a fill is out of the worker's reach;
* `run_lives` — between two moments of a run every row is kept and goes on so, and `FILLED` is final.
-/

/-- Where a status goes without a fill. -/
inductive OrderStatus.Goes : OrderStatus → OrderStatus → Prop
  | same (status : OrderStatus) : Goes status status
  | activated : Goes .pending .new
  | triggered : Goes .pending .filled
  | canceled (status : OrderStatus) (hactive : status.isActive = true) : Goes status .canceled

/-- **How a row goes on**: its terms stay, its fill does not shrink, and with a fill its status is the one
    that the fill gives, unless it is cancelled when there is still something left. -/
structure Order.Lives (o o' : Order) : Prop where
  terms : o'.terms = o.terms
  goes : o'.filledQuantity = o.filledQuantity ∧ o.status.Goes o'.status ∨
    o.filledQuantity < o'.filledQuantity ∧
      (o'.status = o'.fillStatus ∨ o'.status = .canceled ∧ o'.fillStatus = .partiallyFilled)

/-- An order that has just been inserted. -/
def Order.Born (o : Order) : Prop := o.filledQuantity = 0 ∧ (o.status = .pending ∨ o.status = .new)

/-- **What the status says of the fill.** -/
structure Order.Stated (o : Order) : Prop where
  nonneg : 0 ≤ o.filledQuantity
  waiting : o.status = .pending ∨ o.status = .new → o.filledQuantity = 0
  partiallyFilled : o.status = .partiallyFilled → 0 < o.filledQuantity ∧ o.filledQuantity < o.quantity
  /-- A stop is filled when it is triggered, without a fill. -/
  filled : o.status = .filled → o.quantity ≤ o.filledQuantity ∨ o.filledQuantity = 0

section

variable {o o' o'' : Order}

theorem OrderStatus.Goes.trans {a b c : OrderStatus} (h : a.Goes b) (h' : b.Goes c) : a.Goes c := by
  cases h with
  | same => exact h'
  | activated =>
    cases h' with
    | same => exact .activated
    | canceled _ _ => exact .canceled _ rfl
  | triggered =>
    cases h' with
    | same => exact .triggered
    | canceled _ hactive => exact nomatch hactive
  | canceled _ hactive =>
    cases h' with
    | same => exact .canceled _ hactive
    | canceled _ hactive' => exact nomatch hactive'

/-- Nothing leads on from a status that is not active. -/
theorem OrderStatus.Goes.of_not_active {a b : OrderStatus} (h : a.Goes b) (ha : a.isActive = false) :
    b = a := by
  cases h with
  | same => rfl
  | activated => exact nomatch ha
  | triggered => exact nomatch ha
  | canceled _ hactive => exact nomatch hactive.symm.trans ha

theorem Order.Lives.refl (o : Order) : o.Lives o := ⟨rfl, .inl ⟨rfl, .same _⟩⟩

theorem Order.Lives.quantity (h : o.Lives o') : o'.quantity = o.quantity :=
  congrArg OrderTerms.quantity h.terms

theorem Order.Lives.filled_le (h : o.Lives o') : o.filledQuantity ≤ o'.filledQuantity := by
  rcases h.goes with ⟨hsame, -⟩ | ⟨hlt, -⟩
  · exact hsame.ge
  · exact hlt.le

/-- The status that a fill gives is about the fill and the quantity. -/
theorem Order.fillStatus_congr (hfilled : o'.filledQuantity = o.filledQuantity)
    (hquantity : o'.quantity = o.quantity) : o'.fillStatus = o.fillStatus := by
  rw [Order.fillStatus, Order.fillStatus, hfilled, hquantity]

theorem Order.fillStatus_cases (o : Order) :
    o.fillStatus = .filled ∧ o.quantity ≤ o.filledQuantity ∨
      o.fillStatus = .partiallyFilled ∧ o.filledQuantity < o.quantity := by
  unfold Order.fillStatus
  split_ifs with h
  · exact .inl ⟨rfl, h⟩
  · exact .inr ⟨rfl, not_le.mp h⟩

/-- What a fill has left a status as goes on to that, or is cancelled. -/
theorem OrderStatus.Goes.of_fillStatus {status : OrderStatus} (h : o.fillStatus.Goes status) :
    status = o.fillStatus ∨ status = .canceled ∧ o.fillStatus = .partiallyFilled := by
  rcases o.fillStatus_cases with ⟨hst, -⟩ | ⟨hst, -⟩ <;> rw [hst] at h ⊢
  · exact .inl (h.of_not_active rfl)
  · cases h with
    | same => exact .inl rfl
    | canceled _ _ => exact .inr ⟨rfl, rfl⟩

theorem Order.Lives.trans (h : o.Lives o') (h' : o'.Lives o'') : o.Lives o'' := by
  refine ⟨h'.terms.trans h.terms, ?_⟩
  rcases h'.goes with ⟨hsame', hgoes'⟩ | ⟨hlt', hstatus'⟩
  · have hfill := Order.fillStatus_congr hsame' h'.quantity
    rcases h.goes with ⟨hsame, hgoes⟩ | ⟨hlt, hstatus⟩
    · exact .inl ⟨hsame'.trans hsame, hgoes.trans hgoes'⟩
    · refine .inr ⟨hsame' ▸ hlt, ?_⟩
      rw [hfill]
      rcases hstatus with hstatus | ⟨hstatus, hpart⟩ <;> rw [hstatus] at hgoes'
      · exact hgoes'.of_fillStatus
      · -- what is cancelled stays so without a fill
        exact .inr ⟨hgoes'.of_not_active rfl, hpart⟩
  · exact .inr ⟨h.filled_le.trans_lt hlt', hstatus'⟩

/-- What a batch does to an order is a way to go on. -/
theorem Order.FilledTo.lives (h : o.FilledTo o') : o.Lives o' := by
  refine ⟨h.terms, ?_⟩
  rcases h.filled with ⟨hsame, hstatus | ⟨hpending, hnew⟩⟩ | ⟨hlt, hstatus⟩
  · refine .inl ⟨hsame, ?_⟩
    rw [hstatus]
    exact .same _
  · refine .inl ⟨hsame, ?_⟩
    rw [hpending, hnew]
    exact .activated
  · exact .inr ⟨hlt, .inl hstatus⟩

theorem Order.Born.stated (h : o.Born) : o.Stated where
  nonneg := h.1.ge
  waiting := fun _ => h.1
  partiallyFilled := by
    intro hstatus
    rcases h.2 with hp | hn
    · exact nomatch hp.symm.trans hstatus
    · exact nomatch hn.symm.trans hstatus
  filled := fun _ => .inr h.1

/-- **The status goes on saying so.** -/
theorem Order.Stated.lives (h : o.Stated) (hl : o.Lives o') : o'.Stated := by
  have hquantity := hl.quantity
  rcases hl.goes with ⟨hsame, hgoes⟩ | ⟨hlt, hstatus⟩
  · constructor
    · rw [hsame]
      exact h.nonneg
    · intro hwaiting
      rw [hsame]
      refine h.waiting ?_
      generalize o.status = a at hgoes
      generalize o'.status = b at hgoes hwaiting
      cases hgoes with
      | same => exact hwaiting
      | activated => exact .inl rfl
      | triggered => exact .inl rfl
      | canceled _ _ => simp at hwaiting
    · intro hpart
      rw [hsame, hquantity]
      refine h.partiallyFilled ?_
      rw [hpart] at hgoes
      generalize o.status = a at hgoes
      cases hgoes with
      | same => rfl
    · intro hfilled
      rw [hsame, hquantity]
      rw [hfilled] at hgoes
      cases ha : o.status with
      | pending => exact .inr (h.waiting (.inl ha))
      | filled => exact h.filled ha
      | _ =>
        rw [ha] at hgoes
        exact nomatch hgoes
  · have hpos : 0 < o'.filledQuantity := h.nonneg.trans_lt hlt
    rcases o'.fillStatus_cases with ⟨hfill, hle⟩ | ⟨hfill, hlt'⟩ <;> rw [hfill] at hstatus
    · have hstatus : o'.status = .filled := by simpa using hstatus
      exact ⟨hpos.le, by simp [hstatus], by simp [hstatus], fun _ => .inl hle⟩
    · rcases hstatus with hstatus | ⟨hstatus, -⟩
      · exact ⟨hpos.le, by simp [hstatus], fun _ => ⟨hpos, hlt'⟩, by simp [hstatus]⟩
      · exact ⟨hpos.le, by simp [hstatus], by simp [hstatus], by simp [hstatus]⟩

/-- What is filled stays filled, if a fill finds it filled up. -/
theorem Order.Lives.filled (h : o.Lives o') (hstatus : o.status = .filled)
    (hfill : o.filledQuantity < o'.filledQuantity → o.quantity ≤ o.filledQuantity) :
    o'.status = .filled := by
  rcases h.goes with ⟨-, hgoes⟩ | ⟨hlt, hstatus'⟩
  · rw [hstatus] at hgoes
    exact hgoes.of_not_active rfl
  · have hle : o'.quantity ≤ o'.filledQuantity := by
      rw [h.quantity]
      exact (hfill hlt).trans hlt.le
    have hfill' : o'.fillStatus = .filled := if_pos hle
    rw [hfill'] at hstatus'
    simpa using hstatus'

end

/-! ### A round of the worker -/

/-- **What a round of the worker does to the tables**: nothing, or it persists the trades of a match. -/
inductive Worked (s s' : Store) : Prop
  | kept (orders : s'.pg.orders = s.pg.orders) (trades : s'.pg.trades = s.pg.trades)
      (seq : s.tradeIdSeq ≤ s'.tradeIdSeq) : Worked s s'
  | persisted (p : OrderActionPayload) (rest : List OrderActionPayload)
      (queue : s.redis.ordersQueue = p :: rest) (place : p.action = .place) (r : Engine.MatchResult)
      (matched : Matched p (s.setQueue rest) r) (pair : TradingPair) (e : Engine.CMatchingEngine)
      (listed : s.pg.tradingPairs p.symbol = some pair) (rows : List Trade) (s₂ : Store)
      (batch : persistTradeBatch (batchArgs p pair) ((s.setQueue rest).domainTrades p r)
        ((s.setQueue rest).setEngine e) = (.ok rows, s₂))
      (orders : s'.pg.orders = s₂.pg.orders) (trades : s'.pg.trades = s₂.pg.trades)
      (seq : s'.tradeIdSeq = s₂.tradeIdSeq) : Worked s s'

section

variable {s s' : Store} {id : OrderId} {o o' : Order} {req : Request}

/-- What comes after the batch leaves the tables of orders and trades alone. -/
theorem FinishStep.tables {p : OrderActionPayload} {remaining : ℚ} (h : FinishStep p remaining s s') :
    s'.pg.orders = s.pg.orders ∧ s'.pg.trades = s.pg.trades ∧ s'.tradeIdSeq = s.tradeIdSeq := by
  cases h <;> exact ⟨rfl, rfl, rfl⟩

theorem worked_serve (h : EngineReady s.engine) : Worked s (s.serve .work) := by
  show Worked s (work s).2
  rcases work_cases h with ⟨-, hx⟩ | ⟨p, rest, s', hqueue, hx, ⟨-, rfl⟩ | ⟨hplace, hstep⟩⟩ <;> rw [hx]
  · exact .kept rfl rfl le_rfl
  · exact .kept rfl rfl le_rfl
  cases hstep with
  | unmatched _ _ => exact .kept rfl rfl le_rfl
  | undone _ _ _ _ _ _ _ _ hbatch =>
    exact .kept rfl rfl (persistTradeBatch_moves_error (settlement_tradeIds _ _).1 hbatch).1
  | untraded _ _ _ _ _ _ _ finish =>
    obtain ⟨horders, htrades, hseq⟩ := finish.tables
    exact .kept horders htrades hseq.ge
  | traded e _ r hmatched _ pair hpair rows s₂ hbatch _ finish =>
    obtain ⟨horders, htrades, hseq⟩ := finish.tables
    exact .persisted p rest hqueue hplace r hmatched pair e hpair rows s₂ hbatch horders htrades hseq

/-- **A round** fills an order, or leaves it alone, or activates it. -/
theorem filledTo_work (h : Orderly s) (ho : s.pg.orders id = some o) :
    ∃ o', (s.serve .work).pg.orders id = some o' ∧ o.FilledTo o' := by
  cases worked_serve h.consistent.engine with
  | kept horders _ _ => exact ⟨o, by rw [horders]; exact ho, .refl o⟩
  | persisted p rest _ _ r hmatched pair e _ rows s₂ hbatch horders _ _ =>
    rw [horders]
    by_cases hne : (s.setQueue rest).domainTrades p r = []
    · rw [persistTradeBatch, if_pos hne] at hbatch
      obtain rfl : (s.setQueue rest).setEngine e = s₂ := congrArg Prod.snd hbatch
      exact ⟨o, ho, .refl o⟩
    · have hsteps := settlement_fillsOrder (batchArgs p pair) hne hmatched.trade_pos id
      exact (persistTradeBatch_moves hsteps.1 hsteps.2).of_ok hbatch o ho (h.fresh.nonneg id o ho)

/-- A round gives out no ids of orders. -/
theorem work_orderIdSeq (h : EngineReady s.engine) : (s.serve .work).orderIdSeq = s.orderIdSeq := by
  have hsteps : WorkSteps (Prog.Keeps Store.orderIdSeq) :=
    { queue := fun _ _ => rfl
      engine := fun _ _ => rfl
      fill := fun _ _ =>
        { trade := fun _ _ _ => rfl
          makerUser := fun _ _ _ _ => rfl
          balance := fun _ _ _ _ => rfl
          maker := fun _ _ _ _ _ => rfl
          redisMaker := fun _ _ _ _ _ => rfl
          taker := fun _ _ _ => rfl }
      child := fun _ _ _ _ _ _ => rfl
      undo := fun _ _ h => h
      refunded := fun _ _ _ _ => rfl
      unscored := fun _ _ _ => rfl
      rested := fun _ _ _ _ => rfl }
  exact hsteps.serve h

/-! ### Requests -/

theorem lives_rowSteps : RowSteps Order.Lives fun o' => ∃ o : Order, o.Born ∧ o.Lives o' where
  refl := Order.Lives.refl
  trans := Order.Lives.trans
  stays := fun ⟨o, hborn, hl⟩ hl' => ⟨o, hborn, hl.trans hl'⟩
  slLink := fun _ _ => ⟨rfl, .inl ⟨rfl, .same _⟩⟩
  tpLink := fun _ _ => ⟨rfl, .inl ⟨rfl, .same _⟩⟩
  replacedLink := fun _ _ => ⟨rfl, .inl ⟨rfl, .same _⟩⟩
  cancel := fun _ hactive => ⟨rfl, .inl ⟨rfl, .canceled _ hactive⟩⟩
  newRow := fun userId dto => by
    refine ⟨newOrder userId dto, ⟨rfl, ?_⟩, .refl _⟩
    cases hstop : dto.type.isStop
    · exact .inr (by simp [newOrder, hstop])
    · exact .inl (by simp [newOrder, hstop])
  childRow := fun id parent config => ⟨sltpChild id parent config, ⟨rfl, .inl rfl⟩, .refl _⟩
  replacementRow := fun id old p q => ⟨replacement id old p q, ⟨rfl, .inr rfl⟩, .refl _⟩

/-- The rows go on, and those that are new have gone on from being inserted. -/
abbrev RowsLive : Store → Store → Prop := RowsMove Order.Lives fun o' => ∃ o : Order, o.Born ∧ o.Lives o'

theorem lives_monitor : MonitorSteps RowsLive where
  quiet := lives_rowSteps.quiet
  triggered := by
    intro s id order lock isTrailing ho hpending
    have hgoes : order.Lives { order with status := .filled, version := order.version + 1 } := by
      refine ⟨rfl, .inl ⟨rfl, ?_⟩⟩
      rw [hpending]
      exact .triggered
    have hchild : (triggeredChild id order).Born := ⟨rfl, .inr rfl⟩
    have hput : ∀ t : Store, t.pg.orders id = some order →
        RowsLive t (t.putOrder id { order with status := .filled, version := order.version + 1 }) :=
      fun t ht => lives_rowSteps.putOrder ht hgoes
    have hconverted : RowsLive s (s.converted id order lock) :=
      lives_rowSteps.move_trans (lives_rowSteps.move_trans
        (lives_rowSteps.quiet (quiet_moveBalance s _ _ _)) (hput _ ho))
          (lives_rowSteps.insert ⟨triggeredChild id order, hchild, .refl _⟩)
    exact ⟨hconverted.seq, hconverted.rows⟩

/-- **Every request** leads the rows on. -/
theorem lives_serve (h : Orderly s) (req : Request) : RowsLive s (s.serve req) := by
  have hpre := lives_rowSteps.preorder
  refine serve_moves (lives_rowSteps.calls req) lives_monitor
    (fun s _ _ => lives_rowSteps.move_of_orders rfl rfl) (fun hreq => ?_) h.consistent.ids
  subst hreq
  refine ⟨?_, fun id o' ho' => .inl ?_⟩
  · exact (work_orderIdSeq h.consistent.engine).ge
  · have hterms := work_terms h.consistent.engine id
    rw [ho', Option.map_some, eq_comm, Option.map_eq_some_iff] at hterms
    obtain ⟨o, ho, -⟩ := hterms
    obtain ⟨x, hx, hto⟩ := filledTo_work h ho
    obtain rfl : o' = x := Option.some.inj (ho'.symm.trans hx)
    exact ⟨o, ho, hto.lives⟩

end

/-! ### Rows are kept -/

/-- No row is deleted. -/
def RowsKept (s s' : Store) : Prop := ∀ id, s.pg.orders id ≠ none → s'.pg.orders id ≠ none

instance : IsPreorder Store RowsKept where
  refl _ _ h := h
  trans _ _ _ h h' id hid := h' id (h id hid)

section

variable {s s' : Store} {id : OrderId} {o o' : Order} {req : Request}

theorem rowsKept_putOrder (s : Store) (id : OrderId) (o : Order) : RowsKept s (s.putOrder id o) := by
  intro k hk
  show Function.update s.pg.orders id (some o) k ≠ none
  rw [Function.update_apply]
  split_ifs
  · exact Option.some_ne_none o
  · exact hk

theorem rowsKept_insert (s : Store) (o : Order) : RowsKept s (s.insert o) :=
  rowsKept_putOrder s s.orderIdSeq o

theorem rowsKept_addChild (parentId : OrderId) (parent : Order) (config : Option SltpConfig)
    (link : OrderId → Order → Order) (s : Store) : RowsKept s (s.addChild parentId parent config link) := by
  cases config with
  | none => exact refl_of RowsKept s
  | some config =>
    refine trans_of RowsKept (rowsKept_insert s (sltpChild parentId parent config)) ?_
    show RowsKept _ (Store.mapOrder _ _ _)
    unfold Store.mapOrder
    split
    · exact rowsKept_putOrder _ _ _
    · exact refl_of RowsKept _

theorem rowsKept_quiet (h : Quiet s s') : RowsKept s s' := by
  obtain ⟨balances, updates, rfl⟩ := h
  exact fun _ hid => hid

theorem rowsKept_calls (req : Request) : CallSteps RowsKept req where
  quiet := rowsKept_quiet
  placed := fun s userId dto _ _ _ _ => trans_of RowsKept (trans_of RowsKept
    (rowsKept_insert s (newOrder userId dto)) (rowsKept_addChild _ _ _ _ _)) (rowsKept_addChild _ _ _ _ _)
  canceled := fun s _ id order _ _ _ _ _ k hk => by
    show (Function.update s.pg.orders id (some order.canceled) k).map _ ≠ none
    rw [Ne, Option.map_eq_none_iff]
    exact rowsKept_putOrder s id order.canceled k hk
  replaced := fun s _ id old p q _ _ _ _ _ _ _ _ _ _ _ =>
    trans_of RowsKept (trans_of RowsKept (rowsKept_putOrder s id old.canceled)
      (rowsKept_insert _ (replacement id old p q))) (rowsKept_putOrder _ id (old.replacedBy s.orderIdSeq))

theorem rowsKept_monitor : MonitorSteps RowsKept where
  quiet := rowsKept_quiet
  triggered := fun s id order _ _ _ _ =>
    trans_of RowsKept (rowsKept_putOrder s id { order with status := .filled, version := order.version + 1 })
      (rowsKept_insert _ (triggeredChild id order))

/-- **No request deletes a row.** -/
theorem rowsKept_serve (h : Orderly s) (req : Request) : RowsKept s (s.serve req) := by
  refine serve_moves (rowsKept_calls req) rowsKept_monitor (fun _ _ _ _ hid => hid) (fun hreq id hid => ?_)
    h.consistent.ids
  subst hreq
  obtain ⟨o, ho⟩ := Option.ne_none_iff_exists'.mp hid
  obtain ⟨o', ho', -⟩ := filledTo_work h ho
  rw [ho']
  exact Option.some_ne_none o'

/-- A row goes on to the one that is there after a request. -/
theorem lives_row (h : Orderly s) (req : Request) (ho : s.pg.orders id = some o) :
    ∃ o', (s.serve req).pg.orders id = some o' ∧ o.Lives o' := by
  obtain ⟨o', ho'⟩ := Option.ne_none_iff_exists'.mp (rowsKept_serve h req id (by rw [ho]; simp))
  refine ⟨o', ho', ?_⟩
  rcases (lives_serve h req).rows id o' ho' with ⟨x, hx, hl⟩ | ⟨hle, -⟩
  · obtain rfl : o = x := Option.some.inj (ho.symm.trans hx)
    exact hl
  · exact absurd (h.consistent.ids id (by rw [ho]; simp)) (not_lt.mpr hle)

end

/-! ### Stops that have been triggered -/

/-- **What is `FILLED` without being filled up** is out of the worker's reach: it is a stop that has been
    triggered. -/
def Retired (s : Store) : Prop := ∀ id o, s.pg.orders id = some o → o.status = .filled →
  o.quantity ≤ o.filledQuantity ∨ Gone id s

/-- What holds between two requests. -/
structure Lived (s : Store) : Prop where
  orderly : Orderly s
  retired : Retired s
  stated : ∀ id o, s.pg.orders id = some o → o.Stated

section

variable {s : Store} {id : OrderId} {o o' : Order} {req : Request}

/-- A call of the API fills nothing, and makes no order `FILLED`. -/
theorem filled_rowSteps : RowSteps
    (fun o o' => o'.terms = o.terms ∧ o'.fills = o.fills ∧ (o'.status = .filled → o.status = .filled))
    fun o => o.status ≠ .filled where
  refl := fun _ => ⟨rfl, rfl, fun h => h⟩
  trans := fun ⟨hterms, hfills, h⟩ ⟨hterms', hfills', h'⟩ =>
    ⟨hterms'.trans hterms, hfills'.trans hfills, fun hst => h (h' hst)⟩
  stays := fun hne h hst => hne (h.2.2 hst)
  slLink := fun _ _ => ⟨rfl, rfl, fun h => h⟩
  tpLink := fun _ _ => ⟨rfl, rfl, fun h => h⟩
  replacedLink := fun _ _ => ⟨rfl, rfl, fun h => h⟩
  cancel := fun _ _ => ⟨rfl, rfl, fun h => nomatch h⟩
  newRow := fun userId dto => by
    show (if dto.type.isStop = true then OrderStatus.pending else .new) ≠ .filled
    split_ifs <;> simp
  childRow := fun _ _ _ => by simp [sltpChild]
  replacementRow := fun _ _ _ _ => by simp [replacement]

/-- The rows after a trigger. -/
theorem trigger_row (s : Store) (order : Order) (lock : Asset × ℚ) (isTrailing : Bool) (k : OrderId) :
    (s.trigger id order lock isTrailing).pg.orders k =
      if k = s.orderIdSeq then some (triggeredChild id order)
      else if k = id then some { order with status := .filled, version := order.version + 1 }
      else s.pg.orders k := by
  show Function.update (Function.update s.pg.orders id _) s.orderIdSeq _ k = _
  rw [Function.update_apply, Function.update_apply]

/-- **A stop that is triggered** is neither queued nor in the book. -/
theorem gone_trigger (h : Consistent s) {order : Order} (lock : Asset × ℚ) (isTrailing : Bool)
    (ho : s.pg.orders id = some order) (hpending : order.status = .pending) :
    Gone id (s.trigger id order lock isTrailing) where
  activated := by
    have hne : id ≠ s.orderIdSeq := (h.ids id (by rw [ho]; simp)).ne
    unfold Activated
    rw [trigger_row, if_neg hne, if_pos rfl]
    exact ⟨_, rfl, by simp⟩
  book := by
    intro symbol side hmem
    have hmem : id ∈ ((replaceStop id isTrailing s.orderIdSeq (triggeredChild id order)
      (s.converted id order lock).redis).book symbol side).members := hmem
    rw [replaceStop_book] at hmem
    obtain ⟨x, hx, hrests⟩ := h.booked symbol side id hmem
    obtain rfl : order = x := Option.some.inj (ho.symm.trans hx)
    exact hrests.active hpending
  queue := by
    intro p hp hplace hid
    have hp : p ∈ (replaceStop id isTrailing s.orderIdSeq (triggeredChild id order)
      (s.converted id order lock).redis).ordersQueue := hp
    rw [replaceStop_queue, List.mem_append, List.mem_singleton] at hp
    rcases hp with hp | rfl
    · obtain ⟨x, hx, hfits⟩ := h.queued p hp hplace
      rw [hid] at hx
      obtain rfl : order = x := Option.some.inj (ho.symm.trans hx)
      exact hfits.active hpending
    · have hid : s.orderIdSeq = id := hid
      exact (h.ids id (by rw [ho]; simp)).ne hid.symm

theorem retired_monitor : MonitorSteps (Prog.Preserves fun s => Orderly s ∧ Retired s) where
  quiet := by
    rintro s s' hq ⟨h, hretired⟩
    refine ⟨h.quiet hq, ?_⟩
    obtain ⟨balances, updates, rfl⟩ := hq
    intro id o ho hst
    exact (hretired id o ho hst).imp_right fun hgone => ⟨hgone.activated, hgone.book, hgone.queue⟩
  triggered := by
    rintro s id order lock isTrailing ho hpending ⟨h, hretired⟩
    refine ⟨orderly_monitor.triggered s id order lock isTrailing ho hpending h, fun k o' ho' hst => ?_⟩
    rw [trigger_row] at ho'
    split_ifs at ho' with hseq hid
    · obtain rfl := Option.some.inj ho'
      exact nomatch hst
    · subst hid
      exact .inr (gone_trigger h.consistent lock isTrailing ho hpending)
    · refine (hretired k o' ho' hst).imp_right fun hgone => ?_
      have hfinal : Final k (s.tradesOf k) s := ⟨h.consistent, hgone, rfl⟩
      exact (final_monitor.triggered s id order lock isTrailing ho hpending hfinal).gone

/-- Nor do the triggers of trailing stops matter. -/
theorem retired_trailing (s : Store) (trailing : Symbol → SortedSet OrderId)
    (states : OrderId → Option TrailingState) : Prog.Preserves (fun s => Orderly s ∧ Retired s) s
      (s.setRedis fun r => { r with trailing := trailing, trailingState := states }) := by
  rintro ⟨h, hretired⟩
  refine ⟨⟨h.consistent.of_drains (drains_setRedis (bookShrinks_refl rfl) fun _ h => .inl h),
    h.fresh.of_shrinks rfl (bookShrinks_refl rfl) rfl⟩, fun id o ho hst => ?_⟩
  exact (hretired id o ho hst).imp_right fun hgone => ⟨hgone.activated, hgone.book, hgone.queue⟩

/-- **Every request** keeps this. -/
theorem retired_serve (h : Orderly s) (hretired : Retired s) (req : Request) : Retired (s.serve req) := by
  have hgone : ∀ id, Gone id s → Gone id (s.serve req) := fun id hgone =>
    (final_serve ⟨h.consistent, hgone, rfl⟩ req : Final id (s.tradesOf id) _).gone
  cases hcall : req.isCall with
  | true =>
    intro id o' ho' hst
    rcases (filled_rowSteps.serve h.consistent.ids hcall).rows id o' ho' with
      ⟨o, ho, hterms, hfills, hback⟩ | ⟨-, hne⟩
    · rw [show o'.quantity = o.quantity from congrArg OrderTerms.quantity hterms,
        show o'.filledQuantity = o.filledQuantity from congrArg Prod.fst hfills]
      exact (hretired id o ho (hback hst)).imp_right (hgone id)
    · exact absurd hst hne
  | false =>
    cases req with
    | work =>
      intro id o' ho' hst
      have hterms := work_terms h.consistent.engine id
      rw [ho', Option.map_some, eq_comm, Option.map_eq_some_iff] at hterms
      obtain ⟨o, ho, -⟩ := hterms
      obtain ⟨x, hx, hto⟩ := filledTo_work h ho
      obtain rfl : o' = x := Option.some.inj (ho'.symm.trans hx)
      rcases hto.filled with ⟨hsame, hstatus | ⟨-, hnew⟩⟩ | ⟨-, hstatus⟩
      · rw [hto.lives.quantity, hsame]
        exact (hretired id o ho (hstatus ▸ hst)).imp_right (hgone id)
      · exact nomatch hnew.symm.trans hst
      · rcases o'.fillStatus_cases with ⟨-, hle⟩ | ⟨hpart, -⟩
        · exact .inl hle
        · exact nomatch hpart.symm.trans (hstatus.symm.trans hst)
    | print m symbol price =>
      exact (serve_print_moves retired_trailing retired_monitor.tryTrigger s m symbol price ⟨h, hretired⟩).2
    | rescan symbol lastPrice => exact (retired_monitor.rescan symbol lastPrice ⟨h, hretired⟩).2
    | _ => exact nomatch hcall

end

/-! ### Runs -/

theorem lived_start (users : Finset UserId) (pairs : Symbol → Option TradingPair)
    (balances : Ledger.BalanceKey → Option Ledger.Row) : Lived (Store.start users pairs balances) where
  orderly := orderly_start users pairs balances
  retired := fun _ _ ho => nomatch ho
  stated := fun _ _ ho => nomatch ho

section

variable {s : Store} {id : OrderId} {o o' : Order} {req : Request}

/-- **One request.** -/
theorem lived_serve (h : Lived s) (req : Request) : Lived (s.serve req) where
  orderly := orderly_serve h.orderly req
  retired := retired_serve h.orderly h.retired req
  stated := by
    intro id o' ho'
    rcases (lives_serve h.orderly req).rows id o' ho' with ⟨o, ho, hl⟩ | ⟨-, o, hborn, hl⟩
    · exact (h.stated id o ho).lives hl
    · exact hborn.stated.lives hl

theorem lived_serveAll (h : Lived s) (reqs : List Request) : Lived (s.serveAll reqs) :=
  Run.invariant (I := Lived) (fun _ req h => lived_serve h req) h reqs

/-- What the worker cannot reach is not filled. -/
theorem fills_of_gone (h : Orderly s) (hgone : Gone id s) (ho : s.pg.orders id = some o)
    (ho' : (s.serve req).pg.orders id = some o') : o'.fills = o.fills := by
  by_cases hwork : req = .work
  · subst hwork
    have hrow : (work s).2.pg.orders id = s.pg.orders id := (gone_work h.consistent.engine hgone).row
    have ho' : (work s).2.pg.orders id = some o' := ho'
    rw [hrow, ho] at ho'
    rw [Option.some.inj ho']
  · rcases (fillsStay_serve h.consistent.ids hwork).rows id o' ho' with ⟨x, hx, -, hfills⟩ | ⟨hle, -⟩
    · obtain rfl : o = x := Option.some.inj (ho.symm.trans hx)
      exact hfills
    · exact absurd (h.consistent.ids id (by rw [ho]; simp)) (not_lt.mpr hle)

/-- A request leads a row on, and leaves it `FILLED` if it is so. -/
theorem Lived.row (h : Lived s) (req : Request) (ho : s.pg.orders id = some o) :
    ∃ o', (s.serve req).pg.orders id = some o' ∧ o.Lives o' ∧ (o.status = .filled → o'.status = .filled) := by
  obtain ⟨o', ho', hl⟩ := lives_row h.orderly req ho
  refine ⟨o', ho', hl, fun hst => hl.filled hst fun hlt => ?_⟩
  refine (h.retired id o ho hst).resolve_right fun hgone => ?_
  exact hlt.ne' (congrArg Prod.fst (fills_of_gone h.orderly hgone ho ho'))

/-- **And so does a run.** -/
theorem Lived.rows (h : Lived s) (reqs : List Request) (ho : s.pg.orders id = some o) :
    ∃ o', (s.serveAll reqs).pg.orders id = some o' ∧ o.Lives o' ∧ (o.status = .filled → o'.status = .filled) := by
  induction reqs generalizing s o with
  | nil => exact ⟨o, ho, .refl o, fun hst => hst⟩
  | cons req reqs ih =>
    obtain ⟨o₁, ho₁, hl₁, hst₁⟩ := h.row req ho
    obtain ⟨o', ho', hl', hst'⟩ := ih (lived_serve h req) ho₁
    exact ⟨o', ho', hl₁.trans hl', hst' ∘ hst₁⟩

end

end SpotExchange.Exchange
