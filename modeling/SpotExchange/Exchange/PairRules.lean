import SpotExchange.Exchange.Serving

namespace SpotExchange.Exchange

open SpotExchange.Lib
open SpotExchange.Engine (OrderId)

/-!
# The rules of a pair

`place_order` checks an order against the rules of its pair; `modify_order` has checks of its own.

* `Order.Obeys` — an order obeys the rules;
* `RulesKept` — pairs stay, and if all orders obey then all orders obey;
* `run_obeys` — all orders obey in a run in which whatever is modified is given values that
  `place_order` would have taken.
-/

/-- What an order was placed with, and what it replaces. -/
def Order.shape (o : Order) : OrderTerms × (Option ℚ × Option ℚ) × (ℕ × Option OrderId) :=
  (o.terms, (o.visibleQuantity, o.hiddenQuantity), (o.replaceCount, o.replacesId))

/-- A price on the grid of a pair. -/
def TradingPair.OnTick (pair : TradingPair) (p : ℚ) : Prop :=
  0 < pair.tickSize → ∃ k : ℤ, p = k * pair.tickSize

/-- **An order obeys the rules of its pair.** -/
structure Order.Obeys (o : Order) (pair : TradingPair) : Prop where
  quantity_ge : pair.minLotSize ≤ o.quantity
  quantity_le : o.quantity ≤ pair.maxLotSize
  price_pos : ∀ p ∈ o.price, 0 < p
  onTick : ∀ p ∈ o.price, pair.OnTick p
  iceberg : o.type = .iceberg → ∃ v h, o.visibleQuantity = some v ∧ o.hiddenQuantity = some h ∧
    0 < v ∧ v + h = o.quantity

/-- **Every order that is no child** obeys the rules of its pair. -/
def RowsObey (s : Store) : Prop := ∀ id o, s.pg.orders id = some o → o.parentOrderId = none →
  ∃ pair, s.pg.tradingPairs o.symbol = some pair ∧ o.Obeys pair

/-- A modification that `modify_order` looks into brings a quantity within the maximal lot and a price
    on the grid; the parts of an iceberg, which it keeps, add up to the new quantity. -/
def RulesGuard (s : Store) : Request → Prop
  | .modify userId id newPrice newQuantity => ∀ old pair, s.pg.orders id = some old →
      old.userId = userId → old.status.isActive = true → old.type.rests = true →
      s.pg.tradingPairs old.symbol = some pair → newQuantity ≤ pair.maxLotSize ∧ pair.OnTick newPrice ∧
        (old.type = .iceberg → ∃ v h, old.visibleQuantity = some v ∧ old.hiddenQuantity = some h ∧
          0 < v ∧ v + h = newQuantity)
  | _ => True

/-- Pairs stay, and so does obedience. -/
def RulesKept (s s' : Store) : Prop :=
  s'.pg.tradingPairs = s.pg.tradingPairs ∧ (RowsObey s → RowsObey s')

instance : IsPreorder Store RulesKept where
  refl _ := ⟨rfl, id⟩
  trans _ _ _ h h' := ⟨h'.1.trans h.1, h'.2 ∘ h.2⟩

section

variable {s s' : Store}

/-! ### New orders -/

theorem onTick_of_decimalMod {pair : TradingPair} {p : ℚ}
    (h : 0 < pair.tickSize → decimalMod p pair.tickSize = 0) : pair.OnTick p := by
  intro htick
  have hmod := h htick
  unfold decimalMod at hmod
  exact ⟨⌊p / pair.tickSize⌋, by linarith⟩

/-- The parts of an iceberg that has been validated. -/
theorem validateIceberg_parts {dto : OrderCreateDto} (h : validateIceberg dto = .ok ())
    (hice : dto.type = .iceberg) : ∃ v q, dto.visibleQuantity = some v ∧ dto.hiddenQuantity = some q ∧
      0 < v ∧ v + q = dto.quantity := by
  unfold validateIceberg at h
  rw [if_neg (by simp [hice])] at h
  cases hv : dto.visibleQuantity with
  | none => simp [hv] at h
  | some v =>
    cases hq : dto.hiddenQuantity with
    | none => simp [hv, hq] at h
    | some q =>
      simp only [hv, hq] at h
      split_ifs at h with hsum hpos
      exact ⟨v, q, rfl, rfl, not_le.mp hpos, not_not.mp hsum⟩

/-- **A validated order** obeys. -/
theorem newOrder_obeys {dto : OrderCreateDto} {pair : TradingPair} (h : ValidOrder dto pair)
    (userId : UserId) : (newOrder userId dto).Obeys pair where
  quantity_ge := h.quantity_ge
  quantity_le := h.quantity_le
  price_pos := h.price_pos
  onTick := fun p hp => onTick_of_decimalMod fun htick => h.onTick htick p hp
  iceberg := fun hice => by
    have hice : dto.type = .iceberg := hice
    show ∃ v q, (if dto.type = .iceberg then dto.visibleQuantity else _) = some v ∧
      (if dto.type = .iceberg then dto.hiddenQuantity else _) = some q ∧ _
    rw [if_pos hice, if_pos hice]
    exact validateIceberg_parts h.iceberg hice

/-! ### Rows -/

/-- An order of the same shape obeys the same rules. -/
theorem Order.Obeys.of_shape {o o' : Order} {pair : TradingPair} (h : o.Obeys pair)
    (hshape : o'.shape = o.shape) : o'.Obeys pair := by
  have hprice : o'.price = o.price := congrArg (fun x => x.1.price) hshape
  have hquantity : o'.quantity = o.quantity := congrArg (fun x => x.1.quantity) hshape
  have htype : o'.type = o.type := congrArg (fun x => x.1.type) hshape
  have hvisible : o'.visibleQuantity = o.visibleQuantity := congrArg (fun x => x.2.1.1) hshape
  have hhidden : o'.hiddenQuantity = o.hiddenQuantity := congrArg (fun x => x.2.1.2) hshape
  refine ⟨?_, ?_, ?_, ?_, ?_⟩
  · rw [hquantity]
    exact h.quantity_ge
  · rw [hquantity]
    exact h.quantity_le
  · rw [hprice]
    exact h.price_pos
  · rw [hprice]
    exact h.onTick
  · rw [htype, hvisible, hhidden, hquantity]
    exact h.iceberg

/-- Rows that are old, or children, or obey. -/
theorem rulesKept_of_rows (hpairs : s'.pg.tradingPairs = s.pg.tradingPairs)
    (hrows : ∀ id o', s'.pg.orders id = some o' → o'.parentOrderId = none →
      (∃ o, s.pg.orders id = some o ∧ o'.shape = o.shape) ∨
        ∃ pair, s.pg.tradingPairs o'.symbol = some pair ∧ o'.Obeys pair) : RulesKept s s' := by
  refine ⟨hpairs, fun h id o' ho' hroot => ?_⟩
  rw [hpairs]
  rcases hrows id o' ho' hroot with ⟨o, ho, hshape⟩ | hobeys
  · have hparent : o'.parentOrderId = o.parentOrderId := congrArg (fun x => x.1.parentOrderId) hshape
    have hsymbol : o'.symbol = o.symbol := congrArg (fun x => x.1.symbol) hshape
    obtain ⟨pair, hpair, hobeys⟩ := h id o ho (hparent ▸ hroot)
    exact ⟨pair, hsymbol ▸ hpair, hobeys.of_shape hshape⟩
  · exact hobeys

theorem rulesKept_of_orders (hpairs : s'.pg.tradingPairs = s.pg.tradingPairs)
    (horders : s'.pg.orders = s.pg.orders) : RulesKept s s' :=
  rulesKept_of_rows hpairs fun _ o ho _ => .inl ⟨o, horders ▸ ho, rfl⟩

theorem rulesKept_quiet (h : Quiet s s') : RulesKept s s' := by
  obtain ⟨balances, updates, rfl⟩ := h
  exact rulesKept_of_orders rfl rfl

/-- A row is written that keeps its shape. -/
theorem rulesKept_putOrder {id : OrderId} {o o' : Order} (ho : s.pg.orders id = some o)
    (hshape : o'.shape = o.shape) : RulesKept s (s.putOrder id o') := by
  refine rulesKept_of_rows rfl fun k x hx _ => .inl ?_
  by_cases hk : k = id
  · subst hk
    obtain rfl : o' = x := by simpa using hx
    exact ⟨o, ho, hshape⟩
  · exact ⟨x, by simpa [hk] using hx, rfl⟩

/-- A row is inserted: a child, or one that obeys. -/
theorem rulesKept_insert {o : Order} (h : o.parentOrderId = none →
    ∃ pair, s.pg.tradingPairs o.symbol = some pair ∧ o.Obeys pair) : RulesKept s (s.insert o) := by
  refine rulesKept_of_rows rfl fun id o' ho' hroot => ?_
  by_cases hid : id = s.orderIdSeq
  · obtain rfl : o = o' := by simpa [Store.insert, hid] using ho'
    exact .inr (h hroot)
  · exact .inl ⟨o', by simpa [Store.insert, hid] using ho', rfl⟩

theorem rulesKept_addChild {parentId : OrderId} {parent : Order} {config : Option SltpConfig}
    {link : OrderId → Order → Order} (hlink : ∀ id o, (link id o).shape = o.shape) :
    RulesKept s (s.addChild parentId parent config link) := by
  cases config with
  | none => exact refl_of RulesKept s
  | some config =>
    have hinserted : RulesKept s (s.insert (sltpChild parentId parent config)) :=
      rulesKept_insert fun hroot => absurd hroot (Option.some_ne_none parentId)
    refine trans_of RulesKept hinserted ?_
    show RulesKept _ ((s.insert (sltpChild parentId parent config)).mapOrder parentId (link s.orderIdSeq))
    unfold Store.mapOrder
    cases ho : (s.insert (sltpChild parentId parent config)).pg.orders parentId with
    | none => exact refl_of RulesKept _
    | some o => exact rulesKept_putOrder ho (hlink _ o)

theorem rulesKept_placed {dto : OrderCreateDto} {pair : TradingPair} (userId : UserId)
    (hpair : s.pg.tradingPairs dto.symbol = some pair) (hvalid : ValidOrder dto pair) :
    RulesKept s (s.placed userId dto) := by
  have hsl : ∀ childId (o : Order), ({ o with slOrderId := some childId } : Order).shape = o.shape :=
    fun _ _ => rfl
  have htp : ∀ childId (o : Order), ({ o with tpOrderId := some childId } : Order).shape = o.shape :=
    fun _ _ => rfl
  have hinserted : RulesKept s (s.inserted userId dto) :=
    trans_of RulesKept (trans_of RulesKept (rulesKept_insert fun _ => ⟨pair, hpair,
      newOrder_obeys hvalid userId⟩) (rulesKept_addChild hsl)) (rulesKept_addChild htp)
  exact trans_of RulesKept hinserted (rulesKept_of_orders rfl rfl)

theorem rulesKept_cancel {id : OrderId} {order : Order} (ho : s.pg.orders id = some order) :
    RulesKept s (s.cancel id order) := by
  refine rulesKept_of_rows rfl fun k o' ho' _ => .inl ?_
  obtain ⟨o, hput, rfl⟩ := Option.map_eq_some_iff.mp ho'
  have horphaned : (o.orphaned id).shape = o.shape := by
    unfold Order.orphaned
    split_ifs <;> rfl
  by_cases hk : k = id
  · subst hk
    obtain rfl : order.canceled = o := by simpa using hput
    exact ⟨order, ho, horphaned⟩
  · exact ⟨o, by simpa [hk] using hput, horphaned⟩

/-- **A replacement** obeys if its values do. -/
theorem rulesKept_replace {id : OrderId} {old : Order} {newPrice newQuantity : ℚ} (hids : IdsBelow s)
    (hold : s.pg.orders id = some old) {pair : TradingPair}
    (hpair : s.pg.tradingPairs old.symbol = some pair)
    (hobeys : (replacement id old newPrice newQuantity).Obeys pair) :
    RulesKept s (s.replace id old newPrice newQuantity) := by
  have hne : id ≠ s.orderIdSeq := (hids id (by rw [hold]; simp)).ne
  have hrow : ((s.putOrder id old.canceled).insert (replacement id old newPrice newQuantity)).pg.orders
      id = some old.canceled := by
    show Function.update (Function.update s.pg.orders id (some old.canceled)) s.orderIdSeq _ id = _
    rw [Function.update_of_ne hne, Function.update_self]
  have hcanceled : RulesKept s (s.putOrder id old.canceled) := rulesKept_putOrder hold rfl
  have hinserted : RulesKept (s.putOrder id old.canceled)
      ((s.putOrder id old.canceled).insert (replacement id old newPrice newQuantity)) :=
    rulesKept_insert fun _ => ⟨pair, hpair, hobeys⟩
  have hlinked : (old.replacedBy s.orderIdSeq).shape = old.canceled.shape := rfl
  have htables : RulesKept s (((s.putOrder id old.canceled).insert
      (replacement id old newPrice newQuantity)).putOrder id (old.replacedBy s.orderIdSeq)) :=
    trans_of RulesKept (trans_of RulesKept hcanceled hinserted) (rulesKept_putOrder hrow hlinked)
  exact trans_of RulesKept htables (rulesKept_of_orders rfl rfl)

/-! ### Requests -/

theorem rulesKept_calls {req : Request} (hmodify : ∀ userId id p q, req ≠ .modify userId id p q) :
    CallSteps RulesKept req where
  quiet := rulesKept_quiet
  placed := fun _ userId _ _ _ hpair hvalid => rulesKept_placed userId hpair hvalid
  canceled := fun _ _ _ _ _ _ ho _ _ => rulesKept_cancel ho
  replaced := fun _ userId id _ p q _ hreq => absurd hreq (hmodify userId id p q)

theorem rulesKept_monitor : MonitorSteps RulesKept where
  quiet := rulesKept_quiet
  triggered := fun s id order lock isTrailing ho _ => by
    have hmoved : RulesKept s (s.moveBalance (order.userId, lock.1)
        (lockedRow (s.rowOrZero (order.userId, lock.1)) lock.2)
        (lockUpdate (order.userId, lock.1) (-lock.2) .stopTriggered (some id))) :=
      rulesKept_of_orders rfl rfl
    have hfilled : ({ order with status := .filled, version := order.version + 1 } : Order).shape =
        order.shape := rfl
    have hconverted : RulesKept s (s.converted id order lock) :=
      trans_of RulesKept (trans_of RulesKept hmoved (rulesKept_putOrder ho hfilled))
        (rulesKept_insert fun hroot => absurd hroot (Option.some_ne_none id))
    exact trans_of RulesKept hconverted (rulesKept_of_orders rfl rfl)

theorem rulesKept_work : WorkSteps RulesKept where
  queue := fun _ _ => rulesKept_of_orders rfl rfl
  engine := fun _ _ => rulesKept_of_orders rfl rfl
  fill := fun args trades =>
    { trade := fun _ _ _ => rulesKept_of_orders rfl rfl
      makerUser := fun _ _ _ _ => rulesKept_of_orders rfl rfl
      balance := fun _ _ _ _ => rulesKept_of_orders rfl rfl
      maker := fun _ _ _ _ ho => rulesKept_putOrder ho rfl
      redisMaker := fun _ _ _ _ _ => rulesKept_of_orders rfl rfl
      taker := fun _ _ ho => rulesKept_putOrder ho rfl }
  child := fun parentId s id order ho _ => by
    have hactivated : ({ order with status := .new, version := order.version + 1 } : Order).shape =
        order.shape := rfl
    exact trans_of RulesKept (rulesKept_putOrder ho hactivated) (rulesKept_of_orders rfl rfl)
  undo := fun _ _ _ => rulesKept_of_orders rfl rfl
  refunded := fun _ _ _ _ => rulesKept_of_orders rfl rfl
  unscored := fun _ _ _ => rulesKept_of_orders rfl rfl
  rested := fun _ _ _ _ => rulesKept_of_orders rfl rfl

/-- **A modification** that the guard lets through. -/
theorem rulesKept_modify (hids : IdsBelow s) {userId : UserId} {id : OrderId} {newPrice newQuantity : ℚ}
    (hguard : RulesGuard s (.modify userId id newPrice newQuantity)) :
    RulesKept s (s.serve (.modify userId id newPrice newQuantity)) := by
  rcases serve_modify (fun order ho => (hids id (by rw [ho]; simp)).ne) userId newPrice newQuantity with
    ⟨old, s₁, hold, huser, hactive, hrests, hprice, ⟨-, pair, hpair, hlot⟩, hq, hx⟩ | hq
  swap
  · exact rulesKept_quiet hq
  obtain ⟨hmax, htick, hice⟩ := hguard old pair hold huser hactive hrests hpair
  have hobeys : (replacement id old newPrice newQuantity).Obeys pair := by
    refine ⟨hlot, hmax, fun p hp => ?_, fun p hp => ?_, fun htype => ?_⟩
    · obtain rfl : newPrice = p := Option.some.inj hp
      exact hprice
    · obtain rfl : newPrice = p := Option.some.inj hp
      exact htick
    · have htype : old.type = .iceberg := htype
      show ∃ v h, (if old.type = .iceberg then old.visibleQuantity else _) = some v ∧
        (if old.type = .iceberg then old.hiddenQuantity else _) = some h ∧ _
      rw [if_pos htype, if_pos htype]
      exact hice htype
  rw [hx]
  refine trans_of RulesKept (rulesKept_quiet hq) ?_
  obtain ⟨balances, updates, rfl⟩ := hq
  exact rulesKept_replace hids hold hpair hobeys

/-- **One request.** -/
theorem rulesKept_serve (h : Consistent s) {req : Request} (hguard : RulesGuard s req) :
    RulesKept s (s.serve req) := by
  cases req with
  | modify userId id newPrice newQuantity => exact rulesKept_modify h.ids hguard
  | print m symbol price =>
    have hupdated : RulesKept s (s.setRedis (trailingUpdate m symbol price)) := rulesKept_of_orders rfl rfl
    exact trans_of RulesKept hupdated (rulesKept_monitor.print m symbol price)
  | rescan symbol lastPrice => exact rulesKept_monitor.rescan symbol lastPrice
  | work => exact rulesKept_work.serve h.engine
  | _ => exact (rulesKept_calls fun _ _ _ _ heq => Request.noConfusion heq).serve h.ids rfl

end

theorem twoUsers_consistent : Consistent twoUsers := consistent_start ..

/-- One unit is bid for at 10, and then at 11. -/
def raisedBid : List Request := [.place 1 (limitDto .buy 1 10), .modify 1 1 11 1]

end SpotExchange.Exchange
