import SpotExchange.Exchange.Serving

namespace SpotExchange.Exchange

open SpotExchange.Lib
open SpotExchange.Engine (OrderId)

/-!
# What the API does to the rows of orders

* `RowsMove R N s s'` — every row has moved by `R`, or is new and has `N`;
* `RowSteps R N` — what has to be checked: each way in which the API writes a row;
* `RowSteps.serve` — then every call of the API moves the rows so.
-/

/-- Every row of `s'` has moved by `R`, or is new and has `N`. -/
structure RowsMove (R : Order → Order → Prop) (N : Order → Prop) (s s' : Store) : Prop where
  seq : s.orderIdSeq ≤ s'.orderIdSeq
  rows : ∀ id o', s'.pg.orders id = some o' →
    (∃ o, s.pg.orders id = some o ∧ R o o') ∨ s.orderIdSeq ≤ id ∧ N o'

/-- **The ways in which the API writes a row.** -/
structure RowSteps (R : Order → Order → Prop) (N : Order → Prop) : Prop where
  refl : ∀ o, R o o
  trans : ∀ {o o' o''}, R o o' → R o' o'' → R o o''
  stays : ∀ {o o'}, N o → R o o' → N o'
  slLink : ∀ o id, R o { o with slOrderId := some id }
  tpLink : ∀ o id, R o { o with tpOrderId := some id }
  replacedLink : ∀ o id, R o { o with replacedById := some id }
  cancel : ∀ o, o.status.isActive = true → R o o.canceled
  newRow : ∀ userId dto, N (newOrder userId dto)
  childRow : ∀ id parent config, N (sltpChild id parent config)
  replacementRow : ∀ id old p q, N (replacement id old p q)

section

variable {R : Order → Order → Prop} {N : Order → Prop} {s s' s'' : Store}

theorem RowSteps.move_refl (h : RowSteps R N) (s : Store) : RowsMove R N s s :=
  ⟨le_rfl, fun _ o ho => .inl ⟨o, ho, h.refl o⟩⟩

theorem RowSteps.move_trans (h : RowSteps R N) (h₁ : RowsMove R N s s') (h₂ : RowsMove R N s' s'') :
    RowsMove R N s s'' := by
  refine ⟨h₁.seq.trans h₂.seq, fun id o'' ho'' => ?_⟩
  rcases h₂.rows id o'' ho'' with ⟨o', ho', hR'⟩ | ⟨hle, hN⟩
  · rcases h₁.rows id o' ho' with ⟨o, ho, hR⟩ | ⟨hle, hN⟩
    · exact .inl ⟨o, ho, h.trans hR hR'⟩
    · exact .inr ⟨hle, h.stays hN hR'⟩
  · exact .inr ⟨h₁.seq.trans hle, hN⟩

/-- The tables of orders are all that matters. -/
theorem RowSteps.move_of_orders (h : RowSteps R N) (hseq : s'.orderIdSeq = s.orderIdSeq)
    (horders : s'.pg.orders = s.pg.orders) : RowsMove R N s s' :=
  ⟨hseq.ge, fun _ o ho => .inl ⟨o, horders ▸ ho, h.refl o⟩⟩

theorem RowSteps.quiet (h : RowSteps R N) (hq : Quiet s s') : RowsMove R N s s' := by
  obtain ⟨balances, updates, rfl⟩ := hq
  exact h.move_of_orders rfl rfl

theorem RowSteps.insert (h : RowSteps R N) {o : Order} (hN : N o) : RowsMove R N s (s.insert o) := by
  refine ⟨Nat.le_succ _, fun id o' ho' => ?_⟩
  by_cases hid : id = s.orderIdSeq
  · subst hid
    obtain rfl : o = o' := by simpa [Store.insert] using ho'
    exact .inr ⟨le_rfl, hN⟩
  · exact .inl ⟨o', by simpa [Store.insert, hid] using ho', h.refl o'⟩

theorem RowSteps.putOrder (h : RowSteps R N) {id : OrderId} {o o' : Order} (ho : s.pg.orders id = some o)
    (hR : R o o') : RowsMove R N s (s.putOrder id o') := by
  refine ⟨le_rfl, fun k o₁ ho₁ => ?_⟩
  by_cases hk : k = id
  · subst hk
    obtain rfl : o' = o₁ := by simpa using ho₁
    exact .inl ⟨o, ho, hR⟩
  · exact .inl ⟨o₁, by simpa [hk] using ho₁, h.refl o₁⟩

theorem RowSteps.mapOrder (h : RowSteps R N) {id : OrderId} {f : Order → Order} (hf : ∀ o, R o (f o)) :
    RowsMove R N s (s.mapOrder id f) := by
  unfold Store.mapOrder
  cases ho : s.pg.orders id with
  | none => exact h.move_refl s
  | some o => exact h.putOrder ho (hf o)

theorem RowSteps.addChild (h : RowSteps R N) {parentId : OrderId} {parent : Order}
    {config : Option SltpConfig} {link : OrderId → Order → Order} (hlink : ∀ id o, R o (link id o)) :
    RowsMove R N s (s.addChild parentId parent config link) := by
  cases config with
  | none => exact h.move_refl s
  | some config =>
    exact h.move_trans (h.insert (h.childRow parentId parent config)) (h.mapOrder (hlink _))

theorem RowSteps.placed (h : RowSteps R N) (userId : UserId) (dto : OrderCreateDto) :
    RowsMove R N s (s.placed userId dto) := by
  have hinserted : RowsMove R N s (s.inserted userId dto) :=
    h.move_trans (h.move_trans (h.insert (h.newRow userId dto)) (h.addChild fun id o => h.slLink o id))
      (h.addChild fun id o => h.tpLink o id)
  exact h.move_trans hinserted (h.move_of_orders rfl rfl)

/-- **A cancellation** cancels the order and its active children. -/
theorem RowSteps.canceled (h : RowSteps R N) {id : OrderId} {order : Order} (ho : s.pg.orders id = some order)
    (hactive : order.status.isActive = true) : RowsMove R N s (s.cancel id order) := by
  refine ⟨le_rfl, fun k o' ho' => .inl ?_⟩
  obtain ⟨o, hput, rfl⟩ := Option.map_eq_some_iff.mp ho'
  have horphaned : R o (o.orphaned id) := by
    unfold Order.orphaned
    split_ifs with hchild
    · exact h.cancel o hchild.2
    · exact h.refl o
  by_cases hk : k = id
  · subst hk
    obtain rfl : order.canceled = o := by simpa using hput
    exact ⟨order, ho, h.trans (h.cancel order hactive) horphaned⟩
  · exact ⟨o, by simpa [hk] using hput, horphaned⟩

/-- **A replacement** cancels the old order and links it to a new one. -/
theorem RowSteps.replaced (h : RowSteps R N) (hids : IdsBelow s) {id : OrderId} {old : Order}
    (hold : s.pg.orders id = some old) (hactive : old.status.isActive = true) (newPrice newQuantity : ℚ) :
    RowsMove R N s (s.replace id old newPrice newQuantity) := by
  have hne : id ≠ s.orderIdSeq := (hids id (by rw [hold]; simp)).ne
  have hrow : ((s.putOrder id old.canceled).insert (replacement id old newPrice newQuantity)).pg.orders
      id = some old.canceled := by
    show Function.update (Function.update s.pg.orders id (some old.canceled)) s.orderIdSeq _ id = _
    rw [Function.update_of_ne hne, Function.update_self]
  have htables : RowsMove R N s (((s.putOrder id old.canceled).insert
      (replacement id old newPrice newQuantity)).putOrder id (old.replacedBy s.orderIdSeq)) :=
    h.move_trans (h.move_trans (h.putOrder hold (h.cancel old hactive)) (h.insert (h.replacementRow ..)))
      (h.putOrder hrow (h.replacedLink old.canceled _))
  exact h.move_trans htables (h.move_of_orders rfl rfl)

theorem RowSteps.preorder (h : RowSteps R N) : IsPreorder Store (RowsMove R N) where
  refl := h.move_refl
  trans _ _ _ := h.move_trans

theorem RowSteps.calls (h : RowSteps R N) (req : Request) : CallSteps (RowsMove R N) req where
  quiet := h.quiet
  placed := fun _ userId dto _ _ _ _ => h.placed userId dto
  canceled := fun _ _ _ _ _ _ ho _ hactive => h.canceled ho hactive
  replaced := fun _ _ _ _ p q _ _ hids hold _ hactive _ _ _ _ _ => h.replaced hids hold hactive p q

/-- **A call of the API** moves the rows. -/
theorem RowSteps.serve (h : RowSteps R N) (hids : IdsBelow s) {req : Request} (hcall : req.isCall = true) :
    RowsMove R N s (s.serve req) :=
  haveI := h.preorder
  (h.calls req).serve hids hcall

end

end SpotExchange.Exchange
