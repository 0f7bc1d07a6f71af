import SpotExchange.Exchange.Bulk

namespace SpotExchange.Exchange

open SpotExchange.Lib
open SpotExchange.Engine (OrderId)
open SpotExchange.Ledger (BalanceKey Row Op)

/-!
# What others leave alone of a user's account

* `Store.ordersOf` — the orders of a user;
* `SameAccount` — a user's orders and balances are as before, and nothing is added to the book or to the
  trades;
* `sameAccount_serve` — the calls of others and the stop monitor are such.
-/

/-- The rows of a table that belong to a user. -/
def ownOrders (userId : UserId) (orders : OrderId → Option Order) : OrderId → Option Order := fun id =>
  (orders id).filter fun o => o.userId = userId

/-- The orders of a user. -/
def Store.ordersOf (s : Store) (userId : UserId) : OrderId → Option Order := ownOrders userId s.pg.orders

/-- None of a user's orders waits, or has a parent. -/
def Store.Plain (s : Store) (userId : UserId) : Prop :=
  ∀ id o, s.pg.orders id = some o → o.userId = userId → o.status ≠ .pending ∧ o.parentOrderId = none

/-- Who makes a request, if it is a call. -/
def Request.caller : Request → Option UserId
  | .place userId _ | .placeBulk userId _ | .cancel userId _ | .modify userId _ _ _ => some userId
  | .print _ _ _ | .rescan _ _ | .work => none

/-- Nothing is added to the book or to the trades, and a user has the same orders. -/
structure SameOrders (userId : UserId) (s s' : Store) : Prop where
  ids : IdsBelow s'
  orders : s'.ordersOf userId = s.ordersOf userId
  book : BookShrinks s.redis s'.redis
  trades : s'.pg.trades = s.pg.trades

/-- The balances of a user stay. -/
def KeptBalances (userId : UserId) (s s' : Store) : Prop :=
  ∀ asset row, s.pg.balances (userId, asset) = some row → s'.pg.balances (userId, asset) = some row

/-- **A user's account is as before.** -/
structure SameAccount (userId : UserId) (s s' : Store) : Prop extends SameOrders userId s s' where
  balances : KeptBalances userId s s'

section

variable {s s' : Store} {userId other : UserId} {id : OrderId}

/-! ### Orders -/

theorem mem_ownOrders {orders : OrderId → Option Order} {o : Order} :
    ownOrders userId orders id = some o ↔ orders id = some o ∧ o.userId = userId := by
  simp [ownOrders, Option.filter_eq_some_iff]

theorem ownOrders_eq_none {orders : OrderId → Option Order}
    (h : ∀ o, orders id = some o → o.userId ≠ userId) : ownOrders userId orders id = none := by
  simpa [ownOrders, Option.filter_eq_none_iff] using h

/-- Writing a row of others. -/
theorem ownOrders_update {orders : OrderId → Option Order} {o : Order}
    (hold : ∀ o, orders id = some o → o.userId ≠ userId) (hnew : o.userId ≠ userId) :
    ownOrders userId (Function.update orders id (some o)) = ownOrders userId orders := by
  funext k
  by_cases hk : k = id
  · subst hk
    rw [ownOrders_eq_none hold, ownOrders_eq_none]
    intro o' ho'
    rw [Function.update_self] at ho'
    rwa [← Option.some.inj ho']
  · show (Function.update orders id (some o) k).filter _ = _
    rw [Function.update_of_ne hk]
    rfl

/-- Plain accounts are seen from the rows. -/
theorem Store.Plain.of_orders (h : s.Plain userId) (horders : s'.ordersOf userId = s.ordersOf userId) :
    s'.Plain userId := by
  intro id o ho huser
  have hrow : s'.ordersOf userId id = some o := mem_ownOrders.mpr ⟨ho, huser⟩
  rw [horders] at hrow
  exact h id o (mem_ownOrders.mp hrow).1 huser

/-- The id that comes next is free. -/
theorem IdsBelow.free (h : IdsBelow s) {o : Order} : s.pg.orders s.orderIdSeq ≠ some o := fun ho =>
  lt_irrefl _ (h s.orderIdSeq (by rw [ho]; simp))

/-- A child of an order of others is inserted. -/
theorem ordersOf_addChild {parentId : OrderId} {parent : Order} (config : Option SltpConfig)
    {link : OrderId → Order → Order} (hids : IdsBelow s) (hparent : parent.userId ≠ userId)
    (hlink : ∀ childId o, (link childId o).userId = o.userId)
    (hrow : ∀ o, s.pg.orders parentId = some o → o.userId ≠ userId) :
    (s.addChild parentId parent config link).ordersOf userId = s.ordersOf userId ∧
      ∀ o, (s.addChild parentId parent config link).pg.orders parentId = some o → o.userId ≠ userId := by
  cases config with
  | none => exact ⟨rfl, hrow⟩
  | some config =>
    let t := s.insert (sltpChild parentId parent config)
    have hinsert : t.ordersOf userId = s.ordersOf userId :=
      ownOrders_update (fun o ho => absurd ho hids.free) hparent
    have hrow' : ∀ o, t.pg.orders parentId = some o → o.userId ≠ userId := by
      intro o ho
      have ho : Function.update s.pg.orders s.orderIdSeq _ parentId = some o := ho
      by_cases hid : parentId = s.orderIdSeq
      · rw [hid, Function.update_self] at ho
        rwa [← Option.some.inj ho]
      · rw [Function.update_of_ne hid] at ho
        exact hrow o ho
    show (t.mapOrder parentId (link s.orderIdSeq)).ordersOf userId = _ ∧
      ∀ o, (t.mapOrder parentId (link s.orderIdSeq)).pg.orders parentId = some o → _
    unfold Store.mapOrder
    cases ho : t.pg.orders parentId with
    | none => exact ⟨hinsert, fun o ho' => absurd (ho.symm.trans ho') (by simp)⟩
    | some o =>
      have hne : (link s.orderIdSeq o).userId ≠ userId := by
        rw [hlink]
        exact hrow' o ho
      refine ⟨(ownOrders_update hrow' hne).trans hinsert, fun o' ho' => ?_⟩
      have ho' : Function.update t.pg.orders parentId (some (link s.orderIdSeq o)) parentId = some o' := ho'
      rw [Function.update_self] at ho'
      rwa [← Option.some.inj ho']

/-- **An order of others is placed.** -/
theorem ordersOf_placed (hids : IdsBelow s) (hother : other ≠ userId) (dto : OrderCreateDto) :
    (s.placed other dto).ordersOf userId = s.ordersOf userId := by
  have hsl : ∀ childId (o : Order), RowStays o { o with slOrderId := some childId } := fun _ _ => ⟨rfl, id⟩
  have hnew : (newOrder other dto).userId ≠ userId := hother
  have hids₁ : IdsBelow (s.insert (newOrder other dto)) := (drains_insert (newOrder other dto) hids).ids
  have hids₂ : IdsBelow ((s.insert (newOrder other dto)).addChild s.orderIdSeq (newOrder other dto) dto.sl
    fun childId o => { o with slOrderId := some childId }) := (drains_addChild hsl hids₁).ids
  have hinsert : (s.insert (newOrder other dto)).ordersOf userId = s.ordersOf userId :=
    ownOrders_update (fun o ho => absurd ho hids.free) hnew
  have hrow : ∀ o, (s.insert (newOrder other dto)).pg.orders s.orderIdSeq = some o → o.userId ≠ userId := by
    intro o ho
    have ho : Function.update s.pg.orders s.orderIdSeq (some (newOrder other dto)) s.orderIdSeq = some o := ho
    rw [Function.update_self] at ho
    rwa [← Option.some.inj ho]
  -- the order first, then its children
  obtain ⟨horders₁, hrow₁⟩ := ordersOf_addChild dto.sl hids₁ hnew
    (fun _ _ => rfl : ∀ childId (o : Order), ({ o with slOrderId := some childId } : Order).userId = o.userId) hrow
  obtain ⟨horders₂, -⟩ := ordersOf_addChild dto.tp hids₂ hnew
    (fun _ _ => rfl : ∀ childId (o : Order), ({ o with tpOrderId := some childId } : Order).userId = o.userId) hrow₁
  exact horders₂.trans (horders₁.trans hinsert)

/-- **An order of others is cancelled**, with its children. -/
theorem ordersOf_cancel {order : Order} (hplain : s.Plain userId) (ho : s.pg.orders id = some order)
    (hother : order.userId ≠ userId) : (s.cancel id order).ordersOf userId = s.ordersOf userId := by
  have hput : ownOrders userId (Function.update s.pg.orders id (some order.canceled)) = s.ordersOf userId :=
    ownOrders_update (fun o ho' => Option.some.inj (ho.symm.trans ho') ▸ hother) hother
  rw [← hput]
  funext k
  -- an order that has no parent is no orphan
  have hsame : ∀ o, Function.update s.pg.orders id (some order.canceled) k = some o → o.userId = userId →
      o.orphaned id = o := by
    intro o hk huser
    have hrow : ownOrders userId (Function.update s.pg.orders id (some order.canceled)) k = some o :=
      mem_ownOrders.mpr ⟨hk, huser⟩
    rw [hput] at hrow
    unfold Order.orphaned
    rw [if_neg]
    rw [(hplain k o (mem_ownOrders.mp hrow).1 huser).2]
    simp
  show ((Function.update s.pg.orders id (some order.canceled) k).map (Order.orphaned id)).filter _ =
    (Function.update s.pg.orders id (some order.canceled) k).filter _
  cases hk : Function.update s.pg.orders id (some order.canceled) k with
  | none => rfl
  | some o =>
    have huser : (o.orphaned id).userId = o.userId := by
      unfold Order.orphaned
      split_ifs <;> rfl
    by_cases hown : o.userId = userId
    · rw [Option.map_some, hsame o hk hown]
    · rw [Option.map_some, Option.filter_some, Option.filter_some, huser]
      simp [hown]

/-- **An order of others is replaced.** -/
theorem ordersOf_replace {old : Order} {newPrice newQuantity : ℚ} (hids : IdsBelow s)
    (hold : s.pg.orders id = some old) (hother : old.userId ≠ userId) :
    (s.replace id old newPrice newQuantity).ordersOf userId = s.ordersOf userId := by
  have hne : id ≠ s.orderIdSeq := (hids id (by rw [hold]; simp)).ne
  have hnew : (replacement id old newPrice newQuantity).userId ≠ userId := hother
  have hreplaced : (old.replacedBy s.orderIdSeq).userId ≠ userId := hother
  show ownOrders userId (s.replace id old newPrice newQuantity).pg.orders = _
  rw [replace_orders, ownOrders_update _ hreplaced,
    ownOrders_update (fun o ho => absurd ho hids.free) hnew]
  · rfl
  · intro o ho
    rw [Function.update_of_ne hne] at ho
    exact Option.some.inj (hold.symm.trans ho) ▸ hother

/-- **A stop of others is triggered.** -/
theorem ordersOf_trigger {order : Order} {lock : Asset × ℚ} {isTrailing : Bool} (hids : IdsBelow s)
    (ho : s.pg.orders id = some order) (hother : order.userId ≠ userId) :
    (s.trigger id order lock isTrailing).ordersOf userId = s.ordersOf userId := by
  have hne : s.orderIdSeq ≠ id := (hids id (by rw [ho]; simp)).ne'
  have hfilled : ({ order with status := .filled, version := order.version + 1 } : Order).userId ≠ userId :=
    hother
  have hchild : (triggeredChild id order).userId ≠ userId := hother
  show ownOrders userId (Function.update (Function.update s.pg.orders id
    (some { order with status := .filled, version := order.version + 1 })) s.orderIdSeq
      (some (triggeredChild id order))) = _
  rw [ownOrders_update _ hchild, ownOrders_update _ hfilled]
  · rfl
  · intro o ho'
    exact Option.some.inj (ho.symm.trans ho') ▸ hother
  · intro o ho'
    rw [Function.update_of_ne hne] at ho'
    exact absurd ho' hids.free

/-! ### Calls -/

/-- What is not a user's leaves the user's orders alone, if none of them waits or has a parent. -/
def LeavesOrders (userId : UserId) (s s' : Store) : Prop :=
  IdsBelow s → s.Plain userId → SameOrders userId s s'

instance : IsPreorder Store (LeavesOrders userId) where
  refl _ := fun hids _ => ⟨hids, rfl, bookShrinks_refl rfl, rfl⟩
  trans s s' s'' h h' := by
    intro hids hplain
    have hs := h hids hplain
    have hs' := h' hs.ids (hplain.of_orders hs.orders)
    exact ⟨hs'.ids, hs'.orders.trans hs.orders,
      fun symbol side => (hs'.book symbol side).trans (hs.book symbol side), hs'.trades.trans hs.trades⟩

theorem leavesOrders_quiet (h : Quiet s s') : LeavesOrders userId s s' := by
  intro hids _
  have hdrained := drains_quiet h hids
  obtain ⟨balances, updates, rfl⟩ := h
  exact ⟨hdrained.ids, rfl, hdrained.book, rfl⟩

/-- **A call of others** leaves the user's orders alone. -/
theorem leavesOrders_calls {req : Request} (hreq : req.caller ≠ some userId) :
    CallSteps (LeavesOrders userId) req where
  quiet := leavesOrders_quiet
  placed := by
    intro s other dto pair hasks _ _ hids _
    have hother : other ≠ userId := by
      rintro rfl
      cases req <;> simp_all [Request.Asks, Request.caller]
    have hdrained := drains_inserted s other dto hids
    have hbook : (s.placed other dto).redis.book = (s.inserted other dto).redis.book := handOver_book _ _ _
    refine ⟨hdrained.ids, ordersOf_placed hids hother dto, fun symbol side => ?_,
      (inserted_redis s other dto).2.1⟩
    rw [hbook]
    exact hdrained.book symbol side
  canceled := by
    rintro s other id order rfl _ ho huser _ hids hplain
    have hdrained := drains_cancel ho hids
    have hother : order.userId ≠ userId := fun h => hreq (congrArg some (huser.symm.trans h))
    exact ⟨hdrained.ids, ordersOf_cancel hplain ho hother, hdrained.book, rfl⟩
  replaced := by
    rintro s other id old newPrice newQuantity pair rfl _ hold huser _ _ _ _ _ _ hids _
    have hdrained : Drained s (s.replace id old newPrice newQuantity) := drains_replace hold hids
    have hother : old.userId ≠ userId := fun h => hreq (congrArg some (huser.symm.trans h))
    exact ⟨hdrained.ids, ordersOf_replace hids hold hother, hdrained.book, rfl⟩

instance : IsPreorder Store (KeptBalances userId) where
  refl _ _ _ h := h
  trans _ _ _ h h' asset row hrow := h' asset row (h asset row hrow)

theorem keptBalances_of_eq (h : s'.pg.balances = s.pg.balances) : KeptBalances userId s s' := by
  intro asset row hrow
  rw [h]
  exact hrow

/-- A balance of others moves. -/
theorem keptBalances_moveBalance (s : Store) {key : BalanceKey} (hother : key.1 ≠ userId) (row : Row)
    (update : BalanceUpdate) : KeptBalances userId s (s.moveBalance key row update) := by
  intro asset row' hrow
  have hne : (userId, asset) ≠ key := fun h => hother (congrArg Prod.fst h).symm
  exact (Function.update_of_ne hne _ _).trans hrow

/-- A row of zeros is only made where there is no row. -/
theorem keptBalances_withRow (s : Store) (key : BalanceKey) : KeptBalances userId s (s.withRow key) := by
  intro asset row hrow
  by_cases hkey : (userId, asset) = key
  · subst hkey
    unfold Store.withRow
    rw [hrow]
    exact hrow
  · unfold Store.withRow
    cases s.pg.balances key with
    | none => exact (Function.update_of_ne hkey _ _).trans hrow
    | some _ => exact hrow

theorem keptBalances_lock {key : BalanceKey} (hother : key.1 ≠ userId) (amount : ℚ) (reason : BalanceReason)
    (orderId : Option OrderId) :
    Prog.Moves (KeptBalances userId) (lockOptimistic key amount reason orderId) := by
  intro s
  rcases lockOptimistic_cases key amount reason orderId s with ⟨-, hx⟩ | ⟨-, -, hx⟩ | ⟨-, -, hx⟩ <;> rw [hx]
  · exact refl_of (KeptBalances userId) s
  · exact keptBalances_withRow s key
  · exact keptBalances_moveBalance s hother _ _

theorem keptBalances_unlock {key : BalanceKey} (hother : key.1 ≠ userId) (amount : ℚ)
    (reason : BalanceReason) (orderId : Option OrderId) :
    Prog.Moves (KeptBalances userId) (unlockOptimistic key amount reason orderId) := by
  intro s
  rcases unlockOptimistic_cases key amount reason orderId s with ⟨-, err, hx⟩ | ⟨row, -, -, -, hx⟩ <;> rw [hx]
  · exact refl_of (KeptBalances userId) s
  · exact keptBalances_moveBalance s hother _ _

theorem keptBalances_pessimistic {op : Op} {key : BalanceKey} (hother : key.1 ≠ userId) (amount : ℚ)
    (reason : BalanceReason) (orderId : Option OrderId) :
    Prog.Moves (KeptBalances userId) (pessimistic op key amount reason orderId) := by
  intro s
  rcases hx : pessimistic op key amount reason orderId s with ⟨err | u, s'⟩
  · obtain rfl := pessimistic_error hx
    exact refl_of (KeptBalances userId) s'
  · obtain ⟨row, row', -, -, rfl⟩ := pessimistic_eq_ok hx
    exact keptBalances_moveBalance s hother _ _

/-- The unlock of a cancellation moves a balance of the order's user, by no more than was asked for. -/
theorem unlockCanceled_eq_ok {order : Order} {unlock : Asset × ℚ} {u : Unit}
    (h : unlockCanceled id order unlock s = (.ok u, s')) : s' = s ∨
      ∃ amount, order.type.isStop = false ∧ amount ≤ unlock.2 ∧
        pessimistic .unlock (order.userId, unlock.1) amount .orderCanceled (some id) s = (.ok ⟨⟩, s') := by
  rcases Prog.whenever_eq_ok.mp h with ⟨-, rfl⟩ | ⟨hcond, h⟩
  · exact .inl rfl
  obtain ⟨balance, s₁, hread, h⟩ := Prog.bind_eq_ok.mp h
  obtain ⟨hbalance, rfl⟩ : (s.pg.balances (order.userId, unlock.1)).map
      (fun _ => (order.userId, unlock.1)) = balance ∧ s = s₁ := by simpa [getBalanceForUpdate] using hread
  rcases Prog.whenSome_eq_ok.mp h with ⟨-, rfl⟩ | ⟨key, rfl, h⟩
  · exact .inl rfl
  obtain ⟨-, -, rfl⟩ := Option.map_eq_some_iff.mp hbalance
  obtain ⟨locked, s₁, hread, h⟩ := Prog.bind_eq_ok.mp h
  obtain rfl : s = s₁ := congrArg Prod.snd hread
  rcases Prog.whenever_eq_ok.mp h with ⟨-, rfl⟩ | ⟨-, h⟩
  · exact .inl rfl
  · exact .inr ⟨_, hcond.1, min_le_left _ _, h⟩

/-- Replacing an order of others. -/
theorem keptBalances_modifyOrder (hother : other ≠ userId) (id : OrderId) (newPrice newQuantity : ℚ) :
    Prog.Moves (KeptBalances userId) (modifyOrder other id newPrice newQuantity) := by
  have hsame : ∀ {α : Type} {x : M α}, (∀ s, (x s).2.pg.balances = s.pg.balances) →
      Prog.Moves (KeptBalances userId) x := fun h s => keptBalances_of_eq (h s)
  refine (Prog.moves_read _).bind fun order => ?_
  cases order.filter fun order => order.userId = other with
  | none => exact Prog.moves_raise _
  | some old =>
    refine Prog.Moves.ite (fun _ => Prog.moves_raise _) fun _ =>
      Prog.Moves.ite (fun _ => Prog.moves_raise _) fun _ => (Prog.moves_read _).bind fun pair => ?_
    cases pair with
    | none => exact Prog.moves_raise _
    | some pair =>
      refine (Prog.Moves.whenever fun _ => keptBalances_unlock hother _ _ _).bind fun _ => ?_
      refine (hsame fun s => ?_).bind fun _ => ?_
      · cases validateModify pair newPrice newQuantity <;> rfl
      have hrelock : Prog.Moves (KeptBalances userId)
          (relock other id (modifyUnlock old pair) (modifyLock old pair newPrice newQuantity)) := by
        refine (keptBalances_lock hother _ _ _).tryExcept fun err => ?_
        split
        · exact (keptBalances_lock hother _ _ _).bind fun _ => Prog.moves_raise _
        · exact Prog.moves_raise _
      have hupdate : ∀ f, Prog.Moves (KeptBalances userId) (updateOrder id f) := fun f => hsame fun s => by
        simp only [updateOrder, onDatabase, Prog.modify_apply]
        cases s.pg.orders id <;> rfl
      refine hrelock.bind fun _ => (hupdate _).bind fun _ => ?_
      refine (hsame fun _ => rfl : Prog.Moves _ (insertOrder _)).bind fun newId => ?_
      exact (hupdate _).bind fun _ => (hsame fun _ => rfl : Prog.Moves _ (onRedis _)).bind fun _ =>
        Prog.moves_pure _

/-- **A call of others** leaves the user's balances alone. -/
theorem keptBalances_serve {req : Request} (hcall : req.isCall = true) (hreq : req.caller ≠ some userId) :
    KeptBalances userId s (s.serve req) := by
  cases req with
  | place other dto =>
    have hother : other ≠ userId := fun h => hreq (congrArg some h)
    rcases serve_place_cases s other dto with ⟨pair, lock, -, -, hx⟩ | ⟨-, hpg⟩
    · rw [hx]
      refine trans_of (KeptBalances userId) ?_ (keptBalances_of_eq (inserted_redis _ other dto).2.2)
      unfold Store.lockFor
      split_ifs
      · exact keptBalances_moveBalance s hother _ _
      · exact keptBalances_moveBalance s hother _ _
      · exact refl_of (KeptBalances userId) s
    · exact keptBalances_of_eq (by rw [hpg])
  | placeBulk other dtos =>
    have hother : other ≠ userId := fun h => hreq (congrArg some h)
    rcases serve_placeBulk_cases s other dtos with ⟨validated, -, -, hx⟩ | ⟨-, hpg⟩
    · rw [hx]
      have hlocks : ∀ (reqs : List (Asset × ℚ)) (s : Store), KeptBalances userId s (s.lockAll other reqs) := by
        intro reqs
        induction reqs with
        | nil => exact fun s => refl_of (KeptBalances userId) s
        | cons req reqs ih =>
          exact fun s => trans_of (KeptBalances userId) (keptBalances_moveBalance s hother _ _) (ih _)
      have hplaced : ∀ (dtos : List OrderCreateDto) (s : Store),
          KeptBalances userId s (dtos.foldl (fun s dto => s.placed other dto) s) := by
        intro dtos
        induction dtos with
        | nil => exact fun s => refl_of (KeptBalances userId) s
        | cons dto dtos ih =>
          exact fun s => trans_of (KeptBalances userId)
            (keptBalances_of_eq (inserted_redis s other dto).2.2) (ih (s.placed other dto))
      exact trans_of (KeptBalances userId) (hlocks _ s) (hplaced dtos _)
    · exact keptBalances_of_eq (by rw [hpg])
  | cancel other id =>
    rcases serve_cancel s other id with ⟨order, pair, s₁, -, huser, -, -, hunlock, -, hx⟩ | hx <;> rw [hx]
    · have hother : order.userId ≠ userId := fun h => hreq (congrArg some (huser.symm.trans h))
      have hsame : KeptBalances userId s s₁ := by
        rcases unlockCanceled_eq_ok hunlock with rfl | ⟨amount, -, -, h⟩
        · exact refl_of (KeptBalances userId) s₁
        · exact (keptBalances_pessimistic hother _ _ _).of_ok h
      exact trans_of (KeptBalances userId) hsame (keptBalances_of_eq rfl)
    · exact refl_of (KeptBalances userId) s
  | modify other id newPrice newQuantity =>
    have hother : other ≠ userId := fun h => hreq (congrArg some h)
    have hmoves : Prog.Moves (KeptBalances userId)
        (transaction (discard (modifyOrder other id newPrice newQuantity))) :=
      ((keptBalances_modifyOrder hother id newPrice newQuantity).bind fun _ => Prog.moves_pure _).atomically
        fun s _ _ => keptBalances_of_eq rfl
    exact hmoves s
  | print m symbol price => exact absurd hcall (by simp [Request.isCall])
  | rescan symbol lastPrice => exact absurd hcall (by simp [Request.isCall])
  | work => exact absurd hcall (by simp [Request.isCall])

/-! ### Any request but the worker's -/

theorem sameAccount_trigger {order : Order} {lock : Asset × ℚ} {isTrailing : Bool} (hids : IdsBelow s)
    (ho : s.pg.orders id = some order) (hother : order.userId ≠ userId) :
    SameAccount userId s (s.trigger id order lock isTrailing) := by
  have hdrained := drains_converted lock ho hids
  have hbook : (s.trigger id order lock isTrailing).redis.book =
      (s.converted id order lock).redis.book := replaceStop_book _ _ _ _ _
  have hmoved : KeptBalances userId s (s.moveBalance (order.userId, lock.1)
      (lockedRow (s.rowOrZero (order.userId, lock.1)) lock.2)
      (lockUpdate (order.userId, lock.1) (-lock.2) .stopTriggered (some id))) :=
    keptBalances_moveBalance s hother _ _
  refine ⟨⟨hdrained.ids, ordersOf_trigger hids ho hother, fun symbol side => ?_, rfl⟩, hmoved⟩
  rw [hbook]
  exact hdrained.book symbol side

/-- What is not a user's leaves the user's account alone. -/
def LeavesAccount (userId : UserId) (s s' : Store) : Prop :=
  IdsBelow s → s.Plain userId → SameAccount userId s s'

instance : IsPreorder Store (LeavesAccount userId) where
  refl _ := fun hids _ => ⟨⟨hids, rfl, bookShrinks_refl rfl, rfl⟩, fun _ _ h => h⟩
  trans s s' s'' h h' := by
    intro hids hplain
    have hs := h hids hplain
    have hs' := h' hs.ids (hplain.of_orders hs.orders)
    exact ⟨⟨hs'.ids, hs'.orders.trans hs.orders, fun symbol side => (hs'.book symbol side).trans
      (hs.book symbol side), hs'.trades.trans hs.trades⟩, trans_of (KeptBalances userId) hs.balances hs'.balances⟩

/-- The stop monitor triggers no order of the user: none waits. -/
theorem leavesAccount_tryTrigger (isTrailing : Bool) (id : OrderId) :
    Prog.Moves (LeavesAccount userId) (tryTrigger isTrailing id) := by
  intro s
  obtain ⟨s', hx, hcases⟩ := triggerStopOrder_cases id isTrailing s
  have hx' : Exchange.tryTrigger isTrailing id s = (.ok ⟨⟩, s') := by
    unfold Exchange.tryTrigger Prog.tryExcept
    rw [hx]
  rw [hx']
  rcases hcases with rfl | ⟨key, rfl⟩ | ⟨order, pair, lock, ho, hpending, -, -, -, -, rfl⟩
  · exact refl_of (LeavesAccount userId) _
  · intro hids hplain
    exact ⟨leavesOrders_quiet (quiet_withRow s key) hids hplain, keptBalances_withRow s key⟩
  · intro hids hplain
    exact sameAccount_trigger hids ho fun huser => (hplain id order ho huser).1 hpending

/-- **What is not a user's request** leaves the user's account alone, the worker apart. -/
theorem sameAccount_serve {req : Request} (hids : IdsBelow s) (hplain : s.Plain userId)
    (hreq : req.caller ≠ some userId) (hwork : req ≠ .work) : SameAccount userId s (s.serve req) := by
  cases req with
  | print m symbol price =>
    refine serve_print_moves (R := LeavesAccount userId) (fun s trailing states hids _ => ?_)
      leavesAccount_tryTrigger s m symbol price hids hplain
    exact ⟨⟨hids, rfl, bookShrinks_refl rfl, rfl⟩, fun _ _ h => h⟩
  | rescan symbol lastPrice =>
    exact serve_rescan_moves (R := LeavesAccount userId) (leavesAccount_tryTrigger false) s symbol lastPrice
      hids hplain
  | work => exact absurd rfl hwork
  | _ =>
    exact ⟨(leavesOrders_calls hreq).serve hids rfl hids hplain, keptBalances_serve rfl hreq⟩

end

end SpotExchange.Exchange
