import SpotExchange.Exchange.Accounts
import SpotExchange.Exchange.Conservation
import Mathlib.Logic.Relation

namespace SpotExchange.Exchange

open SpotExchange.Lib
open SpotExchange.Engine (OrderId)
open SpotExchange.Ledger (BalanceKey Row Op)

/-!
# How the table of balances changes

* `BalanceSteps`, `BalanceSteps.serve` — a relation that holds across each operation of the balance
  service, and wherever no balance changes, holds across every request;
* `BalanceStep`, `Audited` — one operation on the table, and a chain of them;
* `audited_serve` — whatever is served, the table of balances changes by such a chain;
* `Audited.rowsOk`, `Audited.aged` — what follows for the rows: they stay sound, and their versions tell
  whether they have changed;
* `KeptTotals`, `keptTotals_steps` — locking and unlocking move no total.

No request is assumed to succeed, and nothing is assumed of the first store but what is claimed of the
others.
-/

/-! ### Walking through the services -/

/-- **The steps that lock funds and give them back.** -/
structure LockSteps (R : Store → Store → Prop) : Prop where
  same : ∀ {s s' : Store}, s'.pg.balances = s.pg.balances → R s s'
  lock : ∀ key amount reason orderId, Prog.Moves R (lockOptimistic key amount reason orderId)
  unlock : ∀ key amount reason orderId, Prog.Moves R (unlockOptimistic key amount reason orderId)
  release : ∀ key amount reason orderId, Prog.Moves R (unlockPessimistic key amount reason orderId)

/-- **The steps of the balance service.** -/
structure BalanceSteps (R : Store → Store → Prop) : Prop extends LockSteps R where
  settle : ∀ key amount reason orderId, Prog.Moves R (settlePessimistic key amount reason orderId)
  credit : ∀ key amount reason orderId, Prog.Moves R (creditPessimistic key amount reason orderId)

namespace LockSteps

variable {R : Store → Store → Prop} {α : Type}

/-- A program that touches no balance. -/
theorem untouched (h : LockSteps R) {x : M α} (hx : ∀ s, (x s).2.pg.balances = s.pg.balances) :
    Prog.Moves R x := fun s => h.same (hx s)

theorem ofExcept (h : LockSteps R) (r : Except PyError α) : Prog.Moves R (Prog.ofExcept r : M α) := by
  refine h.untouched fun s => ?_
  cases r <;> rfl

theorem updateOrder (h : LockSteps R) (id : OrderId) (f : Order → Order) :
    Prog.Moves R (updateOrder id f) := by
  refine h.untouched fun s => ?_
  simp only [Exchange.updateOrder, onDatabase, Prog.modify_apply]
  cases s.pg.orders id <;> rfl

theorem onRedis (h : LockSteps R) (f : Redis → Redis) : Prog.Moves R (onRedis f) :=
  h.untouched fun _ => rfl

theorem transaction (h : LockSteps R) {x : M α} (hx : Prog.Moves R x) :
    Prog.Moves R (transaction x) :=
  hx.atomically fun _ _ _ => h.same rfl

variable [IsPreorder Store R]

/-! #### Placement -/

theorem validateBulkOrder (h : LockSteps R) (dto : OrderCreateDto) :
    Prog.Moves R (validateBulkOrder dto) := by
  have hpair : Prog.Moves R (validateAndGetPair dto.symbol) := by
    refine (Prog.moves_read _).bind fun pair => ?_
    cases pair with
    | none => exact Prog.moves_raise _
    | some pair => exact Prog.Moves.ite (fun _ => Prog.moves_pure _) fun _ => Prog.moves_raise _
  have hlock : ∀ pair, Prog.Moves R (computeLock dto pair) := by
    intro pair
    refine Prog.Moves.ite (fun _ => Prog.moves_pure _) fun _ => Prog.Moves.ite (fun _ => ?_) fun _ =>
      Prog.moves_pure _
    refine (Prog.moves_read _).bind fun asks => Prog.Moves.ite (fun _ => Prog.moves_raise _) fun _ => ?_
    exact Prog.Moves.ite (fun _ => Prog.moves_raise _) fun _ => Prog.moves_pure _
  exact hpair.bind fun pair => (h.ofExcept _).bind fun _ => (hlock pair).bind fun _ => Prog.moves_pure _

theorem insertPlaced (h : LockSteps R) (userId : UserId) (dto : OrderCreateDto) :
    Prog.Moves R (insertPlaced userId dto) := by
  have hinsert : ∀ order, Prog.Moves R (insertOrder order) := fun order => h.untouched fun _ => rfl
  have hchild : ∀ parentId parent config link, Prog.Moves R (createSltpChild parentId parent config link) :=
    fun parentId parent config link => Prog.Moves.whenSome fun _ _ =>
      (hinsert _).bind fun _ => h.updateOrder _ _
  exact (hinsert _).bind fun _ => (hchild _ _ _ _).bind fun _ => (hchild _ _ _ _).bind fun _ =>
    (h.onRedis _).bind fun _ => Prog.moves_pure _

theorem placeOrder (h : LockSteps R) (userId : UserId) (dto : OrderCreateDto) :
    Prog.Moves R (placeOrder userId dto) := by
  rw [placeOrder_eq]
  refine Prog.Moves.bind ?_ fun _ => h.insertPlaced userId dto
  exact (h.validateBulkOrder dto).bind fun _ =>
    (Prog.Moves.whenever fun _ => h.lock _ _ _ _).bind fun _ => Prog.moves_pure _

/-- The locks of a bulk are taken, or given back. -/
theorem lockBulk (h : LockSteps R) (userId : UserId) (locked reqs : List (Asset × ℚ)) :
    Prog.Moves R (lockBulk userId locked reqs) := by
  have hreject : ∀ locked err, Prog.Moves R (rejectBulk userId locked err) := by
    intro locked err
    have hunlock : Prog.Moves R (unlockBulk userId locked) :=
      Prog.Moves.forEach fun req _ => (h.unlock _ _ _ _).tryExcept fun _ => Prog.moves_pure _
    unfold rejectBulk
    split
    · exact hunlock.bind fun _ => Prog.moves_raise _
    · exact Prog.moves_raise _
  induction reqs generalizing locked with
  | nil => exact Prog.moves_pure _
  | cons req reqs ih => exact ((h.lock _ _ _ _).tryExcept (hreject locked)).bind fun _ => ih _

theorem placeBulkOrders (h : LockSteps R) (userId : UserId) (dtos : List OrderCreateDto) :
    Prog.Moves R (placeBulkOrders userId dtos) := by
  have hvalidate : ∀ dtos, Prog.Moves R (validateBulk dtos) := by
    intro dtos
    induction dtos with
    | nil => exact Prog.moves_pure _
    | cons dto dtos ih =>
      exact (h.validateBulkOrder dto).bind fun _ => ih.bind fun _ => Prog.moves_pure _
  have hinsert : ∀ dtos, Prog.Moves R (insertBulk userId dtos) := by
    intro dtos
    induction dtos with
    | nil => exact Prog.moves_pure _
    | cons dto dtos ih =>
      exact (h.insertPlaced userId dto).bind fun _ => ih.bind fun _ => Prog.moves_pure _
  exact Prog.Moves.ite (fun _ => Prog.moves_pure _) fun _ =>
    (hvalidate dtos).bind fun _ => (h.lockBulk userId _ _).bind fun _ => hinsert _

/-! #### Cancellation and replacement -/

theorem cancelOrder (h : LockSteps R) (userId : UserId) (id : OrderId) :
    Prog.Moves R (cancelOrder userId id) := by
  refine (Prog.moves_read _).bind fun order => ?_
  cases order with
  | none => exact Prog.moves_raise _
  | some order =>
    refine Prog.Moves.ite (fun _ => Prog.moves_raise _) fun _ => (Prog.moves_read _).bind fun pair => ?_
    cases pair with
    | none => exact Prog.moves_raise _
    | some pair =>
      have hunlock : Prog.Moves R (unlockCanceled id order (cancelUnlock order pair)) :=
        Prog.Moves.whenever fun _ => (Prog.moves_read _).bind fun _ => Prog.Moves.whenSome fun _ _ =>
          (Prog.moves_read _).bind fun _ => Prog.Moves.whenever fun _ => h.release _ _ _ _
      have hchildren : Prog.Moves R (cancelChildren id) := h.untouched fun _ => rfl
      exact hunlock.bind fun _ => (h.updateOrder _ _).bind fun _ => hchildren.bind fun _ =>
        (h.onRedis _).bind fun _ => h.onRedis _

theorem modifyOrder (h : LockSteps R) (userId : UserId) (id : OrderId) (newPrice newQuantity : ℚ) :
    Prog.Moves R (modifyOrder userId id newPrice newQuantity) := by
  refine (Prog.moves_read _).bind fun order => ?_
  cases order.filter fun order => order.userId = userId with
  | none => exact Prog.moves_raise _
  | some old =>
    refine Prog.Moves.ite (fun _ => Prog.moves_raise _) fun _ =>
      Prog.Moves.ite (fun _ => Prog.moves_raise _) fun _ => (Prog.moves_read _).bind fun pair => ?_
    cases pair with
    | none => exact Prog.moves_raise _
    | some pair =>
      have hrelock : ∀ unlock lock, Prog.Moves R (relock userId id unlock lock) := by
        intro unlock lock
        refine (h.lock _ _ _ _).tryExcept fun err => ?_
        split
        · exact (h.lock _ _ _ _).bind fun _ => Prog.moves_raise _
        · exact Prog.moves_raise _
      have hinsert : ∀ order, Prog.Moves R (insertOrder order) := fun order => h.untouched fun _ => rfl
      exact (Prog.Moves.whenever fun _ => h.unlock _ _ _ _).bind fun _ => (h.ofExcept _).bind fun _ =>
        (hrelock _ _).bind fun _ => (h.updateOrder _ _).bind fun _ => (hinsert _).bind fun _ =>
          (h.updateOrder _ _).bind fun _ => (h.onRedis _).bind fun _ => Prog.moves_pure _

/-! #### The stop monitor -/

theorem tryTrigger (h : LockSteps R) (isTrailing : Bool) (id : OrderId) :
    Prog.Moves R (tryTrigger isTrailing id) := by
  have hlock : ∀ order lock, Prog.Moves R (tryLock order id lock) := fun order lock =>
    ((h.lock _ _ _ _).bind fun _ => Prog.moves_pure _).tryExcept fun _ => Prog.moves_pure _
  have hplace : ∀ order, Prog.Moves R (placeTriggered id order isTrailing) := fun order =>
    (h.untouched fun _ => rfl : Prog.Moves R (onDatabase _)).bind fun _ =>
      (h.untouched fun _ => rfl : Prog.Moves R (insertOrder _)).bind fun _ => h.onRedis _
  have hpending : ∀ order pair, Prog.Moves R (triggerPending id order pair isTrailing) := fun order pair =>
    (Prog.moves_read _).bind fun _ => Prog.Moves.whenSome fun _ _ =>
      (hlock order _).bind fun _ => Prog.Moves.whenever fun _ => hplace order
  have htrigger : Prog.Moves R (triggerStopOrder id isTrailing) :=
    h.transaction ((Prog.moves_read _).bind fun _ => Prog.Moves.whenSome fun order _ =>
      Prog.Moves.whenever fun _ => (Prog.moves_read _).bind fun _ =>
        Prog.Moves.whenSome fun pair _ => hpending order pair)
  exact htrigger.tryExcept fun _ => Prog.moves_pure _

/-! #### Matching -/

/-- A match changes the engine only. -/
theorem matchPlaced (h : LockSteps R) (p : OrderActionPayload) : Prog.Moves R (matchPlaced p) := by
  have hengine : ∀ f : Store → Engine.CMatchingEngine,
      Prog.Moves R (Prog.modify (fun s => { s with engine := f s }) : M PUnit) :=
    fun f => h.untouched fun _ => rfl
  have hload : ∀ o, Prog.Moves R (loadMaker o) := fun o =>
    (Prog.moves_read _).bind fun _ => (h.ofExcept _).bind fun e => hengine fun _ => e
  exact (Prog.moves_read _).bind fun _ => (hengine fun s => Engine.reset s.engine).bind fun _ =>
    (Prog.Moves.forEach fun o _ => hload o).bind fun _ => (h.ofExcept _).bind fun _ =>
      (Prog.moves_read _).bind fun _ => (h.ofExcept _).bind fun r => (hengine fun _ => r.2).bind fun _ =>
        Prog.moves_pure _

/-- What is left of an order rests, or its lock is given back. -/
theorem finishPlaced (h : LockSteps R) (p : OrderActionPayload) (remaining : ℚ) :
    Prog.Moves R (finishPlaced p remaining) := by
  have hrefund : Prog.Moves R (refundMarketBuyLeftover p) :=
    h.transaction ((Prog.moves_read _).bind fun _ => Prog.Moves.whenSome fun _ _ =>
      (Prog.moves_read _).bind fun _ => Prog.Moves.whenSome fun _ _ => (Prog.moves_read _).bind fun _ =>
        Prog.Moves.whenever fun _ => h.release _ _ _ _)
  refine Prog.Moves.ite (fun _ => h.untouched fun s => ?_) fun _ =>
    Prog.Moves.ite (fun _ => hrefund) fun _ => Prog.moves_pure _
  rcases insertRestingTaker_cases p remaining s with ⟨score, -, hx⟩ | ⟨err, -, hx⟩ <;> rw [hx] <;> rfl

/-! #### Any request but the worker's -/

/-- **Any request but the worker's.** -/
theorem serve (h : LockSteps R) (s : Store) {req : Request} (hwork : req ≠ .work) : R s (s.serve req) := by
  have hcall : ∀ {α : Type} {x : M α}, Prog.Moves R x → Prog.Moves R (Exchange.transaction (discard x)) :=
    fun hx => h.transaction (hx.bind fun _ => Prog.moves_pure _)
  cases req with
  | place userId dto => exact hcall (h.placeOrder userId dto) s
  | placeBulk userId dtos => exact hcall (h.placeBulkOrders userId dtos) s
  | cancel userId id => exact h.transaction (h.cancelOrder userId id) s
  | modify userId id newPrice newQuantity => exact hcall (h.modifyOrder userId id newPrice newQuantity) s
  | print m symbol price =>
    exact serve_print_moves (fun _ _ _ => h.same rfl) h.tryTrigger s m symbol price
  | rescan symbol lastPrice => exact serve_rescan_moves (h.tryTrigger false) s symbol lastPrice
  | work => exact absurd rfl hwork

end LockSteps

/-! #### The worker -/

namespace BalanceSteps

variable {R : Store → Store → Prop} [IsPreorder Store R]

theorem settleTradeBalances (h : BalanceSteps R) (args : BatchArgs) (isTaker : Bool) (userId : UserId)
    (orderId : OrderId) (qty quoteQty : ℚ) :
    Prog.Moves R (settleTradeBalances args isTaker userId orderId qty quoteQty) := by
  have hparty : ∀ paid received paidAmount receivedAmount, Prog.Moves R
      (settleParty userId orderId paid received paidAmount receivedAmount) :=
    fun _ _ _ _ => (Prog.moves_read _).bind fun _ => (Prog.moves_read _).bind fun _ =>
      (Prog.Moves.whenSome fun _ _ => h.settle _ _ _ _).bind fun _ =>
        Prog.Moves.whenSome fun _ _ => h.credit _ _ _ _
  unfold Exchange.settleTradeBalances
  split <;> exact hparty _ _ _ _

theorem persistTradeBatch (h : BalanceSteps R) (args : BatchArgs) (trades : List DomainTrade) :
    Prog.Moves R (persistTradeBatch args trades) := by
  have hmaker : ∀ d first, Prog.Moves R (settleMaker args first d) := fun d first =>
    (Prog.moves_read _).bind fun _ => Prog.Moves.whenSome fun _ _ =>
      (h.untouched fun _ => rfl : Prog.Moves R (onDatabase _)).bind fun _ =>
        (h.untouched fun _ => rfl : Prog.Moves R (setMakerUserId _ _ _)).bind fun _ =>
          (h.settleTradeBalances _ _ _ _ _ _).bind fun _ => h.onRedis _
  have hchildren : Prog.Moves R (activateSltpChildren args.takerOrderId) :=
    activateSltpChildren_moves _ fun _ _ _ _ _ => h.same rfl
  refine persistTradeBatch_moves_of (fun t _ => insertTrade_moves fun _ => h.same rfl)
    (fun d _ first => hmaker d first) ?_
  exact (Prog.moves_read _).bind fun _ => Prog.Moves.whenSome fun _ _ =>
    (h.untouched fun _ => rfl : Prog.Moves R (onDatabase _)).bind fun _ =>
      (h.settleTradeBalances _ _ _ _ _ _).bind fun _ => Prog.Moves.whenever fun _ => hchildren

theorem work (h : BalanceSteps R) : Prog.Moves R work := by
  have hpersist : ∀ p trades, Prog.Moves R (persistTrades p trades) := by
    refine fun p trades => Prog.Moves.ite (fun _ => Prog.moves_pure _) fun _ => h.transaction ?_
    refine (Prog.moves_read _).bind fun pair => ?_
    cases pair with
    | none => exact Prog.moves_pure _
    | some pair =>
      exact (Prog.moves_read _).bind fun _ => (h.persistTradeBatch _ _).bind fun _ => Prog.moves_pure _
  have hplace : ∀ p, Prog.Moves R (handlePlace p) := fun p =>
    (h.matchPlaced p).bind fun r => (Prog.Moves.whenever fun _ => (hpersist p _).bind fun _ =>
      Prog.Moves.whenever fun _ => h.finishPlaced p _).bind fun _ => Prog.moves_pure _
  refine (Prog.moves_read _).bind fun queue => ?_
  cases queue with
  | nil => exact Prog.moves_pure _
  | cons p rest =>
    have haction : Prog.Moves R (processAction p) :=
      Prog.Moves.whenever fun _ => (hplace p).bind fun _ => Prog.moves_pure _
    exact (h.onRedis _).bind fun _ => haction.tryExcept fun _ => Prog.moves_pure _

/-- **Any request.** -/
theorem serve (h : BalanceSteps R) (s : Store) (req : Request) : R s (s.serve req) := by
  by_cases hwork : req = .work
  · subst hwork
    exact h.work s
  · exact h.toLockSteps.serve s hwork

end BalanceSteps

/-! ### The table of balances -/

/-- The table of balances. -/
abbrev Balances := BalanceKey → Option Row

/-- **One operation on the table.** -/
inductive BalanceStep (balances : Balances) : Balances → Prop
  /-- `get_or_create` inserts a row of zeros. -/
  | created (key : BalanceKey) (hrow : balances key = none) :
      BalanceStep balances (Function.update balances key (some Row.zero))
  /-- A conditional `UPDATE` that has found its row. -/
  | optimistic (op : Op) (key : BalanceKey) (row row' : Row) (amount : ℚ) (expectedVersion : ℤ)
      (hrow : balances key = some row) (hamount : 0 < amount)
      (h : op.optimistic row amount expectedVersion = some row') :
      BalanceStep balances (Function.update balances key (some row'))
  /-- A mutation under a row lock. -/
  | pessimistic (op : Op) (key : BalanceKey) (row row' : Row) (amount : ℚ)
      (hrow : balances key = some row) (h : op.pessimistic key row amount = .ok row') :
      BalanceStep balances (Function.update balances key (some row'))
  /-- An adjustment by an admin. -/
  | adjusted (key : BalanceKey) (row row' : Row) (delta : ℚ) (hrow : balances key = some row)
      (h : Ledger.adjustBalance key row delta = .ok row') :
      BalanceStep balances (Function.update balances key (some row'))

/-- **A chain of operations.** -/
def Audited (s s' : Store) : Prop := Relation.ReflTransGen BalanceStep s.pg.balances s'.pg.balances

instance : IsPreorder Store Audited where
  refl _ := .refl
  trans _ _ _ h h' := h.trans h'

/-- What each operation keeps. -/
theorem Audited.keeps {P : Balances → Prop} (hstep : ∀ {b b'}, BalanceStep b b' → P b → P b') {s s' : Store}
    (h : Audited s s') (hP : P s.pg.balances) : P s'.pg.balances := by
  unfold Audited at h
  generalize s'.pg.balances = balances at h ⊢
  induction h with
  | refl => exact hP
  | tail _ hlast ih => exact hstep hlast ih

theorem audited_of_step {s s' : Store} (h : BalanceStep s.pg.balances s'.pg.balances) : Audited s s' :=
  .single h

/-- A missing row is created first. -/
theorem audited_withRow (s : Store) (key : BalanceKey) : Audited s (s.withRow key) := by
  unfold Store.withRow
  cases hrow : s.pg.balances key with
  | none => exact audited_of_step (.created key hrow)
  | some row => exact refl_of Audited s

theorem audited_lock (key : BalanceKey) (amount : ℚ) (reason : BalanceReason) (orderId : Option OrderId) :
    Prog.Moves Audited (lockOptimistic key amount reason orderId) := by
  intro s
  rcases lockOptimistic_cases key amount reason orderId s with
    ⟨-, hx⟩ | ⟨-, -, hx⟩ | ⟨hpos, hle, hx⟩ <;> rw [hx]
  · exact refl_of Audited s
  · exact audited_withRow s key
  -- the row that is updated is the row that is there once it has been created
  have hlock : Op.lock.optimistic (s.rowOrZero key) amount (s.rowOrZero key).version =
      some (lockedRow (s.rowOrZero key) amount) := by
    show Ledger.optimisticLock _ _ _ = _
    rw [Ledger.optimisticLock, if_pos ⟨rfl, hle⟩]
    rfl
  refine (audited_withRow s key).tail ?_
  have hstep := BalanceStep.optimistic .lock key (s.rowOrZero key) _ amount _ (withRow_balances s key) hpos hlock
  have htable : Function.update (s.withRow key).pg.balances key (some (lockedRow (s.rowOrZero key) amount)) =
      Function.update s.pg.balances key (some (lockedRow (s.rowOrZero key) amount)) := by
    unfold Store.withRow
    cases s.pg.balances key with
    | none => exact Function.update_idem ..
    | some _ => rfl
  rw [htable] at hstep
  exact hstep

theorem audited_unlock (key : BalanceKey) (amount : ℚ) (reason : BalanceReason)
    (orderId : Option OrderId) : Prog.Moves Audited (unlockOptimistic key amount reason orderId) := by
  intro s
  rcases unlockOptimistic_cases key amount reason orderId s with
    ⟨-, err, hx⟩ | ⟨row, hrow, hpos, hle, hx⟩ <;> rw [hx]
  · exact refl_of Audited s
  · refine audited_of_step (.optimistic .unlock key row _ amount row.version hrow hpos ?_)
    show Ledger.optimisticUnlock _ _ _ = _
    rw [Ledger.optimisticUnlock, if_pos ⟨rfl, hle⟩]
    rfl

theorem audited_pessimistic (op : Op) (balance : BalanceKey) (amount : ℚ) (reason : BalanceReason)
    (orderId : Option OrderId) : Prog.Moves Audited (pessimistic op balance amount reason orderId) := by
  intro s
  rcases hx : pessimistic op balance amount reason orderId s with ⟨err | u, s'⟩
  · obtain rfl := pessimistic_error hx
    exact refl_of Audited s'
  · obtain ⟨row, row', hrow, hop, rfl⟩ := pessimistic_eq_ok hx
    exact audited_of_step (.pessimistic op balance row row' amount hrow hop)

theorem audited_steps : BalanceSteps Audited where
  same := fun h => by
    unfold Audited
    rw [h]
  lock := audited_lock
  unlock := audited_unlock
  release := audited_pessimistic .unlock
  settle := audited_pessimistic .settle
  credit := audited_pessimistic .credit

/-- **Every request changes the table by operations of the balance service.** -/
theorem audited_serve (s : Store) (req : Request) : Audited s (s.serve req) := audited_steps.serve s req

theorem audited_serveAll (s : Store) (reqs : List Request) : Audited s (s.serveAll reqs) :=
  Run.invariant (I := Audited s) (fun s' req h => trans_of Audited h (audited_serve s' req))
    (refl_of Audited s) reqs

/-! ### Whole runs -/

/-- Every row satisfies the invariant of rows. -/
def RowsOk (balances : Balances) : Prop := ∀ key row, balances key = some row → row.Ok

/-- A row is written at a key. -/
theorem rowsOk_update {balances : Balances} {key : BalanceKey} {row : Row} (h : RowsOk balances)
    (hrow : row.Ok) : RowsOk (Function.update balances key (some row)) := by
  intro k r hk
  by_cases heq : k = key
  · subst heq
    rw [Function.update_self] at hk
    exact Option.some.inj hk ▸ hrow
  · rw [Function.update_of_ne heq] at hk
    exact h k r hk

theorem BalanceStep.rowsOk {balances balances' : Balances} (h : BalanceStep balances balances')
    (hrows : RowsOk balances) : RowsOk balances' := by
  cases h with
  | created key _ => exact rowsOk_update hrows Row.ok_zero
  | optimistic op key row row' amount version hrow hamount h =>
    exact rowsOk_update hrows (Op.optimistic_spec h (hrows key row hrow) hamount).1
  | pessimistic op key row row' amount hrow h =>
    exact rowsOk_update hrows (Op.pessimistic_spec h (hrows key row hrow)).1
  | adjusted key row row' delta hrow h =>
    exact rowsOk_update hrows (Ledger.adjustBalance_spec h (hrows key row hrow)).1

theorem Audited.rowsOk {s s' : Store} (h : Audited s s') (hrows : RowsOk s.pg.balances) :
    RowsOk s'.pg.balances := h.keeps BalanceStep.rowsOk hrows

/-- Every row is still there: it is the same row, or has a greater version. -/
def Aged (balances balances' : Balances) : Prop :=
  ∀ key row, balances key = some row →
    ∃ row', balances' key = some row' ∧ (row' = row ∨ row.version < row'.version)

instance : IsPreorder Balances Aged where
  refl _ _ row hrow := ⟨row, hrow, .inl rfl⟩
  trans _ _ _ h h' key row hrow := by
    obtain ⟨row₁, hrow₁, hage⟩ := h key row hrow
    obtain ⟨row₂, hrow₂, hage'⟩ := h' key row₁ hrow₁
    refine ⟨row₂, hrow₂, ?_⟩
    rcases hage with rfl | hlt <;> rcases hage' with rfl | hlt'
    · exact .inl rfl
    · exact .inr hlt'
    · exact .inr hlt
    · exact .inr (hlt.trans hlt')

/-- A row is replaced by one with a greater version. -/
theorem aged_update {balances : Balances} {key : BalanceKey} {row row' : Row}
    (hrow : balances key = some row) (hlt : row.version < row'.version) :
    Aged balances (Function.update balances key (some row')) := by
  intro k r hk
  by_cases heq : k = key
  · subst heq
    obtain rfl : row = r := Option.some.inj (hrow.symm.trans hk)
    exact ⟨row', Function.update_self .., .inr hlt⟩
  · exact ⟨r, (Function.update_of_ne heq _ _).trans hk, .inl rfl⟩

/-- A conditional `UPDATE` finds the version that it asks for, and leaves the next one. -/
theorem optimistic_version {op : Op} {row row' : Row} {amount : ℚ} {expectedVersion : ℤ}
    (h : op.optimistic row amount expectedVersion = some row') :
    row.version = expectedVersion ∧ row'.version = row.version + 1 := by
  cases op <;>
    simp only [Op.optimistic, Ledger.optimisticLock, Ledger.optimisticUnlock, Ledger.optimisticSettle,
      Ledger.optimisticCredit] at h <;>
    split_ifs at h with hguard <;>
    obtain rfl := Option.some.inj h
  · exact ⟨hguard.1, rfl⟩
  · exact ⟨hguard.1, rfl⟩
  · exact ⟨hguard.1, rfl⟩
  · exact ⟨hguard, rfl⟩

theorem pessimistic_version {op : Op} {key : BalanceKey} {row row' : Row} {amount : ℚ}
    (h : op.pessimistic key row amount = .ok row') : row'.version = row.version + 1 := by
  have hversion := congrArg (fun x : Ledger.Value => x.2.2.2) (Op.pessimistic_value h)
  cases op <;> exact hversion

theorem adjustBalance_version {key : BalanceKey} {row row' : Row} {delta : ℚ}
    (h : Ledger.adjustBalance key row delta = .ok row') : row'.version = row.version + 1 := by
  unfold Ledger.adjustBalance at h
  split_ifs at h <;> obtain ⟨-, rfl⟩ := Ledger.checkInvariant_eq_ok h <;> rfl

theorem BalanceStep.aged {balances balances' : Balances} (h : BalanceStep balances balances') :
    Aged balances balances' := by
  cases h with
  | created key hnone =>
    intro k r hk
    have hne : k ≠ key := by
      rintro rfl
      exact absurd (hnone.symm.trans hk) (by simp)
    exact ⟨r, (Function.update_of_ne hne _ _).trans hk, .inl rfl⟩
  | optimistic op key row row' amount version hrow _ h =>
    have hversion := (optimistic_version h).2
    exact aged_update hrow (by omega)
  | pessimistic op key row row' amount hrow h =>
    have hversion := pessimistic_version h
    exact aged_update hrow (by omega)
  | adjusted key row row' delta hrow h =>
    have hversion := adjustBalance_version h
    exact aged_update hrow (by omega)

/-- **No row is deleted, and none is changed without a greater version.** -/
theorem Audited.aged {s s' : Store} (h : Audited s s') : Aged s.pg.balances s'.pg.balances :=
  h.keeps (P := fun b => Aged s.pg.balances b) (fun hstep hage => trans_of Aged hage hstep.aged)
    (refl_of Aged _)

theorem Audited.ne_none {s s' : Store} (h : Audited s s') {key : BalanceKey}
    (hrow : s.pg.balances key ≠ none) : s'.pg.balances key ≠ none := by
  obtain ⟨row, hrow⟩ := Option.ne_none_iff_exists'.mp hrow
  obtain ⟨row', hrow', -⟩ := h.aged key row hrow
  rw [hrow']
  simp

/-! ### Totals -/

/-- Every total is as before, and every row is still there. -/
structure KeptTotals (s s' : Store) : Prop where
  total : ∀ key, s'.total key = s.total key
  rows : ∀ key, s.pg.balances key ≠ none → s'.pg.balances key ≠ none

instance : IsPreorder Store KeptTotals where
  refl _ := ⟨fun _ => rfl, fun _ h => h⟩
  trans _ _ _ h h' := ⟨fun key => (h'.total key).trans (h.total key), fun key hk => h'.rows key (h.rows key hk)⟩

/-- A row is written with the total that it had. -/
theorem keptTotals_moveBalance (s : Store) (key : BalanceKey) {row : Row} (update : BalanceUpdate)
    (h : row.totalBalance = s.total key) : KeptTotals s (s.moveBalance key row update) := by
  constructor
  · intro k
    by_cases hk : k = key
    · subst hk
      rw [← h]
      simp [Store.total, Store.moveBalance]
    · simp [Store.total, Store.moveBalance, hk]
  · intro k hrow
    by_cases hk : k = key
    · subst hk
      simp [Store.moveBalance]
    · simpa [Store.moveBalance, hk] using hrow

/-- A row of zeros has no total, and neither has a missing row. -/
theorem keptTotals_withRow (s : Store) (key : BalanceKey) : KeptTotals s (s.withRow key) := by
  unfold Store.withRow
  cases hrow : s.pg.balances key with
  | some row => exact refl_of KeptTotals s
  | none =>
    constructor
    · intro k
      by_cases hk : k = key
      · subst hk
        simp [Store.total, hrow, Row.zero]
      · simp [Store.total, hk]
    · intro k hk
      have hne : k ≠ key := by
        rintro rfl
        exact hk hrow
      simpa [hne] using hk

theorem total_rowOrZero (s : Store) (key : BalanceKey) : (s.rowOrZero key).totalBalance = s.total key := by
  unfold Store.rowOrZero Store.total
  cases s.pg.balances key <;> rfl

/-- **Locking and unlocking leave every total alone.** -/
theorem keptTotals_steps : LockSteps KeptTotals where
  same := by
    intro s s' h
    refine ⟨fun key => ?_, fun key hkey => ?_⟩
    · rw [Store.total, Store.total, h]
    · rwa [h]
  lock := by
    intro key amount reason orderId s
    rcases lockOptimistic_cases key amount reason orderId s with ⟨-, hx⟩ | ⟨-, -, hx⟩ | ⟨-, -, hx⟩ <;> rw [hx]
    · exact refl_of KeptTotals s
    · exact keptTotals_withRow s key
    · exact keptTotals_moveBalance s key _ (total_rowOrZero s key)
  unlock := by
    intro key amount reason orderId s
    rcases unlockOptimistic_cases key amount reason orderId s with ⟨-, err, hx⟩ | ⟨row, hrow, -, -, hx⟩ <;> rw [hx]
    · exact refl_of KeptTotals s
    · refine keptTotals_moveBalance s key _ ?_
      rw [Store.total, hrow]
      rfl
  release := by
    intro key amount reason orderId s
    rcases hx : unlockPessimistic key amount reason orderId s with ⟨err | u, s'⟩
    · obtain rfl := pessimistic_error hx
      exact refl_of KeptTotals s'
    · obtain ⟨row, row', hrow, hop, rfl⟩ := pessimistic_eq_ok hx
      refine keptTotals_moveBalance s key _ ?_
      have htotal := congrArg (fun x : Ledger.Value => x.1) (Op.pessimistic_value hop)
      rw [Store.total, hrow]
      exact htotal.trans (add_zero _)

end SpotExchange.Exchange
