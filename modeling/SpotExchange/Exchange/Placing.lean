import SpotExchange.Exchange.Orders
import SpotExchange.Exchange.Locks
import SpotExchange.Exchange.Settlement

namespace SpotExchange.Exchange

open SpotExchange.Lib
open SpotExchange.Engine (OrderId)

/-!
# What placing does to the store

* `Quiet` — only balances and their events have changed: what a placement that raises leaves behind;
* `placeOrder_cases` — a placement is accepted, takes its lock and leaves `Store.placed`, or raises;
* `placeBulkOrders_cases` — the same for a bulk, with one lock for each asset.
-/

/-! ### Balances only -/

/-- Only balances and their events have changed. -/
def Quiet (s s' : Store) : Prop :=
  ∃ balances updates, s' =
    { s with pg := { s.pg with balances := balances }
             redis := { s.redis with balanceUpdates := updates } }

instance : IsPreorder Store Quiet where
  refl s := ⟨s.pg.balances, s.redis.balanceUpdates, rfl⟩
  trans := by
    rintro s _ _ ⟨b, u, rfl⟩ ⟨b', u', rfl⟩
    exact ⟨b', u', rfl⟩

theorem quiet_moveBalance (s : Store) (key : Ledger.BalanceKey) (row : Ledger.Row)
    (update : BalanceUpdate) : Quiet s (s.moveBalance key row update) := ⟨_, _, rfl⟩

theorem quiet_withRow (s : Store) (key : Ledger.BalanceKey) : Quiet s (s.withRow key) := by
  unfold Store.withRow
  cases hrow : s.pg.balances key with
  | none => exact ⟨_, _, rfl⟩
  | some row => exact refl_of Quiet s

theorem quiet_lockOptimistic (key : Ledger.BalanceKey) (amount : ℚ) (reason : BalanceReason)
    (orderId : Option OrderId) : Prog.Moves Quiet (lockOptimistic key amount reason orderId) :=
  lockOptimistic_moves quiet_withRow fun s key row update _ => quiet_moveBalance s key row update

theorem quiet_unlockOptimistic (key : Ledger.BalanceKey) (amount : ℚ) (reason : BalanceReason)
    (orderId : Option OrderId) : Prog.Moves Quiet (unlockOptimistic key amount reason orderId) :=
  unlockOptimistic_moves fun s key row update _ => quiet_moveBalance s key row update

/-! ### Rows -/

/-- The store with a new order. -/
def Store.insert (s : Store) (order : Order) : Store :=
  { s with pg := s.pg.setOrder s.orderIdSeq order, orderIdSeq := s.orderIdSeq + 1 }

/-- The store with an order changed, if it is there. -/
def Store.mapOrder (s : Store) (id : OrderId) (f : Order → Order) : Store :=
  { s with pg :=
      match s.pg.orders id with
      | some order => s.pg.setOrder id (f order)
      | none => s.pg }

/-- The store with a child of an order, if there is one. -/
def Store.addChild (s : Store) (parentId : OrderId) (parent : Order) (config : Option SltpConfig)
    (link : OrderId → Order → Order) : Store :=
  match config with
  | none => s
  | some config => (s.insert (sltpChild parentId parent config)).mapOrder parentId (link s.orderIdSeq)

theorem createSltpChild_apply (parentId : OrderId) (parent : Order) (config : Option SltpConfig)
    (link : OrderId → Order → Order) (s : Store) :
    createSltpChild parentId parent config link s =
      (.ok ⟨⟩, s.addChild parentId parent config link) := by
  cases config <;> rfl

/-- The Redis updates of a placement. -/
def handOver (orderId : OrderId) (order : Order) : Redis → Redis :=
  if order.type.isStop then registerStopOrder orderId order else enqueuePlaced orderId order

/-- The store with an order and its children inserted. -/
def Store.inserted (s : Store) (userId : UserId) (dto : OrderCreateDto) : Store :=
  ((s.insert (newOrder userId dto)).addChild s.orderIdSeq (newOrder userId dto) dto.sl
    fun childId o => { o with slOrderId := some childId }).addChild s.orderIdSeq (newOrder userId dto)
      dto.tp fun childId o => { o with tpOrderId := some childId }

/-- **The store with an order placed**, its lock apart. -/
def Store.placed (s : Store) (userId : UserId) (dto : OrderCreateDto) : Store :=
  (s.inserted userId dto).setRedis (handOver s.orderIdSeq (newOrder userId dto))

theorem insertPlaced_apply (userId : UserId) (dto : OrderCreateDto) (s : Store) :
    insertPlaced userId dto s = (.ok s.orderIdSeq, s.placed userId dto) := by
  have hrun : insertPlaced userId dto s =
      (createSltpChild s.orderIdSeq (newOrder userId dto) dto.sl
          (fun childId o => { o with slOrderId := some childId }) >>= fun _ =>
        createSltpChild s.orderIdSeq (newOrder userId dto) dto.tp
          (fun childId o => { o with tpOrderId := some childId }) >>= fun _ =>
        onRedis (handOver s.orderIdSeq (newOrder userId dto)) >>= fun _ =>
        (pure s.orderIdSeq : M OrderId)) (s.insert (newOrder userId dto)) := rfl
  rw [hrun, Prog.bind_of_ok (createSltpChild_apply ..), Prog.bind_of_ok (createSltpChild_apply ..)]
  rfl

/-! ### One order -/

/-- The store with the lock of a placement. -/
def Store.lockFor (s : Store) (userId : UserId) (dto : OrderCreateDto) (lock : Asset × ℚ) : Store :=
  if dto.type.isStop = false ∧ 0 < lock.2 then
    s.moveBalance (userId, lock.1) (lockedRow (s.rowOrZero (userId, lock.1)) lock.2)
      (lockUpdate (userId, lock.1) (-lock.2)
        (if dto.type = .market ∧ dto.side = .buy then .marketBuyEstimate else .orderPlaced) none)
  else s

/-- **What a placement has passed**: its checks, and the computation of its lock. -/
structure Accepted (s : Store) (dto : OrderCreateDto) (pair : TradingPair) (lock : Asset × ℚ) :
    Prop where
  listed : s.pg.tradingPairs dto.symbol = some pair
  active : pair.isActive = true
  valid : ValidOrder dto pair
  computed : computeLock dto pair s = (.ok lock, s)

theorem validateAndGetPair_cases (symbol : Symbol) (s : Store) :
    (∃ pair, s.pg.tradingPairs symbol = some pair ∧ pair.isActive = true ∧
      validateAndGetPair symbol s = (.ok pair, s)) ∨
    ∃ err, validateAndGetPair symbol s = (.error err, s) := by
  cases hpair : s.pg.tradingPairs symbol with
  | none =>
    have hread : getPair symbol s = (.ok none, s) := by
      rw [← hpair]
      rfl
    exact .inr ⟨_, by rw [validateAndGetPair, Prog.bind_of_ok hread]; rfl⟩
  | some pair =>
    have hread : getPair symbol s = (.ok (some pair), s) := by
      rw [← hpair]
      rfl
    rw [validateAndGetPair, Prog.bind_of_ok hread]
    by_cases hactive : pair.isActive = true
    · exact .inl ⟨pair, rfl, hactive, by simp only [hactive]; rfl⟩
    · exact .inr ⟨.pairNotActive symbol, by simp only [hactive]; rfl⟩

/-- Computing a lock only looks. -/
theorem computeLock_state (dto : OrderCreateDto) (pair : TradingPair) (s : Store) :
    (computeLock dto pair s).2 = s := by
  have hmoves : Prog.Moves Eq (computeLock dto pair) := by
    unfold computeLock computeMarketBuyLock
    refine Prog.Moves.ite (fun _ => Prog.moves_pure _) fun _ =>
      Prog.Moves.ite (fun _ => (Prog.moves_read _).bind fun asks => ?_) fun _ => Prog.moves_pure _
    exact Prog.Moves.ite (fun _ => Prog.moves_raise _) fun _ =>
      Prog.Moves.ite (fun _ => Prog.moves_raise _) fun _ => Prog.moves_pure _
  exact (hmoves s).symm

/-- The checks of an order and the computation of its lock: they all pass, or something raises. -/
theorem validateBulkOrder_cases (dto : OrderCreateDto) (s : Store) :
    (∃ pair lock, Accepted s dto pair lock ∧ validateBulkOrder dto s = (.ok (dto, lock), s)) ∨
    ∃ err, validateBulkOrder dto s = (.error err, s) := by
  unfold validateBulkOrder
  rcases validateAndGetPair_cases dto.symbol s with ⟨pair, hpair, hactive, hx⟩ | ⟨err, hx⟩
  swap
  · exact .inr ⟨err, Prog.bind_of_error hx⟩
  rw [Prog.bind_of_ok hx]
  cases hvalid : validateParams dto pair with
  | error err => exact .inr ⟨err, rfl⟩
  | ok u =>
    show (∃ _ _, _ ∧ (computeLock dto pair >>= _ : M _) s = _) ∨
      ∃ _, (computeLock dto pair >>= _ : M _) s = _
    have hstate := computeLock_state dto pair s
    rcases hlock : computeLock dto pair s with ⟨err | lock, s'⟩ <;> rw [hlock] at hstate <;>
      obtain rfl : s' = s := hstate
    · exact .inr ⟨err, Prog.bind_of_error hlock⟩
    · exact .inl ⟨pair, lock, ⟨hpair, hactive, validOrder_of_ok hvalid, hlock⟩, by
        rw [Prog.bind_of_ok hlock]; rfl⟩

/-- The first part of `place_order`: validate, compute the lock, take it. -/
def lockPlacement (userId : UserId) (dto : OrderCreateDto) : M (Asset × ℚ) := do
  let validated ← validateBulkOrder dto
  lockFunds userId dto validated.2
  return validated.2

theorem placeOrder_eq (userId : UserId) (dto : OrderCreateDto) :
    placeOrder userId dto = (lockPlacement userId dto >>= fun _ => insertPlaced userId dto) := by
  simp only [lockPlacement, validateBulkOrder, bind_assoc, pure_bind]
  rfl

/-- **The lock of a placement**: it is accepted and covered by what is available, or it raises. -/
theorem lockPlacement_cases (userId : UserId) (dto : OrderCreateDto) (s : Store) :
    (∃ pair lock, Accepted s dto pair lock ∧
      (dto.type.isStop = false → 0 < lock.2 →
        lock.2 ≤ (s.rowOrZero (userId, lock.1)).availableBalance) ∧
      lockPlacement userId dto s = (.ok lock, s.lockFor userId dto lock)) ∨
    ∃ err s', lockPlacement userId dto s = (.error err, s') ∧ Quiet s s' := by
  unfold lockPlacement
  rcases validateBulkOrder_cases dto s with ⟨pair, lock, haccepted, hx⟩ | ⟨err, hx⟩
  swap
  · exact .inr ⟨err, s, Prog.bind_of_error hx, refl_of Quiet s⟩
  rw [Prog.bind_of_ok hx]
  by_cases hlock : dto.type.isStop = false ∧ 0 < lock.2
  · have hfunds : lockFunds userId dto lock s = lockOptimistic (userId, lock.1) lock.2
        (if dto.type = .market ∧ dto.side = .buy then .marketBuyEstimate else .orderPlaced) none s := by
      rw [lockFunds, Prog.whenever, if_pos hlock]
    rcases lockOptimistic_cases (userId, lock.1) lock.2
      (if dto.type = .market ∧ dto.side = .buy then .marketBuyEstimate else .orderPlaced) none s with
      ⟨hle, -⟩ | ⟨-, -, hx⟩ | ⟨-, hle, hx⟩
    · exact absurd hlock.2 (not_lt.mpr hle)
    · exact .inr ⟨_, _, Prog.bind_of_error (hfunds.trans hx), quiet_withRow s (userId, lock.1)⟩
    · refine .inl ⟨pair, lock, haccepted, fun _ _ => hle, ?_⟩
      rw [Prog.bind_of_ok (hfunds.trans hx), Store.lockFor, if_pos hlock]
      rfl
  · have hfunds : lockFunds userId dto lock s = (.ok ⟨⟩, s) := by
      rw [lockFunds, Prog.whenever, if_neg hlock]
      rfl
    refine .inl ⟨pair, lock, haccepted, fun h h' => absurd ⟨h, h'⟩ hlock, ?_⟩
    rw [Prog.bind_of_ok hfunds, Store.lockFor, if_neg hlock]
    rfl

/-- Taking a lock takes no id. -/
theorem lockFor_orderIdSeq (s : Store) (userId : UserId) (dto : OrderCreateDto) (lock : Asset × ℚ) :
    (s.lockFor userId dto lock).orderIdSeq = s.orderIdSeq := by
  unfold Store.lockFor
  split_ifs <;> rfl

/-- **A placement**: it is accepted, takes its lock and is handed over; or it raises. -/
theorem placeOrder_cases (userId : UserId) (dto : OrderCreateDto) (s : Store) :
    (∃ pair lock, Accepted s dto pair lock ∧
      (dto.type.isStop = false → 0 < lock.2 →
        lock.2 ≤ (s.rowOrZero (userId, lock.1)).availableBalance) ∧
      placeOrder userId dto s =
        (.ok s.orderIdSeq, (s.lockFor userId dto lock).placed userId dto)) ∨
    ∃ err s', placeOrder userId dto s = (.error err, s') ∧ Quiet s s' := by
  rw [placeOrder_eq]
  rcases lockPlacement_cases userId dto s with ⟨pair, lock, haccepted, hle, hx⟩ | ⟨err, s', hx, hquiet⟩
  · refine .inl ⟨pair, lock, haccepted, hle, ?_⟩
    -- with the lock taken, the rest does not raise
    rw [Prog.bind_of_ok hx, insertPlaced_apply, lockFor_orderIdSeq]
  · exact .inr ⟨err, s', Prog.bind_of_error hx, hquiet⟩

/-! ### A bulk -/

/-- The store with one requirement of a bulk locked. -/
def Store.lockOne (userId : UserId) (s : Store) (req : Asset × ℚ) : Store :=
  s.moveBalance (userId, req.1) (lockedRow (s.rowOrZero (userId, req.1)) req.2)
    (lockUpdate (userId, req.1) (-req.2) .orderPlaced none)

/-- The store with all requirements of a bulk locked. -/
def Store.lockAll (s : Store) (userId : UserId) (reqs : List (Asset × ℚ)) : Store :=
  reqs.foldl (Store.lockOne userId) s

theorem validateBulk_cases (dtos : List OrderCreateDto) (s : Store) :
    (∃ validated, validateBulk dtos s = (.ok validated, s) ∧ validated.map Prod.fst = dtos ∧
      ∀ v ∈ validated, ∃ pair, Accepted s v.1 pair v.2) ∨
    ∃ err, validateBulk dtos s = (.error err, s) := by
  induction dtos with
  | nil => exact .inl ⟨[], rfl, rfl, by simp⟩
  | cons dto dtos ih =>
    rw [validateBulk]
    rcases validateBulkOrder_cases dto s with ⟨pair, lock, haccepted, hx⟩ | ⟨err, hx⟩
    · rw [Prog.bind_of_ok hx]
      rcases ih with ⟨validated, hv, hmap, hall⟩ | ⟨err, hv⟩
      · refine .inl ⟨(dto, lock) :: validated, by rw [Prog.bind_of_ok hv]; rfl, ?_, ?_⟩
        · rw [List.map_cons, hmap]
        · exact List.forall_mem_cons.mpr ⟨⟨pair, haccepted⟩, hall⟩
      · exact .inr ⟨err, Prog.bind_of_error hv⟩
    · exact .inr ⟨err, Prog.bind_of_error hx⟩

theorem quiet_unlockBulk (userId : UserId) (locked : List (Asset × ℚ)) :
    Prog.Moves Quiet (unlockBulk userId locked) :=
  Prog.Moves.forEach fun _ _ => (quiet_unlockOptimistic _ _ _ _).tryExcept fun _ => Prog.moves_pure _

/-- A bulk whose lock is refused raises. -/
theorem rejectBulk_error (userId : UserId) (locked : List (Asset × ℚ)) (err : PyError) (s : Store) :
    ∃ err' s', rejectBulk userId locked err s = (.error err', s') ∧ Quiet s s' := by
  unfold rejectBulk
  split
  · rcases hu : unlockBulk userId locked s with ⟨err' | u, s'⟩
    · exact ⟨err', s', Prog.bind_of_error hu, (quiet_unlockBulk userId locked).of_error hu⟩
    · exact ⟨_, s', Prog.bind_of_ok hu, (quiet_unlockBulk userId locked).of_ok hu⟩
  · exact ⟨err, s, rfl, refl_of Quiet s⟩

/-- **The locks of a bulk** are all taken, or something raises. -/
theorem lockBulk_cases (userId : UserId) (locked reqs : List (Asset × ℚ)) (s : Store) :
    lockBulk userId locked reqs s = (.ok ⟨⟩, s.lockAll userId reqs) ∨
    ∃ err s', lockBulk userId locked reqs s = (.error err, s') ∧ Quiet s s' := by
  induction reqs generalizing locked s with
  | nil => exact .inl rfl
  | cons req reqs ih =>
    rw [lockBulk]
    rcases hlock : lockOptimistic (userId, req.1) req.2 .orderPlaced none s with ⟨err | u, s₁⟩
    · obtain ⟨err', s', hx, hquiet⟩ := rejectBulk_error userId locked err s₁
      have htry : Prog.tryExcept (lockOptimistic (userId, req.1) req.2 .orderPlaced none)
          (rejectBulk userId locked) s = (.error err', s') := by
        unfold Prog.tryExcept
        rw [hlock]
        exact hx
      exact .inr ⟨err', s', Prog.bind_of_error htry,
        trans_of Quiet ((quiet_lockOptimistic _ _ _ _).of_error hlock) hquiet⟩
    · obtain rfl : s.lockOne userId req = s₁ := by
        rcases lockOptimistic_cases (userId, req.1) req.2 .orderPlaced none s with
          ⟨-, hx⟩ | ⟨-, -, hx⟩ | ⟨-, -, hx⟩
        · exact absurd (congrArg Prod.fst (hx.symm.trans hlock)) (by simp)
        · exact absurd (congrArg Prod.fst (hx.symm.trans hlock)) (by simp)
        · exact congrArg Prod.snd (hx.symm.trans hlock)
      have htry : Prog.tryExcept (lockOptimistic (userId, req.1) req.2 .orderPlaced none)
          (rejectBulk userId locked) s = (.ok u, s.lockOne userId req) := by
        unfold Prog.tryExcept
        rw [hlock]
      rw [Prog.bind_of_ok htry]
      rcases ih (locked ++ [req]) (s.lockOne userId req) with hx | ⟨err, s', hx, hquiet⟩
      · exact .inl hx
      · exact .inr ⟨err, s', hx, trans_of Quiet (quiet_moveBalance _ _ _ _) hquiet⟩

theorem insertBulk_apply (userId : UserId) (dtos : List OrderCreateDto) (s : Store) :
    ∃ ids, insertBulk userId dtos s = (.ok ids, dtos.foldl (fun s dto => s.placed userId dto) s) := by
  induction dtos generalizing s with
  | nil => exact ⟨[], rfl⟩
  | cons dto dtos ih =>
    obtain ⟨ids, hx⟩ := ih (s.placed userId dto)
    exact ⟨s.orderIdSeq :: ids, by
      rw [insertBulk, Prog.bind_of_ok (insertPlaced_apply userId dto s), Prog.bind_of_ok hx]; rfl⟩

/-- **A bulk placement**: every order is accepted, the requirements are locked and the orders handed
    over one after the other; or something raises. -/
theorem placeBulkOrders_cases (userId : UserId) (dtos : List OrderCreateDto) (s : Store) :
    (∃ validated ids, validated.map Prod.fst = dtos ∧
      (∀ v ∈ validated, ∃ pair, Accepted s v.1 pair v.2) ∧
      placeBulkOrders userId dtos s = (.ok ids, dtos.foldl (fun s dto => s.placed userId dto)
        (s.lockAll userId (sortedRequirements (lockRequirements validated))))) ∨
    ∃ err s', placeBulkOrders userId dtos s = (.error err, s') ∧ Quiet s s' := by
  unfold placeBulkOrders
  split_ifs with hnil
  · subst hnil
    exact .inl ⟨[], [], rfl, by simp, rfl⟩
  rcases validateBulk_cases dtos s with ⟨validated, hv, hmap, hall⟩ | ⟨err, hv⟩
  swap
  · exact .inr ⟨err, s, Prog.bind_of_error hv, refl_of Quiet s⟩
  rw [Prog.bind_of_ok hv]
  rcases lockBulk_cases userId [] (sortedRequirements (lockRequirements validated)) s with
    hl | ⟨err, s', hl, hquiet⟩
  · obtain ⟨ids, hx⟩ := insertBulk_apply userId (validated.map Prod.fst)
      (s.lockAll userId (sortedRequirements (lockRequirements validated)))
    refine .inl ⟨validated, ids, hmap, hall, ?_⟩
    rw [Prog.bind_of_ok hl, hx, hmap]
  · exact .inr ⟨err, s', Prog.bind_of_error hl, hquiet⟩

end SpotExchange.Exchange
