import SpotExchange.Exchange.Working
import SpotExchange.Exchange.Canceling
import SpotExchange.Exchange.Triggering
import SpotExchange.Lib.Run

namespace SpotExchange.Exchange

open SpotExchange.Lib
open SpotExchange.Engine (OrderId)

/-!
# Whole runs

* `Request` — what the backend serves: calls of the API, prices for the stop monitor, rounds of the
  worker; each is served before the next one starts;
* `Consistent` — what holds in every store that a run reaches: resting orders and queued placements
  have their rows;
* `consistent_placed`, `consistent_trigger`, `consistent_work` — what a request does to such a store.
-/

/-! ### Requests -/

/-- A call of the API, a price for the stop monitor, or a round of the worker. -/
inductive Request
  | place (userId : UserId) (dto : OrderCreateDto)
  | placeBulk (userId : UserId) (dtos : List OrderCreateDto)
  | cancel (userId : UserId) (orderId : OrderId)
  | modify (userId : UserId) (orderId : OrderId) (newPrice newQuantity : ℚ)
  | print (m : StopMonitor) (symbol : Symbol) (price : ℚ)
  | rescan (symbol : Symbol) (lastPrice : ℚ)
  | work

/-- The loop of `_rescan_pending_stops` over the stops it has selected. -/
def rescanPendingStops (symbol : Symbol) (lastPrice : ℚ) : M Unit := do
  let ids ← Prog.read fun s => rescanSelected s.pg s.orderIdSeq symbol lastPrice
  Prog.forEach ids (tryTrigger false)

/-- A program without its result. -/
def discard {α : Type} (x : M α) : M Unit := x >>= fun _ => pure ⟨⟩

/-- How a request is served: calls of the API commit or roll back. -/
def Request.run : Request → M Unit
  | .place userId dto => transaction (discard (placeOrder userId dto))
  | .placeBulk userId dtos => transaction (discard (placeBulkOrders userId dtos))
  | .cancel userId orderId => transaction (cancelOrder userId orderId)
  | .modify userId orderId newPrice newQuantity =>
      transaction (discard (modifyOrder userId orderId newPrice newQuantity))
  | .print m symbol price => discard (processTradePrint m symbol price)
  | .rescan symbol lastPrice => rescanPendingStops symbol lastPrice
  | .work => Exchange.work

/-- The store after a request. -/
def Store.serve (s : Store) (req : Request) : Store := (req.run s).2

/-- The store after a run. -/
def Store.serveAll (s : Store) (reqs : List Request) : Store := Run.after Store.serve s reqs

/-- A transaction commits. -/
private theorem discard_ok {α : Type} {x : M α} {s s' : Store} {a : α} (h : x s = (.ok a, s')) :
    transaction (discard x) s = (.ok ⟨⟩, s') := by
  unfold transaction Prog.atomically discard
  rw [Prog.bind_of_ok h]
  rfl

private theorem discard_commit {α : Type} {x : M α} {s s' : Store} {a : α} (h : x s = (.ok a, s')) :
    (transaction (discard x) s).2 = s' := congrArg Prod.snd (discard_ok h)

/-- A transaction rolls back: only what it has published remains. -/
private theorem discard_rollback {α : Type} {x : M α} {s s' : Store} {err : PyError}
    (h : x s = (.error err, s')) (hquiet : Quiet s s') :
    Quiet s (transaction (discard x) s).2 ∧ (transaction (discard x) s).2.pg = s.pg := by
  unfold transaction Prog.atomically discard
  rw [Prog.bind_of_error h]
  obtain ⟨balances, updates, rfl⟩ := hquiet
  exact ⟨⟨s.pg.balances, updates, rfl⟩, rfl⟩

/-- **A placement is served**, or rolled back. -/
theorem serve_place_cases (s : Store) (userId : UserId) (dto : OrderCreateDto) :
    (∃ pair lock, Accepted s dto pair lock ∧
      (dto.type.isStop = false → 0 < lock.2 →
        lock.2 ≤ (s.rowOrZero (userId, lock.1)).availableBalance) ∧
      s.serve (.place userId dto) = (s.lockFor userId dto lock).placed userId dto) ∨
    Quiet s (s.serve (.place userId dto)) ∧ (s.serve (.place userId dto)).pg = s.pg := by
  rcases placeOrder_cases userId dto s with ⟨pair, lock, haccepted, hcovered, hx⟩ | ⟨err, s', hx, hq⟩
  · exact .inl ⟨pair, lock, haccepted, hcovered, discard_commit hx⟩
  · exact .inr (discard_rollback hx hq)

theorem serve_place (s : Store) (userId : UserId) (dto : OrderCreateDto) :
    (∃ pair lock, Accepted s dto pair lock ∧
      (dto.type.isStop = false → 0 < lock.2 →
        lock.2 ≤ (s.rowOrZero (userId, lock.1)).availableBalance) ∧
      s.serve (.place userId dto) = (s.lockFor userId dto lock).placed userId dto) ∨
    Quiet s (s.serve (.place userId dto)) :=
  (serve_place_cases s userId dto).imp_right And.left

/-- A placement that does not commit. -/
theorem serve_place_quiet {s : Store} {userId : UserId} {dto : OrderCreateDto}
    (h : ((Request.place userId dto).run s).1 ≠ .ok ⟨⟩) : Quiet s (s.serve (.place userId dto)) := by
  rcases placeOrder_cases userId dto s with ⟨pair, lock, -, -, hx⟩ | ⟨err, s', hx, hq⟩
  · exact absurd (congrArg Prod.fst (discard_ok hx)) h
  · exact (discard_rollback hx hq).1

/-- **A bulk placement is served**, or rolled back. -/
theorem serve_placeBulk_cases (s : Store) (userId : UserId) (dtos : List OrderCreateDto) :
    (∃ validated, validated.map Prod.fst = dtos ∧
      (∀ v ∈ validated, ∃ pair, Accepted s v.1 pair v.2) ∧
      s.serve (.placeBulk userId dtos) = dtos.foldl (fun s dto => s.placed userId dto)
        (s.lockAll userId (sortedRequirements (lockRequirements validated)))) ∨
    Quiet s (s.serve (.placeBulk userId dtos)) ∧ (s.serve (.placeBulk userId dtos)).pg = s.pg := by
  rcases placeBulkOrders_cases userId dtos s with ⟨validated, ids, hmap, hall, hx⟩ | ⟨err, s', hx, hq⟩
  · exact .inl ⟨validated, hmap, hall, discard_commit hx⟩
  · exact .inr (discard_rollback hx hq)

theorem serve_placeBulk (s : Store) (userId : UserId) (dtos : List OrderCreateDto) :
    (∃ validated, validated.map Prod.fst = dtos ∧
      (∀ v ∈ validated, ∃ pair, Accepted s v.1 pair v.2) ∧
      s.serve (.placeBulk userId dtos) = dtos.foldl (fun s dto => s.placed userId dto)
        (s.lockAll userId (sortedRequirements (lockRequirements validated)))) ∨
    Quiet s (s.serve (.placeBulk userId dtos)) :=
  (serve_placeBulk_cases s userId dtos).imp_right And.left

/-- A bulk placement that does not commit. -/
theorem serve_placeBulk_quiet {s : Store} {userId : UserId} {dtos : List OrderCreateDto}
    (h : ((Request.placeBulk userId dtos).run s).1 ≠ .ok ⟨⟩) :
    Quiet s (s.serve (.placeBulk userId dtos)) := by
  rcases placeBulkOrders_cases userId dtos s with ⟨validated, ids, -, -, hx⟩ | ⟨err, s', hx, hq⟩
  · exact absurd (congrArg Prod.fst (discard_ok hx)) h
  · exact (discard_rollback hx hq).1

/-- **A cancellation is served.** -/
theorem serve_cancel (s : Store) (userId : UserId) (id : OrderId) :
    (∃ order pair s₁, s.pg.orders id = some order ∧ order.userId = userId ∧
      order.status.isActive = true ∧ s.pg.tradingPairs order.symbol = some pair ∧
      unlockCanceled id order (cancelUnlock order pair) s = (.ok ⟨⟩, s₁) ∧ Quiet s s₁ ∧
      s.serve (.cancel userId id) = s₁.cancel id order) ∨
    s.serve (.cancel userId id) = s := by
  unfold Store.serve
  show (∃ _ _ _, _ ∧ _ ∧ _ ∧ _ ∧ _ ∧ _ ∧ (transaction (cancelOrder userId id) s).2 = _) ∨
    (transaction (cancelOrder userId id) s).2 = s
  unfold transaction Prog.atomically
  rcases cancelOrder_cases userId id s with
    ⟨order, pair, s₁, horder, huser, hactive, hpair, hunlock, hquiet, hx⟩ | ⟨err, hx⟩ <;> rw [hx]
  · exact .inl ⟨order, pair, s₁, horder, huser, hactive, hpair, hunlock, hquiet, rfl⟩
  · exact .inr rfl

/-- **A replacement is served.** -/
theorem serve_modify {s : Store} {id : OrderId}
    (hseq : ∀ order, s.pg.orders id = some order → id ≠ s.orderIdSeq) (userId : UserId)
    (newPrice newQuantity : ℚ) :
    (∃ old s₁, s.pg.orders id = some old ∧ old.userId = userId ∧ old.status.isActive = true ∧
      old.type.rests = true ∧ 0 < newPrice ∧ (0 < newQuantity ∧
        ∃ pair, s.pg.tradingPairs old.symbol = some pair ∧ pair.minLotSize ≤ newQuantity) ∧ Quiet s s₁ ∧
      s.serve (.modify userId id newPrice newQuantity) = s₁.replace id old newPrice newQuantity) ∨
    Quiet s (s.serve (.modify userId id newPrice newQuantity)) := by
  rcases modifyOrder_cases hseq userId newPrice newQuantity with
    ⟨old, s₁, hold, huser, hactive, hrests, hp, hq, hquiet, hx⟩ | ⟨err, s', hx, hq⟩
  · exact .inl ⟨old, s₁, hold, huser, hactive, hrests, hp, hq, hquiet, discard_commit hx⟩
  · exact .inr (discard_rollback hx hq).1

/-- The trailing update moves triggers only. -/
theorem trailingUpdate_eq (m : StopMonitor) (symbol : Symbol) (price : ℚ) (r : Redis) :
    ∃ trailing states, trailingUpdate m symbol price r =
      { r with trailing := trailing, trailingState := states } := by
  unfold trailingUpdate
  split_ifs
  swap
  · exact ⟨r.trailing, r.trailingState, rfl⟩
  have hfold : ∀ (high low : Option ℚ) (ids : List OrderId) (r' : Redis),
      (∃ trailing states, r' = { r with trailing := trailing, trailingState := states }) →
      ∃ trailing states, ids.foldl (updateTrailing symbol high low) r' =
        { r with trailing := trailing, trailingState := states } := by
    intro high low ids
    induction ids with
    | nil => exact fun _ h => h
    | cons id ids ih =>
      rintro r' ⟨trailing, states, rfl⟩
      refine ih _ ?_
      rcases updateTrailing_cases symbol high low _ id with hx | ⟨_, _, _, -, hx⟩ <;> rw [hx]
      · exact ⟨_, _, rfl⟩
      · exact ⟨_, _, rfl⟩
  exact hfold _ _ _ r ⟨_, _, rfl⟩

/-- The store after a trade print. -/
theorem serve_print (s : Store) (m : StopMonitor) (symbol : Symbol) (price : ℚ) :
    s.serve (.print m symbol price) =
      triggerAll true (getTriggeredTrailingStops (trailingUpdate m symbol price s.redis) symbol price)
        (triggerAll false (getAllTriggeredStops (trailingUpdate m symbol price s.redis) symbol price)
          (s.setRedis (trailingUpdate m symbol price))) := by
  show (discard (processTradePrint m symbol price) s).2 = _
  rw [discard, Prog.bind_of_ok (processTradePrint_apply m symbol price s)]
  rfl

section

variable {R : Store → Store → Prop} [IsPreorder Store R]

/-- **A trade print** changes the store by a trailing update and by triggers. -/
theorem serve_print_moves (htrailing : ∀ s trailing states,
      R s (s.setRedis fun r => { r with trailing := trailing, trailingState := states }))
    (htrigger : ∀ isTrailing id, Prog.Moves R (tryTrigger isTrailing id)) (s : Store)
    (m : StopMonitor) (symbol : Symbol) (price : ℚ) : R s (s.serve (.print m symbol price)) := by
  have hupdate : Prog.Moves R (onRedis (trailingUpdate m symbol price)) := by
    refine Prog.moves_modify fun s => ?_
    obtain ⟨trailing, states, hx⟩ := trailingUpdate_eq m symbol price s.redis
    rw [hx]
    exact htrailing s trailing states
  have hmoves : Prog.Moves R (discard (processTradePrint m symbol price)) :=
    (hupdate.bind fun _ => (Prog.moves_read _).bind fun plain =>
      (Prog.Moves.forEach fun id _ => htrigger false id).bind fun _ =>
        (Prog.moves_read _).bind fun trailing =>
          (Prog.Moves.forEach fun id _ => htrigger true id).bind fun _ => Prog.moves_pure _).bind
            fun _ => Prog.moves_pure _
  exact hmoves s

/-- **A rescan** changes the store by triggers. -/
theorem serve_rescan_moves (htrigger : ∀ id, Prog.Moves R (tryTrigger false id)) (s : Store)
    (symbol : Symbol) (lastPrice : ℚ) : R s (s.serve (.rescan symbol lastPrice)) := by
  have hmoves : Prog.Moves R (rescanPendingStops symbol lastPrice) :=
    (Prog.moves_read _).bind fun ids => Prog.Moves.forEach fun id _ => htrigger id
  exact hmoves s

end

/-! ### The book and the queue -/

/-- Nothing is added to the book, and nothing moves there. -/
def BookShrinks (r r' : Redis) : Prop :=
  ∀ symbol side, (r'.book symbol side).Sublist (r.book symbol side)

theorem BookShrinks.mem {r r' : Redis} (h : BookShrinks r r') {symbol : Symbol} {side : OrderSide}
    {id : OrderId} (hid : id ∈ (r'.book symbol side).members) : id ∈ (r.book symbol side).members :=
  ((h symbol side).map Prod.snd).subset hid

theorem bookShrinks_refl {r r' : Redis} (h : r'.book = r.book) : BookShrinks r r' := fun _ _ => by
  rw [h]

theorem bookShrinks_removeRestingOrder (id : OrderId) (symbol : Symbol) (side : OrderSide) (r : Redis) :
    BookShrinks r (removeRestingOrder id symbol side r) := by
  intro symbol' side'
  simp only [removeRestingOrder, Redis.setBook]
  by_cases hsym : symbol' = symbol
  · subst hsym
    rw [Function.update_self]
    by_cases hside : side' = side
    · subst hside
      rw [Function.update_self]
      exact List.filter_sublist
    · rw [Function.update_of_ne hside]
  · rw [Function.update_of_ne hsym]

theorem bookShrinks_cleanUpCanceled (id : OrderId) (order : Order) (r : Redis) :
    BookShrinks r (cleanUpCanceled id order r) := by
  unfold cleanUpCanceled
  split_ifs
  · exact bookShrinks_refl rfl
  · exact bookShrinks_refl rfl
  · exact bookShrinks_removeRestingOrder id order.symbol order.side r

theorem bookShrinks_updateRedisMaker (id : OrderId) (maker : Order) (r : Redis) :
    BookShrinks r (updateRedisMaker id maker r) := by
  unfold updateRedisMaker
  split_ifs
  · exact bookShrinks_removeRestingOrder id maker.symbol maker.side r
  · exact bookShrinks_refl rfl

theorem updateRedisMaker_queue (id : OrderId) (maker : Order) (r : Redis) :
    (updateRedisMaker id maker r).ordersQueue = r.ordersQueue := by
  unfold updateRedisMaker
  split_ifs <;> rfl

theorem cleanUpCanceled_queue (id : OrderId) (order : Order) (r : Redis) :
    (cleanUpCanceled id order r).ordersQueue = r.ordersQueue := by
  unfold cleanUpCanceled
  split_ifs <;> rfl

theorem handOver_book (id : OrderId) (order : Order) (r : Redis) :
    (handOver id order r).book = r.book := by
  unfold handOver registerStopOrder
  split_ifs <;> rfl

/-- A stop is not queued to be placed. -/
theorem handOver_queue (id : OrderId) (order : Order) (r : Redis) :
    (handOver id order r).ordersQueue = r.ordersQueue ++
      if order.type.isStop then [] else [buildOrderActionPayload (placePayload id order)] := by
  unfold handOver registerStopOrder
  split_ifs
  · exact (List.append_nil _).symm
  · exact (List.append_nil _).symm
  · rfl

theorem replaceStop_book (stopId : OrderId) (isTrailing : Bool) (childId : OrderId) (child : Order)
    (r : Redis) : (replaceStop stopId isTrailing childId child r).book = r.book := by
  unfold replaceStop
  split_ifs <;> rfl

theorem replaceStop_queue (stopId : OrderId) (isTrailing : Bool) (childId : OrderId) (child : Order)
    (r : Redis) : (replaceStop stopId isTrailing childId child r).ordersQueue =
      r.ordersQueue ++ [buildOrderActionPayload (triggeredPayload stopId childId child)] := by
  unfold replaceStop
  split_ifs <;> rfl

/-! ### Rows stay -/

/-- Ids are given out in order. -/
def IdsBelow (s : Store) : Prop := ∀ id, s.pg.orders id ≠ none → id < s.orderIdSeq

/-- An order keeps its terms, and does not become pending. -/
def RowStays (o o' : Order) : Prop :=
  o'.terms = o.terms ∧ (o'.status = .pending → o.status = .pending)

theorem RowStays.refl (o : Order) : RowStays o o := ⟨rfl, id⟩

theorem RowStays.trans {o o' o'' : Order} (h : RowStays o o') (h' : RowStays o' o'') :
    RowStays o o'' := ⟨h'.1.trans h.1, h.2 ∘ h'.2⟩

/-- What `Drains` says. -/
structure Drained (s s' : Store) : Prop where
  ids : IdsBelow s'
  seq : s.orderIdSeq ≤ s'.orderIdSeq
  stays : ∀ id o, s.pg.orders id = some o → ∃ o', s'.pg.orders id = some o' ∧ RowStays o o'
  engine : EngineReady s.engine → EngineReady s'.engine
  book : BookShrinks s.redis s'.redis
  queue : ∀ p ∈ s'.redis.ordersQueue, p ∈ s.redis.ordersQueue ∨ p.action ≠ .place

/-- **Rows stay, and nothing is added to the book or to the queued placements.** -/
def Drains (s s' : Store) : Prop := IdsBelow s → Drained s s'

instance : IsPreorder Store Drains where
  refl s := fun h => ⟨h, le_rfl, fun _ o ho => ⟨o, ho, .refl o⟩, fun h => h, bookShrinks_refl rfl,
    fun _ hp => .inl hp⟩
  trans s s' s'' h h' := by
    intro hids
    have h := h hids
    have h' := h' h.ids
    refine ⟨h'.ids, h.seq.trans h'.seq, fun id o ho => ?_, fun he => h'.engine (h.engine he),
      fun symbol side => (h'.book symbol side).trans (h.book symbol side), fun p hp => ?_⟩
    · obtain ⟨o', ho', hs⟩ := h.stays id o ho
      obtain ⟨o'', ho'', hs'⟩ := h'.stays id o' ho'
      exact ⟨o'', ho'', hs.trans hs'⟩
    · rcases h'.queue p hp with hp | hp
      · exact h.queue p hp
      · exact .inr hp

section

variable {s s' : Store}

theorem drains_setEngine {e : Engine.CMatchingEngine} (h : EngineReady e) : Drains s (s.setEngine e) :=
  fun hids => ⟨hids, le_rfl, fun _ o ho => ⟨o, ho, .refl o⟩, fun _ => h, bookShrinks_refl rfl,
    fun _ hp => .inl hp⟩

theorem drains_quiet (h : Quiet s s') : Drains s s' := by
  obtain ⟨balances, updates, rfl⟩ := h
  exact fun hids => ⟨hids, le_rfl, fun _ o ho => ⟨o, ho, .refl o⟩, fun h => h, bookShrinks_refl rfl,
    fun _ hp => .inl hp⟩

/-- Only Redis has changed. -/
theorem drains_setRedis {f : Redis → Redis}
    (hbook : BookShrinks s.redis (f s.redis))
    (hqueue : ∀ p ∈ (f s.redis).ordersQueue, p ∈ s.redis.ordersQueue ∨ p.action ≠ .place) :
    Drains s (s.setRedis f) :=
  fun hids => ⟨hids, le_rfl, fun _ o ho => ⟨o, ho, .refl o⟩, fun h => h, hbook, hqueue⟩

/-- A row that is there is written. -/
theorem drains_putOrder {id : OrderId} {o o' : Order} (h : s.pg.orders id = some o)
    (hstays : RowStays o o') : Drains s (s.putOrder id o') := by
  refine fun hids => ⟨fun k hk => ?_, le_rfl, fun k o₁ ho => ?_, fun h => h, bookShrinks_refl rfl,
    fun _ hp => .inl hp⟩
  · by_cases hkid : k = id
    · subst hkid
      exact hids k (by rw [h]; simp)
    · exact hids k (by simpa [hkid] using hk)
  · by_cases hkid : k = id
    · subst hkid
      obtain rfl : o = o₁ := Option.some.inj (h.symm.trans ho)
      exact ⟨o', by simp, hstays⟩
    · exact ⟨o₁, by simpa [hkid] using ho, .refl o₁⟩

/-- A row with the next id is written. -/
theorem drains_insert (o : Order) : Drains s (s.insert o) := by
  intro hids
  have hnone : s.pg.orders s.orderIdSeq = none := by
    by_contra hne
    exact lt_irrefl _ (hids _ hne)
  refine ⟨fun k hk => ?_, Nat.le_succ _, fun k o₁ ho => ⟨o₁, ?_, .refl o₁⟩, fun h => h,
    bookShrinks_refl rfl, fun _ hp => .inl hp⟩
  · by_cases hks : k = s.orderIdSeq
    · exact hks ▸ Nat.lt_succ_self _
    · have hk' : s.pg.orders k ≠ none := by simpa [Store.insert, hks] using hk
      exact (hids k hk').trans (Nat.lt_succ_self _)
  · have hks : k ≠ s.orderIdSeq := by
      rintro rfl
      exact absurd (hnone.symm.trans ho) (by simp)
    simpa [Store.insert, hks] using ho

theorem drains_mapOrder {id : OrderId} {f : Order → Order} (hf : ∀ o, RowStays o (f o)) :
    Drains s (s.mapOrder id f) := by
  unfold Store.mapOrder
  cases h : s.pg.orders id with
  | none => exact refl_of Drains s
  | some o => exact drains_putOrder h (hf o)

theorem drains_addChild {parentId : OrderId} {parent : Order} {config : Option SltpConfig}
    {link : OrderId → Order → Order} (hlink : ∀ childId o, RowStays o (link childId o)) :
    Drains s (s.addChild parentId parent config link) := by
  cases config with
  | none => exact refl_of Drains s
  | some config => exact trans_of Drains (drains_insert _) (drains_mapOrder (hlink _))

/-- What a transaction that raises leaves behind. -/
theorem Drains.rollback (h : Drains s s') : Drains s { s' with pg := s.pg } :=
  fun hids => ⟨fun k hk => (hids k hk).trans_le (h hids).seq, (h hids).seq,
    fun _ o ho => ⟨o, ho, .refl o⟩, (h hids).engine, (h hids).book, (h hids).queue⟩

end

/-! ### The invariant -/

/-- A queued placement and the row of its order. -/
structure PayloadFits (p : OrderActionPayload) (o : Order) : Prop where
  userId : o.userId = p.userId
  symbol : o.symbol = p.symbol
  side : o.side = p.side
  type : o.type = p.type
  price : orNone o.price = p.price
  quantity : o.quantity = p.quantity
  active : o.status ≠ .pending

theorem PayloadFits.stays {p : OrderActionPayload} {o o' : Order} (h : PayloadFits p o)
    (hs : RowStays o o') : PayloadFits p o' where
  userId := (congrArg OrderTerms.userId hs.1).trans h.userId
  symbol := (congrArg OrderTerms.symbol hs.1).trans h.symbol
  side := (congrArg OrderTerms.side hs.1).trans h.side
  type := (congrArg OrderTerms.type hs.1).trans h.type
  price := (congrArg (fun t => orNone (OrderTerms.price t)) hs.1).trans h.price
  quantity := (congrArg OrderTerms.quantity hs.1).trans h.quantity
  active := fun hp => h.active (hs.2 hp)

/-- A resting order and its row. -/
structure RestsAs (symbol : Symbol) (side : OrderSide) (o : Order) : Prop where
  symbol : o.symbol = symbol
  side : o.side = side
  type : o.type.rests = true
  active : o.status ≠ .pending

theorem RestsAs.stays {symbol : Symbol} {side : OrderSide} {o o' : Order} (h : RestsAs symbol side o)
    (hs : RowStays o o') : RestsAs symbol side o' where
  symbol := (congrArg OrderTerms.symbol hs.1).trans h.symbol
  side := (congrArg OrderTerms.side hs.1).trans h.side
  type := by rw [show o'.type = o.type from congrArg OrderTerms.type hs.1]; exact h.type
  active := fun hp => h.active (hs.2 hp)

/-- The order of a placement has its row. -/
def Store.HasRow (s : Store) (p : OrderActionPayload) : Prop :=
  ∃ o, s.pg.orders p.orderId = some o ∧ PayloadFits p o

/-- A placement that is queued has its row. -/
def Store.Queueable (s : Store) (p : OrderActionPayload) : Prop := p.action = .place → s.HasRow p

/-- **What holds between two requests.** -/
structure Consistent (s : Store) : Prop where
  engine : EngineReady s.engine
  ids : IdsBelow s
  booked : ∀ symbol side, ∀ id ∈ (s.redis.book symbol side).members,
    ∃ o, s.pg.orders id = some o ∧ RestsAs symbol side o
  queued : ∀ p ∈ s.redis.ordersQueue, s.Queueable p

section

variable {s s' : Store}

theorem consistent_start (users : Finset UserId) (pairs : Symbol → Option TradingPair)
    (balances : Ledger.BalanceKey → Option Ledger.Row) :
    Consistent (Store.start users pairs balances) where
  engine := engineReady_new
  ids := fun _ h => absurd rfl h
  booked := fun _ _ _ h => absurd h List.not_mem_nil
  queued := fun _ h => absurd h List.not_mem_nil

theorem Store.HasRow.of_drains {p : OrderActionPayload} (h : s.HasRow p) (hd : Drained s s') :
    s'.HasRow p := by
  obtain ⟨o, ho, hfits⟩ := h
  obtain ⟨o', ho', hs⟩ := hd.stays _ o ho
  exact ⟨o', ho', hfits.stays hs⟩

theorem Consistent.of_drains (h : Consistent s) (hd : Drains s s') : Consistent s' := by
  have hd := hd h.ids
  refine ⟨hd.engine h.engine, hd.ids, fun symbol side id hid => ?_, fun p hp hplace => ?_⟩
  · obtain ⟨o, ho, hrests⟩ := h.booked symbol side id (hd.book.mem hid)
    obtain ⟨o', ho', hs⟩ := hd.stays id o ho
    exact ⟨o', ho', hrests.stays hs⟩
  · rcases hd.queue p hp with hp | hp
    · exact (h.queued p hp hplace).of_drains hd
    · exact absurd hplace hp

/-- A placement is queued. -/
theorem Consistent.setRedis (h : Consistent s) {f : Redis → Redis}
    (hbook : BookShrinks s.redis (f s.redis))
    (hqueue : ∀ p ∈ (f s.redis).ordersQueue, p ∈ s.redis.ordersQueue ∨ s.Queueable p) :
    Consistent (s.setRedis f) where
  engine := h.engine
  ids := h.ids
  booked := fun symbol side id hid => h.booked symbol side id (hbook.mem hid)
  queued := fun p hp => (hqueue p hp).elim (h.queued p) fun hq => hq

/-- A placement that is queued, as the worker reads it. -/
theorem queueable_build {p : OrderActionPayload} {o : Order}
    (ho : s.pg.orders p.orderId = some o) (hfits : PayloadFits p o) :
    s.Queueable (buildOrderActionPayload p) := fun _ =>
  ⟨o, ho, ⟨hfits.userId, hfits.symbol, hfits.side, hfits.type, hfits.price, hfits.quantity,
    hfits.active⟩⟩

/-! ### A batch -/

theorem updateRedisMaker_drains {id : OrderId} {maker : Order} :
    Drains s (s.setRedis (updateRedisMaker id maker)) :=
  drains_setRedis (bookShrinks_updateRedisMaker id maker s.redis) fun _ hp => .inl (by
    rwa [updateRedisMaker_queue] at hp)

theorem rowStays_filledAsMaker (o : Order) (qty quoteQty : ℚ) :
    RowStays o (o.filledAsMaker qty quoteQty) := by
  refine ⟨rfl, fun h => ?_⟩
  simp only [Order.filledAsMaker] at h
  split_ifs at h

theorem rowStays_filledAsTaker (o : Order) (qty quoteQty : ℚ) :
    RowStays o (o.filledAsTaker qty quoteQty) := by
  refine ⟨rfl, fun h => ?_⟩
  simp only [Order.filledAsTaker] at h
  split_ifs at h
  exact h

/-- **The steps of a batch** that may be followed by an exception. -/
theorem drains_fillSteps (args : BatchArgs) (trades : List DomainTrade) :
    FillSteps args trades Drains where
  trade := fun _ _ _ hids => ⟨hids, le_rfl, fun _ o ho => ⟨o, ho, .refl o⟩, fun h => h,
    bookShrinks_refl rfl, fun _ hp => .inl hp⟩
  makerUser := fun _ _ _ _ hids => ⟨hids, le_rfl, fun _ o ho => ⟨o, ho, .refl o⟩, fun h => h,
    bookShrinks_refl rfl, fun _ hp => .inl hp⟩
  balance := fun s key row update => drains_quiet (quiet_moveBalance s key row update)
  maker := fun _ _ _ _ ho => drains_putOrder ho (rowStays_filledAsMaker _ _ _)
  redisMaker := fun _ _ _ _ _ => updateRedisMaker_drains
  taker := fun _ _ ho => drains_putOrder ho (rowStays_filledAsTaker _ _ _)

/-- Activating a child queues a placement of a row that is there. -/
theorem consistent_activate (parentId : OrderId) {id : OrderId} {child : Order} (h : Consistent s)
    (hchild : s.pg.orders id = some child) : Consistent (s.activate parentId id child) ∧
      ∀ p, s.HasRow p → (s.activate parentId id child).HasRow p := by
  have hdrains : Drains s (s.putOrder id { child with status := .new, version := child.version + 1 }) :=
    drains_putOrder hchild ⟨rfl, fun hp => absurd hp (by simp)⟩
  refine ⟨(h.of_drains hdrains).setRedis (bookShrinks_refl rfl) fun p hp => ?_, fun p hp => ?_⟩
  swap
  · have hkept := hp.of_drains (hdrains h.ids)
    exact hkept
  rcases List.mem_append.mp hp with hp | hp
  · exact .inl hp
  · rw [List.mem_singleton.mp hp]
    have hrow : (s.putOrder id { child with status := .new, version := child.version + 1 }).pg.orders
        (childPayload parentId id child).orderId =
          some { child with status := .new, version := child.version + 1 } := Function.update_self ..
    exact .inr (queueable_build hrow ⟨rfl, rfl, rfl, rfl, rfl, rfl, fun hn => nomatch hn⟩)

/-- **A batch.** -/
theorem consistent_batch (args : BatchArgs) (trades : List DomainTrade) (p : OrderActionPayload) :
    Prog.Moves (Prog.Preserves fun s => Consistent s ∧ s.HasRow p) (persistTradeBatch args trades) := by
  have hsteps := drains_fillSteps args trades
  have hdrains : ∀ {s s' : Store}, Drains s s' → Consistent s ∧ s.HasRow p →
      Consistent s' ∧ s'.HasRow p := fun hd h => ⟨h.1.of_drains hd, h.2.of_drains (hd h.1.ids)⟩
  refine persistTradeBatch_moves
    { trade := fun s t ht => hdrains (hsteps.trade s t ht)
      makerUser := fun s first makerId userId => hdrains (hsteps.makerUser s first makerId userId)
      balance := fun s key row update => hdrains (hsteps.balance s key row update)
      maker := fun s d hd o ho => hdrains (hsteps.maker s d hd o ho)
      redisMaker := fun s d hd o ho => hdrains (hsteps.redisMaker s d hd o ho)
      taker := fun s o ho => hdrains (hsteps.taker s o ho) } ?_
  intro s id child hchild _ h
  obtain ⟨hc, hrow⟩ := consistent_activate args.takerOrderId h.1 hchild
  exact ⟨hc, hrow p h.2⟩

/-! ### A placement -/

theorem members_addToBook {symbol symbol' : Symbol} {side side' : OrderSide} {score : ℚ}
    {id k : OrderId} (h : k ∈ ((s.addToBook symbol side score id).redis.book symbol' side').members) :
    k ∈ (s.redis.book symbol' side').members ∨ k = id ∧ symbol' = symbol ∧ side' = side := by
  simp only [Store.addToBook, Store.setRedis, Redis.setBook] at h
  by_cases hsym : symbol' = symbol
  · subst hsym
    rw [Function.update_self] at h
    by_cases hside : side' = side
    · subst hside
      rw [Function.update_self] at h
      obtain ⟨x, hx, rfl⟩ := List.mem_map.mp h
      rcases SortedSet.mem_zadd.mp hx with rfl | ⟨hx, -⟩
      · exact .inr ⟨rfl, rfl, rfl⟩
      · exact .inl (List.mem_map_of_mem hx)
    · rw [Function.update_of_ne hside] at h
      exact .inl h
  · rw [Function.update_of_ne hsym] at h
    exact .inl h

theorem drains_prepareResting {p : OrderActionPayload} {remaining : ℚ} :
    Drains s (s.prepareResting p remaining) :=
  drains_setRedis (f := fun r => { hset p.orderId (restingHash p remaining) r with
    seq := Function.update r.seq p.symbol (r.seq p.symbol + 1) }) (bookShrinks_refl rfl) fun _ h => .inl h

theorem consistent_rest {p : OrderActionPayload} {remaining score : ℚ} (h : Consistent s)
    (hrow : s.HasRow p) (hrests : p.type.rests = true) :
    Consistent (s.rest p remaining score) := by
  have hprep : Consistent (s.prepareResting p remaining) := h.of_drains drains_prepareResting
  refine ⟨hprep.engine, hprep.ids, fun symbol side id hid => ?_, hprep.queued⟩
  rcases members_addToBook hid with hid | ⟨rfl, rfl, rfl⟩
  · exact hprep.booked symbol side id hid
  · obtain ⟨o, ho, hfits⟩ := hrow
    exact ⟨o, ho, hfits.symbol, hfits.side, by rw [hfits.type]; exact hrests, hfits.active⟩

theorem consistent_finish {p : OrderActionPayload} {remaining : ℚ} (h : Consistent s)
    (hrow : s.HasRow p)
    (hstep : FinishStep p remaining s s') : Consistent s' := by
  cases hstep with
  | left _ => exact h
  | unscored _ _ _ _ => exact h.of_drains drains_prepareResting
  | rested _ hrests _ _ => exact consistent_rest h hrow hrests
  | refunded _ _ key row update => exact h.of_drains (drains_quiet (quiet_moveBalance s key row update))

/-- **A placement.** -/
theorem consistent_place {p : OrderActionPayload} (h : Consistent s) (hrow : s.HasRow p)
    (hstep : PlaceStep p s s') : Consistent s' := by
  cases hstep with
  | unmatched e ready => exact h.of_drains (drains_setEngine ready)
  | undone e ready r _ pair _ err s₁ hbatch =>
    exact h.of_drains (trans_of Drains (drains_setEngine ready)
      (persistTradeBatch_moves_error (drains_fillSteps _ _) hbatch)).rollback
  | untraded e ready r _ _ _ _ finish =>
    exact consistent_finish (h.of_drains (drains_setEngine ready)) hrow finish
  | traded e ready r _ _ pair _ rows s₂ hbatch _ finish =>
    obtain ⟨h₂, hrow₂⟩ := (consistent_batch _ _ p).of_ok hbatch
      ⟨h.of_drains (drains_setEngine ready), hrow⟩
    exact consistent_finish h₂ hrow₂ finish

/-! ### Requests -/

theorem addChild_redis (parentId : OrderId) (parent : Order) (config : Option SltpConfig)
    (link : OrderId → Order → Order) :
    (s.addChild parentId parent config link).redis = s.redis ∧
      (s.addChild parentId parent config link).pg.trades = s.pg.trades ∧
      (s.addChild parentId parent config link).pg.balances = s.pg.balances := by
  cases config with
  | none => exact ⟨rfl, rfl, rfl⟩
  | some config =>
    simp only [Store.addChild, Store.mapOrder]
    split <;> exact ⟨rfl, rfl, rfl⟩

/-- Inserting changes neither Redis nor trades or balances. -/
theorem inserted_redis (s : Store) (userId : UserId) (dto : OrderCreateDto) :
    (s.inserted userId dto).redis = s.redis ∧ (s.inserted userId dto).pg.trades = s.pg.trades ∧
      (s.inserted userId dto).pg.balances = s.pg.balances := by
  obtain ⟨h, h', h''⟩ := addChild_redis (s := s.insert (newOrder userId dto)) s.orderIdSeq
    (newOrder userId dto) dto.sl fun childId o => { o with slOrderId := some childId }
  obtain ⟨k, k', k''⟩ := addChild_redis (s := (s.insert (newOrder userId dto)).addChild s.orderIdSeq
    (newOrder userId dto) dto.sl fun childId o => { o with slOrderId := some childId }) s.orderIdSeq
      (newOrder userId dto) dto.tp fun childId o => { o with tpOrderId := some childId }
  exact ⟨k.trans h, k'.trans h', k''.trans h''⟩

theorem drains_children (s : Store) (userId : UserId) (dto : OrderCreateDto) :
    Drains (s.insert (newOrder userId dto)) (s.inserted userId dto) := by
  have hsl : ∀ childId o, RowStays o { o with slOrderId := some childId } := fun _ _ => ⟨rfl, id⟩
  have htp : ∀ childId o, RowStays o { o with tpOrderId := some childId } := fun _ _ => ⟨rfl, id⟩
  exact trans_of Drains (drains_addChild hsl) (drains_addChild htp)

theorem drains_inserted (s : Store) (userId : UserId) (dto : OrderCreateDto) :
    Drains s (s.inserted userId dto) :=
  trans_of Drains (drains_insert _) (drains_children s userId dto)

/-- The row of the new order, its links apart. -/
theorem inserted_row (hids : IdsBelow s) (userId : UserId) (dto : OrderCreateDto) :
    ∃ o, (s.inserted userId dto).pg.orders s.orderIdSeq = some o ∧ RowStays (newOrder userId dto) o :=
  (drains_children s userId dto (drains_insert _ hids).ids).stays s.orderIdSeq _
    (Function.update_self ..)

/-- The placement of a new order and its row. -/
theorem payloadFits_newOrder {dto : OrderCreateDto} (hstop : ¬ dto.type.isStop = true)
    (userId : UserId) (id : OrderId) :
    PayloadFits (placePayload id (newOrder userId dto)) (newOrder userId dto) :=
  ⟨rfl, rfl, rfl, rfl, rfl, rfl, by simp [newOrder, hstop]⟩

/-- **An order is placed.** -/
theorem consistent_placed (h : Consistent s) (userId : UserId) (dto : OrderCreateDto) :
    Consistent (s.placed userId dto) := by
  refine (h.of_drains (drains_inserted s userId dto)).setRedis (bookShrinks_refl (handOver_book _ _ _))
    fun p hp => ?_
  rw [handOver_queue, List.mem_append] at hp
  refine hp.imp_right fun hp => ?_
  split_ifs at hp with hstop
  · exact absurd hp List.not_mem_nil
  · obtain ⟨o, ho, hstays⟩ := inserted_row h.ids userId dto
    rw [List.mem_singleton.mp hp]
    exact queueable_build ho ((payloadFits_newOrder hstop userId s.orderIdSeq).stays hstays)

/-- **An order is cancelled.** -/
theorem drains_cancel {id : OrderId} {order : Order} (horder : s.pg.orders id = some order) :
    Drains s (s.cancel id order) := by
  refine fun hids => ⟨fun k hk => ?_, le_rfl, fun k o ho => ?_, fun h => h,
    bookShrinks_cleanUpCanceled id order s.redis, fun p hp => ?_⟩
  · by_cases hkid : k = id
    · subst hkid
      exact hids k (by rw [horder]; simp)
    · exact hids k (by simpa [Store.cancel, hkid] using hk)
  -- first the row itself, then the parent that loses its link to it
  · have hcanceled : RowStays o (if k = id then order.canceled else o) := by
      split_ifs with hkid
      · subst hkid
        obtain rfl : order = o := Option.some.inj (horder.symm.trans ho)
        exact ⟨rfl, fun hp => nomatch hp⟩
      · exact .refl o
    refine ⟨(if k = id then order.canceled else o).orphaned id, ?_, hcanceled.trans ?_⟩
    · by_cases hkid : k = id <;> simp [Store.cancel, hkid, ho]
    · unfold Order.orphaned
      split_ifs
      · exact ⟨rfl, fun hp => nomatch hp⟩
      · exact .refl _
      · exact ⟨rfl, fun hp => nomatch hp⟩
      · exact .refl _
  · rcases List.mem_append.mp hp with hp | hp
    · rw [cleanUpCanceled_queue] at hp
      exact .inl hp
    · rw [List.mem_singleton.mp hp]
      exact .inr fun hplace => nomatch hplace

/-- **An order is replaced.** -/
theorem drains_replace {id : OrderId} {old : Order} {newPrice newQuantity : ℚ}
    (hold : s.pg.orders id = some old) : Drains s (s.replace id old newPrice newQuantity) := by
  intro hids
  have hne : id ≠ s.orderIdSeq := (hids id (by rw [hold]; simp)).ne
  have hrow : ((s.putOrder id old.canceled).insert (replacement id old newPrice newQuantity)).pg.orders id =
      some old.canceled := by
    show Function.update (Function.update s.pg.orders id (some old.canceled)) s.orderIdSeq _ id = _
    rw [Function.update_of_ne hne, Function.update_self]
  have hcanceled : RowStays old old.canceled := ⟨rfl, fun hp => nomatch hp⟩
  have hlinked : RowStays old.canceled (old.replacedBy s.orderIdSeq) := ⟨rfl, fun hp => nomatch hp⟩
  have hredis : Drains (((s.putOrder id old.canceled).insert
      (replacement id old newPrice newQuantity)).putOrder id (old.replacedBy s.orderIdSeq))
        (s.replace id old newPrice newQuantity) := by
    refine drains_setRedis (bookShrinks_removeRestingOrder id old.symbol old.side s.redis) fun p hp => ?_
    rcases List.mem_append.mp hp with hp | hp
    · exact .inl hp
    · rw [List.mem_singleton.mp hp]
      exact .inr fun hplace => nomatch hplace
  exact trans_of Drains (trans_of Drains (trans_of Drains (drains_putOrder hold hcanceled)
    (drains_insert _)) (drains_putOrder hrow hlinked)) hredis hids

theorem drains_converted {id : OrderId} {order : Order} (lock : Asset × ℚ)
    (horder : s.pg.orders id = some order) : Drains s (s.converted id order lock) := by
  have hfilled : RowStays order { order with status := .filled, version := order.version + 1 } :=
    ⟨rfl, fun hp => nomatch hp⟩
  have hput : Drains s ((s.moveBalance (order.userId, lock.1)
      (lockedRow (s.rowOrZero (order.userId, lock.1)) lock.2)
      (lockUpdate (order.userId, lock.1) (-lock.2) .stopTriggered (some id))).putOrder id
        { order with status := .filled, version := order.version + 1 }) :=
    trans_of Drains (drains_quiet (quiet_moveBalance s _ _ _)) (drains_putOrder horder hfilled)
  exact trans_of Drains hput (drains_insert (triggeredChild id order))

/-- The row of the order that a triggered stop becomes. -/
theorem converted_row (s : Store) (id : OrderId) (order : Order) (lock : Asset × ℚ) :
    (s.converted id order lock).pg.orders s.orderIdSeq = some (triggeredChild id order) :=
  Function.update_self ..

/-- **A stop is triggered.** -/
theorem consistent_trigger (h : Consistent s) {id : OrderId} {order : Order} (lock : Asset × ℚ)
    (isTrailing : Bool) (horder : s.pg.orders id = some order) :
    Consistent (s.trigger id order lock isTrailing) := by
  refine (h.of_drains (drains_converted lock horder)).setRedis
    (bookShrinks_refl (replaceStop_book _ _ _ _ _)) fun p hp => ?_
  rw [replaceStop_queue, List.mem_append] at hp
  refine hp.imp_right fun hp => ?_
  rw [List.mem_singleton.mp hp]
  exact queueable_build (p := triggeredPayload id s.orderIdSeq (triggeredChild id order))
    (converted_row s id order lock) ⟨rfl, rfl, rfl, rfl, rfl, rfl, fun hp => nomatch hp⟩

/-- **A round of the worker.** -/
theorem consistent_work (h : Consistent s) : Consistent (work s).2 := by
  rcases work_cases h.engine with ⟨-, hx⟩ | ⟨p, rest, s', hqueue, hx, hcases⟩ <;> rw [hx]
  · exact h
  · have hpop : Consistent (s.setQueue rest) :=
      h.of_drains (drains_setRedis (f := fun r => { r with ordersQueue := rest }) (bookShrinks_refl rfl)
        fun q hq => .inl (by rw [hqueue]; exact List.mem_cons_of_mem _ hq))
    rcases hcases with ⟨-, rfl⟩ | ⟨hplace, hstep⟩
    · exact hpop
    · exact consistent_place hpop (h.queued p (by rw [hqueue]; exact List.mem_cons_self) hplace) hstep

theorem quiet_lockFor (userId : UserId) (dto : OrderCreateDto) (lock : Asset × ℚ) :
    Quiet s (s.lockFor userId dto lock) := by
  unfold Store.lockFor
  by_cases hlock : dto.type.isStop = false ∧ 0 < lock.2
  · rw [if_pos hlock]
    exact quiet_moveBalance s _ _ _
  · rw [if_neg hlock]
    exact refl_of Quiet s

theorem quiet_lockAll (userId : UserId) (reqs : List (Asset × ℚ)) :
    Quiet s (s.lockAll userId reqs) := by
  unfold Store.lockAll
  induction reqs generalizing s with
  | nil => exact refl_of Quiet s
  | cons req reqs ih => exact trans_of Quiet (quiet_moveBalance s _ _ _) ih

end

/-! ### A market with two users -/

/-- Two users, each with a thousand of every asset. -/
def twoUsers : Store :=
  Store.start {1, 2} (fun _ => some
    { baseAsset := "BTC", quoteAsset := "USDT", minLotSize := 1, maxLotSize := 100, tickSize := 1,
      isActive := true })
    fun key => if key.1 = 1 ∨ key.1 = 2 then some ⟨1000, 0, 1000, 1⟩ else none

/-- A limit order. -/
def limitDto (side : OrderSide) (quantity price : ℚ) : OrderCreateDto where
  symbol := "BTC/USDT"
  side := side
  type := .limit
  price := some price
  quantity := quantity

end SpotExchange.Exchange
