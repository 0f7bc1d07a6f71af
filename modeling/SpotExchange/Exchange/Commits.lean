import SpotExchange.Exchange.Running

namespace SpotExchange.Exchange

open SpotExchange.Lib
open SpotExchange.Engine (OrderId)

/-!
# Placements that are not yet committed

`place_order` enqueues its action, and its caller commits afterwards.  Any number of placements run
side by side here, each in the steps lock, insert, push, and commit or roll back, with the worker
between them.  The worker finds the committed tables, and whatever is in Redis.

* `Backend`, `Step` — the placements, and who goes on;
* `Backend.Inv` — what holds in every state, if no placement is rolled back after its push;
* `worker_committed` — the worker handles committed orders only, in every run in which it is not
  faster than a commit;
* `uncommittedPlacement_rests` — if it is, it leaves an order in the book that has no row.
-/

/-! ### The worker -/

/-- What a round of the worker keeps: rows stay, and whatever it enqueues is a child. -/
structure Processed (s s' : Store) : Prop where
  seq : s'.orderIdSeq = s.orderIdSeq
  none : ∀ id, s.pg.orders id = none → s'.pg.orders id = none
  stays : ∀ id o, s.pg.orders id = some o → ∃ o', s'.pg.orders id = some o' ∧ RowStays o o'
  engine : EngineReady s.engine → EngineReady s'.engine
  queue : ∀ p ∈ s'.redis.ordersQueue, p ∈ s.redis.ordersQueue ∨ p.parentOrderId ≠ .none

instance : IsPreorder Store Processed where
  refl s := ⟨rfl, fun _ h => h, fun _ o ho => ⟨o, ho, .refl o⟩, fun h => h, fun _ h => .inl h⟩
  trans s s' s'' h h' := by
    refine ⟨h'.seq.trans h.seq, fun id hid => h'.none id (h.none id hid), fun id o ho => ?_,
      fun he => h'.engine (h.engine he), fun p hp => (h'.queue p hp).elim (h.queue p) .inr⟩
    obtain ⟨o', ho', hs⟩ := h.stays id o ho
    obtain ⟨o'', ho'', hs'⟩ := h'.stays id o' ho'
    exact ⟨o'', ho'', hs.trans hs'⟩

section

variable {s s' : Store}

private theorem processed_of_orders (horders : s'.pg.orders = s.pg.orders)
    (hseq : s'.orderIdSeq = s.orderIdSeq) (hengine : s'.engine = s.engine)
    (hqueue : s'.redis.ordersQueue = s.redis.ordersQueue) : Processed s s' :=
  ⟨hseq, fun id h => by rw [horders]; exact h, fun id o ho => ⟨o, by rw [horders]; exact ho, .refl o⟩,
    fun h => by rw [hengine]; exact h, fun p hp => .inl (by rwa [hqueue] at hp)⟩

private theorem processed_putOrder {id : OrderId} {o o' : Order} (h : s.pg.orders id = some o)
    (hstays : RowStays o o') : Processed s (s.putOrder id o') := by
  refine ⟨rfl, fun k hk => ?_, fun k o₁ ho => ?_, fun h => h, fun _ h => .inl h⟩
  · have hne : k ≠ id := by
      rintro rfl
      exact absurd (h.symm.trans hk) (by simp)
    simpa [hne] using hk
  · by_cases hk : k = id
    · subst hk
      obtain rfl : o = o₁ := Option.some.inj (h.symm.trans ho)
      exact ⟨o', by simp, hstays⟩
    · exact ⟨o₁, by simpa [hk] using ho, .refl o₁⟩

private theorem processed_setEngine {e : Engine.CMatchingEngine} (h : EngineReady e) :
    Processed s (s.setEngine e) :=
  ⟨rfl, fun _ h => h, fun _ o ho => ⟨o, ho, .refl o⟩, fun _ => h, fun _ h => .inl h⟩

private theorem processed_fillSteps (args : BatchArgs) (trades : List DomainTrade) :
    FillSteps args trades Processed where
  trade := fun _ _ _ => processed_of_orders rfl rfl rfl rfl
  makerUser := fun _ _ _ _ => processed_of_orders rfl rfl rfl rfl
  balance := fun _ _ _ _ => processed_of_orders rfl rfl rfl rfl
  maker := fun _ _ _ _ ho => processed_putOrder ho (rowStays_filledAsMaker _ _ _)
  redisMaker := fun _ _ _ _ _ => processed_of_orders rfl rfl rfl (updateRedisMaker_queue _ _ _)
  taker := fun _ _ ho => processed_putOrder ho (rowStays_filledAsTaker _ _ _)

private theorem processed_childSteps (parentId : OrderId) : ChildSteps parentId Processed := by
  intro s id child hchild hpending
  have hput : Processed s (s.putOrder id { child with status := .new, version := child.version + 1 }) :=
    processed_putOrder hchild ⟨rfl, OrderStatus.noConfusion⟩
  refine ⟨hput.seq, hput.none, hput.stays, hput.engine, fun p hp => ?_⟩
  rcases List.mem_append.mp hp with hp | hp
  · exact .inl hp
  · rw [List.mem_singleton.mp hp]
    exact .inr (by simp [childPayload, buildOrderActionPayload])

private theorem processed_finish {p : OrderActionPayload} {remaining : ℚ}
    (hstep : FinishStep p remaining s s') : Processed s s' := by
  cases hstep with
  | left _ => exact refl_of Processed s
  | unscored _ _ _ _ => exact processed_of_orders rfl rfl rfl rfl
  | rested _ _ _ _ => exact processed_of_orders rfl rfl rfl rfl
  | refunded _ _ _ _ _ => exact processed_of_orders rfl rfl rfl rfl

private theorem processed_place {p : OrderActionPayload} (hstep : PlaceStep p s s') :
    Processed s s' := by
  cases hstep with
  | unmatched e ready => exact processed_setEngine ready
  | undone e ready r _ pair _ err s₁ hbatch =>
    -- the transaction is undone, and no child has been enqueued
    have h := trans_of Processed (processed_setEngine (s := s) ready)
      (persistTradeBatch_moves_error (processed_fillSteps _ _) hbatch)
    exact ⟨h.seq, fun _ h => h, fun _ o ho => ⟨o, ho, .refl o⟩, h.engine, h.queue⟩
  | untraded e ready r _ _ _ _ finish =>
    exact trans_of Processed (processed_setEngine ready) (processed_finish finish)
  | traded e ready r _ _ pair _ rows s₂ hbatch _ finish =>
    have hmoves := persistTradeBatch_moves (processed_fillSteps (batchArgs p pair) (s.domainTrades p r))
      (processed_childSteps _)
    exact trans_of Processed (trans_of Processed (processed_setEngine ready) (hmoves.of_ok hbatch))
      (processed_finish finish)

/-- **A round of the worker.** -/
theorem processed_work (h : EngineReady s.engine) : Processed s (work s).2 := by
  rcases work_cases h with ⟨-, hx⟩ | ⟨p, rest, s', hqueue, hx, hcases⟩ <;> rw [hx]
  · exact refl_of Processed s
  have hpop : Processed s (s.setQueue rest) :=
    ⟨rfl, fun _ h => h, fun _ o ho => ⟨o, ho, .refl o⟩, fun h => h, fun q hq => .inl (by
      rw [hqueue]
      exact List.mem_cons_of_mem _ hq)⟩
  rcases hcases with ⟨-, rfl⟩ | ⟨-, hstep⟩
  · exact hpop
  · exact trans_of Processed hpop (processed_place hstep)

end

/-! ### Placements -/

/-- What a placement has written without committing it. -/
structure Draft where
  userId : UserId
  dto : OrderCreateDto
  lock : Asset × ℚ
  id : OrderId
  /-- The rows of the order and of its children. -/
  rows : OrderId → Option Order

/-- How far a placement has come. -/
inductive Placement
  | idle
  | locked (userId : UserId) (dto : OrderCreateDto) (lock : Asset × ℚ)
  | inserted (d : Draft)
  | pushed (d : Draft)
  | committed (d : Draft)
  | rolledBack

/-- The committed tables and Redis, the placements, and the locks of those that are committed. -/
structure Backend where
  store : Store
  placements : ℕ → Placement
  locks : OrderId → Option (Asset × ℚ)

/-- Who goes on. -/
inductive Step
  | lock (c : ℕ) (userId : UserId) (dto : OrderCreateDto)
  | insert (c : ℕ)
  | push (c : ℕ)
  | commit (c : ℕ)
  | rollback (c : ℕ)
  | work

/-- The rows that a placement inserts. -/
def Store.draft (s : Store) (userId : UserId) (dto : OrderCreateDto) (lock : Asset × ℚ) : Draft where
  userId := userId
  dto := dto
  lock := lock
  id := s.orderIdSeq
  rows := fun k => if s.orderIdSeq ≤ k then (s.inserted userId dto).pg.orders k else none

/-- The tables with a placement committed. -/
def Store.commitDraft (s : Store) (d : Draft) : Store :=
  { s with pg := { (s.lockFor d.userId d.dto d.lock).pg with
    orders := fun k => (d.rows k).or (s.pg.orders k) } }

/-- **One step.**  A step that is not possible changes nothing. -/
def Backend.step (b : Backend) : Step → Backend
  | .lock c userId dto =>
      match b.placements c with
      | .idle =>
          -- nothing is committed, but the event is published
          let locked := lockPlacement userId dto b.store
          { b with
            store := { locked.2 with pg := b.store.pg }
            placements := Function.update b.placements c
              (match locked.1 with | .ok lock => .locked userId dto lock | .error _ => .rolledBack) }
      | _ => b
  | .insert c =>
      match b.placements c with
      | .locked userId dto lock =>
          { b with
            store := { b.store with orderIdSeq := (b.store.inserted userId dto).orderIdSeq }
            placements := Function.update b.placements c (.inserted (b.store.draft userId dto lock)) }
      | _ => b
  | .push c =>
      match b.placements c with
      | .inserted d =>
          { b with
            store := b.store.setRedis (handOver d.id (newOrder d.userId d.dto))
            placements := Function.update b.placements c (.pushed d) }
      | _ => b
  | .commit c =>
      match b.placements c with
      | .pushed d =>
          { store := b.store.commitDraft d
            placements := Function.update b.placements c (.committed d)
            locks := Function.update b.locks d.id (some d.lock) }
      | _ => b
  | .rollback c =>
      match b.placements c with
      | .locked _ _ _ | .inserted _ | .pushed _ =>
          -- the rows are gone, what was pushed to Redis stays
          { b with placements := Function.update b.placements c .rolledBack }
      | _ => b
  | .work => { b with store := (work b.store).2 }

/-- The placement that a step is of. -/
def Step.placement : Step → Option ℕ
  | .lock c _ _ | .insert c | .push c | .commit c | .rollback c => some c
  | .work => none

/-- A step leaves other placements where they are. -/
theorem step_placements_of_ne (b : Backend) {step : Step} {c : ℕ} (h : step.placement ≠ some c) :
    (b.step step).placements c = b.placements c := by
  cases step with
  | work => rfl
  | _ c' =>
    have hne : c ≠ c' := fun heq => h (by rw [heq]; rfl)
    simp only [Backend.step]
    split
    all_goals first | rfl | exact Function.update_of_ne hne _ _

/-- No placement has begun. -/
def Backend.start (users : Finset UserId) (pairs : Symbol → Option TradingPair)
    (balances : Ledger.BalanceKey → Option Ledger.Row) : Backend where
  store := Store.start users pairs balances
  placements := fun _ => .idle
  locks := fun _ => none

/-! ### A placement without interruption -/

section

variable {s : Store}

private theorem addChild_orders {s : Store} {parentId : OrderId} {parent : Order}
    {config : Option SltpConfig} {link : OrderId → Order → Order} {k : OrderId}
    (hk : k ≠ s.orderIdSeq) (hparent : k ≠ parentId) :
    (s.addChild parentId parent config link).pg.orders k = s.pg.orders k := by
  cases config with
  | none => rfl
  | some config =>
    have hinsert : (s.insert (sltpChild parentId parent config)).pg.orders k = s.pg.orders k :=
      Function.update_of_ne hk _ _
    rw [← hinsert]
    show ((s.insert (sltpChild parentId parent config)).mapOrder parentId
      (link s.orderIdSeq)).pg.orders k = _
    unfold Store.mapOrder
    cases (s.insert (sltpChild parentId parent config)).pg.orders parentId with
    | none => rfl
    | some o => exact Function.update_of_ne hparent _ _

/-- Inserting an order leaves the others alone. -/
theorem inserted_orders_of_lt (s : Store) (userId : UserId) (dto : OrderCreateDto) {k : OrderId}
    (hk : k < s.orderIdSeq) : (s.inserted userId dto).pg.orders k = s.pg.orders k := by
  have hseq : s.orderIdSeq + 1 ≤ ((s.insert (newOrder userId dto)).addChild s.orderIdSeq
      (newOrder userId dto) dto.sl fun childId o => { o with slOrderId := some childId }).orderIdSeq := by
    unfold Store.addChild
    split
    · exact le_rfl
    · exact Nat.le_succ _
  have hne : k ≠ (s.insert (newOrder userId dto)).orderIdSeq := ne_of_lt (hk.trans (Nat.lt_succ_self _))
  refine (addChild_orders ?_ hk.ne).trans ((addChild_orders hne hk.ne).trans ?_)
  · exact (hk.trans_le ((Nat.le_succ _).trans hseq)).ne
  · exact Function.update_of_ne hk.ne _ _

/-- What a draft says of the rows that a placement inserts. -/
structure Drafted (s : Store) (d : Draft) : Prop where
  row : ∃ o, d.rows d.id = some o ∧ RowStays (newOrder d.userId d.dto) o
  fresh : ∀ k, d.rows k ≠ none → k < s.orderIdSeq ∧ s.pg.orders k = none

/-- The draft of an insertion, in a store whose ids are given out in order. -/
theorem drafted_insert (hids : IdsBelow s) (userId : UserId) (dto : OrderCreateDto)
    (lock : Asset × ℚ) : Drafted { s with orderIdSeq := (s.inserted userId dto).orderIdSeq }
      (s.draft userId dto lock) where
  row := by
    obtain ⟨o, ho, hs⟩ := inserted_row hids userId dto
    exact ⟨o, (if_pos le_rfl).trans ho, hs⟩
  fresh := by
    intro k hk
    have hle : s.orderIdSeq ≤ k := by
      by_contra hlt
      exact hk (if_neg hlt)
    have hrow : (s.inserted userId dto).pg.orders k ≠ none := by
      rwa [show (s.draft userId dto lock).rows k = _ from if_pos hle] at hk
    refine ⟨(drains_inserted s userId dto hids).ids k hrow, ?_⟩
    by_contra hne
    exact absurd (hids k hne) (not_lt.mpr hle)

/-- `f` writes orders and takes ids, and looks at nothing else. -/
private def WritesOrders (f : Store → Store) : Prop :=
  ∀ orders seq, ∃ orders' seq', ∀ s : Store, s.pg.orders = orders → s.orderIdSeq = seq →
    f s = { s with pg := { s.pg with orders := orders' }, orderIdSeq := seq' }

private theorem WritesOrders.comp {f g : Store → Store} (hg : WritesOrders g) (hf : WritesOrders f) :
    WritesOrders fun s => g (f s) := by
  intro orders seq
  obtain ⟨orders₁, seq₁, h₁⟩ := hf orders seq
  obtain ⟨orders₂, seq₂, h₂⟩ := hg orders₁ seq₁
  refine ⟨orders₂, seq₂, fun s ho hs => ?_⟩
  show g (f s) = _
  rw [h₁ s ho hs, h₂ _ rfl rfl]

private theorem writesOrders_addChild (parentId : OrderId) (parent : Order)
    (config : Option SltpConfig) (link : OrderId → Order → Order) :
    WritesOrders fun s => s.addChild parentId parent config link := by
  intro orders seq
  cases config with
  | none => exact ⟨orders, seq, fun s ho hs => by rw [← ho, ← hs]; rfl⟩
  | some config =>
    cases hrow : Function.update orders seq (some (sltpChild parentId parent config)) parentId with
    | none =>
      refine ⟨Function.update orders seq (some (sltpChild parentId parent config)), seq + 1,
        fun s ho hs => ?_⟩
      subst ho hs
      show (s.insert (sltpChild parentId parent config)).mapOrder parentId (link s.orderIdSeq) = _
      unfold Store.mapOrder
      rw [show (s.insert (sltpChild parentId parent config)).pg.orders parentId = none from hrow]
      rfl
    | some o =>
      refine ⟨Function.update (Function.update orders seq (some (sltpChild parentId parent config)))
        parentId (some (link seq o)), seq + 1, fun s ho hs => ?_⟩
      subst ho hs
      show (s.insert (sltpChild parentId parent config)).mapOrder parentId (link s.orderIdSeq) = _
      unfold Store.mapOrder
      rw [show (s.insert (sltpChild parentId parent config)).pg.orders parentId = some o from hrow]
      rfl

private theorem writesOrders_inserted (userId : UserId) (dto : OrderCreateDto) :
    WritesOrders fun s => s.inserted userId dto := by
  intro orders seq
  have hinsert : WritesOrders fun s => s.insert (newOrder userId dto) := fun orders seq =>
    ⟨Function.update orders seq (some (newOrder userId dto)), seq + 1, fun s ho hs => by
      subst ho hs
      rfl⟩
  have hadd := fun config link => writesOrders_addChild seq (newOrder userId dto) config link
  obtain ⟨orders', seq', h⟩ := ((hadd dto.tp fun childId o => { o with tpOrderId := some childId }).comp
    ((hadd dto.sl fun childId o => { o with slOrderId := some childId }).comp hinsert)) orders seq
  refine ⟨orders', seq', fun s ho hs => ?_⟩
  subst hs
  exact h s ho rfl

/-- The lock that is committed is the one that has been taken. -/
private theorem lockFor_pg {s s' : Store} (h : s'.pg = s.pg) (userId : UserId) (dto : OrderCreateDto)
    (lock : Asset × ℚ) : (s'.lockFor userId dto lock).pg = (s.lockFor userId dto lock).pg := by
  unfold Store.lockFor Store.moveBalance Store.rowOrZero
  rw [h]
  split_ifs <;> first | exact h | rfl

/-- Committing at once what has been drafted. -/
private theorem commitDraft_alone (hids : IdsBelow s) (userId : UserId) (dto : OrderCreateDto)
    (lock : Asset × ℚ) :
    let s₁ : Store := { s.lockFor userId dto lock with pg := s.pg }
    (({ s₁ with orderIdSeq := (s₁.inserted userId dto).orderIdSeq } : Store).setRedis
        (handOver s₁.orderIdSeq (newOrder userId dto))).commitDraft (s₁.draft userId dto lock) =
      (s.lockFor userId dto lock).placed userId dto := by
  intro s₁
  obtain ⟨orders, seq, hinserted⟩ := writesOrders_inserted userId dto s.pg.orders s.orderIdSeq
  have hseq : s₁.orderIdSeq = s.orderIdSeq := lockFor_orderIdSeq s userId dto lock
  have h₁ : s₁.inserted userId dto = _ := hinserted s₁ rfl hseq
  have h₂ : (s.lockFor userId dto lock).inserted userId dto = _ :=
    hinserted (s.lockFor userId dto lock) (by
      obtain ⟨balances, updates, h⟩ := quiet_lockFor (s := s) userId dto lock
      rw [h]) (lockFor_orderIdSeq s userId dto lock)
  have hmerged : (fun k => ((s₁.draft userId dto lock).rows k).or (s.pg.orders k)) = orders := by
    funext k
    show (if s₁.orderIdSeq ≤ k then (s₁.inserted userId dto).pg.orders k else none).or
      (s.pg.orders k) = orders k
    rw [h₁, hseq]
    -- the draft holds the new ids and the table the old ones
    by_cases hk : s.orderIdSeq ≤ k
    · have hnone : s.pg.orders k = none := by
        by_contra hne
        exact absurd (hids k hne) (not_lt.mpr hk)
      rw [if_pos hk, hnone, Option.or_none]
    · have hold := inserted_orders_of_lt s userId dto (not_le.mp hk)
      rw [show s.inserted userId dto = _ from hinserted s rfl rfl] at hold
      rw [if_neg hk, Option.none_or]
      exact hold.symm
  rw [h₁, hseq]
  -- the store in which it is committed
  set s₂ : Store := ({ s₁ with orderIdSeq := seq } : Store).setRedis
    (handOver s.orderIdSeq (newOrder userId dto))
  show ({ s₂ with pg := { (s₂.lockFor userId dto lock).pg with
    orders := fun k => ((s₁.draft userId dto lock).rows k).or (s.pg.orders k) } } : Store) = _
  rw [hmerged, lockFor_pg (show s₂.pg = s.pg from rfl), Store.placed, h₂, lockFor_orderIdSeq]
  rfl

/-- **A placement that is not interrupted** is what `Request.place` says. -/
theorem step_alone (b : Backend) (c : ℕ) (hidle : b.placements c = .idle)
    (hids : IdsBelow b.store) (userId : UserId) (dto : OrderCreateDto) :
    ((((b.step (.lock c userId dto)).step (.insert c)).step (.push c)).step (.commit c)).store =
      b.store.serve (.place userId dto) := by
  have hserve : b.store.serve (.place userId dto) =
      (transaction (discard (lockPlacement userId dto >>= fun _ => insertPlaced userId dto))
        b.store).2 := by
    rw [← placeOrder_eq]
    rfl
  rw [hserve]
  unfold transaction Prog.atomically discard
  rcases lockPlacement_cases userId dto b.store with
    ⟨pair, lock, haccepted, -, hx⟩ | ⟨err, s', hx, hquiet⟩
  · have hplaced : (lockPlacement userId dto >>= fun _ => insertPlaced userId dto) b.store =
        (.ok b.store.orderIdSeq, (b.store.lockFor userId dto lock).placed userId dto) := by
      rw [Prog.bind_of_ok hx, insertPlaced_apply, lockFor_orderIdSeq]
    rw [Prog.bind_of_ok hplaced]
    simp only [Backend.step, hidle, hx, Function.update_self]
    exact commitDraft_alone hids userId dto lock
  · have hraised : (lockPlacement userId dto >>= fun _ => insertPlaced userId dto) b.store =
        (.error err, s') := Prog.bind_of_error hx
    rw [Prog.bind_of_error hraised]
    simp only [Backend.step, hidle, hx, Function.update_self]

end

/-! ### Every interleaving -/

/-- What a placement has written without committing it. -/
def Placement.draft? : Placement → Option Draft
  | .inserted d | .pushed d => some d
  | _ => none

/-- **What holds in every state**, if no placement is rolled back after its push. -/
structure Backend.Inv (b : Backend) : Prop where
  engine : EngineReady b.store.engine
  ids : IdsBelow b.store
  drafted : ∀ c d, (b.placements c).draft? = some d → Drafted b.store d
  apart : ∀ c c' d d', (b.placements c).draft? = some d → (b.placements c').draft? = some d' →
    c ≠ c' → ∀ k, d.rows k ≠ none → d'.rows k = none
  committed : ∀ c d, b.placements c = .committed d → b.locks d.id = some d.lock ∧
    ∃ o, b.store.pg.orders d.id = some o ∧ RowStays (newOrder d.userId d.dto) o
  queued : ∀ p ∈ b.store.redis.ordersQueue, p.parentOrderId = none → ∃ c d,
    (b.placements c = .pushed d ∨ b.placements c = .committed d) ∧ ¬ d.dto.type.isStop = true ∧
      p = buildOrderActionPayload (placePayload d.id (newOrder d.userId d.dto))

/-- The worker is not faster than a commit, and no placement is rolled back after its push. -/
def Backend.InTime (b : Backend) : Step → Prop
  | .work => ∀ p rest, b.store.redis.ordersQueue = p :: rest → ∀ c d, b.placements c = .pushed d →
      d.id ≠ p.orderId
  | .rollback c => ∀ d, b.placements c ≠ .pushed d
  | _ => True

/-- The order that the worker is going to handle is committed, with its lock. -/
def Backend.HandlesCommitted (b : Backend) (step : Step) : Prop :=
  step = .work → ∀ p rest, b.store.redis.ordersQueue = p :: rest → p.action = .place →
    p.parentOrderId = none → b.store.HasRow p ∧
      ∃ c d, b.placements c = .committed d ∧ d.id = p.orderId ∧ b.locks p.orderId = some d.lock

theorem inv_start (users : Finset UserId) (pairs : Symbol → Option TradingPair)
    (balances : Ledger.BalanceKey → Option Ledger.Row) : (Backend.start users pairs balances).Inv where
  engine := engineReady_new
  ids := fun _ h => absurd rfl h
  drafted := fun _ _ h => nomatch h
  apart := fun _ _ _ _ h => nomatch h
  committed := fun _ _ h => nomatch h
  queued := fun _ h => absurd h List.not_mem_nil

section

variable {b : Backend}

/-- **The worker handles committed orders only**, in a state that satisfies the invariant. -/
theorem Backend.Inv.handlesCommitted (h : b.Inv) {step : Step} (hstep : b.InTime step) :
    b.HandlesCommitted step := by
  rintro rfl p rest hqueue hplace hparent
  obtain ⟨c, d, hplacement, hstop, rfl⟩ := h.queued p (by rw [hqueue]; exact List.mem_cons_self) hparent
  rcases hplacement with hpushed | hcommitted
  · exact absurd rfl (hstep _ rest hqueue c d hpushed)
  · obtain ⟨hlock, o, ho, hstays⟩ := h.committed c d hcommitted
    have hfits := (payloadFits_newOrder hstop d.userId d.id).stays hstays
    exact ⟨queueable_build ho hfits rfl, c, d, hcommitted, rfl, hlock⟩

/-- A placement that has neither pushed nor committed becomes one without a draft. -/
private theorem Backend.Inv.forget (h : b.Inv) {c : ℕ} {x : Placement} {store : Store}
    (hold : ∀ d, b.placements c ≠ .pushed d ∧ b.placements c ≠ .committed d)
    (hnew : x.draft? = none ∧ ∀ d, x ≠ .committed d) (hpg : store.pg = b.store.pg)
    (hseq : store.orderIdSeq = b.store.orderIdSeq) (hengine : EngineReady store.engine)
    (hqueue : store.redis.ordersQueue = b.store.redis.ordersQueue) :
    Backend.Inv { b with store := store, placements := Function.update b.placements c x } := by
  -- drafts and commits are those of other placements
  have hdraft : ∀ {c' d}, (Function.update b.placements c x c').draft? = some d →
      (b.placements c').draft? = some d := by
    intro c' d hd
    by_cases hc : c' = c
    · subst hc
      rw [Function.update_self, hnew.1] at hd
      exact absurd hd (by simp)
    · rwa [Function.update_of_ne hc] at hd
  refine ⟨hengine, fun k hk => ?_, fun c' d hd => ?_, fun c₁ c₂ d₁ d₂ h₁ h₂ =>
    h.apart c₁ c₂ d₁ d₂ (hdraft h₁) (hdraft h₂), fun c' d hd => ?_, fun p hp hparent => ?_⟩
  · show k < store.orderIdSeq
    rw [hseq]
    exact h.ids k (by rwa [← hpg])
  · obtain ⟨hrow, hfresh⟩ := h.drafted c' d (hdraft hd)
    exact ⟨hrow, fun k hk => by rw [hseq, hpg]; exact hfresh k hk⟩
  · have hc : c' ≠ c := by
      rintro rfl
      exact hnew.2 d ((Function.update_self ..).symm.trans hd)
    show _ ∧ ∃ o, store.pg.orders d.id = some o ∧ _
    rw [hpg]
    exact h.committed c' d ((Function.update_of_ne hc _ _).symm.trans hd)
  -- a queued payload belongs to a placement that was pushed, which is another one
  · obtain ⟨c', d, hplacement, hrest⟩ := h.queued p (by rwa [← hqueue]) hparent
    have hc : c' ≠ c := by
      rintro rfl
      exact hplacement.elim (hold d).1 (hold d).2
    refine ⟨c', d, ?_, hrest⟩
    show Function.update b.placements c x c' = _ ∨ Function.update b.placements c x c' = _
    rwa [Function.update_of_ne hc]

/-- **Taking the lock.** -/
private theorem inv_lock (h : b.Inv) (c : ℕ) (userId : UserId) (dto : OrderCreateDto) :
    (b.step (.lock c userId dto)).Inv := by
  simp only [Backend.step]
  split
  swap
  · exact h
  rename_i hidle
  have hquiet : Quiet b.store (lockPlacement userId dto b.store).2 := by
    rcases lockPlacement_cases userId dto b.store with ⟨_, lock, -, -, hx⟩ | ⟨_, _, hx, hq⟩ <;> rw [hx]
    · exact quiet_lockFor userId dto lock
    · exact hq
  obtain ⟨balances, updates, hstore⟩ := hquiet
  refine h.forget (fun d => ?_) ?_ rfl (by rw [hstore]) (by rw [hstore]; exact h.engine) (by rw [hstore])
  · rw [hidle]
    exact ⟨Placement.noConfusion, Placement.noConfusion⟩
  · rcases (lockPlacement userId dto b.store).1 with err | lock
    · exact ⟨rfl, fun _ => Placement.noConfusion⟩
    · exact ⟨rfl, fun _ => Placement.noConfusion⟩

/-- **Rolling back** before the push. -/
private theorem inv_rollback (h : b.Inv) (c : ℕ) (hpushed : ∀ d, b.placements c ≠ .pushed d) :
    (b.step (.rollback c)).Inv := by
  have hgone : (Placement.rolledBack).draft? = none ∧ ∀ d, Placement.rolledBack ≠ .committed d :=
    ⟨rfl, fun _ => Placement.noConfusion⟩
  have hforget : (∀ d, b.placements c ≠ .committed d) → Backend.Inv
      { b with placements := Function.update b.placements c .rolledBack } := fun hc =>
    h.forget (fun d => ⟨hpushed d, hc d⟩) hgone rfl rfl h.engine rfl
  cases hplacement : b.placements c with
  | locked userId dto lock =>
    simp only [Backend.step, hplacement]
    exact hforget fun d => by rw [hplacement]; exact Placement.noConfusion
  | inserted d =>
    simp only [Backend.step, hplacement]
    exact hforget fun d => by rw [hplacement]; exact Placement.noConfusion
  | pushed d => exact absurd hplacement (hpushed d)
  | idle => simpa only [Backend.step, hplacement] using h
  | committed d => simpa only [Backend.step, hplacement] using h
  | rolledBack => simpa only [Backend.step, hplacement] using h

/-- **Inserting the rows.** -/
private theorem inv_insert (h : b.Inv) (c : ℕ) : (b.step (.insert c)).Inv := by
  cases hplacement : b.placements c with
  | locked userId dto lock =>
    simp only [Backend.step, hplacement]
    have hdrafted := drafted_insert h.ids userId dto lock
    have hseq : b.store.orderIdSeq ≤ (b.store.inserted userId dto).orderIdSeq :=
      (drains_inserted b.store userId dto h.ids).seq
    have hdraft : ∀ {c' d}, (Function.update b.placements c
        (.inserted (b.store.draft userId dto lock)) c').draft? = some d →
        c' = c ∧ d = b.store.draft userId dto lock ∨ c' ≠ c ∧ (b.placements c').draft? = some d := by
      intro c' d hd
      by_cases hc : c' = c
      · subst hc
        rw [Function.update_self] at hd
        exact .inl ⟨rfl, (Option.some.inj hd).symm⟩
      · rw [Function.update_of_ne hc] at hd
        exact .inr ⟨hc, hd⟩
    -- the rows of other drafts have smaller ids
    have hnew : ∀ {c' d}, (b.placements c').draft? = some d → ∀ k,
        (d.rows k ≠ none → (b.store.draft userId dto lock).rows k = none) ∧
          ((b.store.draft userId dto lock).rows k ≠ none → d.rows k = none) := by
      intro c' d hd k
      have hlt := fun hk => ((h.drafted c' d hd).fresh k hk).1
      constructor
      · exact fun hk => if_neg (not_le.mpr (hlt hk))
      · intro hk
        by_contra hne
        exact hk (if_neg (not_le.mpr (hlt hne)))
    refine ⟨h.engine, fun k hk => (h.ids k hk).trans_le hseq, fun c' d hd => ?_,
      fun c₁ c₂ d₁ d₂ h₁ h₂ hne k => ?_, fun c' d hd => ?_, fun p hp hparent => ?_⟩
    · rcases hdraft hd with ⟨-, rfl⟩ | ⟨-, hd⟩
      · exact hdrafted
      · obtain ⟨hrow, hfresh⟩ := h.drafted c' d hd
        exact ⟨hrow, fun k hk => ⟨(hfresh k hk).1.trans_le hseq, (hfresh k hk).2⟩⟩
    · rcases hdraft h₁ with ⟨rfl, rfl⟩ | ⟨-, hd₁⟩ <;> rcases hdraft h₂ with ⟨rfl, rfl⟩ | ⟨-, hd₂⟩
      · exact absurd rfl hne
      · exact (hnew hd₂ k).2
      · exact (hnew hd₁ k).1
      · exact h.apart c₁ c₂ d₁ d₂ hd₁ hd₂ hne k
    · have hc : c' ≠ c := by
        rintro rfl
        exact Placement.noConfusion ((Function.update_self ..).symm.trans hd)
      exact h.committed c' d ((Function.update_of_ne hc _ _).symm.trans hd)
    · obtain ⟨c', d, hother, hrest⟩ := h.queued p hp hparent
      have hc : c' ≠ c := by
        rintro rfl
        rw [hplacement] at hother
        exact hother.elim Placement.noConfusion Placement.noConfusion
      refine ⟨c', d, ?_, hrest⟩
      show Function.update b.placements c _ c' = _ ∨ Function.update b.placements c _ c' = _
      rwa [Function.update_of_ne hc]
  | inserted d => simpa only [Backend.step, hplacement] using h
  | pushed d => simpa only [Backend.step, hplacement] using h
  | idle => simpa only [Backend.step, hplacement] using h
  | committed d => simpa only [Backend.step, hplacement] using h
  | rolledBack => simpa only [Backend.step, hplacement] using h

/-- **Pushing the action.** -/
private theorem inv_push (h : b.Inv) (c : ℕ) : (b.step (.push c)).Inv := by
  cases hplacement : b.placements c with
  | inserted d =>
    simp only [Backend.step, hplacement]
    -- the drafts are the same
    have hdraft : ∀ c', (Function.update b.placements c (.pushed d) c').draft? =
        (b.placements c').draft? := by
      intro c'
      by_cases hc : c' = c
      · subst hc
        rw [Function.update_self, hplacement]
        rfl
      · rw [Function.update_of_ne hc]
    refine ⟨h.engine, h.ids, fun c' d' hd =>
      ⟨(h.drafted c' d' ((hdraft c').symm.trans hd)).row,
        (h.drafted c' d' ((hdraft c').symm.trans hd)).fresh⟩, fun c₁ c₂ d₁ d₂ h₁ h₂ => h.apart c₁ c₂ d₁ d₂ ((hdraft c₁).symm.trans h₁)
        ((hdraft c₂).symm.trans h₂), fun c' d' hd => ?_, fun p hp hparent => ?_⟩
    · have hc : c' ≠ c := by
        rintro rfl
        exact Placement.noConfusion ((Function.update_self ..).symm.trans hd)
      exact h.committed c' d' ((Function.update_of_ne hc _ _).symm.trans hd)
    · have hp : p ∈ (handOver d.id (newOrder d.userId d.dto) b.store.redis).ordersQueue := hp
      rw [handOver_queue, List.mem_append] at hp
      rcases hp with hp | hp
      · obtain ⟨c', d', hother, hrest⟩ := h.queued p hp hparent
        have hc : c' ≠ c := by
          rintro rfl
          rw [hplacement] at hother
          exact hother.elim Placement.noConfusion Placement.noConfusion
        refine ⟨c', d', ?_, hrest⟩
        show Function.update b.placements c _ c' = _ ∨ Function.update b.placements c _ c' = _
        rwa [Function.update_of_ne hc]
      · split_ifs at hp with hstop
        · exact absurd hp List.not_mem_nil
        · exact ⟨c, d, .inl (Function.update_self ..), hstop, List.mem_singleton.mp hp⟩
  | locked userId dto lock => simpa only [Backend.step, hplacement] using h
  | pushed d => simpa only [Backend.step, hplacement] using h
  | idle => simpa only [Backend.step, hplacement] using h
  | committed d => simpa only [Backend.step, hplacement] using h
  | rolledBack => simpa only [Backend.step, hplacement] using h

/-- **Committing.** -/
private theorem inv_commit (h : b.Inv) (c : ℕ) : (b.step (.commit c)).Inv := by
  cases hplacement : b.placements c with
  | pushed d =>
    simp only [Backend.step, hplacement]
    obtain ⟨⟨o, ho, hstays⟩, hfresh⟩ := h.drafted c d (by rw [hplacement]; rfl)
    have horders : (b.store.commitDraft d).pg.orders = fun k => (d.rows k).or (b.store.pg.orders k) := rfl
    have hdraft : ∀ {c' d'}, (Function.update b.placements c (.committed d) c').draft? = some d' →
        c' ≠ c ∧ (b.placements c').draft? = some d' := by
      intro c' d' hd
      by_cases hc : c' = c
      · subst hc
        rw [Function.update_self] at hd
        exact absurd hd (by simp [Placement.draft?])
      · rw [Function.update_of_ne hc] at hd
        exact ⟨hc, hd⟩
    refine ⟨h.engine, fun k hk => ?_, fun c' d' hd => ?_, fun c₁ c₂ d₁ d₂ h₁ h₂ =>
      h.apart c₁ c₂ d₁ d₂ (hdraft h₁).2 (hdraft h₂).2, fun c' d' hd => ?_, fun p hp hparent => ?_⟩
    · rw [horders] at hk
      by_cases hrow : d.rows k = none
      · exact h.ids k (by simpa [hrow] using hk)
      · exact (hfresh k hrow).1
    · obtain ⟨hc, hd⟩ := hdraft hd
      obtain ⟨hrow', hfresh'⟩ := h.drafted c' d' hd
      refine ⟨hrow', fun k hk => ⟨(hfresh' k hk).1, ?_⟩⟩
      rw [horders]
      -- two drafts share no id, so the other draft's ids are still unused
      have hnone := h.apart c' c d' d hd (by rw [hplacement]; rfl) hc k hk
      simp [hnone, (hfresh' k hk).2]
    · by_cases hc : c' = c
      · subst hc
        obtain rfl : d = d' := Placement.committed.inj ((Function.update_self ..).symm.trans hd)
        refine ⟨Function.update_self .., o, ?_, hstays⟩
        rw [horders]
        simp [ho]
      · obtain ⟨hlock, o', ho', hstays'⟩ := h.committed c' d' ((Function.update_of_ne hc _ _).symm.trans hd)
        -- it is another order: the committed one has a row already
        have hrow : d.rows d'.id = none := by
          by_contra hne
          exact absurd (ho'.symm.trans (hfresh _ hne).2) (by simp)
        have hid : d'.id ≠ d.id := by
          intro heq
          rw [heq, ho] at hrow
          exact absurd hrow (by simp)
        refine ⟨(Function.update_of_ne hid _ _).trans hlock, o', ?_, hstays'⟩
        rw [horders]
        simp [hrow, ho']
    -- what was pushed by this placement is now committed
    · obtain ⟨c', d', hother, hrest⟩ := h.queued p hp hparent
      by_cases hc : c' = c
      · subst hc
        obtain rfl : d = d' := by
          rcases hother with hother | hother
          · exact Placement.pushed.inj (hplacement.symm.trans hother)
          · exact Placement.noConfusion (hplacement.symm.trans hother)
        exact ⟨c', d, .inr (Function.update_self ..), hrest⟩
      · refine ⟨c', d', ?_, hrest⟩
        show Function.update b.placements c _ c' = _ ∨ Function.update b.placements c _ c' = _
        rwa [Function.update_of_ne hc]
  | inserted d => simpa only [Backend.step, hplacement] using h
  | locked userId dto lock => simpa only [Backend.step, hplacement] using h
  | idle => simpa only [Backend.step, hplacement] using h
  | committed d => simpa only [Backend.step, hplacement] using h
  | rolledBack => simpa only [Backend.step, hplacement] using h

/-- **A round of the worker.** -/
private theorem inv_work (h : b.Inv) : (b.step .work).Inv := by
  have hp := processed_work h.engine
  have hnone : ∀ k, (work b.store).2.pg.orders k = none ↔ b.store.pg.orders k = none := by
    refine fun k => ⟨fun hk => ?_, hp.none k⟩
    by_contra hne
    obtain ⟨o, ho⟩ := Option.ne_none_iff_exists'.mp hne
    obtain ⟨o', ho', -⟩ := hp.stays k o ho
    exact absurd (ho'.symm.trans hk) (by simp)
  refine ⟨hp.engine h.engine, fun k hk => ?_, fun c d hd => ?_, h.apart, fun c d hd => ?_,
    fun p hmem hparent => ?_⟩
  · show k < (work b.store).2.orderIdSeq
    rw [hp.seq]
    exact h.ids k (fun hno => hk ((hnone k).mpr hno))
  · obtain ⟨hrow, hfresh⟩ := h.drafted c d hd
    exact ⟨hrow, fun k hk => ⟨hp.seq.symm ▸ (hfresh k hk).1, (hnone k).mpr (hfresh k hk).2⟩⟩
  · obtain ⟨hlock, o, ho, hstays⟩ := h.committed c d hd
    obtain ⟨o', ho', hstays'⟩ := hp.stays _ o ho
    exact ⟨hlock, o', ho', hstays.trans hstays'⟩
  · exact (hp.queue p hmem).elim (fun hmem => h.queued p hmem hparent) fun hne => absurd hparent hne

/-- **One step.** -/
theorem inv_step (h : b.Inv) (step : Step) (hstep : b.InTime step) : (b.step step).Inv := by
  cases step with
  | lock c userId dto => exact inv_lock h c userId dto
  | insert c => exact inv_insert h c
  | push c => exact inv_push h c
  | commit c => exact inv_commit h c
  | rollback c => exact inv_rollback h c hstep
  | work => exact inv_work h

end

/-- **The worker only handles committed orders if it is not faster than a commit, and no placement is
    rolled back after its push**: in every run whose steps are all of this kind, whenever the worker
    takes a placement, the row of its order and its lock are committed. -/
theorem worker_committed (users : Finset UserId) (pairs : Symbol → Option TradingPair)
    (balances : Ledger.BalanceKey → Option Ledger.Row) (steps : List Step)
    (h : Run.Along Backend.step Backend.InTime (Backend.start users pairs balances) steps) :
    Run.Along Backend.step Backend.HandlesCommitted (Backend.start users pairs balances) steps :=
  h.mono (I := Backend.Inv) (fun _ step hI hstep => ⟨inv_step hI step hstep, hI.handlesCommitted hstep⟩)
    (inv_start users pairs balances)

/-! ### A commit that is too late -/

/-- A sell order of one unit. -/
def earlySell : OrderCreateDto where
  symbol := "BTC/USDT"
  side := .sell
  type := .limit
  price := some 10
  quantity := 1

/-- User 1 with five units, before the placement. -/
def beforePlacement : Backend :=
  Backend.start {1} (fun _ => some
    { baseAsset := "BTC", quoteAsset := "USDT", minLotSize := 1, maxLotSize := 100, tickSize := 1,
      isActive := true })
    fun key => if key = (1, "BTC") then some ⟨5, 0, 5, 1⟩ else none

/-- The placement has pushed its action, and not committed. -/
def pushedPlacement : Backend :=
  Run.after Backend.step beforePlacement [.lock 0 1 earlySell, .insert 0, .push 0]

/-- **The worker puts an order into the book that has no row**, and that never gets one, since its
    placement is rolled back. -/
theorem uncommittedPlacement_rests :
    ¬ pushedPlacement.HandlesCommitted .work ∧
      (Run.after Backend.step pushedPlacement [.work, .rollback 0]).store.pg.orders 1 = none ∧
      ((Run.after Backend.step pushedPlacement [.work, .rollback 0]).store.redis.book "BTC/USDT"
        .sell).members = [1] := by
  refine ⟨fun h => ?_, by decide +kernel, by decide +kernel⟩
  have hqueue : pushedPlacement.store.redis.ordersQueue =
      [buildOrderActionPayload (placePayload 1 (newOrder 1 earlySell))] := by decide +kernel
  have hnone : pushedPlacement.store.pg.orders 1 = none := by decide +kernel
  obtain ⟨⟨o, ho, -⟩, -⟩ := h rfl _ _ hqueue rfl rfl
  exact absurd (hnone.symm.trans ho) (by simp)

/-- A placement that commits first. -/
theorem worker_committed_inTime :
    Run.Along Backend.step Backend.HandlesCommitted beforePlacement
      [.lock 0 1 earlySell, .insert 0, .push 0, .commit 0, .work] := by
  refine worker_committed _ _ _ _ ⟨trivial, trivial, trivial, trivial, ?_, trivial⟩
  intro p rest _ c d hpushed
  by_cases hc : c = 0
  · subst hc
    have hopen : (Run.after Backend.step beforePlacement
        [.lock 0 1 earlySell, .insert 0, .push 0, .commit 0]).placements 0 ≠ .pushed d := by
      intro h
      have hdraft : ((Run.after Backend.step beforePlacement
        [.lock 0 1 earlySell, .insert 0, .push 0, .commit 0]).placements 0).draft?.isSome = false := by
        decide +kernel
      rw [h] at hdraft
      exact absurd hdraft (by simp [Placement.draft?])
    exact absurd hpushed hopen
  · have hne : ∀ {step : Step}, step.placement = some 0 → step.placement ≠ some c := by
      rintro step h heq
      exact hc (Option.some.inj (heq.symm.trans h))
    rw [step_placements_of_ne _ (hne rfl), step_placements_of_ne _ (hne rfl),
      step_placements_of_ne _ (hne rfl), step_placements_of_ne _ (hne rfl)] at hpushed
    exact absurd hpushed Placement.noConfusion

end SpotExchange.Exchange
