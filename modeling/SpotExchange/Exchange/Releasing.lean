import SpotExchange.Exchange.Accounts
import SpotExchange.Exchange.Discharging
import SpotExchange.Exchange.Spawning
import SpotExchange.Exchange.Spending

namespace SpotExchange.Exchange

open SpotExchange.Lib
open SpotExchange.Engine (OrderId)
open SpotExchange.Ledger (BalanceKey Row)

/-!
# What cancelling and replacing release

`cancel_order` and `modify_order` compute what they unlock anew, from side, price and what is left; the
row does not say what was locked for the order.

* `LockBook` — a store, with a record of what was locked for each order and what has been unlocked of it;
* `locked_place`, `locked_spawned` — what is recorded is what placing and triggering lock;
* `ReleasesOwn` — a call unlocks no more than what is still locked for its order;
* `Sound` — the invariant: what was locked is what the order costs, and no limit has been exceeded;
* `run_releasesOwn` — so it does, for orders that something was locked for and that are released once;
* `child_releasesOthers` — a take-profit child that waits is cancelled at the cost of another order.
-/

/-- What an order costs: its quantity, or all of it at its limit. -/
def Order.cost (o : Order) : ℚ :=
  match o.side with
  | .sell => o.quantity
  | .buy => o.price.getD 0 * o.quantity

/-- What an order has settled of its cost. -/
def Order.settled (o : Order) : ℚ :=
  match o.side with
  | .sell => o.filledQuantity
  | .buy => o.filledQuoteQty

/-- The balance that an order pays from. -/
def Order.lockKey (o : Order) (pair : TradingPair) : BalanceKey :=
  (o.userId, match o.side with
    | .sell => pair.baseAsset
    | .buy => pair.quoteAsset)

/-- **What is locked for an order when its row is inserted**: nothing while it waits, the estimate for a
    buy order without a limit, or else its cost. -/
def Store.lockTaken (s : Store) (o : Order) : ℚ :=
  if o.status = .pending then 0
  else if o.side = .buy ∧ (o.type = .market ∨ o.price = none) then
    max 0 ((walkAsks o.quantity 0 (oppositeOrdersForMatch s.redis o.symbol .buy askLimit)).2 *
      (1001 / 1000))
  else max 0 o.cost

/-- The order that a request releases. -/
def Request.releases : Request → Option OrderId
  | .cancel _ id | .modify _ id _ _ => some id
  | _ => none

/-- What a request unlocks of a balance: what becomes available, and what is locked anew for the order that
    it inserts. -/
def Store.unlocked (s : Store) (req : Request) (key : BalanceKey) : ℚ :=
  (s.serve req).available key - s.available key +
    ((s.serve req).pg.orders s.orderIdSeq).elim 0 s.lockTaken

/-- What a request unlocks on behalf of an order. -/
def Store.unlockedFor (s : Store) (req : Request) (id : OrderId) : ℚ :=
  (s.pg.orders id).elim 0 fun o => (s.pg.tradingPairs o.symbol).elim 0 fun pair =>
    s.unlocked req (o.lockKey pair)

/-- **A store with a record of its locks**: what was locked for each order, and what cancelling and
    replacing have unlocked of it. -/
structure LockBook where
  store : Store
  taken : OrderId → ℚ
  returned : OrderId → ℚ

/-- The store and its record after a request. -/
def LockBook.serve (b : LockBook) (req : Request) : LockBook where
  store := b.store.serve req
  taken := fun id =>
    match b.store.pg.orders id with
    | some _ => b.taken id
    | none => ((b.store.serve req).pg.orders id).elim 0 b.store.lockTaken
  returned := fun id =>
    if req.releases = some id then b.returned id + b.store.unlockedFor req id else b.returned id

/-- A store without orders. -/
def LockBook.start (users : Finset UserId) (pairs : Symbol → Option TradingPair)
    (balances : BalanceKey → Option Row) : LockBook where
  store := Store.start users pairs balances
  taken := fun _ => 0
  returned := fun _ => 0

/-- What is still locked for an order. -/
def LockBook.outstanding (b : LockBook) (id : OrderId) (o : Order) : ℚ :=
  max 0 (b.taken id - o.settled - b.returned id)

/-- **A request releases only what its order has locked**; so what is locked for others stays covered. -/
def LockBook.ReleasesOwn (b : LockBook) (req : Request) : Prop :=
  ∀ id ∈ req.releases, ∀ o pair, b.store.pg.orders id = some o →
    b.store.pg.tradingPairs o.symbol = some pair →
      b.store.unlocked req (o.lockKey pair) ≤ b.outstanding id o ∧
        ∀ others, b.outstanding id o + others ≤ b.store.locked (o.lockKey pair) →
          others ≤ (b.store.serve req).locked (o.lockKey pair)

/-- Something was locked for an order that is released, and nothing has been unlocked of it; a buy order
    without a limit carries no price at all. -/
structure LockBook.Releasable (b : LockBook) (id : OrderId) (o : Order) : Prop where
  taken : 0 < b.taken id
  returned : b.returned id = 0
  unpriced : o.side = .buy → o.type = .market ∨ o.price = none → o.price = none ∧ o.stopPrice = none

/-- **The requests that are guarded.** -/
def LockBook.Guarded (b : LockBook) (req : Request) : Prop :=
  ScoreGuard b.store req ∧ ∀ id ∈ req.releases, ∀ o, b.store.pg.orders id = some o →
    o.status.isActive = true → o.type.isStop = false → b.Releasable id o

/-- **The invariant**: what was locked for an order is its cost, if anything was locked and it has a limit. -/
structure LockBook.Sound (b : LockBook) : Prop where
  orderly : Orderly b.store
  pays : PaysWithin b.store
  taken : ∀ id o, b.store.pg.orders id = some o → b.taken id = 0 ∨
    o.side = .buy ∧ (o.type = .market ∨ o.price = none) ∨ b.taken id = max 0 o.cost

section

variable {b : LockBook} {s s' t : Store} {id : OrderId} {o o' : Order} {pair : TradingPair}
  {req : Request} {userId : UserId}

/-! ### The record -/

/-- What is recorded of a placement is what it locks. -/
theorem Accepted.lockTaken {dto : OrderCreateDto} {lock : Asset × ℚ} (h : Accepted s dto pair lock)
    (userId : UserId) : s.lockTaken (newOrder userId dto) = max 0 lock.2 := by
  by_cases hstop : dto.type.isStop = true
  · have hpending : (newOrder userId dto).status = .pending := if_pos hstop
    rw [Store.lockTaken, if_pos hpending, h.lock_stop hstop, max_self]
  have hnew : (newOrder userId dto).status ≠ .pending := by
    show (if dto.type.isStop then OrderStatus.pending else OrderStatus.new) ≠ .pending
    rw [if_neg hstop]
    exact OrderStatus.noConfusion
  have hstop : dto.type.isStop = false := Bool.eq_false_of_not_eq_true hstop
  rw [Store.lockTaken, if_neg hnew]
  by_cases hmarket : dto.side = .buy ∧ dto.type = .market
  · have hestimate : (newOrder userId dto).side = .buy ∧
        ((newOrder userId dto).type = .market ∨ (newOrder userId dto).price = none) :=
      ⟨hmarket.1, .inl hmarket.2⟩
    rw [if_pos hestimate, h.lock_market hmarket.1 hmarket.2]
    rfl
  · have hlimit : ¬ ((newOrder userId dto).side = .buy ∧
        ((newOrder userId dto).type = .market ∨ (newOrder userId dto).price = none)) := by
      rintro ⟨hside, htype | hnone⟩
      · exact hmarket ⟨hside, htype⟩
      · obtain ⟨price, hprice, -⟩ := h.price hstop fun htype => hmarket ⟨hside, htype⟩
        exact absurd (hprice.symm.trans hnone) (Option.some_ne_none _)
    have hcost : (newOrder userId dto).cost = lock.2 := by
      cases hside : dto.side with
      | sell =>
        rw [h.lock_sell hstop hside]
        unfold Order.cost newOrder
        rw [hside]
      | buy =>
        rw [h.lock_limit hstop hside fun htype => hmarket ⟨hside, htype⟩]
        unfold Order.cost newOrder
        rw [hside]
    rw [if_neg hlimit, hcost]

/-- What is recorded of a stop that is triggered is what it locks. -/
theorem triggerLock_lockTaken {lock : Asset × ℚ} (hpos : 0 < lock.2) (hlock : triggerLock o pair
    (oppositeOrdersForMatch s.redis o.symbol .buy askLimit) = some lock) :
    s.lockTaken (triggeredChild id o) = lock.2 := by
  have hnew : (triggeredChild id o).status ≠ .pending := OrderStatus.noConfusion
  rw [Store.lockTaken, if_neg hnew, Order.cost]
  show (if o.side = .buy ∧ ((childTerms o).1 = .market ∨ (childTerms o).2 = none) then
    max 0 ((walkAsks o.quantity 0 (oppositeOrdersForMatch s.redis o.symbol .buy askLimit)).2 * (1001 / 1000))
    else max 0 (match o.side with | .sell => o.quantity | .buy => (childTerms o).2.getD 0 * o.quantity)) = lock.2
  unfold triggerLock at hlock
  cases hside : o.side with
  | sell =>
    rw [hside] at hlock
    obtain rfl := Option.some.inj hlock
    rw [if_neg (by simp)]
    exact max_eq_right hpos.le
  | buy =>
    rw [hside] at hlock
    -- without a price the walk along the asks is locked
    have hwalk : (if oppositeOrdersForMatch s.redis o.symbol .buy askLimit = [] ∨
        0 < (walkAsks o.quantity 0 (oppositeOrdersForMatch s.redis o.symbol .buy askLimit)).1 then none else
          some (pair.quoteAsset, (walkAsks o.quantity 0 (oppositeOrdersForMatch s.redis o.symbol .buy
            askLimit)).2 * (1001 / 1000))) = some lock →
        max 0 ((walkAsks o.quantity 0 (oppositeOrdersForMatch s.redis o.symbol .buy askLimit)).2 *
          (1001 / 1000)) = lock.2 := by
      intro h
      split_ifs at h
      obtain rfl := Option.some.inj h
      exact max_eq_right hpos.le
    rcases childTerms_cases o with hterms | hterms <;> rw [hterms] at hlock ⊢
    · rw [if_pos ⟨rfl, .inl rfl⟩]
      exact hwalk hlock
    · cases hprice : o.price with
      | none =>
        rw [hprice] at hlock
        rw [if_pos ⟨rfl, .inr rfl⟩]
        exact hwalk hlock
      | some price =>
        rw [hprice] at hlock
        obtain rfl := Option.some.inj hlock
        rw [if_neg (by simp)]
        exact max_eq_right hpos.le

/-- A lock is taken from what the order pays from. -/
theorem Accepted.lockOf_lockKey {dto : OrderCreateDto} {lock : Asset × ℚ} (h : Accepted s dto pair lock)
    (userId : UserId) : lockOf userId lock ((newOrder userId dto).lockKey pair) = max 0 lock.2 := by
  unfold lockOf
  by_cases hstop : dto.type.isStop = true
  · rw [h.lock_stop hstop, max_self, Moved.single_zero]
    rfl
  have hstop : dto.type.isStop = false := Bool.eq_false_of_not_eq_true hstop
  have hkey : (newOrder userId dto).lockKey pair = (userId, lock.1) := by
    unfold Order.lockKey newOrder
    cases hside : dto.side with
    | sell => rw [h.lock_sell hstop hside]
    | buy =>
      by_cases hmarket : dto.type = .market
      · rw [h.lock_market hside hmarket]
      · rw [h.lock_limit hstop hside hmarket]
  rw [hkey, Moved.single_apply, if_pos rfl]

/-- **A placement** locks what is recorded of it. -/
theorem locked_place (hids : IdsBelow s) {dto : OrderCreateDto} (hpair : s.pg.tradingPairs dto.symbol = some pair)
    (ho : (s.serve (.place userId dto)).pg.orders s.orderIdSeq = some o) :
    (s.serve (.place userId dto)).locked (o.lockKey pair) = s.locked (o.lockKey pair) + s.lockTaken o := by
  rcases serve_place_cases s userId dto with ⟨pair', lock, haccepted, -, hserve⟩ | ⟨-, hserve⟩
  swap
  · rw [hserve] at ho
    exact absurd ho hids.free
  obtain rfl : pair = pair' := Option.some.inj (hpair.symm.trans haccepted.listed)
  obtain ⟨x, hx, hplaced⟩ := (insertedOne_placed (s.lockFor userId dto lock) userId dto).row
  rw [lockFor_orderIdSeq, ← hserve] at hx
  obtain rfl : o = x := Option.some.inj (ho.symm.trans hx)
  -- links to children change neither
  have htaken : s.lockTaken o = s.lockTaken (newOrder userId dto) := by
    rw [← hplaced]
    rfl
  have hkey : o.lockKey pair = (newOrder userId dto).lockKey pair := by
    rw [← hplaced]
    rfl
  rw [hserve, placed_locked, lockFor_locked haccepted, htaken, haccepted.lockTaken, hkey,
    haccepted.lockOf_lockKey]

/-- **A stop that is triggered** locks what is recorded of its order. -/
theorem locked_spawned (hids : IdsBelow s) (stopId : OrderId) (isTrailing : Bool)
    (ho : (tryTrigger isTrailing stopId s).2.pg.orders s.orderIdSeq = some o)
    (hpair : s.pg.tradingPairs o.symbol = some pair) :
    (tryTrigger isTrailing stopId s).2.locked (o.lockKey pair) = s.locked (o.lockKey pair) + s.lockTaken o := by
  cases tryTrigger_effect hids stopId isTrailing with
  | abandoned _ _ hrows _ =>
    rw [hrows] at ho
    exact absurd ho hids.free
  | spawned stop pair' lock _ _ hpair' hlock hcovered _ _ hrows hlocks =>
    obtain rfl : o = triggeredChild stopId stop := by
      rw [hrows, Function.update_self] at ho
      exact (Option.some.inj ho).symm
    obtain rfl : pair = pair' := Option.some.inj (hpair.symm.trans hpair')
    have hkey : (triggeredChild stopId stop).lockKey pair = (stop.userId, lock.1) := by
      rw [← (triggerLock_covers hlock).1]
      unfold Order.lockKey orderCost triggeredChild
      cases stop.side <;> rfl
    rw [triggerLock_lockTaken hcovered.1 hlock, hkey]
    have hmoved := congrArg (fun a : Amounts => a.2.1) (hlocks (stop.userId, lock.1))
    rw [Moved.single_apply, if_pos rfl] at hmoved
    exact hmoved

/-! ### Terms -/

/-- A round of the worker leaves the terms of the orders alone. -/
theorem work_terms (h : EngineReady s.engine) (id : OrderId) :
    ((s.serve .work).pg.orders id).map Order.terms = (s.pg.orders id).map Order.terms := by
  show ((work s).2.pg.orders id).map _ = _
  rcases work_cases h with ⟨-, hx⟩ | ⟨p, rest, s', -, hx, ⟨-, rfl⟩ | ⟨-, hstep⟩⟩ <;> rw [hx]
  · rfl
  have hfinish : ∀ {t s' : Store} {remaining : ℚ}, FinishStep p remaining t s' → s'.pg.orders = t.pg.orders :=
    fun hstep => by cases hstep <;> rfl
  cases hstep with
  | unmatched _ _ => rfl
  | undone _ _ _ _ _ _ _ _ _ => rfl
  | untraded _ _ _ _ _ _ _ finish =>
    rw [hfinish finish]
    rfl
  | traded _ _ _ _ _ _ _ _ _ hbatch _ finish =>
    rw [hfinish finish]
    exact congrFun (congrArg (fun x => x.2.2.2) (persistTradeBatch_spec hbatch).1) id

/-- **An order keeps its terms.** -/
theorem serve_terms (h : Consistent s) (ho : s.pg.orders id = some o)
    (ho' : (s.serve req).pg.orders id = some o') : o'.terms = o.terms := by
  by_cases hwork : req = .work
  · subst hwork
    have hterms := work_terms h.engine id
    rw [ho, ho'] at hterms
    exact Option.some.inj hterms
  · rcases (fillsStay_serve h.ids hwork).rows id o' ho' with ⟨x, hx, hterms, -⟩ | ⟨hle, -⟩
    · obtain rfl : o = x := Option.some.inj (ho.symm.trans hx)
      exact hterms
    · exact absurd (h.ids id (by rw [ho]; simp)) (not_lt.mpr hle)

/-- **One request.** -/
theorem LockBook.Sound.serve (h : b.Sound) (hguard : ScoreGuard b.store req) : (b.serve req).Sound where
  orderly := orderly_serve h.orderly req
  pays := paysWithin_serve h.orderly h.pays hguard
  taken := by
    intro id o' ho'
    have ho' : (b.store.serve req).pg.orders id = some o' := ho'
    cases ho : b.store.pg.orders id with
    | some o =>
      have hterms := serve_terms h.orderly.consistent ho ho'
      have hside : o'.side = o.side := congrArg OrderTerms.side hterms
      have htype : o'.type = o.type := congrArg OrderTerms.type hterms
      have hprice : o'.price = o.price := congrArg OrderTerms.price hterms
      have hquantity : o'.quantity = o.quantity := congrArg OrderTerms.quantity hterms
      have htaken : (b.serve req).taken id = b.taken id := by
        show (match b.store.pg.orders id with | some _ => _ | none => _) = _
        rw [ho]
      rw [htaken, Order.cost, hside, htype, hprice, hquantity]
      exact h.taken id o ho
    | none =>
      have htaken : (b.serve req).taken id = b.store.lockTaken o' := by
        show (match b.store.pg.orders id with | some _ => _ | none => _) = _
        rw [ho, ho']
        rfl
      rw [htaken, Store.lockTaken]
      split_ifs with hpending hestimate
      · exact .inl rfl
      · exact .inr (.inl hestimate)
      · exact .inr (.inr rfl)

/-! ### What is still locked -/

/-- **What is left of an order** is covered by what is still locked for it. -/
theorem LockBook.Sound.left_le (h : b.Sound) (ho : b.store.pg.orders id = some o) (hown : b.Releasable id o) :
    (o.side = .sell → o.remainingQuantity ≤ b.outstanding id o) ∧
      (o.side = .buy → o.remainingQuantity * o.price.getD 0 ≤ b.outstanding id o) := by
  have htaken := h.taken id o ho
  refine ⟨fun hside => ?_, fun hside => ?_⟩
  · have hcost : b.taken id = max 0 o.quantity := by
      rcases htaken with hzero | ⟨hbuy, -⟩ | hcost
      · exact absurd hown.taken hzero.not_gt
      · exact absurd (hside.symm.trans hbuy) (by decide)
      · rw [hcost, Order.cost, hside]
    refine le_max_of_le_right ?_
    rw [hcost, hown.returned, Order.settled, hside, sub_zero]
    exact sub_le_sub_right (le_max_right _ _) _
  · by_cases hunpriced : o.type = .market ∨ o.price = none
    · rw [(hown.unpriced hside hunpriced).1]
      exact le_max_of_le_left (mul_zero _).le
    rw [not_or] at hunpriced
    obtain ⟨price, hprice⟩ := Option.ne_none_iff_exists'.mp hunpriced.2
    have hcost : b.taken id = max 0 (price * o.quantity) := by
      rcases htaken with hzero | ⟨-, hnone⟩ | hcost
      · exact absurd hown.taken hzero.not_gt
      · exact absurd hnone (not_or.mpr hunpriced)
      · rw [hcost, Order.cost, hside, hprice]
        rfl
    have hne : price ≠ 0 := by
      rintro rfl
      rw [zero_mul, max_self] at hcost
      exact hown.taken.ne' hcost
    have hpaid := h.pays.paid id o price ho ⟨hside, hunpriced.1, hprice, hne⟩
    refine le_max_of_le_right ?_
    have hle : price * o.quantity ≤ b.taken id := hcost ▸ le_max_right _ _
    rw [hown.returned, Order.settled, hside, hprice, Order.remainingQuantity]
    show (o.quantity - o.filledQuantity) * price ≤ b.taken id - o.filledQuoteQty - 0
    linarith

/-! ### Cancelling -/

/-- What a call has unlocked, when it is no more than what is still locked. -/
theorem LockBook.releases_of {x : ℚ} {key : BalanceKey} (hx : x ≤ b.outstanding id o)
    (hunlocked : b.store.unlocked req key = x)
    (hlocked : b.store.locked key - x ≤ (b.store.serve req).locked key) :
    b.store.unlocked req key ≤ b.outstanding id o ∧ ∀ others,
      b.outstanding id o + others ≤ b.store.locked key → others ≤ (b.store.serve req).locked key :=
  ⟨hunlocked ▸ hx, fun others hothers => by linarith⟩

theorem available_of_balances (h : t.pg.balances = s.pg.balances) (key : BalanceKey) :
    t.available key = s.available key := by
  unfold Store.available Store.rowOrZero
  rw [h]

/-- A call that raises unlocks nothing. -/
theorem LockBook.releases_of_same {key : BalanceKey} (hids : IdsBelow b.store)
    (h : (b.store.serve req).pg = b.store.pg) :
    b.store.unlocked req key ≤ b.outstanding id o ∧ ∀ others,
      b.outstanding id o + others ≤ b.store.locked key → others ≤ (b.store.serve req).locked key := by
  have hbalances : (b.store.serve req).pg.balances = b.store.pg.balances := by rw [h]
  have hfree : (b.store.serve req).pg.orders b.store.orderIdSeq = none := by
    rw [h]
    exact Option.eq_none_iff_forall_ne_some.mpr fun _ => hids.free
  refine LockBook.releases_of (le_max_left 0 _) ?_ ?_
  · rw [Store.unlocked, hfree, available_of_balances hbalances, sub_self]
    exact add_zero 0
  · rw [locked_of_balances hbalances, sub_zero]

/-- What moves in a balance that is unlocked. -/
theorem pessimistic_unlocked {key : BalanceKey} {amount : ℚ} {reason : BalanceReason} {orderId : Option OrderId}
    {u : Unit} (h : pessimistic .unlock key amount reason orderId s = (.ok u, s')) :
    s'.available key = s.available key + amount ∧ s'.locked key = s.locked key - amount := by
  obtain ⟨row, row', hrow, hrun, rfl⟩ := pessimistic_eq_ok h
  have hmoved := amounts_pessimistic hrun
  have hrow' : ∀ update, (s.moveBalance key row' update).pg.balances key = some row' :=
    fun _ => Function.update_self ..
  rw [available_of_row (hrow' _), locked_of_row (hrow' _), available_of_row hrow, locked_of_row hrow]
  exact ⟨congrArg (fun a : Amounts => a.2.2) hmoved,
    (congrArg (fun a : Amounts => a.2.1) hmoved).trans (sub_eq_add_neg _ _).symm⟩

/-- **A cancellation** releases only what its order has locked. -/
theorem LockBook.Sound.cancel (h : b.Sound) (userId : UserId) (hown : ∀ o, b.store.pg.orders id = some o →
    o.status.isActive = true → o.type.isStop = false → b.Releasable id o) :
    b.ReleasesOwn (.cancel userId id) := by
  intro k hk o pair ho hpair
  obtain rfl : id = k := Option.some.inj hk
  have hids := h.orderly.consistent.ids
  rcases serve_cancel b.store userId id with ⟨x, pair', s₁, hx, -, hactive, hpair', hunlock, hquiet, hserve⟩ |
    hserve
  swap
  · exact LockBook.releases_of_same hids (by rw [hserve])
  obtain rfl : o = x := Option.some.inj (ho.symm.trans hx)
  obtain rfl : pair = pair' := Option.some.inj (hpair.symm.trans hpair')
  have hkey : (o.userId, (cancelUnlock o pair).1) = o.lockKey pair := by
    unfold cancelUnlock Order.lockKey
    cases o.side <;> cases o.price <;> rfl
  -- no order is inserted
  have hfree : (s₁.cancel id o).pg.orders b.store.orderIdSeq = none := by
    obtain ⟨balances, updates, rfl⟩ := hquiet
    have hne : b.store.orderIdSeq ≠ id := (hids id (by rw [ho]; simp)).ne'
    show (Function.update b.store.pg.orders id _ b.store.orderIdSeq).map _ = none
    rw [Function.update_of_ne hne, Option.map_eq_none_iff]
    exact Option.eq_none_iff_forall_ne_some.mpr fun _ => hids.free
  have hmoved : ∀ x, s₁.available (o.lockKey pair) = b.store.available (o.lockKey pair) + x →
      b.store.unlocked (.cancel userId id) (o.lockKey pair) = x := by
    intro x hx
    have havailable : (s₁.cancel id o).available (o.lockKey pair) = s₁.available (o.lockKey pair) := rfl
    rw [Store.unlocked, hserve, hfree, havailable, hx, add_sub_cancel_left]
    exact add_zero x
  have hlocked : (b.store.serve (.cancel userId id)).locked (o.lockKey pair) = s₁.locked (o.lockKey pair) := by
    rw [hserve]
    rfl
  rcases unlockCanceled_eq_ok hunlock with rfl | ⟨amount, hstop, hle, hpess⟩
  · refine LockBook.releases_of (le_max_left 0 _) (hmoved 0 (add_zero _).symm) ?_
    rw [hlocked, sub_zero]
  · rw [hkey] at hpess
    obtain ⟨havailable, hlocked'⟩ := pessimistic_unlocked hpess
    have hreleasable := hown o ho hactive hstop
    obtain ⟨hsell, hbuy⟩ := h.left_le ho hreleasable
    refine LockBook.releases_of (hle.trans ?_) (hmoved amount havailable) (hlocked.trans hlocked').ge
    unfold cancelUnlock
    cases hside : o.side with
    | sell => exact hsell hside
    | buy =>
      cases hprice : o.price with
      | none =>
        have hstopPrice := (hreleasable.unpriced hside (.inr hprice)).2
        rw [hstopPrice]
        exact le_max_of_le_left (mul_zero _).le
      | some price =>
        have hle := hbuy hside
        rw [hprice] at hle
        exact hle

/-! ### Replacing -/

/-- The lock for the new values has been taken. -/
theorem relock_eq_ok {unlock lock : Asset × ℚ} {u : Unit} (h : relock userId id unlock lock s = (.ok u, s')) :
    lockOptimistic (userId, lock.1) lock.2 .orderModified (some id) s = (.ok ⟨⟩, s') := by
  unfold relock Prog.tryExcept at h
  rcases hx : lockOptimistic (userId, lock.1) lock.2 .orderModified (some id) s with ⟨err | u, s₁⟩ <;>
    rw [hx] at h
  · -- what follows a failure raises
    have hraise : ∀ {e : PyError} {t : Store}, (Prog.raise e : M Unit) t ≠ (.ok u, s') := by
      intro e t hx
      exact absurd (congrArg Prod.fst hx) (by simp)
    dsimp only at h
    split at h
    · obtain ⟨_, _, -, h⟩ := Prog.bind_eq_ok.mp h
      exact absurd h hraise
    · exact absurd h hraise
  · exact h

/-- **A replacement that returns** has unlocked what is left of the old order, if anything is, and then
    locked the new one. -/
theorem modifyOrder_eq_ok {newPrice newQuantity : ℚ} {newId : OrderId} (hids : IdsBelow s)
    (h : modifyOrder userId id newPrice newQuantity s = (.ok newId, s')) :
    ∃ old pair s₁ s₂, s.pg.orders id = some old ∧ old.userId = userId ∧ old.status.isActive = true ∧
      old.type.rests = true ∧ s.pg.tradingPairs old.symbol = some pair ∧
      Prog.whenever (0 < (modifyUnlock old pair).2) (unlockOptimistic (userId, (modifyUnlock old pair).1)
        (modifyUnlock old pair).2 .orderModified (some id)) s = (.ok ⟨⟩, s₁) ∧
      lockOptimistic (userId, (modifyLock old pair newPrice newQuantity).1)
        (modifyLock old pair newPrice newQuantity).2 .orderModified (some id) s₁ = (.ok ⟨⟩, s₂) ∧
      s' = s₂.replace id old newPrice newQuantity := by
  rcases modifyOrder_cases (fun order ho => (hids id (by rw [ho]; simp)).ne) userId newPrice newQuantity with
    ⟨old, t, hold, huser, hactive, hrests, -, ⟨-, pair, hpair, -⟩, -, hx⟩ | ⟨err, s'', hx, -⟩
  swap
  · exact absurd (hx.symm.trans h) (by simp)
  have hread : getOrder id s = (.ok (some old), s) := by
    rw [← hold]
    rfl
  have hreadPair : getPair old.symbol s = (.ok (some pair), s) := by
    rw [← hpair]
    rfl
  have hfound : (some old).filter (fun order => order.userId = userId) = some old := by simp [huser]
  rw [modifyOrder, Prog.bind_of_ok hread, hfound] at h
  dsimp only at h
  rw [if_neg (by simp [hactive]), if_neg (by simp [hrests]), Prog.bind_of_ok hreadPair] at h
  dsimp only at h
  obtain ⟨_, s₁, hunlock, h⟩ := Prog.bind_eq_ok.mp h
  obtain ⟨_, s₁', hvalid, h⟩ := Prog.bind_eq_ok.mp h
  obtain rfl : s₁ = s₁' := (Prog.ofExcept_eq_ok.mp hvalid).2
  obtain ⟨_, s₂, hrelock, h⟩ := Prog.bind_eq_ok.mp h
  have hlock := relock_eq_ok hrelock
  have hquiet : Quiet s s₂ := trans_of Quiet
    ((Prog.Moves.whenever fun _ => quiet_unlockOptimistic _ _ _ _).of_ok hunlock)
    ((quiet_lockOptimistic _ _ _ _).of_ok hlock)
  obtain ⟨balances, updates, rfl⟩ := hquiet
  refine ⟨old, pair, s₁, _, hold, huser, hactive, hrests, hpair, hunlock, hlock, ?_⟩
  exact (congrArg Prod.snd (h.symm.trans (replaceRest_apply hold (hids id (by rw [hold]; simp)).ne)))

/-- What moves in a balance that is locked. -/
theorem lockOptimistic_moved {key : BalanceKey} {amount : ℚ} {reason : BalanceReason}
    {orderId : Option OrderId} {u : Unit} (h : lockOptimistic key amount reason orderId s = (.ok u, s')) :
    0 < amount ∧ s'.available key = s.available key - amount ∧ s'.locked key = s.locked key + amount := by
  rcases lockOptimistic_cases key amount reason orderId s with ⟨-, hx⟩ | ⟨-, -, hx⟩ | ⟨hpos, -, hx⟩
  · exact absurd (congrArg Prod.fst (hx.symm.trans h)) (by simp)
  · exact absurd (congrArg Prod.fst (hx.symm.trans h)) (by simp)
  · obtain rfl := congrArg Prod.snd (hx.symm.trans h)
    have hrow : ∀ row update, (s.moveBalance key row update).pg.balances key = some row :=
      fun _ _ => Function.update_self ..
    refine ⟨hpos, ?_, ?_⟩
    · exact available_of_row (hrow _ _)
    · exact locked_of_row (hrow _ _)

/-- What moves in a balance that is unlocked, if anything is. -/
theorem unlockOptimistic_moved {key : BalanceKey} {amount : ℚ} {reason : BalanceReason}
    {orderId : Option OrderId} {u : Unit} (h : Prog.whenever (0 < amount)
      (unlockOptimistic key amount reason orderId) s = (.ok u, s')) :
    s'.available key = s.available key + max 0 amount ∧ s'.locked key = s.locked key - max 0 amount := by
  rcases Prog.whenever_eq_ok.mp h with ⟨hnot, rfl⟩ | ⟨hpos, h⟩
  · rw [max_eq_left (not_lt.mp hnot), add_zero, sub_zero]
    exact ⟨rfl, rfl⟩
  rcases unlockOptimistic_cases key amount reason orderId s with ⟨-, err, hx⟩ | ⟨row, hrow, -, -, hx⟩
  · exact absurd (congrArg Prod.fst (hx.symm.trans h)) (by simp)
  · obtain rfl := congrArg Prod.snd (hx.symm.trans h)
    have hrow' : ∀ row update, (s.moveBalance key row update).pg.balances key = some row :=
      fun _ _ => Function.update_self ..
    rw [max_eq_right hpos.le, available_of_row hrow, locked_of_row hrow]
    exact ⟨available_of_row (hrow' _ _), locked_of_row (hrow' _ _)⟩

/-- What is locked for the order that replaces another. -/
theorem lockTaken_replacement {newPrice newQuantity : ℚ} (hrests : o.type.rests = true)
    (hpos : 0 < (modifyLock o pair newPrice newQuantity).2) :
    s.lockTaken (replacement id o newPrice newQuantity) = (modifyLock o pair newPrice newQuantity).2 := by
  have hmarket : o.type ≠ .market := by
    rintro htype
    rw [htype] at hrests
    exact absurd hrests (by decide)
  have hcost : (replacement id o newPrice newQuantity).cost = (modifyLock o pair newPrice newQuantity).2 := by
    unfold Order.cost modifyLock replacement
    cases o.side <;> rfl
  have hlimit : ¬ ((replacement id o newPrice newQuantity).side = .buy ∧
      ((replacement id o newPrice newQuantity).type = .market ∨
        (replacement id o newPrice newQuantity).price = none)) := by
    rintro ⟨-, htype | hprice⟩
    · exact hmarket htype
    · exact absurd hprice (Option.some_ne_none _)
  have hnew : (replacement id o newPrice newQuantity).status ≠ .pending := OrderStatus.noConfusion
  rw [Store.lockTaken, if_neg hnew, if_neg hlimit, hcost, max_eq_right hpos.le]

/-- **A replacement** releases only what its order has locked. -/
theorem LockBook.Sound.modify (h : b.Sound) (userId : UserId) (newPrice newQuantity : ℚ)
    (hown : ∀ o, b.store.pg.orders id = some o → o.status.isActive = true → o.type.isStop = false →
      b.Releasable id o) : b.ReleasesOwn (.modify userId id newPrice newQuantity) := by
  intro k hk o pair ho hpair
  obtain rfl : id = k := Option.some.inj hk
  have hids := h.orderly.consistent.ids
  rcases hx : modifyOrder userId id newPrice newQuantity b.store with ⟨err | newId, s'⟩
  · refine LockBook.releases_of_same hids ?_
    show (transaction (Exchange.discard (modifyOrder userId id newPrice newQuantity)) b.store).2.pg = _
    have hraises : Exchange.discard (modifyOrder userId id newPrice newQuantity) b.store = (.error err, s') :=
      Prog.bind_of_error hx
    unfold transaction Prog.atomically
    rw [hraises]
  have hserve : b.store.serve (.modify userId id newPrice newQuantity) = s' := by
    have hrun : Exchange.discard (modifyOrder userId id newPrice newQuantity) b.store = (.ok ⟨⟩, s') := by
      rw [Exchange.discard, Prog.bind_of_ok hx]
      rfl
    exact congrArg Prod.snd (Prog.atomically_eq_ok.mpr hrun)
  obtain ⟨old, pair', s₁, s₂, hold, rfl, hactive, hrests, hpair', hunlock, hlock, rfl⟩ :=
    modifyOrder_eq_ok hids hx
  obtain rfl : o = old := Option.some.inj (ho.symm.trans hold)
  obtain rfl : pair = pair' := Option.some.inj (hpair.symm.trans hpair')
  have hkey : (o.userId, (modifyUnlock o pair).1) = o.lockKey pair ∧
      (o.userId, (modifyLock o pair newPrice newQuantity).1) = o.lockKey pair := by
    unfold modifyUnlock modifyLock Order.lockKey
    cases o.side <;> exact ⟨rfl, rfl⟩
  rw [hkey.1] at hunlock
  rw [hkey.2] at hlock
  obtain ⟨havailable, hlocked⟩ := unlockOptimistic_moved hunlock
  obtain ⟨hpos, havailable', hlocked'⟩ := lockOptimistic_moved hlock
  have hquiet : Quiet b.store s₂ := trans_of Quiet
    ((Prog.Moves.whenever fun _ => quiet_unlockOptimistic _ _ _ _).of_ok hunlock)
    ((quiet_lockOptimistic _ _ _ _).of_ok hlock)
  -- the new order is inserted with its lock
  have hnew : (s₂.replace id o newPrice newQuantity).pg.orders b.store.orderIdSeq =
      some (replacement id o newPrice newQuantity) := by
    obtain ⟨balances, updates, rfl⟩ := hquiet
    have hne : b.store.orderIdSeq ≠ id := (hids id (by rw [ho]; simp)).ne'
    rw [replace_orders, Function.update_of_ne hne]
    exact Function.update_self ..
  have hbalances : (s₂.replace id o newPrice newQuantity).pg.balances = s₂.pg.balances := rfl
  have hstop : o.type.isStop = false := by
    revert hrests
    cases o.type <;> simp [OrderType.rests, OrderType.isStop]
  obtain ⟨hsell, hbuy⟩ := h.left_le ho (hown o ho hactive hstop)
  have hleft : max 0 (modifyUnlock o pair).2 ≤ b.outstanding id o := by
    refine max_le (le_max_left _ _) ?_
    unfold modifyUnlock
    cases hside : o.side
    · exact hbuy hside
    · exact hsell hside
  refine LockBook.releases_of hleft ?_ ?_
  · rw [Store.unlocked, hserve, hnew, available_of_balances hbalances, havailable', havailable, Option.elim_some,
      lockTaken_replacement hrests hpos]
    ring
  · rw [hserve, locked_of_balances hbalances, hlocked', hlocked]
    linarith

/-! ### Runs -/

/-- **One request.** -/
theorem LockBook.Sound.releasesOwn (h : b.Sound) (hguard : b.Guarded req) : b.ReleasesOwn req := by
  cases req with
  | cancel userId id => exact h.cancel userId fun o ho => hguard.2 id rfl o ho
  | modify userId id newPrice newQuantity =>
    exact h.modify userId newPrice newQuantity fun o ho => hguard.2 id rfl o ho
  | _ => exact fun id hid => nomatch hid

end

theorem sound_start (users : Finset UserId) (pairs : Symbol → Option TradingPair)
    (balances : BalanceKey → Option Row) : (LockBook.start users pairs balances).Sound where
  orderly := ⟨consistent_start users pairs balances, fresh_start users pairs balances⟩
  pays := ⟨fun _ _ _ ho => (nomatch ho), fun _ _ _ hx => absurd hx List.not_mem_nil⟩
  taken := fun _ _ _ => .inl rfl

/-- **Cancelling and replacing release only what the order itself has locked**, in every run in which
    something was locked for the orders that are released, and each is released once. -/
theorem run_releasesOwn (users : Finset UserId) (pairs : Symbol → Option TradingPair)
    (balances : BalanceKey → Option Row) {reqs : List Request}
    (h : Run.Along LockBook.serve LockBook.Guarded (LockBook.start users pairs balances) reqs) :
    Run.Along LockBook.serve LockBook.ReleasesOwn (LockBook.start users pairs balances) reqs :=
  h.mono (fun _ _ hsound hguard => ⟨hsound.serve hguard.1, hsound.releasesOwn hguard⟩)
    (sound_start users pairs balances)

/-! ### A take-profit child that waits -/

/-- Deciding that the next round of the worker is guarded. -/
def guardsScore (s : Store) : Bool :=
  s.redis.ordersQueue.head?.all fun p =>
    decide (p.side = .buy → p.type.rests = true → 0 < s.leftOf p →
      (tick (p.price.getD 0) : ℚ) / priceScale ≤ p.price.getD 0)

theorem lockBook_guarded_work {b : LockBook} (h : guardsScore b.store = true) : b.Guarded .work := by
  refine ⟨fun p hp _ hside hrests hleft => ?_, fun _ hid => nomatch hid⟩
  unfold guardsScore at h
  rw [Option.mem_def.mp hp, Option.all_some, decide_eq_true_eq] at h
  exact h hside hrests hleft

/-- Two users, and the record of their locks. -/
def twoUsersBook : LockBook := .start {1, 2} twoUsers.pg.tradingPairs twoUsers.pg.balances

/-- Two units are asked for; one of them is bought, and the rest of the order is cancelled. -/
def askedRun : List Request :=
  [.place 1 (limitDto .sell 2 100), .work, .place 2 (limitDto .buy 1 100), .work, .cancel 1 1]

theorem run_releasesOwn_asked : Run.Along LockBook.serve LockBook.ReleasesOwn twoUsersBook askedRun := by
  have hasked : (Run.after LockBook.serve twoUsersBook (askedRun.take 4)).Guarded (.cancel 1 1) := by
    refine ⟨trivial, fun id hid o ho _ _ => ?_⟩
    obtain rfl : 1 = id := Option.some.inj hid
    have hside : ((Run.after LockBook.serve twoUsersBook (askedRun.take 4)).store.pg.orders 1).map
        Order.side = some .sell := by decide +kernel
    rw [ho] at hside
    refine ⟨by decide +kernel, by decide +kernel, fun hbuy => ?_⟩
    exact absurd ((Option.some.inj hside).symm.trans hbuy) (by decide)
  have hplace : ∀ {b : LockBook} {userId : UserId} {dto : OrderCreateDto}, b.Guarded (.place userId dto) :=
    ⟨trivial, fun _ hid => nomatch hid⟩
  exact run_releasesOwn _ _ _ ⟨hplace, lockBook_guarded_work (by decide +kernel), hplace,
    lockBook_guarded_work (by decide +kernel), hasked, trivial⟩

/-- A bid for one unit, with a take-profit at 120. -/
def profitBid : OrderCreateDto :=
  { limitDto .buy 1 100 with tp := some { type := .limit, price := some 120 } }

/-- The take-profit child of the bid waits, and five units are locked for another order. -/
def profitBook : LockBook :=
  Run.after LockBook.serve twoUsersBook [.place 1 profitBid, .place 1 (limitDto .sell 5 200)]

/-- **A take-profit child that waits** is cancelled at the cost of another order: one of the five units that
    are locked for that is unlocked. -/
theorem child_releasesOthers : ¬ Run.Along LockBook.serve LockBook.ReleasesOwn twoUsersBook
    [.place 1 profitBid, .place 1 (limitDto .sell 5 200), .cancel 1 2] := by
  rintro ⟨-, -, h, -⟩
  have hchild : (profitBook.store.pg.orders 2).map (fun o => (o.userId, o.symbol, o.side, o.filledQuantity)) =
      some (1, "BTC/USDT", .sell, 0) := by decide +kernel
  have hlisted : (profitBook.store.pg.tradingPairs "BTC/USDT").map TradingPair.baseAsset = some "BTC" := by
    decide +kernel
  obtain ⟨o, ho, hrow⟩ := Option.map_eq_some_iff.mp hchild
  obtain ⟨pair, hpair, hbase⟩ := Option.map_eq_some_iff.mp hlisted
  obtain ⟨huser, hsymbol, hside, hfilled⟩ : o.userId = 1 ∧ o.symbol = "BTC/USDT" ∧ o.side = .sell ∧
      o.filledQuantity = 0 := by simpa using hrow
  have hreleased := (h 2 rfl o pair ho (hsymbol ▸ hpair)).1
  have hkey : o.lockKey pair = (1, "BTC") := by
    rw [Order.lockKey, huser, hside, hbase]
  -- nothing was locked for the child
  have houtstanding : profitBook.outstanding 2 o = 0 := by
    have hrecord : profitBook.taken 2 = 0 ∧ profitBook.returned 2 = 0 := by decide +kernel
    rw [LockBook.outstanding, hrecord.1, hrecord.2, Order.settled, hside, hfilled]
    simp
  have hunlocked : profitBook.store.unlocked (.cancel 1 2) (1, "BTC") = 1 := by decide +kernel
  have hreleased : profitBook.store.unlocked (.cancel 1 2) (o.lockKey pair) ≤ profitBook.outstanding 2 o :=
    hreleased
  rw [hkey, hunlocked, houtstanding] at hreleased
  exact absurd hreleased (by decide)

end SpotExchange.Exchange
