import SpotExchange.Exchange.Running
import SpotExchange.Exchange.Fills

namespace SpotExchange.Exchange

open SpotExchange.Lib
open SpotExchange.Engine (OrderId)
open SpotExchange.Ledger (BalanceKey Row)

/-!
# What a placement may cost, and what is locked for it

* `Store.worstCase` — what the order of a queued placement may cost, and in which balance;
* `Accepted.worstCase_le` — the lock of an accepted placement covers it;
* `lockAll_locked` — a bulk locks the sum of the locks of its orders;
* `triggerLock_covers` — so does the lock of a triggered stop.
-/

/-! ### Costs and locks -/

/-- What is locked of a balance; a missing row counts as zeros. -/
def Store.locked (s : Store) (key : BalanceKey) : ℚ := (s.rowOrZero key).lockedBalance

/-- **What an order may cost**: its quantity in base if it sells, price times quantity if it buys with
    a limit, and what the asks ask if it buys at market. -/
def orderCost (pair : TradingPair) (asks : List BookOrder) (side : OrderSide) (type : OrderType)
    (price : Option ℚ) (quantity : ℚ) : Asset × ℚ :=
  match side with
  | .sell => (pair.baseAsset, quantity)
  | .buy => (pair.quoteAsset,
      if type = .market then (walkAsks quantity 0 asks).2 else price.getD 0 * quantity)

/-- **What the order of a queued placement may cost**, and in which balance. -/
def Store.worstCase (s : Store) (p : OrderActionPayload) : BalanceKey → ℚ :=
  (s.pg.tradingPairs p.symbol).elim 0 fun pair =>
    let cost := orderCost pair (oppositeOrdersForMatch s.redis p.symbol .buy askLimit) p.side p.type
      p.price p.quantity
    Moved.single (p.userId, cost.1) cost.2

section

variable {s t : Store}

theorem locked_moveBalance (s : Store) (key key' : BalanceKey) (amount : ℚ) (update : BalanceUpdate) :
    (s.moveBalance key (lockedRow (s.rowOrZero key) amount) update).locked key' =
      s.locked key' + Moved.single key amount key' := by
  unfold Store.locked Store.rowOrZero
  show ((Function.update s.pg.balances key (some _) key').getD Row.zero).lockedBalance = _
  by_cases hkey : key' = key
  · subst hkey
    simp [lockedRow]
  · simp [hkey]

theorem locked_withRow (s : Store) (key key' : BalanceKey) :
    (s.withRow key).locked key' = s.locked key' := by
  unfold Store.locked Store.rowOrZero Store.withRow
  cases hrow : s.pg.balances key with
  | some row => rfl
  | none =>
    show ((Function.update s.pg.balances key (some Row.zero) key').getD Row.zero).lockedBalance = _
    by_cases hkey : key' = key
    · subst hkey
      simp [hrow]
    · simp [hkey]

theorem locked_of_balances (h : t.pg.balances = s.pg.balances) (key : BalanceKey) :
    t.locked key = s.locked key := by
  unfold Store.locked Store.rowOrZero
  rw [h]

theorem orNone_getD (x : Option ℚ) : (orNone x).getD 0 = x.getD 0 := by
  cases x with
  | none => rfl
  | some q =>
    by_cases hq : q = 0
    · subst hq
      rfl
    · rw [orNone, Option.filter_some_pos (by simpa using hq)]

/-- A thousandth more, if it is positive. -/
private theorem le_padded (cost : ℚ) : cost ≤ max 0 (cost * (1001 / 1000)) := by
  rcases le_total cost 0 with h | h
  · exact h.trans (le_max_left _ _)
  · exact le_max_of_le_right (by linarith)

/-- What a placement locks of each balance. -/
def lockOf (userId : UserId) (lock : Asset × ℚ) : BalanceKey → ℚ :=
  Moved.single (userId, lock.1) (max 0 lock.2)

theorem lockOf_nonneg (userId : UserId) (lock : Asset × ℚ) (key : BalanceKey) :
    0 ≤ lockOf userId lock key := by
  unfold lockOf
  rw [Moved.single_apply]
  split_ifs
  · exact le_max_left _ _
  · exact le_rfl

/-- A market buy locks what the walk along the asks estimates. -/
theorem Accepted.lock_market {dto : OrderCreateDto} {pair : TradingPair} {lock : Asset × ℚ}
    (h : Accepted s dto pair lock) (hside : dto.side = .buy) (hmarket : dto.type = .market) :
    lock = (pair.quoteAsset,
      (walkAsks dto.quantity 0 (oppositeOrdersForMatch s.redis dto.symbol .buy askLimit)).2 * (1001 / 1000)) := by
  have hcomputed := h.computed
  have hread : (Prog.read fun s => oppositeOrdersForMatch s.redis dto.symbol .buy askLimit : M _) s =
      (.ok (oppositeOrdersForMatch s.redis dto.symbol .buy askLimit), s) := rfl
  have hstop : dto.type.isStop = false := by rw [hmarket]; rfl
  unfold computeLock at hcomputed
  rw [if_neg (by simp [hstop]), if_pos ⟨hmarket, hside⟩, computeMarketBuyLock, Prog.bind_of_ok hread] at hcomputed
  split_ifs at hcomputed
  · exact absurd (congrArg Prod.fst hcomputed) (by simp)
  · dsimp only at hcomputed
    split_ifs at hcomputed
    · exact absurd (congrArg Prod.fst hcomputed) (by simp)
    · exact (Except.ok.inj (congrArg Prod.fst hcomputed)).symm

/-- What is locked, but for market buys. -/
theorem Accepted.lock_plain {dto : OrderCreateDto} {pair : TradingPair} {lock : Asset × ℚ}
    (h : Accepted s dto pair lock) (hstop : dto.type.isStop = false)
    (hplain : ¬ (dto.type = .market ∧ dto.side = .buy)) : lock = computeLockAssetAndAmount dto pair := by
  have hcomputed := h.computed
  unfold computeLock at hcomputed
  rw [if_neg (by simp [hstop]), if_neg hplain] at hcomputed
  exact (Except.ok.inj (congrArg Prod.fst hcomputed)).symm

/-- **The lock of an accepted order covers what it may cost.** -/
theorem Accepted.cost_le {dto : OrderCreateDto} {pair : TradingPair} {lock : Asset × ℚ}
    (h : Accepted s dto pair lock) (hstop : dto.type.isStop = false) :
    (orderCost pair (oppositeOrdersForMatch s.redis dto.symbol .buy askLimit) dto.side dto.type
        dto.price dto.quantity).1 = lock.1 ∧
      (orderCost pair (oppositeOrdersForMatch s.redis dto.symbol .buy askLimit) dto.side dto.type
        dto.price dto.quantity).2 ≤ max 0 lock.2 := by
  by_cases hmarket : dto.type = .market ∧ dto.side = .buy
  · -- a market buy walks along the same asks
    rw [h.lock_market hmarket.2 hmarket.1]
    simp only [orderCost, hmarket.2, hmarket.1, if_true, true_and]
    exact le_padded _
  · rw [h.lock_plain hstop hmarket, computeLockAssetAndAmount, if_neg (by simp [hstop])]
    cases hside : dto.side with
    | sell => exact ⟨rfl, le_max_right _ _⟩
    | buy =>
      have hnot : dto.type ≠ .market := fun ht => hmarket ⟨ht, hside⟩
      simp only [orderCost, if_neg hnot]
      cases htype : dto.type
      case market => exact absurd htype hnot
      all_goals exact ⟨trivial, le_max_right _ _⟩

/-- A cost that is covered in its balance. -/
theorem single_le_single {key : BalanceKey} {amount amount' : ℚ} (h : amount ≤ amount')
    (key' : BalanceKey) : Moved.single key amount key' ≤ Moved.single key amount' key' := by
  rw [Moved.single_apply, Moved.single_apply]
  split_ifs
  · exact h
  · exact le_rfl

theorem Accepted.worstCase_le {dto : OrderCreateDto} {pair : TradingPair} {lock : Asset × ℚ}
    (h : Accepted s dto pair lock) (hstop : dto.type.isStop = false) (userId : UserId) (id : OrderId)
    (key : BalanceKey) :
    s.worstCase (buildOrderActionPayload (placePayload id (newOrder userId dto))) key ≤
      lockOf userId lock key := by
  obtain ⟨hasset, hcost⟩ := h.cost_le hstop
  have hworst : s.worstCase (buildOrderActionPayload (placePayload id (newOrder userId dto))) =
      Moved.single (userId, lock.1) (orderCost pair (oppositeOrdersForMatch s.redis dto.symbol .buy
        askLimit) dto.side dto.type dto.price dto.quantity).2 := by
    have hprice : orderCost pair (oppositeOrdersForMatch s.redis dto.symbol .buy askLimit) dto.side
        dto.type (orNone dto.price) dto.quantity = orderCost pair (oppositeOrdersForMatch s.redis
          dto.symbol .buy askLimit) dto.side dto.type dto.price dto.quantity := by
      unfold orderCost
      rw [orNone_getD]
    unfold Store.worstCase
    show (s.pg.tradingPairs dto.symbol).elim 0 _ = _
    rw [h.listed, ← hasset, ← hprice]
    rfl
  rw [hworst]
  exact single_le_single hcost key

/-! ### What a placement locks -/

/-- A stop locks nothing when it is placed. -/
theorem Accepted.lock_stop {dto : OrderCreateDto} {pair : TradingPair} {lock : Asset × ℚ}
    (h : Accepted s dto pair lock) (hstop : dto.type.isStop = true) : lock = ("", 0) := by
  have hcomputed := h.computed
  unfold computeLock at hcomputed
  rw [if_pos hstop] at hcomputed
  exact (Except.ok.inj (congrArg Prod.fst hcomputed)).symm

/-- What is locked has a name, if the assets of the pair have. -/
theorem Accepted.lock_named {dto : OrderCreateDto} {pair : TradingPair} {lock : Asset × ℚ}
    (h : Accepted s dto pair lock) (hbase : pair.baseAsset ≠ "") (hquote : pair.quoteAsset ≠ "")
    (hpos : 0 < lock.2) : lock.1 ≠ "" := by
  by_cases hstop : dto.type.isStop = true
  · rw [h.lock_stop hstop] at hpos
    exact absurd hpos (lt_irrefl 0)
  · rw [← (h.cost_le (by simpa using hstop)).1]
    unfold orderCost
    cases dto.side
    · exact hquote
    · exact hbase

theorem lockFor_locked {dto : OrderCreateDto} {pair : TradingPair} {lock : Asset × ℚ}
    (h : Accepted s dto pair lock) (userId : UserId) (key : BalanceKey) :
    (s.lockFor userId dto lock).locked key = s.locked key + lockOf userId lock key := by
  unfold Store.lockFor lockOf
  by_cases hlock : dto.type.isStop = false ∧ 0 < lock.2
  · rw [if_pos hlock, locked_moveBalance, max_eq_right hlock.2.le]
  · rw [if_neg hlock]
    have hle : lock.2 ≤ 0 := by
      by_cases hstop : dto.type.isStop = true
      · rw [h.lock_stop hstop]
      · exact not_lt.mp fun hpos => hlock ⟨by simpa using hstop, hpos⟩
    rw [max_eq_left hle, Moved.single_zero, Pi.zero_apply, add_zero]

theorem placed_locked (userId : UserId) (dto : OrderCreateDto) (key : BalanceKey) :
    (s.placed userId dto).locked key = s.locked key :=
  locked_of_balances (inserted_redis s userId dto).2.2 key

/-! ### What a bulk locks -/

theorem lockAll_locked (userId : UserId) (reqs : List (Asset × ℚ)) (key : BalanceKey) :
    (s.lockAll userId reqs).locked key =
      s.locked key + (reqs.map fun req => Moved.single (userId, req.1) req.2 key).sum := by
  unfold Store.lockAll
  induction reqs generalizing s with
  | nil => exact (add_zero _).symm
  | cons req reqs ih =>
    rw [List.foldl_cons, ih, List.map_cons, List.sum_cons, ← add_assoc]
    refine congrArg (· + _) ?_
    exact locked_moveBalance s _ key _ _

private theorem addRequirement_sum (g : Asset → ℚ → ℚ) (hg : ∀ a x y, g a (x + y) = g a x + g a y)
    (asset : Asset) (amount : ℚ) (reqs : List (Asset × ℚ)) :
    ((addRequirement asset amount reqs).map fun req => g req.1 req.2).sum =
      (reqs.map fun req => g req.1 req.2).sum + g asset amount := by
  induction reqs with
  | nil => simp [addRequirement]
  | cons x xs ih =>
    by_cases hx : x.1 = asset
    · rw [addRequirement, if_pos hx]
      simp only [List.map_cons, List.sum_cons, hg, ← hx]
      ring
    · rw [addRequirement, if_neg hx]
      simp only [List.map_cons, List.sum_cons, ih]
      ring

/-- **The requirements of a bulk** in one balance sum to the locks of its orders, unless one of them has
    no name for it. -/
theorem lockRequirements_sum (userId : UserId) {validated : List (OrderCreateDto × (Asset × ℚ))}
    (key : BalanceKey) (hnamed : ∀ v ∈ validated, 0 < v.2.2 → v.2.1 ≠ "" ∨ v.2.1 ≠ key.2) :
    ((sortedRequirements (lockRequirements validated)).map fun req =>
        Moved.single (userId, req.1) req.2 key).sum =
      (validated.map fun v => lockOf userId v.2 key).sum := by
  let g : Asset → ℚ → ℚ := fun asset amount => Moved.single (userId, asset) amount key
  have hg : ∀ a x y, g a (x + y) = g a x + g a y := fun a x y => by
    show Moved.single (userId, a) (x + y) key = _
    rw [Moved.single_add]
    rfl
  have hfold : ∀ reqs : List (Asset × ℚ), ((validated.foldl (fun reqs v =>
      if v.2.1 ≠ "" ∧ 0 < v.2.2 then addRequirement v.2.1 v.2.2 reqs else reqs) reqs).map fun req =>
        g req.1 req.2).sum = (reqs.map fun req => g req.1 req.2).sum +
          (validated.map fun v => lockOf userId v.2 key).sum := by
    induction validated with
    | nil => exact fun _ => (add_zero _).symm
    | cons v validated ih =>
      rw [List.forall_mem_cons] at hnamed
      intro reqs
      rw [List.foldl_cons, ih hnamed.2, List.map_cons, List.sum_cons, ← add_assoc]
      refine congrArg (· + _) ?_
      unfold lockOf
      by_cases hv : v.2.1 ≠ "" ∧ 0 < v.2.2
      · rw [if_pos hv, addRequirement_sum g hg, max_eq_right hv.2.le]
      · rw [if_neg hv]
        by_cases hpos : 0 < v.2.2
        · -- a lock without a name is of another balance
          have hkey : key ≠ (userId, v.2.1) := by
            rintro rfl
            exact (hnamed.1 hpos).elim (fun h => hv ⟨h, hpos⟩) fun h => h rfl
          rw [Moved.single_apply, if_neg hkey, add_zero]
        · rw [max_eq_left (not_lt.mp hpos), Moved.single_zero, Pi.zero_apply, add_zero]
  have hperm : (sortedRequirements (lockRequirements validated)).Perm (lockRequirements validated) :=
    List.perm_insertionSort _ _
  rw [(hperm.map fun req => Moved.single (userId, req.1) req.2 key).sum_eq]
  have hall := hfold []
  rw [List.map_nil, List.sum_nil, zero_add] at hall
  exact hall

/-! ### What a triggered stop locks -/

/-- A triggered stop becomes a market order or a limit order. -/
theorem childTerms_cases (order : Order) :
    childTerms order = (.market, none) ∨ childTerms order = (.limit, order.price) := by
  unfold childTerms
  cases order.type
  case stopMarket | trailingStop => exact .inl rfl
  all_goals exact .inr rfl

theorem triggeredChild_isStop (stopId : OrderId) (order : Order) :
    (triggeredChild stopId order).type.isStop = false := by
  show (childTerms order).1.isStop = false
  rcases childTerms_cases order with h | h <;> rw [h] <;> rfl

/-- **The lock of a triggered stop** covers what its order may cost. -/
theorem triggerLock_covers {order : Order} {pair : TradingPair} {asks : List BookOrder}
    {lock : Asset × ℚ} (h : triggerLock order pair asks = some lock) :
    (orderCost pair asks order.side (childTerms order).1 (childTerms order).2 order.quantity).1 =
        lock.1 ∧
      (orderCost pair asks order.side (childTerms order).1 (childTerms order).2 order.quantity).2 ≤
        max 0 lock.2 := by
  unfold triggerLock at h
  unfold orderCost
  cases hside : order.side with
  | sell =>
    rw [hside] at h
    obtain rfl := Option.some.inj h
    exact ⟨rfl, le_max_right _ _⟩
  | buy =>
    rw [hside] at h
    -- without a price the walk along the asks is locked
    have hwalk : ∀ {cost : ℚ}, cost ≤ max 0 (walkAsks order.quantity 0 asks).2 →
        (if asks = [] ∨ 0 < (walkAsks order.quantity 0 asks).1 then none else
          some (pair.quoteAsset, (walkAsks order.quantity 0 asks).2 * (1001 / 1000))) = some lock →
        pair.quoteAsset = lock.1 ∧ cost ≤ max 0 lock.2 := by
      intro cost hcost h
      split_ifs at h
      obtain rfl := Option.some.inj h
      exact ⟨rfl, hcost.trans (max_le (le_max_left _ _) (le_padded _))⟩
    rcases childTerms_cases order with hterms | hterms <;> rw [hterms] at h ⊢
    · exact hwalk (le_max_right _ _) h
    · cases hprice : order.price with
      | none =>
        rw [hprice] at h
        refine hwalk ?_ h
        show 0 * order.quantity ≤ _
        rw [zero_mul]
        exact le_max_left _ _
      | some price =>
        rw [hprice] at h
        obtain rfl := Option.some.inj h
        exact ⟨rfl, le_max_right _ _⟩

end

end SpotExchange.Exchange
