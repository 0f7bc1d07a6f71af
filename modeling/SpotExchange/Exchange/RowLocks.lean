import SpotExchange.Exchange.Orders
import SpotExchange.Exchange.Settlement
import SpotExchange.Lib.Deadlock

namespace SpotExchange.Exchange

open SpotExchange.Lib
open SpotExchange.Engine (OrderId)
open SpotExchange.Ledger (BalanceKey)

/-!
# Row locks

The rows of `orders` and `balances` that a transaction locks, by `FOR UPDATE` or by an `UPDATE`, in
the order in which it comes to them.  It keeps them until it ends.

* `RowTransaction.rows` — the rows of each transaction, read from the source;
* `RowTransaction.Ordered` — which two transactions agree on the row that comes first;
* `rowLocks_deadlockFree_iff` — just these cannot deadlock;
* `cancel_fill_deadlock` — a cancellation and a batch that fills the order.
-/

/-- A row that is locked. -/
inductive RowKey
  | order (id : OrderId)
  | balance (key : BalanceKey)
  deriving DecidableEq, Repr

/-- A transaction that locks rows. -/
inductive RowTransaction
  | persistTradeBatch (args : BatchArgs) (trades : List DomainTrade)
  | cancelOrder (userId : UserId) (orderId : OrderId)
  | modifyOrder (userId : UserId) (orderId : OrderId)
  | placeBulkOrders (userId : UserId) (dtos : List OrderCreateDto)

/-! ### The rows -/

/-- The children of an order that satisfy `p`, as `list_children_by_parent` gives them. -/
def Store.childIds (s : Store) (parentId : OrderId) (p : Order → Bool) : List OrderId :=
  (List.range s.orderIdSeq).filter fun id =>
    (s.pg.orders id).any fun o => decide (o.parentOrderId = some parentId) && p o

/-- The balances that `_settle_trade_balances` loads: what the party pays first. -/
def settledBalances (args : BatchArgs) (isTaker : Bool) (userId : UserId) : List BalanceKey :=
  match isTaker, args.takerSide with
  | true, .buy | false, .sell => [(userId, args.quoteAsset), (userId, args.baseAsset)]
  | true, .sell | false, .buy => [(userId, args.baseAsset), (userId, args.quoteAsset)]

/-- The balances that are loaded for one order of a batch, as far as there are any. -/
def Store.settledBalances (s : Store) (args : BatchArgs) (isTaker : Bool) (id : OrderId) :
    List BalanceKey :=
  (s.pg.orders id).elim [] fun o => (Exchange.settledBalances args isTaker o.userId).filter fun key =>
    (s.pg.balances key).isSome

/-- The makers of a batch that there are, in the order of their first fill. -/
def Store.batchMakers (s : Store) (trades : List DomainTrade) : List OrderId :=
  ((makerFillDeltas trades).map FillDelta.makerId).filter fun id => (s.pg.orders id).isSome

/-- The orders that `persist_trade_batch` loads `FOR UPDATE`: the makers, then the taker. -/
def Store.batchOrders (s : Store) (args : BatchArgs) (trades : List DomainTrade) : List OrderId :=
  s.batchMakers trades ++ [args.takerOrderId].filter fun id => (s.pg.orders id).isSome

/-- The balances that it loads then. -/
def Store.batchBalances (s : Store) (args : BatchArgs) (trades : List DomainTrade) :
    List BalanceKey :=
  (s.batchMakers trades).flatMap (s.settledBalances args false) ++
    s.settledBalances args true args.takerOrderId

/-- The children that it activates if it fills the taker. -/
def Store.batchChildren (s : Store) (args : BatchArgs) (trades : List DomainTrade) : List OrderId :=
  (s.pg.orders args.takerOrderId).elim [] fun o =>
    if (o.filledAsTaker (takerTotalQty trades) (takerTotalQuote trades)).status = .filled then
      s.childIds args.takerOrderId fun o => o.status = .pending
    else []

/-- The order that `cancel_order` cancels, and its pair. -/
def Store.canceledOrder (s : Store) (userId : UserId) (id : OrderId) : Option (Order × TradingPair) :=
  ((s.pg.orders id).filter fun o => o.userId = userId && o.status.isActive).bind fun o =>
    (s.pg.tradingPairs o.symbol).map fun pair => (o, pair)

/-- The balance that it loads `FOR UPDATE`. -/
def Store.canceledBalance (s : Store) (userId : UserId) (id : OrderId) : Option BalanceKey :=
  (s.canceledOrder userId id).bind fun (o, pair) =>
    if o.type.isStop = false ∧ 0 < (cancelUnlock o pair).2 ∧
        (s.pg.balances (userId, (cancelUnlock o pair).1)).isSome = true then
      some (userId, (cancelUnlock o pair).1)
    else none

/-- The orders that it updates: the order and its active children. -/
def Store.canceledOrders (s : Store) (userId : UserId) (id : OrderId) : List OrderId :=
  (s.canceledOrder userId id).elim [] fun _ => id :: s.childIds id fun o => o.status.isActive

/-- The order that `modify_order` loads `FOR UPDATE`. -/
def Store.modifiedOrders (s : Store) (id : OrderId) : List OrderId :=
  [id].filter fun id => (s.pg.orders id).isSome

/-- The balance that it unlocks and locks. -/
def Store.modifiedBalance (s : Store) (userId : UserId) (id : OrderId) : Option BalanceKey :=
  ((s.pg.orders id).filter fun o => o.userId = userId && o.status.isActive && o.type.rests).bind fun o =>
    (s.pg.tradingPairs o.symbol).map fun pair => (userId, (modifyUnlock o pair).1)

/-- The balances that `place_bulk_orders` locks, sorted by asset. -/
def Store.bulkBalances (s : Store) (userId : UserId) (dtos : List OrderCreateDto) : List BalanceKey :=
  match (validateBulk dtos s).1 with
  | .error _ => []
  | .ok validated => (sortedRequirements (lockRequirements validated)).map fun req => (userId, req.1)

/-- **The rows that a transaction locks** if it commits, as it finds them in `s`. -/
def RowTransaction.rows (s : Store) : RowTransaction → List RowKey
  | .persistTradeBatch args trades =>
      if trades = [] then []
      else (s.batchOrders args trades).map .order ++ ((s.batchBalances args trades).map .balance ++
        (s.batchChildren args trades).map .order)
  | .cancelOrder userId id =>
      (s.canceledBalance userId id).toList.map .balance ++ (s.canceledOrders userId id).map .order
  | .modifyOrder userId id =>
      (s.modifiedOrders id).map .order ++ (s.modifiedBalance userId id).toList.map .balance
  | .placeBulkOrders userId dtos => (s.bulkBalances userId dtos).map .balance

/-! ### Which row comes first -/

/-- A replacement and a cancellation do not share both the order and its balance. -/
def ModifyBeforeCancel (s s' : Store) (userId userId' : UserId) (id id' : OrderId) : Prop :=
  ∀ key, s.modifiedBalance userId id = some key → s'.canceledBalance userId' id' = some key →
    id ∈ s.modifiedOrders id → id ∉ s'.canceledOrders userId' id'

/-- A replacement and a batch do not share both the balance and an order that the batch only comes to
    when it activates it. -/
def ModifyBeforeBatch (s s' : Store) (userId : UserId) (id : OrderId) (args : BatchArgs)
    (trades : List DomainTrade) : Prop :=
  trades ≠ [] → ∀ key, s.modifiedBalance userId id = some key → key ∈ s'.batchBalances args trades →
    id ∈ s.modifiedOrders id → id ∈ s'.batchChildren args trades → id ∈ s'.batchOrders args trades

/-- **The two transactions agree on the row that comes first.**  Replacements and bulk placements
    always agree, and so do cancellations and bulk placements. -/
def RowTransaction.Ordered (s s' : Store) : RowTransaction → RowTransaction → Prop
  | .placeBulkOrders _ _, .placeBulkOrders _ _ => True
  | .placeBulkOrders _ _, .modifyOrder _ _ => True
  | .modifyOrder _ _, .placeBulkOrders _ _ => True
  | .placeBulkOrders _ _, .cancelOrder _ _ => True
  | .cancelOrder _ _, .placeBulkOrders _ _ => True
  | .modifyOrder _ _, .modifyOrder _ _ => True
  | .modifyOrder userId id, .cancelOrder userId' id' => ModifyBeforeCancel s s' userId userId' id id'
  | .cancelOrder userId' id', .modifyOrder userId id => ModifyBeforeCancel s' s userId userId' id id'
  | .modifyOrder userId id, .persistTradeBatch args trades =>
      ModifyBeforeBatch s s' userId id args trades
  | .persistTradeBatch args trades, .modifyOrder userId id =>
      ModifyBeforeBatch s' s userId id args trades
  | t, t' => firstShared (t.rows s) (t'.rows s') = firstShared (t'.rows s') (t.rows s)

section

variable {s s' : Store}

theorem mem_modifyRows {userId : UserId} {id : OrderId} {row : RowKey} :
    row ∈ (RowTransaction.modifyOrder userId id).rows s ↔
      row = .order id ∧ id ∈ s.modifiedOrders id ∨
        ∃ key, s.modifiedBalance userId id = some key ∧ row = .balance key := by
  simp only [RowTransaction.rows, List.mem_append, List.mem_map, Option.mem_toList]
  refine or_congr ⟨?_, ?_⟩ ⟨?_, ?_⟩
  · rintro ⟨k, hk, rfl⟩
    obtain rfl := List.mem_singleton.mp (List.mem_of_mem_filter hk)
    exact ⟨rfl, hk⟩
  · rintro ⟨rfl, hk⟩
    exact ⟨id, hk, rfl⟩
  · rintro ⟨key, hkey, rfl⟩
    exact ⟨key, hkey, rfl⟩
  · rintro ⟨key, hkey, rfl⟩
    exact ⟨key, hkey, rfl⟩

theorem mem_cancelRows {userId : UserId} {id : OrderId} {row : RowKey} :
    row ∈ (RowTransaction.cancelOrder userId id).rows s ↔
      (∃ key, s.canceledBalance userId id = some key ∧ row = .balance key) ∨
        ∃ k ∈ s.canceledOrders userId id, row = .order k := by
  simp only [RowTransaction.rows, List.mem_append, List.mem_map, Option.mem_toList, eq_comm]

theorem mem_bulkRows {userId : UserId} {dtos : List OrderCreateDto} {row : RowKey} :
    row ∈ (RowTransaction.placeBulkOrders userId dtos).rows s ↔
      ∃ key ∈ s.bulkBalances userId dtos, row = .balance key := by
  simp only [RowTransaction.rows, List.mem_map, eq_comm]

/-- The balances of a bulk are sorted. -/
theorem bulkRows_sorted (s : Store) (userId : UserId) (dtos : List OrderCreateDto) :
    ((RowTransaction.placeBulkOrders userId dtos).rows s).Pairwise fun x y =>
      ∃ userId asset asset', x = .balance (userId, asset) ∧ y = .balance (userId, asset') ∧
        asset ≤ asset' := by
  show ((s.bulkBalances userId dtos).map RowKey.balance).Pairwise _
  unfold Store.bulkBalances
  split
  · exact List.Pairwise.nil
  · rw [List.map_map, List.pairwise_map]
    exact (List.pairwise_insertionSort _ _).imp fun {x y} h => ⟨userId, x.1, y.1, rfl, rfl, h⟩

/-- **Two bulk placements**, of whatever users. -/
theorem bulk_deadlockFree (userId userId' : UserId) (dtos dtos' : List OrderCreateDto) :
    DeadlockFree ((RowTransaction.placeBulkOrders userId dtos).rows s)
      ((RowTransaction.placeBulkOrders userId' dtos').rows s') := by
  refine @deadlockFree_of_sorted _ _ _ _ _ ⟨?_⟩ (bulkRows_sorted s userId dtos)
    (bulkRows_sorted s' userId' dtos')
  rintro _ _ ⟨u, a, a', rfl, rfl, hle⟩ ⟨u', b, b', hb, hb', hle'⟩
  obtain ⟨rfl, rfl⟩ : u = u' ∧ a' = b := by simpa using hb
  obtain rfl : a = b' := by simpa using hb'
  rw [le_antisymm hle hle']

/-- A transaction with a single balance, and a bulk placement. -/
theorem bulk_single_deadlockFree {userId : UserId} {dtos : List OrderCreateDto} {rows : List RowKey}
    (h : ∀ key key', .balance key ∈ rows → .balance key' ∈ rows → key = key') :
    DeadlockFree ((RowTransaction.placeBulkOrders userId dtos).rows s) rows := by
  refine deadlockFree_of_unique fun x hx hxr y hy hyr => ?_
  obtain ⟨key, -, rfl⟩ := mem_bulkRows.mp hx
  obtain ⟨key', -, rfl⟩ := mem_bulkRows.mp hy
  rw [h key key' hxr hyr]

theorem modifyRows_single {userId : UserId} {id : OrderId} {key key' : BalanceKey}
    (h : .balance key ∈ (RowTransaction.modifyOrder userId id).rows s)
    (h' : .balance key' ∈ (RowTransaction.modifyOrder userId id).rows s) : key = key' := by
  rcases mem_modifyRows.mp h with ⟨h, -⟩ | ⟨k, hk, h⟩
  · exact absurd h (by simp)
  · rcases mem_modifyRows.mp h' with ⟨h', -⟩ | ⟨k', hk', h'⟩
    · exact absurd h' (by simp)
    · obtain rfl : key = k := by simpa using h
      obtain rfl : key' = k' := by simpa using h'
      exact Option.some.inj (hk.symm.trans hk')

theorem cancelRows_single {userId : UserId} {id : OrderId} {key key' : BalanceKey}
    (h : .balance key ∈ (RowTransaction.cancelOrder userId id).rows s)
    (h' : .balance key' ∈ (RowTransaction.cancelOrder userId id).rows s) : key = key' := by
  rcases mem_cancelRows.mp h with ⟨k, hk, h⟩ | ⟨k, -, h⟩
  · rcases mem_cancelRows.mp h' with ⟨k', hk', h'⟩ | ⟨k', -, h'⟩
    · obtain rfl : key = k := by simpa using h
      obtain rfl : key' = k' := by simpa using h'
      exact Option.some.inj (hk.symm.trans hk')
    · exact absurd h' (by simp)
  · exact absurd h (by simp)

/-! ### Replacements -/

/-- What a replacement shares with others: its order and its balance. -/
private theorem modify_deadlockFree {userId : UserId} {id : OrderId} {rows : List RowKey}
    (h : ∀ key, s.modifiedBalance userId id = some key → .balance key ∈ rows →
      id ∈ s.modifiedOrders id → .order id ∉ rows) :
    DeadlockFree ((RowTransaction.modifyOrder userId id).rows s) rows := by
  refine deadlockFree_of_unique fun x hx hxr y hy hyr => ?_
  rcases mem_modifyRows.mp hx with ⟨rfl, hid⟩ | ⟨key, hkey, rfl⟩ <;>
    rcases mem_modifyRows.mp hy with ⟨rfl, hid'⟩ | ⟨key', hkey', rfl⟩
  · rfl
  · exact absurd hxr (h key' hkey' hyr hid)
  · exact absurd hyr (h key hkey hxr hid')
  · rw [Option.some.inj (hkey.symm.trans hkey')]

/-- The first row that a replacement shares is its order, if it is shared. -/
private theorem firstShared_modify {userId : UserId} {id : OrderId} {rows : List RowKey}
    (hid : id ∈ s.modifiedOrders id) (h : .order id ∈ rows) :
    firstShared ((RowTransaction.modifyOrder userId id).rows s) rows = some (.order id) := by
  have horders : s.modifiedOrders id = [id] := by
    unfold Store.modifiedOrders at hid ⊢
    exact List.filter_eq_self.mpr fun k hk => List.mem_singleton.mp hk ▸ (List.mem_filter.mp hid).2
  rw [firstShared, RowTransaction.rows, horders, List.find?_append]
  simp [h]

/-- **Two replacements.** -/
theorem modify_modify_deadlockFree (userId userId' : UserId) (id id' : OrderId) :
    DeadlockFree ((RowTransaction.modifyOrder userId id).rows s)
      ((RowTransaction.modifyOrder userId' id').rows s') := by
  by_cases hshared : id ∈ s.modifiedOrders id ∧
      RowKey.order id ∈ (RowTransaction.modifyOrder userId' id').rows s'
  · obtain ⟨hid, hmem⟩ := hshared
    rcases mem_modifyRows.mp hmem with ⟨heq, hid'⟩ | ⟨key, -, heq⟩
    · obtain rfl : id = id' := by simpa using heq
      rw [deadlockFree_iff, firstShared_modify hid hmem,
        firstShared_modify hid' (mem_modifyRows.mpr (.inl ⟨rfl, hid⟩))]
    · exact absurd heq (by simp)
  · exact modify_deadlockFree fun _ _ _ hid hmem => hshared ⟨hid, hmem⟩

/-- **A replacement and a cancellation.** -/
theorem modify_cancel_deadlockFree_iff (userId userId' : UserId) (id id' : OrderId) :
    DeadlockFree ((RowTransaction.modifyOrder userId id).rows s)
      ((RowTransaction.cancelOrder userId' id').rows s') ↔
        ModifyBeforeCancel s s' userId userId' id id' := by
  constructor
  · rintro h key hkey hkey' hid hmem
    have horder : RowKey.order id ∈ (RowTransaction.cancelOrder userId' id').rows s' :=
      mem_cancelRows.mpr (.inr ⟨id, hmem, rfl⟩)
    rw [deadlockFree_iff, firstShared_modify hid horder] at h
    -- the cancellation starts with the balance
    have hbalance : RowKey.balance key ∈ (RowTransaction.modifyOrder userId id).rows s :=
      mem_modifyRows.mpr (.inr ⟨key, hkey, rfl⟩)
    rw [firstShared, RowTransaction.rows, hkey', List.find?_append] at h
    simp [hbalance] at h
  · refine fun h => modify_deadlockFree fun key hkey hkey' hid hmem => ?_
    rcases mem_cancelRows.mp hkey' with ⟨key', hc, heq⟩ | ⟨_, -, heq⟩
    · obtain rfl : key = key' := by simpa using heq
      rcases mem_cancelRows.mp hmem with ⟨_, -, heq⟩ | ⟨k, hk, heq⟩
      · exact absurd heq (by simp)
      · obtain rfl : id = k := by simpa using heq
        exact h key hkey hc hid hk
    · exact absurd heq (by simp)

/-- **A replacement and a batch.** -/
theorem modify_persist_deadlockFree_iff (userId : UserId) (id : OrderId) (args : BatchArgs)
    (trades : List DomainTrade) :
    DeadlockFree ((RowTransaction.modifyOrder userId id).rows s)
      ((RowTransaction.persistTradeBatch args trades).rows s') ↔
        ModifyBeforeBatch s s' userId id args trades := by
  by_cases hnil : trades = []
  · refine ⟨fun _ hne => absurd hnil hne, fun _ => modify_deadlockFree fun key _ hkey => ?_⟩
    rw [RowTransaction.rows, if_pos hnil] at hkey
    exact absurd hkey List.not_mem_nil
  have hrows : (RowTransaction.persistTradeBatch args trades).rows s' =
      (s'.batchOrders args trades).map .order ++ ((s'.batchBalances args trades).map .balance ++
        (s'.batchChildren args trades).map .order) := by
    rw [RowTransaction.rows, if_neg hnil]
  rw [hrows]
  have horder : ∀ {k}, RowKey.order k ∈ (s'.batchOrders args trades).map .order ++
      ((s'.batchBalances args trades).map .balance ++ (s'.batchChildren args trades).map .order) ↔
      k ∈ s'.batchOrders args trades ∨ k ∈ s'.batchChildren args trades := by simp
  have hbalance : ∀ {key}, RowKey.balance key ∈ (s'.batchOrders args trades).map .order ++
      ((s'.batchBalances args trades).map .balance ++ (s'.batchChildren args trades).map .order) ↔
      key ∈ s'.batchBalances args trades := by simp
  constructor
  · intro h hne key hkey hkey' hid hchild
    by_contra hnot
    rw [deadlockFree_iff, firstShared_modify hid (horder.mpr (.inr hchild)), firstShared,
      List.find?_append] at h
    -- the batch comes to a balance first
    have hnone : ((s'.batchOrders args trades).map RowKey.order).find?
        (· ∈ (RowTransaction.modifyOrder userId id).rows s) = none := by
      rw [List.find?_eq_none]
      intro row hrow
      obtain ⟨k, hk, rfl⟩ := List.mem_map.mp hrow
      have hne : k ≠ id := by
        rintro rfl
        exact hnot hk
      simp [mem_modifyRows, hne]
    obtain ⟨row, hrow⟩ : ∃ row, ((s'.batchBalances args trades).map RowKey.balance).find?
        (· ∈ (RowTransaction.modifyOrder userId id).rows s) = some row := by
      rw [← Option.isSome_iff_exists, List.find?_isSome]
      have hrow : RowKey.balance key ∈ (RowTransaction.modifyOrder userId id).rows s :=
        mem_modifyRows.mpr (.inr ⟨key, hkey, rfl⟩)
      exact ⟨.balance key, List.mem_map_of_mem hkey', by simpa using hrow⟩
    rw [hnone, List.find?_append, hrow] at h
    obtain ⟨key', -, hk⟩ := List.mem_map.mp (List.mem_of_find?_eq_some hrow)
    subst hk
    exact absurd h (by simp)
  · intro h
    -- both lock the order first, or share no two rows in opposite order
    by_cases hfirst : id ∈ s.modifiedOrders id ∧ id ∈ s'.batchOrders args trades
    · obtain ⟨hid, hmem⟩ := hfirst
      rw [deadlockFree_iff, firstShared_modify hid (horder.mpr (.inl hmem)), firstShared,
        List.find?_append]
      obtain ⟨row, hrow⟩ : ∃ row, ((s'.batchOrders args trades).map RowKey.order).find?
          (· ∈ (RowTransaction.modifyOrder userId id).rows s) = some row := by
        rw [← Option.isSome_iff_exists, List.find?_isSome]
        have hrow : RowKey.order id ∈ (RowTransaction.modifyOrder userId id).rows s :=
          mem_modifyRows.mpr (.inl ⟨rfl, hid⟩)
        exact ⟨.order id, List.mem_map_of_mem hmem, by simpa using hrow⟩
      obtain ⟨k, -, hk⟩ := List.mem_map.mp (List.mem_of_find?_eq_some hrow)
      subst hk
      rcases mem_modifyRows.mp (by simpa using List.find?_some hrow) with ⟨heq, -⟩ | ⟨_, -, heq⟩
      · rw [hrow, heq]
        rfl
      · exact absurd heq (by simp)
    · refine modify_deadlockFree fun key hkey hkey' hid hmem => ?_
      rcases horder.mp hmem with hmem | hmem
      · exact hfirst ⟨hid, hmem⟩
      · exact hfirst ⟨hid, h hnil key hkey (hbalance.mp hkey') hid hmem⟩

end

/-! ### Any two transactions -/

/-- **Two transactions cannot deadlock exactly when they agree on the row that comes first.** -/
theorem rowLocks_deadlockFree_iff (s s' : Store) (t t' : RowTransaction) :
    DeadlockFree (t.rows s) (t'.rows s') ↔ t.Ordered s s' t' := by
  -- the relation is symmetric, so half of the pairs follow from the other half
  have hcomm : ∀ {xs ys : List RowKey}, DeadlockFree xs ys ↔ DeadlockFree ys xs := by
    intro xs ys
    rw [deadlockFree_iff, deadlockFree_iff, eq_comm]
  cases t with
  | placeBulkOrders userId dtos =>
    cases t' with
    | placeBulkOrders userId' dtos' => exact iff_of_true (bulk_deadlockFree _ _ _ _) trivial
    | modifyOrder userId' id' =>
      exact iff_of_true (bulk_single_deadlockFree fun _ _ => modifyRows_single) trivial
    | cancelOrder userId' id' =>
      exact iff_of_true (bulk_single_deadlockFree fun _ _ => cancelRows_single) trivial
    | persistTradeBatch args trades => exact deadlockFree_iff
  | modifyOrder userId id =>
    cases t' with
    | placeBulkOrders userId' dtos' =>
      exact iff_of_true (hcomm.mp (bulk_single_deadlockFree fun _ _ => modifyRows_single)) trivial
    | modifyOrder userId' id' => exact iff_of_true (modify_modify_deadlockFree _ _ _ _) trivial
    | cancelOrder userId' id' => exact modify_cancel_deadlockFree_iff ..
    | persistTradeBatch args trades => exact modify_persist_deadlockFree_iff ..
  | cancelOrder userId id =>
    cases t' with
    | placeBulkOrders userId' dtos' =>
      exact iff_of_true (hcomm.mp (bulk_single_deadlockFree fun _ _ => cancelRows_single)) trivial
    | modifyOrder userId' id' => exact hcomm.trans (modify_cancel_deadlockFree_iff ..)
    | cancelOrder userId' id' => exact deadlockFree_iff
    | persistTradeBatch args trades => exact deadlockFree_iff
  | persistTradeBatch args trades =>
    cases t' with
    | placeBulkOrders userId' dtos' => exact deadlockFree_iff
    | modifyOrder userId' id' => exact hcomm.trans (modify_persist_deadlockFree_iff ..)
    | cancelOrder userId' id' => exact deadlockFree_iff
    | persistTradeBatch args' trades' => exact deadlockFree_iff

/-! ### A cancellation and a fill -/

/-- **A cancellation can deadlock with every batch that fills the order** and settles its balance. -/
theorem cancel_fill_deadlock {s s' : Store} {userId : UserId} {id : OrderId} {key : BalanceKey}
    {args : BatchArgs} {trades : List DomainTrade} (hkey : s.canceledBalance userId id = some key)
    (hne : trades ≠ []) (hid : id ∈ s'.batchOrders args trades)
    (hbalance : key ∈ s'.batchBalances args trades) :
    ¬ DeadlockFree ((RowTransaction.cancelOrder userId id).rows s)
      ((RowTransaction.persistTradeBatch args trades).rows s') := by
  have hrows : (RowTransaction.persistTradeBatch args trades).rows s' =
      (s'.batchOrders args trades).map .order ++ ((s'.batchBalances args trades).map .balance ++
        (s'.batchChildren args trades).map .order) := by
    rw [RowTransaction.rows, if_neg hne]
  have hcanceled : id ∈ s.canceledOrders userId id := by
    unfold Store.canceledBalance at hkey
    obtain ⟨x, hx, -⟩ := Option.bind_eq_some_iff.mp hkey
    rw [Store.canceledOrders, hx]
    exact List.mem_cons_self
  -- the cancellation locks the balance first
  have hfirst : firstShared ((RowTransaction.cancelOrder userId id).rows s)
      ((RowTransaction.persistTradeBatch args trades).rows s') = some (.balance key) := by
    have hmem : RowKey.balance key ∈ (RowTransaction.persistTradeBatch args trades).rows s' := by
      rw [hrows]
      simp [hbalance]
    have hcancel : (RowTransaction.cancelOrder userId id).rows s =
        .balance key :: (s.canceledOrders userId id).map .order := by
      rw [RowTransaction.rows, hkey]
      rfl
    rw [firstShared, hcancel, List.find?_cons_of_pos (by simpa using hmem)]
  -- and the batch an order
  obtain ⟨row, hrow⟩ : ∃ row, ((s'.batchOrders args trades).map RowKey.order).find?
      (· ∈ (RowTransaction.cancelOrder userId id).rows s) = some row := by
    rw [← Option.isSome_iff_exists, List.find?_isSome]
    have hrow : RowKey.order id ∈ (RowTransaction.cancelOrder userId id).rows s :=
      mem_cancelRows.mpr (.inr ⟨id, hcanceled, rfl⟩)
    exact ⟨.order id, List.mem_map_of_mem hid, by simpa using hrow⟩
  obtain ⟨k, -, rfl⟩ := List.mem_map.mp (List.mem_of_find?_eq_some hrow)
  have hfirst' : firstShared ((RowTransaction.persistTradeBatch args trades).rows s')
      ((RowTransaction.cancelOrder userId id).rows s) = some (.order k) := by
    rw [firstShared, hrows, List.find?_append, hrow]
    rfl
  rw [deadlockFree_iff, hfirst, hfirst']
  exact fun h => RowKey.noConfusion (Option.some.inj h)

/-- An order for one unit at 10. -/
def orderAtTen (userId : UserId) (side : OrderSide) : Order where
  userId := userId
  symbol := "BTC/USDT"
  side := side
  type := .limit
  status := .new
  price := some 10
  quantity := 1

/-- A sell order of the user 1 that rests, and a buy order of the user 2. -/
def sellAndBuy : Store :=
  let start := Store.start {1, 2} (fun _ => some
    { baseAsset := "BTC", quoteAsset := "USDT", minLotSize := 1, maxLotSize := 100, tickSize := 1,
      isActive := true })
    fun key => if key = (1, "BTC") then some ⟨1, 1, 0, 1⟩
      else if key = (2, "USDT") then some ⟨10, 10, 0, 1⟩ else none
  { (start.putOrder 1 (orderAtTen 1 .sell)).putOrder 2 (orderAtTen 2 .buy) with orderIdSeq := 3 }

/-- The buy order fills the sell order. -/
def oneFill : RowTransaction :=
  .persistTradeBatch
    { takerUserId := 2, takerOrderId := 2, takerSide := .buy, symbol := "BTC/USDT",
      baseAsset := "BTC", quoteAsset := "USDT" }
    [{ takerOrderId := 2, makerOrderId := 1, symbol := "BTC/USDT", price := 10, quantity := 1,
       quoteQuantity := 10, side := .buy, makerUserId := 1 }]

/-- **Cancelling the sell order while it is filled can deadlock.** -/
theorem cancelWhileFilled_deadlock :
    ¬ DeadlockFree ((RowTransaction.cancelOrder 1 1).rows sellAndBuy) (oneFill.rows sellAndBuy) := by
  have hkey : sellAndBuy.canceledBalance 1 1 = some (1, "BTC") := by decide +kernel
  exact cancel_fill_deadlock hkey (by simp) (by decide +kernel) (by decide +kernel)

end SpotExchange.Exchange
