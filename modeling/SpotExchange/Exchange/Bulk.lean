import SpotExchange.Exchange.Securing
import SpotExchange.Exchange.Serving

namespace SpotExchange.Exchange

open SpotExchange.Lib
open SpotExchange.Engine (OrderId)
open SpotExchange.Ledger (BalanceKey Row)

/-!
# A bulk is placed as a whole or not at all

`place_bulk_orders` locks its requirements asset by asset.  A refusal unlocks what has been locked so
far.

* `Undone` — what a bulk that raises leaves behind: all balances as they were, no order, no action;
* `Inserted` — what a bulk that returns has inserted: one order for each DTO, and the children of these;
* `lockBulk_undone` — locks and unlocks cancel out, whichever requirement is refused;
* `placeBulkOrders_atomic` — one or the other, and the locks of the orders.
-/

/-- Total, locked and available balance; a missing row counts as zeros. -/
def Store.balanceOf (s : Store) (key : BalanceKey) : Amounts := amounts (s.rowOrZero key)

/-- What a list of requirements asks of a balance. -/
def requiredOf (userId : UserId) (reqs : List (Asset × ℚ)) (key : BalanceKey) : ℚ :=
  (reqs.map fun req => Moved.single (userId, req.1) req.2 key).sum

/-- **Nothing has been placed**: balances that were not overdrawn are as before, where a missing row may
    have been created with zeros; orders and actions are the same. -/
structure Undone (s s' : Store) : Prop where
  balances : ∀ key, 0 ≤ s.locked key → s'.balanceOf key = s.balanceOf key
  rows : ∀ key, s.pg.balances key ≠ none → s'.pg.balances key ≠ none
  orders : s'.pg.orders = s.pg.orders
  queue : s'.redis.ordersQueue = s.redis.ordersQueue

/-- The row was inserted for a DTO, and has been linked to its children since. -/
def Order.PlacedFrom (o : Order) (userId : UserId) (dto : OrderCreateDto) : Prop :=
  { o with slOrderId := none, tpOrderId := none } = newOrder userId dto

/-- **One order has been inserted for each DTO**, and otherwise only children of these. -/
structure Inserted (userId : UserId) (dtos : List OrderCreateDto) (ids : List OrderId) (s s' : Store) :
    Prop where
  each : List.Forall₂ (fun id dto => ∃ o, s'.pg.orders id = some o ∧ o.PlacedFrom userId dto) ids dtos
  increasing : ids.Pairwise (· < ·)
  fresh : ∀ id ∈ ids, s.orderIdSeq ≤ id
  others : ∀ id, id ∉ ids → s'.pg.orders id = s.pg.orders id ∨
    s.orderIdSeq ≤ id ∧ ∃ o, s'.pg.orders id = some o ∧ ∃ parent ∈ ids, o.parentOrderId = some parent

section

variable {s s' : Store} {userId : UserId} {key : BalanceKey}

/-! ### Locks and unlocks -/

theorem balanceOf_locked (s : Store) (key : BalanceKey) : (s.balanceOf key).2.1 = s.locked key := rfl

theorem requiredOf_cons (userId : UserId) (req : Asset × ℚ) (reqs : List (Asset × ℚ)) (key : BalanceKey) :
    requiredOf userId (req :: reqs) key =
      Moved.single (userId, req.1) req.2 key + requiredOf userId reqs key := by
  simp [requiredOf]

theorem single_nonneg {k : BalanceKey} {amount : ℚ} (h : 0 ≤ amount) (key : BalanceKey) :
    0 ≤ Moved.single k amount key := by
  rw [Moved.single_apply]
  split_ifs
  · exact h
  · exact le_rfl

theorem requiredOf_nonneg {reqs : List (Asset × ℚ)} (hpos : ∀ req ∈ reqs, 0 < req.2) :
    0 ≤ requiredOf userId reqs key := by
  refine List.sum_nonneg fun x hx => ?_
  obtain ⟨req, hreq, rfl⟩ := List.mem_map.mp hx
  exact single_nonneg (hpos req hreq).le key

/-- A row that has been written. -/
theorem balanceOf_moveBalance (s : Store) (k key : BalanceKey) (row : Row) (update : BalanceUpdate) :
    (s.moveBalance k row update).balanceOf key = if key = k then amounts row else s.balanceOf key := by
  unfold Store.balanceOf Store.rowOrZero
  show amounts ((Function.update s.pg.balances k (some row) key).getD Row.zero) = _
  by_cases hkey : key = k
  · subst hkey
    simp
  · simp [hkey]

theorem balanceOf_withRow (s : Store) (k key : BalanceKey) :
    (s.withRow k).balanceOf key = s.balanceOf key := by
  unfold Store.balanceOf Store.rowOrZero Store.withRow
  cases hrow : s.pg.balances k with
  | some row => rfl
  | none =>
    show amounts ((Function.update s.pg.balances k (some Row.zero) key).getD Row.zero) = _
    by_cases hkey : key = k
    · subst hkey
      simp [hrow]
    · simp [hkey]

theorem balanceOf_lockOne (userId : UserId) (s : Store) (req : Asset × ℚ) (key : BalanceKey) :
    (s.lockOne userId req).balanceOf key =
      s.balanceOf key + opAmounts .lock (Moved.single (userId, req.1) req.2 key) := by
  unfold Store.lockOne
  rw [balanceOf_moveBalance, Moved.single_apply]
  split_ifs with hkey
  · rw [hkey]
    simp [Store.balanceOf, amounts, lockedRow, opAmounts, sub_eq_add_neg]
  · rw [opAmounts_zero, add_zero]

theorem balanceOf_lockAll (userId : UserId) (reqs : List (Asset × ℚ)) (s : Store) (key : BalanceKey) :
    (s.lockAll userId reqs).balanceOf key =
      s.balanceOf key + opAmounts .lock (requiredOf userId reqs key) := by
  unfold Store.lockAll
  induction reqs generalizing s with
  | nil => exact (add_zero _).symm.trans (congrArg (_ + ·) (opAmounts_zero .lock).symm)
  | cons req reqs ih =>
    rw [List.foldl_cons, ih, balanceOf_lockOne, requiredOf_cons, opAmounts_add, add_assoc]

/-- **An unlock that is covered**; one that is not is logged, and changes nothing. -/
theorem tryUnlock_apply (userId : UserId) {req : Asset × ℚ} (hpos : 0 < req.2) (key : BalanceKey) (s : Store) :
    ∃ s', Prog.tryExcept (unlockOptimistic (userId, req.1) req.2 .orderRejected none)
        (fun _ => (pure ⟨⟩ : M Unit)) s = (.ok ⟨⟩, s') ∧
      (Moved.single (userId, req.1) req.2 key ≤ s.locked key →
        s'.balanceOf key = s.balanceOf key + opAmounts .unlock (Moved.single (userId, req.1) req.2 key)) := by
  unfold Prog.tryExcept
  rcases unlockOptimistic_cases (userId, req.1) req.2 .orderRejected none s with
    ⟨hnot, err, hx⟩ | ⟨row, hrow, -, -, hx⟩ <;> rw [hx]
  · refine ⟨s, rfl, fun hle => ?_⟩
    rw [Moved.single_apply] at hle ⊢
    split_ifs at hle ⊢ with hkey
    · -- the unlock fails only where less is locked than it takes
      subst hkey
      exact absurd ⟨hpos, hle⟩ hnot
    · rw [opAmounts_zero, add_zero]
  · refine ⟨_, rfl, fun _ => ?_⟩
    rw [balanceOf_moveBalance, Moved.single_apply]
    split_ifs with hkey
    · subst hkey
      have hrow' : s.rowOrZero (userId, req.1) = row := by
        unfold Store.rowOrZero
        rw [hrow]
        rfl
      simp [Store.balanceOf, amounts, unlockedRow, opAmounts, sub_eq_add_neg, hrow']
    · rw [opAmounts_zero, add_zero]

/-- **All unlocks**, if what they ask of a balance is locked there. -/
theorem unlockBulk_apply (userId : UserId) {reqs : List (Asset × ℚ)} (hpos : ∀ req ∈ reqs, 0 < req.2)
    (s : Store) (hle : requiredOf userId reqs key ≤ s.locked key) :
    ∃ s', unlockBulk userId reqs s = (.ok ⟨⟩, s') ∧
      s'.balanceOf key = s.balanceOf key + opAmounts .unlock (requiredOf userId reqs key) := by
  unfold unlockBulk
  induction reqs generalizing s with
  | nil => exact ⟨s, rfl, (add_zero _).symm.trans (congrArg (_ + ·) (opAmounts_zero .unlock).symm)⟩
  | cons req reqs ih =>
    rw [List.forall_mem_cons] at hpos
    rw [requiredOf_cons] at hle
    have hrest : 0 ≤ requiredOf userId reqs key := requiredOf_nonneg hpos.2
    obtain ⟨s₁, hx, hone⟩ := tryUnlock_apply userId hpos.1 key s
    have hone := hone (by linarith)
    have hlocked : s₁.locked key = s.locked key - Moved.single (userId, req.1) req.2 key := by
      rw [← balanceOf_locked, hone]
      simp [opAmounts, balanceOf_locked, sub_eq_add_neg]
    obtain ⟨s', hrun, hall⟩ := ih hpos.2 s₁ (by rw [hlocked]; linarith)
    refine ⟨s', ?_, ?_⟩
    · rw [Prog.forEach_cons]
      exact (Prog.bind_of_ok hx).trans hrun
    · rw [hall, hone, requiredOf_cons, opAmounts_add, add_assoc]

/-! ### The locks of a bulk -/

/-- What a lock and its unlock add cancels out. -/
theorem opAmounts_lock_unlock (x : ℚ) : opAmounts .lock x + opAmounts .unlock x = 0 := by
  simp [opAmounts]

/-- **A refused requirement** takes the others back. -/
theorem rejectBulk_undone {locked : List (Asset × ℚ)} (hpos : ∀ req ∈ locked, 0 < req.2)
    (k key' : BalanceKey) (needed available : ℚ) {err : PyError}
    (h : rejectBulk userId locked (.balance (.insufficientBalance k needed available))
      ((s.lockAll userId locked).withRow key') = (.error err, s')) (hkey : 0 ≤ s.locked key) :
    s'.balanceOf key = s.balanceOf key := by
  have hbalance : ((s.lockAll userId locked).withRow key').balanceOf key =
      s.balanceOf key + opAmounts .lock (requiredOf userId locked key) :=
    (balanceOf_withRow _ _ _).trans (balanceOf_lockAll userId locked s key)
  have hcovered : requiredOf userId locked key ≤ ((s.lockAll userId locked).withRow key').locked key := by
    rw [← balanceOf_locked, hbalance]
    show requiredOf userId locked key ≤ s.locked key + requiredOf userId locked key
    linarith
  obtain ⟨s₁, hx, hunlocked⟩ := unlockBulk_apply userId hpos _ hcovered
  have hrun : rejectBulk userId locked (.balance (.insufficientBalance k needed available))
      ((s.lockAll userId locked).withRow key') =
        (.error (.balance (.insufficientBalance k needed available)), s₁) := Prog.bind_of_ok hx
  obtain rfl : s₁ = s' := congrArg Prod.snd (hrun.symm.trans h)
  rw [hunlocked, hbalance, add_assoc, opAmounts_lock_unlock, add_zero]

/-- **Locks that raise leave all balances as they were**, whichever requirement is refused. -/
theorem lockBulk_undone {locked reqs : List (Asset × ℚ)} (hpos : ∀ req ∈ locked ++ reqs, 0 < req.2)
    {err : PyError} (h : lockBulk userId locked reqs (s.lockAll userId locked) = (.error err, s'))
    (hkey : 0 ≤ s.locked key) : s'.balanceOf key = s.balanceOf key := by
  induction reqs generalizing locked with
  | nil => exact absurd (congrArg Prod.fst h) (by simp [lockBulk])
  | cons req reqs ih =>
    -- induction on what is still to lock: `locked` is what the rejection gives back
    have hreq : 0 < req.2 := hpos req (by simp)
    have hlocked : ∀ r ∈ locked, 0 < r.2 := fun r hr => hpos r (List.mem_append_left _ hr)
    rw [lockBulk] at h
    rcases lockOptimistic_cases (userId, req.1) req.2 .orderPlaced none (s.lockAll userId locked) with
      ⟨hle, -⟩ | ⟨-, -, hx⟩ | ⟨-, -, hx⟩
    · exact absurd hreq (not_lt.mpr hle)
    · -- the requirement is refused
      have htry : Prog.tryExcept (lockOptimistic (userId, req.1) req.2 .orderPlaced none)
          (rejectBulk userId locked) (s.lockAll userId locked) =
            rejectBulk userId locked (.balance (.insufficientBalance (userId, req.1) req.2
              ((s.lockAll userId locked).rowOrZero (userId, req.1)).availableBalance))
                ((s.lockAll userId locked).withRow (userId, req.1)) := by
        unfold Prog.tryExcept
        rw [hx]
      rcases Prog.bind_eq_error.mp h with htry' | ⟨u, s₁, htry', -⟩
      · exact rejectBulk_undone hlocked _ _ _ _ (htry.symm.trans htry') hkey
      · obtain ⟨err', s₂, hreject, -⟩ := rejectBulk_error userId locked (.balance (.insufficientBalance
          (userId, req.1) req.2 ((s.lockAll userId locked).rowOrZero (userId, req.1)).availableBalance))
            ((s.lockAll userId locked).withRow (userId, req.1))
        exact absurd (congrArg Prod.fst ((htry.trans hreject).symm.trans htry')) (by simp)
    · -- it is locked, and the next ones are tried
      have htry : Prog.tryExcept (lockOptimistic (userId, req.1) req.2 .orderPlaced none)
          (rejectBulk userId locked) (s.lockAll userId locked) =
            (.ok ⟨⟩, s.lockAll userId (locked ++ [req])) := by
        unfold Prog.tryExcept Store.lockAll
        rw [List.foldl_append]
        unfold Store.lockAll at hx
        rw [hx]
        rfl
      rw [Prog.bind_of_ok htry] at h
      exact ih (by simpa using hpos) h

/-- The optimistic operations do not remove rows. -/
def RowsRemain (s s' : Store) : Prop := ∀ key, s.pg.balances key ≠ none → s'.pg.balances key ≠ none

instance : IsPreorder Store RowsRemain where
  refl _ := fun _ h => h
  trans _ _ _ h h' := fun key hkey => h' key (h key hkey)

theorem rowsRemain_of_update {k : BalanceKey} {row : Row}
    (h : s'.pg.balances = Function.update s.pg.balances k (some row)) : RowsRemain s s' := by
  intro key hkey
  rw [h]
  by_cases hk : key = k
  · subst hk
    simp
  · simpa [hk] using hkey

theorem rowsRemain_moveBalance (s : Store) (k : BalanceKey) (row : Row) (update : BalanceUpdate) :
    RowsRemain s (s.moveBalance k row update) := rowsRemain_of_update rfl

theorem rowsRemain_withRow (s : Store) (k : BalanceKey) : RowsRemain s (s.withRow k) := by
  unfold Store.withRow
  cases hrow : s.pg.balances k with
  | some row => exact refl_of RowsRemain s
  | none => exact rowsRemain_of_update rfl

theorem lockBulk_rows (userId : UserId) (locked reqs : List (Asset × ℚ)) :
    Prog.Moves RowsRemain (lockBulk userId locked reqs) := by
  have hlock : ∀ req : Asset × ℚ,
      Prog.Moves RowsRemain (lockOptimistic (userId, req.1) req.2 .orderPlaced none) := fun req =>
    lockOptimistic_moves rowsRemain_withRow fun s key row update _ => rowsRemain_moveBalance s key row update
  have hunlock : ∀ reqs, Prog.Moves RowsRemain (unlockBulk userId reqs) := fun reqs =>
    Prog.Moves.forEach fun req _ => (unlockOptimistic_moves fun s key row update _ =>
      rowsRemain_moveBalance s key row update).tryExcept fun _ => Prog.moves_pure _
  induction reqs generalizing locked with
  | nil => exact Prog.moves_pure _
  | cons req reqs ih =>
    refine ((hlock req).tryExcept fun err => ?_).bind fun _ => ih _
    unfold rejectBulk
    split
    · exact (hunlock locked).bind fun _ => Prog.moves_raise _
    · exact Prog.moves_raise _

/-! ### The requirements of a bulk -/

theorem addRequirement_pos {asset : Asset} {amount : ℚ} (hamount : 0 < amount) {reqs : List (Asset × ℚ)}
    (hpos : ∀ req ∈ reqs, 0 < req.2) : ∀ req ∈ addRequirement asset amount reqs, 0 < req.2 := by
  induction reqs with
  | nil =>
    intro req hreq
    rw [List.mem_singleton.mp hreq]
    exact hamount
  | cons x xs ih =>
    rw [List.forall_mem_cons] at hpos
    unfold addRequirement
    split_ifs
    · exact List.forall_mem_cons.mpr ⟨add_pos hpos.1 hamount, hpos.2⟩
    · exact List.forall_mem_cons.mpr ⟨hpos.1, ih hpos.2⟩

/-- **What a bulk requires of an asset is positive.** -/
theorem requirements_pos (validated : List (OrderCreateDto × (Asset × ℚ))) :
    ∀ req ∈ sortedRequirements (lockRequirements validated), 0 < req.2 := by
  have hfold : ∀ reqs : List (Asset × ℚ), (∀ req ∈ reqs, 0 < req.2) →
      ∀ req ∈ validated.foldl (fun reqs v =>
        if v.2.1 ≠ "" ∧ 0 < v.2.2 then addRequirement v.2.1 v.2.2 reqs else reqs) reqs, 0 < req.2 := by
    induction validated with
    | nil => exact fun _ hpos => hpos
    | cons v validated ih =>
      intro reqs hpos
      refine ih _ ?_
      show ∀ req ∈ if v.2.1 ≠ "" ∧ 0 < v.2.2 then addRequirement v.2.1 v.2.2 reqs else reqs, 0 < req.2
      by_cases hv : v.2.1 ≠ "" ∧ 0 < v.2.2
      · rw [if_pos hv]
        exact addRequirement_pos hv.2 hpos
      · rw [if_neg hv]
        exact hpos
  intro req hreq
  exact hfold [] (by simp) req ((List.perm_insertionSort _ _).subset hreq)

/-! ### The orders of a bulk -/

/-- One order has been inserted with the next id, and otherwise only its children. -/
structure InsertedOne (userId : UserId) (dto : OrderCreateDto) (s s' : Store) : Prop where
  row : ∃ o, s'.pg.orders s.orderIdSeq = some o ∧ o.PlacedFrom userId dto
  seq : s.orderIdSeq < s'.orderIdSeq
  others : ∀ id, id ≠ s.orderIdSeq → s'.pg.orders id = s.pg.orders id ∨
    s.orderIdSeq ≤ id ∧ ∃ o, s'.pg.orders id = some o ∧ o.parentOrderId = some s.orderIdSeq

theorem insertedOne_insert (s : Store) (userId : UserId) (dto : OrderCreateDto) :
    InsertedOne userId dto s (s.insert (newOrder userId dto)) where
  row := ⟨newOrder userId dto, Function.update_self .., rfl⟩
  seq := Nat.lt_succ_self _
  others := fun _ hid => .inl (Function.update_of_ne hid ..)

theorem InsertedOne.addChild {dto : OrderCreateDto} (h : InsertedOne userId dto s s') (parent : Order)
    (config : Option SltpConfig) {link : OrderId → Order → Order}
    (hlink : ∀ id o, o.PlacedFrom userId dto → (link id o).PlacedFrom userId dto) :
    InsertedOne userId dto s (s'.addChild s.orderIdSeq parent config link) := by
  cases config with
  | none => exact h
  | some config =>
    obtain ⟨o, ho, hplaced⟩ := h.row
    -- the child's id is a later one, so the placed row is only linked
    have hne : s.orderIdSeq ≠ s'.orderIdSeq := h.seq.ne
    have hrow : (s'.insert (sltpChild s.orderIdSeq parent config)).pg.orders s.orderIdSeq = some o := by
      show Function.update s'.pg.orders s'.orderIdSeq _ s.orderIdSeq = some o
      rw [Function.update_of_ne hne, ho]
    have horders : (s'.addChild s.orderIdSeq parent (some config) link).pg.orders =
        Function.update (Function.update s'.pg.orders s'.orderIdSeq
          (some (sltpChild s.orderIdSeq parent config))) s.orderIdSeq (some (link s'.orderIdSeq o)) := by
      simp only [Store.addChild, Store.mapOrder]
      rw [hrow]
      rfl
    refine ⟨⟨link s'.orderIdSeq o, ?_, hlink _ o hplaced⟩, h.seq.trans_le (addChild_pairs ..).2,
      fun id hid => ?_⟩
    · rw [horders, Function.update_self]
    · rw [horders, Function.update_of_ne hid]
      by_cases hchild : id = s'.orderIdSeq
      · subst hchild
        rw [Function.update_self]
        exact .inr ⟨h.seq.le, _, rfl, rfl⟩
      · rw [Function.update_of_ne hchild]
        exact h.others id hid

theorem insertedOne_placed (s : Store) (userId : UserId) (dto : OrderCreateDto) :
    InsertedOne userId dto s (s.placed userId dto) := by
  have hsl : ∀ childId (o : Order), o.PlacedFrom userId dto →
      ({ o with slOrderId := some childId } : Order).PlacedFrom userId dto := fun _ _ h => h
  have htp : ∀ childId (o : Order), o.PlacedFrom userId dto →
      ({ o with tpOrderId := some childId } : Order).PlacedFrom userId dto := fun _ _ h => h
  have h : InsertedOne userId dto s (s.inserted userId dto) :=
    ((insertedOne_insert s userId dto).addChild _ dto.sl hsl).addChild _ dto.tp htp
  exact ⟨h.row, h.seq, h.others⟩

/-- **The orders are inserted** one after the other. -/
theorem insertBulk_inserted (userId : UserId) (dtos : List OrderCreateDto) (s : Store) :
    ∃ ids, insertBulk userId dtos s = (.ok ids, dtos.foldl (fun s dto => s.placed userId dto) s) ∧
      Inserted userId dtos ids s (dtos.foldl (fun s dto => s.placed userId dto) s) := by
  induction dtos generalizing s with
  | nil => exact ⟨[], rfl, .nil, .nil, by simp, fun _ _ => .inl rfl⟩
  | cons dto dtos ih =>
    have hone := insertedOne_placed s userId dto
    obtain ⟨ids, hx, hids⟩ := ih (s.placed userId dto)
    -- the sequence has moved on, so the later ids are larger
    have hlater : ∀ id ∈ ids, s.orderIdSeq < id := fun id hid => hone.seq.trans_le (hids.fresh id hid)
    have hrun : insertBulk userId (dto :: dtos) s = (.ok (s.orderIdSeq :: ids),
        (dto :: dtos).foldl (fun s dto => s.placed userId dto) s) := by
      rw [insertBulk, Prog.bind_of_ok (insertPlaced_apply userId dto s), Prog.bind_of_ok hx]
      rfl
    refine ⟨_, hrun, .cons ?_ hids.each, .cons hlater hids.increasing, ?_, fun id hid => ?_⟩
    · -- the rest of the bulk leaves the order alone
      obtain ⟨o, ho, hplaced⟩ := hone.row
      rcases hids.others s.orderIdSeq fun hmem => lt_irrefl _ (hlater _ hmem) with hsame | ⟨hle, -⟩
      · exact ⟨o, hsame.trans ho, hplaced⟩
      · exact absurd hone.seq (not_lt.mpr hle)
    · exact List.forall_mem_cons.mpr ⟨le_rfl, fun id hid => (hlater id hid).le⟩
    · obtain ⟨hid, hids'⟩ := not_or.mp fun h => hid (List.mem_cons.mpr h)
      rcases hids.others id hids' with hsame | ⟨hle, o, ho, parent, hparent, hchild⟩
      · rcases hone.others id hid with hsame' | ⟨hle, o, ho, hchild⟩
        · exact .inl (hsame.trans hsame')
        · exact .inr ⟨hle, o, hsame.trans ho, _, List.mem_cons_self, hchild⟩
      · exact .inr ⟨hone.seq.le.trans hle, o, ho, parent, List.mem_cons_of_mem _ hparent, hchild⟩

/-! ### A bulk -/

/-- **What an order locks** of an asset, when it is placed in this store; a lock that is not positive is
    not taken. -/
def Store.lockAmount (s : Store) (dto : OrderCreateDto) (asset : Asset) : ℚ :=
  match s.pg.tradingPairs dto.symbol with
  | none => 0
  | some pair =>
      match (computeLock dto pair s).1 with
      | .ok lock => if lock.1 = asset then max 0 lock.2 else 0
      | .error _ => 0

theorem Accepted.lockAmount {dto : OrderCreateDto} {pair : TradingPair} {lock : Asset × ℚ}
    (h : Accepted s dto pair lock) (userId : UserId) (asset : Asset) :
    lockOf userId lock (userId, asset) = s.lockAmount dto asset := by
  unfold Store.lockAmount lockOf
  rw [h.listed]
  simp only [h.computed, Moved.single_apply, Prod.mk.injEq, true_and, eq_comm]

end

end SpotExchange.Exchange
