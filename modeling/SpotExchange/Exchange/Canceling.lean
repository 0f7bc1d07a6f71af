import SpotExchange.Exchange.Placing

namespace SpotExchange.Exchange

open SpotExchange.Lib
open SpotExchange.Engine (OrderId)
open SpotExchange.Ledger (BalanceKey Row Op)

/-!
# What cancelling and replacing do to the store

* `unlockCanceled_spec` — what the unlock of a cancellation moves;
* `cancelOrder_cases` — a cancellation unlocks something and leaves `Store.cancel`, or raises and
  changes nothing;
* `modifyOrder_cases` — a replacement moves balances and leaves `Store.replace`, or raises before it
  has touched the order.
-/

/-! ### Cancelling -/

/-- An order cancelled. -/
def Order.canceled (o : Order) : Order :=
  { o with status := .canceled, version := o.version + 1 }

/-- An order after its parent has been cancelled. -/
def Order.orphaned (parentId : OrderId) (o : Order) : Order :=
  if o.parentOrderId = some parentId ∧ o.status.isActive then o.canceled else o

/-- **The store with an order cancelled**, its unlock apart. -/
def Store.cancel (s : Store) (id : OrderId) (order : Order) : Store :=
  { s with
    pg := { s.pg with orders := fun k =>
      (Function.update s.pg.orders id (some order.canceled) k).map (Order.orphaned id) }
    redis := enqueueOrderAction (cancelPayload id order) (cleanUpCanceled id order s.redis) }

/-- The unlock of a cancellation moves one balance, or changes nothing. -/
theorem unlockCanceled_quiet (id : OrderId) (order : Order) (unlock : Asset × ℚ) :
    Prog.Moves Quiet (unlockCanceled id order unlock) := by
  refine Prog.Moves.whenever fun _ => (Prog.moves_read _).bind fun balance =>
    Prog.Moves.whenSome fun balance _ => (Prog.moves_read _).bind fun locked =>
      Prog.Moves.whenever fun _ => ?_
  exact pessimistic_moves fun s key row update _ => quiet_moveBalance s key row update

theorem unlockCanceled_error {id : OrderId} {order : Order} {unlock : Asset × ℚ} {s s' : Store}
    {err : PyError} (h : unlockCanceled id order unlock s = (.error err, s')) : s' = s := by
  unfold unlockCanceled Prog.whenever at h
  split_ifs at h
  · rcases Prog.bind_eq_error.mp h with hread | ⟨balance, s₁, hread, h⟩
    · exact (congrArg Prod.snd hread).symm
    obtain rfl : s = s₁ := congrArg Prod.snd hread
    cases balance with
    | none => exact (congrArg Prod.snd h).symm
    | some balance =>
      rcases Prog.bind_eq_error.mp h with hread | ⟨locked, s₁, hread, h⟩
      · exact (congrArg Prod.snd hread).symm
      obtain rfl : s = s₁ := congrArg Prod.snd hread
      split_ifs at h
      · exact pessimistic_error h
      · exact (congrArg Prod.snd h).symm
  · exact (congrArg Prod.snd h).symm

theorem updateCanceled_apply {id : OrderId} {order : Order} {s : Store}
    (h : s.pg.orders id = some order) :
    updateStatus id .canceled s = (.ok ⟨⟩, s.putOrder id order.canceled) := by
  simp only [updateStatus, updateOrder, onDatabase, Prog.modify_apply, h]
  rfl

/-- What follows the unlock. -/
theorem cancelRest_apply {id : OrderId} {order : Order} {s : Store}
    (h : s.pg.orders id = some order) :
    (updateStatus id .canceled >>= fun _ => cancelChildren id >>= fun _ =>
      onRedis (cleanUpCanceled id order) >>= fun _ =>
        onRedis (enqueueOrderAction (cancelPayload id order)) : M Unit) s =
      (.ok ⟨⟩, s.cancel id order) := by
  rw [Prog.bind_of_ok (updateCanceled_apply h)]
  rfl

section

variable {userId : UserId} {id : OrderId} {order : Order} {pair : TradingPair} {s s₁ : Store}

/-- Past its checks, a cancellation starts with its unlock. -/
theorem cancelOrder_unlock (horder : s.pg.orders id = some order) (huser : order.userId = userId)
    (hactive : order.status.isActive = true) (hpair : s.pg.tradingPairs order.symbol = some pair) :
    cancelOrder userId id s = (unlockCanceled id order (cancelUnlock order pair) >>= fun _ =>
      updateStatus id .canceled >>= fun _ => cancelChildren id >>= fun _ =>
        onRedis (cleanUpCanceled id order) >>= fun _ =>
          onRedis (enqueueOrderAction (cancelPayload id order)) : M Unit) s := by
  have hread : getOrderByUser id userId s = (.ok (some order), s) := by
    have hfound : (s.pg.orders id).filter (fun order => order.userId = userId) = some order := by
      rw [horder, Option.filter_some, if_pos (by simpa using huser)]
    rw [← hfound]
    rfl
  have hreadPair : getPair order.symbol s = (.ok (some pair), s) := by
    rw [← hpair]
    rfl
  rw [cancelOrder, Prog.bind_of_ok hread]
  dsimp only
  rw [if_neg (by simp [hactive]), Prog.bind_of_ok hreadPair]

theorem cancelOrder_apply (horder : s.pg.orders id = some order) (huser : order.userId = userId)
    (hactive : order.status.isActive = true) (hpair : s.pg.tradingPairs order.symbol = some pair)
    (hunlock : unlockCanceled id order (cancelUnlock order pair) s = (.ok ⟨⟩, s₁)) :
    cancelOrder userId id s = (.ok ⟨⟩, s₁.cancel id order) := by
  rw [cancelOrder_unlock horder huser hactive hpair, Prog.bind_of_ok hunlock]
  refine cancelRest_apply ?_
  obtain ⟨balances, updates, rfl⟩ := (unlockCanceled_quiet id order _).of_ok hunlock
  exact horder

end

/-- **A cancellation.** -/
theorem cancelOrder_cases (userId : UserId) (id : OrderId) (s : Store) :
    (∃ order pair s₁, s.pg.orders id = some order ∧ order.userId = userId ∧
      order.status.isActive = true ∧ s.pg.tradingPairs order.symbol = some pair ∧
      unlockCanceled id order (cancelUnlock order pair) s = (.ok ⟨⟩, s₁) ∧ Quiet s s₁ ∧
      cancelOrder userId id s = (.ok ⟨⟩, s₁.cancel id order)) ∨
    ∃ err, cancelOrder userId id s = (.error err, s) := by
  -- each guard of the source that fails raises and leaves the store alone
  cases hfound : (s.pg.orders id).filter fun order => order.userId = userId with
  | none =>
    have hread : getOrderByUser id userId s = (.ok none, s) := by
      rw [← hfound]
      rfl
    exact .inr ⟨_, by rw [cancelOrder, Prog.bind_of_ok hread]; rfl⟩
  | some order =>
    have hread : getOrderByUser id userId s = (.ok (some order), s) := by
      rw [← hfound]
      rfl
    obtain ⟨horder, huser⟩ := Option.filter_eq_some_iff.mp hfound
    have huser : order.userId = userId := by simpa using huser
    by_cases hactive : order.status.isActive = true
    swap
    · refine .inr ⟨.orderNotCancelable id order.status, ?_⟩
      rw [cancelOrder, Prog.bind_of_ok hread]
      dsimp only
      rw [if_pos (by simpa using hactive)]
      rfl
    cases hpair : s.pg.tradingPairs order.symbol with
    | none =>
      have hreadPair : getPair order.symbol s = (.ok none, s) := by
        rw [← hpair]
        rfl
      refine .inr ⟨.assertionError, ?_⟩
      rw [cancelOrder, Prog.bind_of_ok hread]
      dsimp only
      rw [if_neg (by simp [hactive]), Prog.bind_of_ok hreadPair]
      rfl
    | some pair =>
      rcases hunlock : unlockCanceled id order (cancelUnlock order pair) s with ⟨err | u, s₁⟩
      · obtain rfl := unlockCanceled_error hunlock
        refine .inr ⟨err, ?_⟩
        rw [cancelOrder_unlock horder huser hactive hpair]
        exact Prog.bind_of_error hunlock
      · exact .inl ⟨order, pair, s₁, horder, huser, hactive, hpair, hunlock,
          (unlockCanceled_quiet id order _).of_ok hunlock,
          cancelOrder_apply horder huser hactive hpair hunlock⟩

/-! ### What the unlock moves -/

/-- What a cancellation unlocks. -/
def Store.released (s : Store) (order : Order) (unlock : Asset × ℚ) : ℚ :=
  if order.type.isStop = false ∧ 0 < unlock.2 then
    (s.pg.balances (order.userId, unlock.1)).elim 0 fun row => max 0 (min unlock.2 row.lockedBalance)
  else 0

theorem unlockPessimistic_ok {key : BalanceKey} {row : Row} {amount : ℚ} {reason : BalanceReason}
    {orderId : Option OrderId} {s : Store} (hrow : s.pg.balances key = some row)
    (htotal : row.totalBalance = row.lockedBalance + row.availableBalance) (h0 : 0 ≤ amount)
    (hle : amount ≤ row.lockedBalance) :
    ∃ s', unlockPessimistic key amount reason orderId s = (.ok ⟨⟩, s') ∧
      Shifts (Moved.single key (opAmounts .unlock amount)) s s' := by
  obtain ⟨row', hrow'⟩ : ∃ row', Op.pessimistic .unlock key row amount = .ok row' := by
    show ∃ row', Ledger.unlockPessimistic key row amount = .ok row'
    rw [Ledger.unlockPessimistic, if_neg (not_lt.mpr h0), if_neg (not_lt.mpr hle),
      Ledger.checkInvariant, if_pos (by linarith)]
    exact ⟨_, rfl⟩
  have hread : getByUserAsset key s = (.ok (some row), s) := by
    rw [← hrow]
    rfl
  have hrun : ∃ s', unlockPessimistic key amount reason orderId s = (.ok ⟨⟩, s') := by
    rw [unlockPessimistic, pessimistic, Prog.bind_of_ok hread]
    dsimp only
    rw [hrow']
    exact ⟨_, rfl⟩
  obtain ⟨s', hs'⟩ := hrun
  exact ⟨s', hs', pessimistic_shifts hs'⟩

/-- **The unlock of a cancellation** does not raise where total is locked plus available. -/
theorem unlockCanceled_spec (id : OrderId) (order : Order) (unlock : Asset × ℚ) {s : Store}
    (hok : ∀ row, s.pg.balances (order.userId, unlock.1) = some row →
      row.totalBalance = row.lockedBalance + row.availableBalance) :
    ∃ s', unlockCanceled id order unlock s = (.ok ⟨⟩, s') ∧ Quiet s s' ∧
      Shifts (Moved.single (order.userId, unlock.1) (opAmounts .unlock (s.released order unlock)))
        s s' := by
  suffices h : ∃ s', unlockCanceled id order unlock s = (.ok ⟨⟩, s') ∧
      Shifts (Moved.single (order.userId, unlock.1) (opAmounts .unlock (s.released order unlock)))
        s s' by
    obtain ⟨s', hs', hshift⟩ := h
    exact ⟨s', hs', (unlockCanceled_quiet id order unlock).of_ok hs', hshift⟩
  have hstay : ∀ key, Shifts (Moved.single key (opAmounts .unlock 0)) s s := by
    intro key
    rw [opAmounts_zero, Moved.single_zero]
    exact Moved.refl _
  unfold unlockCanceled Store.released Prog.whenever
  split_ifs with hguard
  · cases hrow : s.pg.balances (order.userId, unlock.1) with
    | none =>
      have hread : getBalanceForUpdate order.userId unlock.1 s = (.ok none, s) := by
        rw [getBalanceForUpdate, Prog.read_apply, hrow]
        rfl
      rw [Prog.bind_of_ok hread]
      exact ⟨s, rfl, hstay _⟩
    | some row =>
      have hread : getBalanceForUpdate order.userId unlock.1 s =
          (.ok (some (order.userId, unlock.1)), s) := by
        rw [getBalanceForUpdate, Prog.read_apply, hrow]
        rfl
      -- never more is unlocked than the row has locked
      have hlocked : lockedBalance (order.userId, unlock.1) s = (.ok row.lockedBalance, s) := by
        rw [lockedBalance, Prog.read_apply, hrow]
        rfl
      rw [Prog.bind_of_ok hread]
      show ∃ s', (lockedBalance _ >>= _ : M Unit) s = _ ∧ _
      rw [Prog.bind_of_ok hlocked]
      dsimp only [Option.elim_some]
      split_ifs with hpos
      · rw [max_eq_right hpos.le]
        exact unlockPessimistic_ok hrow (hok _ hrow) hpos.le (min_le_right _ _)
      · rw [max_eq_left (not_lt.mp hpos)]
        exact ⟨s, rfl, hstay _⟩
  · exact ⟨s, rfl, hstay _⟩

/-! ### Replacing -/

/-- An order cancelled and linked to its replacement. -/
def Order.replacedBy (o : Order) (newId : OrderId) : Order :=
  { o.canceled with replacedById := some newId }

/-- **The store with an order replaced**, its locks apart. -/
def Store.replace (s : Store) (id : OrderId) (old : Order) (newPrice newQuantity : ℚ) : Store :=
  (((s.putOrder id old.canceled).insert (replacement id old newPrice newQuantity)).putOrder id
    (old.replacedBy s.orderIdSeq)).setRedis
      (replaceInRedis id old s.orderIdSeq (replacement id old newPrice newQuantity))

section

variable {s : Store} {id : OrderId} {old : Order} {newPrice newQuantity : ℚ}

/-- The rows after a replacement. -/
theorem replace_orders (s : Store) (id : OrderId) (old : Order) (newPrice newQuantity : ℚ) :
    (s.replace id old newPrice newQuantity).pg.orders =
      Function.update (Function.update s.pg.orders s.orderIdSeq
        (some (replacement id old newPrice newQuantity))) id (some (old.replacedBy s.orderIdSeq)) := by
  funext k
  show Function.update (Function.update (Function.update s.pg.orders id _) s.orderIdSeq _) id _ k = _
  by_cases hk : k = id
  · subst hk
    simp
  · by_cases hseq : k = s.orderIdSeq
    · subst hseq
      simp [hk]
    · simp [hk, hseq]

theorem replace_old : (s.replace id old newPrice newQuantity).pg.orders id =
    some (old.replacedBy s.orderIdSeq) := by
  rw [replace_orders, Function.update_self]

theorem replace_new (hlt : id < s.orderIdSeq) :
    (s.replace id old newPrice newQuantity).pg.orders s.orderIdSeq =
      some (replacement id old newPrice newQuantity) := by
  rw [replace_orders, Function.update_of_ne hlt.ne', Function.update_self]

theorem replace_other {k : OrderId} (hk : k ≠ id) (hseq : k ≠ s.orderIdSeq) :
    (s.replace id old newPrice newQuantity).pg.orders k = s.pg.orders k := by
  rw [replace_orders, Function.update_of_ne hk, Function.update_of_ne hseq]

/-- Every row is the old order, its replacement, or as before. -/
theorem replace_cases (hlt : id < s.orderIdSeq) {k : OrderId} {o' : Order}
    (ho' : (s.replace id old newPrice newQuantity).pg.orders k = some o') :
    (k = id ∧ o' = old.replacedBy s.orderIdSeq) ∨
      (k = s.orderIdSeq ∧ o' = replacement id old newPrice newQuantity) ∨
        k ≠ id ∧ s.pg.orders k = some o' := by
  by_cases hk : k = id
  · subst hk
    exact .inl ⟨rfl, Option.some.inj (ho'.symm.trans replace_old)⟩
  · by_cases hseq : k = s.orderIdSeq
    · subst hseq
      exact .inr (.inl ⟨rfl, Option.some.inj (ho'.symm.trans (replace_new hlt))⟩)
    · exact .inr (.inr ⟨hk, (replace_other hk hseq).symm.trans ho'⟩)

end

theorem quiet_relock (userId : UserId) (id : OrderId) (unlock lock : Asset × ℚ) :
    Prog.Moves Quiet (relock userId id unlock lock) := by
  refine (quiet_lockOptimistic _ _ _ _).tryExcept fun err => ?_
  split
  · exact (quiet_lockOptimistic _ _ _ _).bind fun _ => Prog.moves_raise _
  · exact Prog.moves_raise _

/-- What follows the new lock. -/
theorem replaceRest_apply {id : OrderId} {old : Order} {newPrice newQuantity : ℚ} {s : Store}
    (h : s.pg.orders id = some old) (hne : id ≠ s.orderIdSeq) :
    (updateStatus id .canceled >>= fun _ =>
      insertOrder (replacement id old newPrice newQuantity) >>= fun newId =>
      updateOrder id (fun o => { o with replacedById := some newId }) >>= fun _ =>
      onRedis (replaceInRedis id old newId (replacement id old newPrice newQuantity)) >>= fun _ =>
      (pure newId : M OrderId)) s = (.ok s.orderIdSeq, s.replace id old newPrice newQuantity) := by
  have hinsert : insertOrder (replacement id old newPrice newQuantity) (s.putOrder id old.canceled) =
      (.ok s.orderIdSeq, (s.putOrder id old.canceled).insert
        (replacement id old newPrice newQuantity)) := rfl
  have horder : ((s.putOrder id old.canceled).insert
      (replacement id old newPrice newQuantity)).pg.orders id = some old.canceled := by
    show Function.update (Function.update s.pg.orders id (some old.canceled)) s.orderIdSeq _ id = _
    rw [Function.update_of_ne hne, Function.update_self]
  have hlink : updateOrder id (fun o => { o with replacedById := some s.orderIdSeq })
      ((s.putOrder id old.canceled).insert (replacement id old newPrice newQuantity)) =
        (.ok ⟨⟩, ((s.putOrder id old.canceled).insert
          (replacement id old newPrice newQuantity)).putOrder id (old.replacedBy s.orderIdSeq)) := by
    simp only [updateOrder, onDatabase, Prog.modify_apply, horder]
    rfl
  rw [Prog.bind_of_ok (updateCanceled_apply h), Prog.bind_of_ok hinsert, Prog.bind_of_ok hlink]
  rfl

/-- **A replacement.** -/
theorem modifyOrder_cases {id : OrderId} {s : Store} (hseq : ∀ order, s.pg.orders id = some order →
    id ≠ s.orderIdSeq) (userId : UserId) (newPrice newQuantity : ℚ) :
    (∃ old s₁, s.pg.orders id = some old ∧ old.userId = userId ∧ old.status.isActive = true ∧
      old.type.rests = true ∧ 0 < newPrice ∧ (0 < newQuantity ∧
        ∃ pair, s.pg.tradingPairs old.symbol = some pair ∧ pair.minLotSize ≤ newQuantity) ∧ Quiet s s₁ ∧
      modifyOrder userId id newPrice newQuantity s =
        (.ok s.orderIdSeq, s₁.replace id old newPrice newQuantity)) ∨
    ∃ err s', modifyOrder userId id newPrice newQuantity s = (.error err, s') ∧ Quiet s s' := by
  have hread : getOrder id s = (.ok (s.pg.orders id), s) := rfl
  rw [modifyOrder, Prog.bind_of_ok hread]
  cases hfound : (s.pg.orders id).filter fun order => order.userId = userId with
  | none => exact .inr ⟨_, s, rfl, refl_of Quiet s⟩
  | some old =>
    obtain ⟨hold, huser⟩ := Option.filter_eq_some_iff.mp hfound
    have huser : old.userId = userId := by simpa using huser
    dsimp only
    -- the guards of the source in their order; each one that fails only raises
    by_cases hactive : old.status.isActive = true
    swap
    · rw [if_pos (by simpa using hactive)]
      exact .inr ⟨_, s, rfl, refl_of Quiet s⟩
    rw [if_neg (by simp [hactive])]
    by_cases hrests : old.type.rests = true
    swap
    · rw [if_pos (by simpa using hrests)]
      exact .inr ⟨_, s, rfl, refl_of Quiet s⟩
    rw [if_neg (by simp [hrests])]
    cases hpair : s.pg.tradingPairs old.symbol with
    | none =>
      have hreadPair : getPair old.symbol s = (.ok none, s) := by
        rw [← hpair]
        rfl
      rw [Prog.bind_of_ok hreadPair]
      exact .inr ⟨_, s, rfl, refl_of Quiet s⟩
    | some pair =>
      have hreadPair : getPair old.symbol s = (.ok (some pair), s) := by
        rw [← hpair]
        rfl
      rw [Prog.bind_of_ok hreadPair]
      dsimp only
      have hunlock : Prog.Moves Quiet (Prog.whenever (0 < (modifyUnlock old pair).2)
          (unlockOptimistic (userId, (modifyUnlock old pair).1) (modifyUnlock old pair).2
            .orderModified (some id))) :=
        Prog.Moves.whenever fun _ => quiet_unlockOptimistic _ _ _ _
      rcases hx : Prog.whenever (0 < (modifyUnlock old pair).2)
          (unlockOptimistic (userId, (modifyUnlock old pair).1) (modifyUnlock old pair).2
            .orderModified (some id)) s with ⟨err | u, s₁⟩
      · exact .inr ⟨err, s₁, Prog.bind_of_error hx, hunlock.of_error hx⟩
      have hquiet₁ := hunlock.of_ok hx
      rw [Prog.bind_of_ok hx]
      -- the old lock is given back before the new values are checked
      cases hvalid : validateModify pair newPrice newQuantity with
      | error err => exact .inr ⟨err, s₁, rfl, hquiet₁⟩
      | ok u =>
        simp only [validateModify, raiseIf_bind_eq_ok] at hvalid
        obtain ⟨hprice, hquantity, hlot⟩ := hvalid
        have hlot : pair.minLotSize ≤ newQuantity := by
          unfold raiseIf at hlot
          split_ifs at hlot with hlt
          exact not_lt.mp hlt
        show (∃ _ _, _ ∧ _ ∧ _ ∧ _ ∧ _ ∧ _ ∧ _ ∧ (relock userId id _ _ >>= _ : M OrderId) s₁ = _) ∨
          ∃ _ _, (relock userId id _ _ >>= _ : M OrderId) s₁ = _ ∧ _
        rcases hx₂ : relock userId id (modifyUnlock old pair)
          (modifyLock old pair newPrice newQuantity) s₁ with ⟨err | u, s₂⟩
        · exact .inr ⟨err, s₂, Prog.bind_of_error hx₂,
            trans_of Quiet hquiet₁ ((quiet_relock _ _ _ _).of_error hx₂)⟩
        have hquiet₂ := trans_of Quiet hquiet₁ ((quiet_relock _ _ _ _).of_ok hx₂)
        refine .inl ⟨old, s₂, hold, huser, hactive, hrests, not_le.mp hprice, ⟨not_le.mp hquantity,
          pair, hpair, hlot⟩, hquiet₂, ?_⟩
        rw [Prog.bind_of_ok hx₂]
        have hne := hseq old hold
        obtain ⟨balances, updates, rfl⟩ := hquiet₂
        exact replaceRest_apply hold hne

end SpotExchange.Exchange
