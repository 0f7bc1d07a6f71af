import SpotExchange.Exchange.Canceling
import SpotExchange.Exchange.Fills
import SpotExchange.Exchange.RowLocks

namespace SpotExchange.Exchange

open SpotExchange.Lib
open SpotExchange.Engine (OrderId)
open SpotExchange.Ledger (BalanceKey Row Op)

/-!
# A cancellation and a batch at the same time

`cancel_order` reads the order without a lock, unlocks, and writes the order.  The transaction of the
worker may commit between any two of these.

* `cancelOrder_eq` — a cancellation is its statements;
* `Race`, `RaceStep` — a cancellation and a batch, statement by statement.  The batch locks what it
  reads, and so it counts when it commits; it waits for the balance that the cancellation has locked;
* `Race.Inv` — where they can be, kept by every step;
* `inv_race` — and so it holds in every run.
-/

/-- In every balance, total is locked plus available. -/
def Store.BalancesAddUp (s : Store) : Prop :=
  ∀ key row, s.pg.balances key = some row →
    row.totalBalance = row.lockedBalance + row.availableBalance

/-! ### The parts of a cancellation -/

/-- What `cancel_order` does first: it reads the order, without a lock, and its pair. -/
def readCancelable (userId : UserId) (orderId : OrderId) : M (Order × TradingPair) := do
  match ← getOrderByUser orderId userId with
  | none => Prog.raise (.orderNotFound orderId userId)
  | some order =>
      if order.status.isActive = false then
        Prog.raise (.orderNotCancelable orderId order.status)
      else
        match ← getPair order.symbol with
        | none => Prog.raise .assertionError
        | some pair => return (order, pair)

/-- What it does last. -/
def finishCancel (orderId : OrderId) (order : Order) : M Unit := do
  updateStatus orderId .canceled
  cancelChildren orderId
  onRedis (cleanUpCanceled orderId order)
  onRedis (enqueueOrderAction (cancelPayload orderId order))

/-- **`cancel_order`** reads, unlocks and finishes. -/
theorem cancelOrder_eq (userId : UserId) (orderId : OrderId) :
    cancelOrder userId orderId = readCancelable userId orderId >>= fun found =>
      unlockCanceled orderId found.1 (cancelUnlock found.1 found.2) >>= fun _ =>
        finishCancel orderId found.1 := by
  unfold cancelOrder readCancelable
  rw [bind_assoc]
  refine congrArg (Bind.bind _) (funext fun found => ?_)
  cases found with
  | none => rfl
  | some order =>
    dsimp only
    split_ifs
    · rfl
    · rw [bind_assoc]
      refine congrArg (Bind.bind _) (funext fun pair => ?_)
      cases pair <;> rfl

section

variable {s : Store} {userId : UserId} {id : OrderId}

theorem canceledOrder_eq_some {order : Order} {pair : TradingPair} :
    s.canceledOrder userId id = some (order, pair) ↔ s.pg.orders id = some order ∧
      order.userId = userId ∧ order.status.isActive = true ∧
        s.pg.tradingPairs order.symbol = some pair := by
  unfold Store.canceledOrder
  simp only [Option.bind_eq_some_iff, Option.filter_eq_some_iff, Option.map_eq_some_iff,
    Bool.and_eq_true, decide_eq_true_eq, Prod.mk.injEq]
  constructor
  · rintro ⟨o, ⟨ho, huser, hactive⟩, p, hp, rfl, rfl⟩
    exact ⟨ho, huser, hactive, hp⟩
  · rintro ⟨ho, huser, hactive, hp⟩
    exact ⟨order, ⟨ho, huser, hactive⟩, pair, hp, rfl, rfl⟩

/-- **What a cancellation reads first.** -/
theorem readCancelable_apply (userId : UserId) (id : OrderId) (s : Store) :
    (∃ order pair, s.canceledOrder userId id = some (order, pair) ∧
      readCancelable userId id s = (.ok (order, pair), s)) ∨
    s.canceledOrder userId id = none ∧ ∃ err, readCancelable userId id s = (.error err, s) := by
  cases hfound : (s.pg.orders id).filter fun order => order.userId = userId with
  | none =>
    have hread : getOrderByUser id userId s = (.ok none, s) := by
      rw [← hfound]
      rfl
    refine .inr ⟨Option.eq_none_iff_forall_not_mem.mpr fun x hx => ?_, _,
      by rw [readCancelable, Prog.bind_of_ok hread]; rfl⟩
    obtain ⟨horder, huser, -⟩ := canceledOrder_eq_some.mp hx
    rw [horder, Option.filter_some_pos (by simpa using huser)] at hfound
    exact absurd hfound (by simp)
  | some order =>
    have hread : getOrderByUser id userId s = (.ok (some order), s) := by
      rw [← hfound]
      rfl
    obtain ⟨horder, huser⟩ := Option.filter_eq_some_iff.mp hfound
    have huser : order.userId = userId := by simpa using huser
    rw [readCancelable, Prog.bind_of_ok hread]
    dsimp only
    by_cases hactive : order.status.isActive = true
    swap
    · rw [if_pos (by simpa using hactive)]
      refine .inr ⟨Option.eq_none_iff_forall_not_mem.mpr fun x hx => ?_, _, rfl⟩
      obtain ⟨horder', -, hactive', -⟩ := canceledOrder_eq_some.mp hx
      obtain rfl : order = x.1 := Option.some.inj (horder.symm.trans horder')
      exact hactive hactive'
    rw [if_neg (by simp [hactive])]
    have hreadPair : getPair order.symbol s = (.ok (s.pg.tradingPairs order.symbol), s) := rfl
    rw [Prog.bind_of_ok hreadPair]
    cases hpair : s.pg.tradingPairs order.symbol with
    | none =>
      refine .inr ⟨Option.eq_none_iff_forall_not_mem.mpr fun x hx => ?_, _, rfl⟩
      obtain ⟨horder', -, -, hpair'⟩ := canceledOrder_eq_some.mp hx
      obtain rfl : order = x.1 := Option.some.inj (horder.symm.trans horder')
      exact absurd (hpair.symm.trans hpair') (by simp)
    | some pair =>
      exact .inl ⟨order, pair, canceledOrder_eq_some.mpr ⟨horder, huser, hactive, hpair⟩, rfl⟩

/-- **What a cancellation does last** to the order as it is then. -/
theorem finishCancel_apply (order : Order) {current : Order} (h : s.pg.orders id = some current) :
    ∃ s', finishCancel id order s = (.ok ⟨⟩, s') ∧ s'.pg.orders id = some current.canceled ∧
      s'.pg.balances = s.pg.balances := by
  have hfinish : ∃ s', finishCancel id order s = (.ok ⟨⟩, s') ∧
      s'.pg.orders id = (Function.update s.pg.orders id (some current.canceled) id).map
        (Order.orphaned id) ∧ s'.pg.balances = s.pg.balances := by
    rw [finishCancel, Prog.bind_of_ok (updateCanceled_apply h)]
    exact ⟨_, rfl, rfl, rfl⟩
  obtain ⟨s', hs', horder, hbalances⟩ := hfinish
  refine ⟨s', hs', ?_, hbalances⟩
  -- the order is not active any more, even if it is its own parent
  rw [horder, Function.update_self, Option.map_some, Order.orphaned, if_neg]
  exact fun h => absurd h.2 (by simp [Order.canceled, OrderStatus.isActive])

/-- The balance that the unlock of a cancellation loads `FOR UPDATE`, if there is one. -/
def Store.heldBalance (s : Store) (order : Order) (unlock : Asset × ℚ) : Option BalanceKey :=
  if order.type.isStop = false ∧ 0 < unlock.2 ∧
      (s.pg.balances (order.userId, unlock.1)).isSome = true then some (order.userId, unlock.1)
  else none

/-- A cancellation that holds no balance unlocks nothing. -/
theorem unlockCanceled_of_free {order : Order} {unlock : Asset × ℚ}
    (h : s.heldBalance order unlock = none) : unlockCanceled id order unlock s = (.ok ⟨⟩, s) := by
  unfold Store.heldBalance at h
  unfold unlockCanceled Prog.whenever
  split_ifs at h with hguard
  split_ifs with hunlock
  · have hnone : s.pg.balances (order.userId, unlock.1) = none := by
      by_contra hrow
      exact hguard ⟨hunlock.1, hunlock.2, Option.isSome_iff_ne_none.mpr hrow⟩
    have hread : getBalanceForUpdate order.userId unlock.1 s = (.ok none, s) := by
      rw [getBalanceForUpdate, Prog.read_apply, hnone]
      rfl
    rw [Prog.bind_of_ok hread]
    rfl
  · rfl

end

/-! ### A cancellation and a batch -/

/-- How far a cancellation has come. -/
inductive CancelPc
  | start
  /-- It has read the order and its pair. -/
  | read (order : Order) (pair : TradingPair)
  /-- It has unlocked, and keeps the balance locked until it commits. -/
  | unlocked (order : Order) (held : Option BalanceKey)
  | done
  deriving DecidableEq, Repr

/-- It has read the order, and has not written it. -/
def CancelPc.isUnderway : CancelPc → Bool
  | .read _ _ | .unlocked _ _ => true
  | .start | .done => false

/-- A cancellation and a batch. -/
structure Race where
  store : Store
  cancel : CancelPc := .start
  /-- The batch has committed. -/
  filled : Bool := false
  /-- It has done so while the cancellation was under way. -/
  overtaken : Bool := false

/-- **A statement of the cancellation.**  Where it raises it has changed nothing that would have to be
    undone. -/
def Race.cancelStep (userId : UserId) (id : OrderId) (r : Race) : Race :=
  match r.cancel with
  | .start =>
      match readCancelable userId id r.store with
      | (.ok (order, pair), s) => { r with store := s, cancel := .read order pair }
      | (.error _, s) => { r with store := s, cancel := .done }
  | .read order pair =>
      match unlockCanceled id order (cancelUnlock order pair) r.store with
      | (.ok _, s) =>
          { r with store := s
                   cancel := .unlocked order (r.store.heldBalance order (cancelUnlock order pair)) }
      | (.error _, s) => { r with store := s, cancel := .done }
  | .unlocked order _ => { r with store := (finishCancel id order r.store).2, cancel := .done }
  | .done => r

/-- The batch waits for the cancellation. -/
def Race.isBlocked (args : BatchArgs) (trades : List DomainTrade) (r : Race) : Bool :=
  match r.cancel with
  | .unlocked _ (some key) => decide (key ∈ r.store.batchBalances args trades)
  | _ => false

/-- **The commit of the batch.**  It locks every row that it reads, so that it reads what is there when
    it commits. -/
def Race.workerStep (args : BatchArgs) (trades : List DomainTrade) (r : Race) : Option Race :=
  if r.filled = true ∨ r.isBlocked args trades = true then none
  else
    match persistTradeBatch args trades r.store with
    | (.ok _, s) => some { r with store := s, filled := true, overtaken := r.cancel.isUnderway }
    | (.error _, _) => none

/-- **What can happen next.** -/
inductive RaceStep (userId : UserId) (id : OrderId) (args : BatchArgs) (trades : List DomainTrade)
    (r : Race) : Race → Prop
  | cancel : RaceStep userId id args trades r (r.cancelStep userId id)
  | worker {r' : Race} (h : r.workerStep args trades = some r') : RaceStep userId id args trades r r'

/-- What the rest of a cancellation makes of a store if nothing else changes it. -/
def cancelFrom (userId : UserId) (id : OrderId) : CancelPc → Store → Store
  | .start, s => (cancelOrder userId id s).2
  | .read order pair, s =>
      ((unlockCanceled id order (cancelUnlock order pair) >>= fun _ => finishCancel id order) s).2
  | .unlocked order _, s => (finishCancel id order s).2
  | .done, s => s

section

variable {s : Store} {userId : UserId} {id : OrderId} {order : Order} {pair : TradingPair}
  {args : BatchArgs} {trades : List DomainTrade}

/-- **A statement of the cancellation** does not change what it will come to. -/
theorem cancelFrom_cancelStep (userId : UserId) (id : OrderId) (r : Race) :
    cancelFrom userId id (r.cancelStep userId id).cancel (r.cancelStep userId id).store =
      cancelFrom userId id r.cancel r.store := by
  obtain ⟨t, pc, filled, overtaken⟩ := r
  cases pc with
  | start =>
    show _ = (cancelOrder userId id t).2
    rw [cancelOrder_eq]
    rcases readCancelable_apply userId id t with ⟨order, pair, -, hread⟩ | ⟨-, err, hread⟩
    · rw [Prog.bind_of_ok hread]
      simp only [Race.cancelStep, hread, cancelFrom]
    · rw [Prog.bind_of_error hread]
      simp only [Race.cancelStep, hread, cancelFrom]
  | read order pair =>
    rcases hunlock : unlockCanceled id order (cancelUnlock order pair) t with ⟨err | u, t'⟩
    · simp only [Race.cancelStep, hunlock, cancelFrom, Prog.bind_of_error hunlock]
    · simp only [Race.cancelStep, hunlock, cancelFrom, Prog.bind_of_ok hunlock]
  | unlocked order held => rfl
  | done => rfl

/-- **An order that takes part in a batch** has its balances among those of the batch. -/
theorem mem_batchBalances {asset : Asset} (id : OrderId) (horder : s.pg.orders id = some order)
    (hpart : TakesPart args trades id) (hasset : asset = args.baseAsset ∨ asset = args.quoteAsset)
    (hrow : (s.pg.balances (order.userId, asset)).isSome = true) :
    (order.userId, asset) ∈ s.batchBalances args trades := by
  have hparty : ∀ isTaker, (order.userId, asset) ∈ s.settledBalances args isTaker id := by
    intro isTaker
    rw [Store.settledBalances, horder]
    refine List.mem_filter.mpr ⟨?_, hrow⟩
    unfold settledBalances
    rcases hasset with rfl | rfl <;> cases isTaker <;> cases args.takerSide <;> simp
  refine List.mem_append.mpr ?_
  rcases hpart with ⟨htaker, -⟩ | ⟨t, ht, rfl⟩
  · exact .inr (htaker ▸ hparty true)
  · obtain ⟨d, hd, hid⟩ := exists_makerFillDelta ht
    refine .inl (List.mem_flatMap.mpr ⟨t.makerOrderId, List.mem_filter.mpr ⟨?_, ?_⟩, hparty false⟩)
    · exact List.mem_map.mpr ⟨d, hd, hid⟩
    · rw [horder]
      rfl

theorem cancelUnlock_asset (order : Order) (pair : TradingPair) :
    (cancelUnlock order pair).1 = pair.baseAsset ∨ (cancelUnlock order pair).1 = pair.quoteAsset := by
  unfold cancelUnlock
  split
  · exact .inl rfl
  · exact .inr rfl
  · exact .inr rfl

/-- How far a cancellation of `order` has come in a store that was `s`, if only it has changed it. -/
def CancelPc.Alone (s : Store) (order : Order) (pair : TradingPair) (args : BatchArgs)
    (trades : List DomainTrade) : CancelPc → Store → Prop
  | .start, t => t = s
  | .read o p, t => t = s ∧ o = order ∧ p = pair
  | .unlocked o held, t => o = order ∧
      (held = none → t = s ∧ s.heldBalance order (cancelUnlock order pair) = none) ∧
        ∀ key, held = some key → key ∈ t.batchBalances args trades
  | .done, _ => True

theorem alone_cancelStep (hok : s.BalancesAddUp)
    (hfound : s.canceledOrder userId id = some (order, pair))
    (hpart : TakesPart args trades id)
    (hassets : args.baseAsset = pair.baseAsset ∧ args.quoteAsset = pair.quoteAsset) {r : Race}
    (h : r.cancel.Alone s order pair args trades r.store) :
    (r.cancelStep userId id).cancel.Alone s order pair args trades (r.cancelStep userId id).store := by
  obtain ⟨t, pc, filled, overtaken⟩ := r
  cases pc with
  | start =>
    obtain rfl : t = s := h
    rcases readCancelable_apply userId id t with ⟨o, p, ho, hread⟩ | ⟨hnone, -⟩
    · simp only [Race.cancelStep, hread]
      obtain ⟨rfl, rfl⟩ : o = order ∧ p = pair := by simpa using ho.symm.trans hfound
      exact ⟨rfl, rfl, rfl⟩
    · exact absurd (hnone.symm.trans hfound) (by simp)
  | read o p =>
    obtain ⟨rfl, rfl, rfl⟩ : t = s ∧ o = order ∧ p = pair := h
    obtain ⟨t', hunlock, hquiet, hshift⟩ :=
      unlockCanceled_spec id o (cancelUnlock o p) fun row => hok _ row
    simp only [Race.cancelStep, hunlock]
    refine ⟨rfl, fun hnone => ⟨?_, hnone⟩, fun key hkey => ?_⟩
    · exact congrArg Prod.snd (hunlock.symm.trans (unlockCanceled_of_free hnone))
    · -- the balance is one of those that the batch settles for the order
      unfold Store.heldBalance at hkey
      split_ifs at hkey with hguard
      obtain rfl := Option.some.inj hkey
      obtain ⟨horder, -, -, -⟩ := canceledOrder_eq_some.mp hfound
      refine mem_batchBalances id ?_ hpart ?_ ?_
      · obtain ⟨balances, updates, rfl⟩ := hquiet
        exact horder
      · rw [hassets.1, hassets.2]
        exact cancelUnlock_asset o p
      · rw [Option.isSome_iff_ne_none, Ne, hshift.none_iff, ← Ne, ← Option.isSome_iff_ne_none]
        exact hguard.2.2
  | unlocked o held => trivial
  | done => trivial

/-- **What can have happened** to a cancellation and a batch. -/
inductive Race.Inv (s : Store) (userId : UserId) (id : OrderId) (order : Order) (pair : TradingPair)
    (args : BatchArgs) (trades : List DomainTrade) (r : Race) : Prop
  /-- The batch has not committed. -/
  | cancels (hfilled : r.filled = false) (hovertaken : r.overtaken = false)
      (hcancel : cancelFrom userId id r.cancel r.store = (cancelOrder userId id s).2)
      (halone : r.cancel.Alone s order pair args trades r.store)
  /-- It has committed after the cancellation. -/
  | canceled {rows : List Trade} (hfilled : r.filled = true) (hovertaken : r.overtaken = false)
      (hdone : r.cancel = .done)
      (hbatch : persistTradeBatch args trades (cancelOrder userId id s).2 = (.ok rows, r.store))
  /-- It has committed before the cancellation. -/
  | fills {rows : List Trade} {s' : Store} (hfilled : r.filled = true) (hovertaken : r.overtaken = false)
      (hbatch : persistTradeBatch args trades s = (.ok rows, s'))
      (hcancel : cancelFrom userId id r.cancel r.store = (cancelOrder userId id s').2)
  /-- It has committed after the cancellation had read the order. -/
  | overtakes {rows : List Trade} {s' : Store} (hfilled : r.filled = true)
      (hovertaken : r.overtaken = true) (hbatch : persistTradeBatch args trades s = (.ok rows, s'))
      (hcancel : cancelFrom userId id r.cancel r.store = cancelFrom userId id (.read order pair) s')

/-- **A statement of the cancellation.** -/
theorem inv_cancelStep (hok : s.BalancesAddUp)
    (hfound : s.canceledOrder userId id = some (order, pair)) (hpart : TakesPart args trades id)
    (hassets : args.baseAsset = pair.baseAsset ∧ args.quoteAsset = pair.quoteAsset) {r : Race}
    (h : r.Inv s userId id order pair args trades) :
    (r.cancelStep userId id).Inv s userId id order pair args trades := by
  have hfilled : (r.cancelStep userId id).filled = r.filled ∧
      (r.cancelStep userId id).overtaken = r.overtaken := by
    unfold Race.cancelStep
    split <;> try split
    all_goals exact ⟨rfl, rfl⟩
  have hfrom := cancelFrom_cancelStep userId id r
  cases h with
  | cancels hf ho hcancel halone =>
    exact .cancels (hfilled.1.trans hf) (hfilled.2.trans ho) (hfrom.trans hcancel)
      (alone_cancelStep hok hfound hpart hassets halone)
  | canceled hf ho hdone hbatch =>
    have hstep : r.cancelStep userId id = r := by
      unfold Race.cancelStep
      rw [hdone]
    rw [hstep]
    exact .canceled hf ho hdone hbatch
  | fills hf ho hbatch hcancel =>
    exact .fills (hfilled.1.trans hf) (hfilled.2.trans ho) hbatch (hfrom.trans hcancel)
  | overtakes hf ho hbatch hcancel =>
    exact .overtakes (hfilled.1.trans hf) (hfilled.2.trans ho) hbatch (hfrom.trans hcancel)

/-- A batch has not brought a balance into being that a cancellation would load. -/
theorem heldBalance_of_batch {rows : List Trade} {s' : Store} {unlock : Asset × ℚ}
    (h : persistTradeBatch args trades s = (.ok rows, s')) (hnone : s.heldBalance order unlock = none) :
    s'.heldBalance order unlock = none := by
  have hshift := (persistTradeBatch_spec h).2.2.balances
  unfold Store.heldBalance at hnone ⊢
  split_ifs at hnone with hguard
  rw [if_neg]
  refine fun hguard' => hguard ⟨hguard'.1, hguard'.2.1, ?_⟩
  rw [Option.isSome_iff_ne_none, Ne, ← hshift.none_iff, ← Ne, ← Option.isSome_iff_ne_none]
  exact hguard'.2.2

/-- **The commit of the batch.** -/
theorem inv_workerStep {r r' : Race} (h : r.Inv s userId id order pair args trades)
    (hstep : r.workerStep args trades = some r') : r'.Inv s userId id order pair args trades := by
  unfold Race.workerStep at hstep
  split_ifs at hstep with hguard
  have hwaiting : r.filled = false := by simpa using fun hf => hguard (.inl hf)
  rcases hbatch : persistTradeBatch args trades r.store with ⟨err | rows, s'⟩
  · rw [hbatch] at hstep
    exact absurd hstep (by simp)
  rw [hbatch] at hstep
  obtain rfl := Option.some.inj hstep
  cases h with
  | cancels hf ho hcancel halone =>
    obtain ⟨t, pc, filled, overtaken⟩ := r
    cases pc with
    | start =>
      obtain rfl : t = s := halone
      exact .fills rfl rfl hbatch rfl
    | read o p =>
      obtain ⟨rfl, rfl, rfl⟩ : t = s ∧ o = order ∧ p = pair := halone
      exact .overtakes rfl rfl hbatch rfl
    | unlocked o held =>
      obtain ⟨rfl, hfree, hheld⟩ := halone
      cases held with
      | none =>
        obtain ⟨rfl, hnone⟩ := hfree rfl
        refine .overtakes rfl rfl hbatch ?_
        show (finishCancel id o s').2 = ((unlockCanceled id o _ >>= _) s').2
        rw [Prog.bind_of_ok (unlockCanceled_of_free (heldBalance_of_batch hbatch hnone))]
      | some key =>
        -- the batch waits for this balance
        refine absurd (Or.inr ?_) hguard
        simpa [Race.isBlocked] using hheld key rfl
    | done =>
      have hlast : persistTradeBatch args trades (cancelOrder userId id s).2 = (.ok rows, s') := by
        rw [← hcancel]
        exact hbatch
      exact .canceled rfl rfl rfl hlast
  | canceled hf _ _ _ => exact absurd (hf.symm.trans hwaiting) (by simp)
  | fills hf _ _ _ => exact absurd (hf.symm.trans hwaiting) (by simp)
  | overtakes hf _ _ _ => exact absurd (hf.symm.trans hwaiting) (by simp)

/-- **Every run of a cancellation and a batch.** -/
theorem inv_race (hok : s.BalancesAddUp)
    (hfound : s.canceledOrder userId id = some (order, pair)) (hpart : TakesPart args trades id)
    (hassets : args.baseAsset = pair.baseAsset ∧ args.quoteAsset = pair.quoteAsset) {r : Race}
    (hrun : Relation.ReflTransGen (RaceStep userId id args trades) { store := s } r) :
    r.Inv s userId id order pair args trades := by
  induction hrun with
  | refl => exact .cancels rfl rfl rfl rfl
  | tail _ hstep ih =>
    cases hstep with
    | cancel => exact inv_cancelStep hok hfound hpart hassets ih
    | worker h => exact inv_workerStep ih h

end

end SpotExchange.Exchange
