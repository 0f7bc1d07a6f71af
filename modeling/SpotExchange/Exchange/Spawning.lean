import SpotExchange.Exchange.Commits
import SpotExchange.Exchange.Pushing
import SpotExchange.Exchange.Rows

namespace SpotExchange.Exchange

open SpotExchange.Lib
open SpotExchange.Engine (OrderId)
open SpotExchange.Ledger (BalanceKey)

/-!
# One child for each stop

A stop can be passed to `_trigger_stop_order` again and again, by every print and by every rescan.

* `StopStep`, `StopRun` — the transactions of prints and rescans in any order, with everything else
  that is served between them, and what triggering has created for each stop;
* `TriggerEffect` — a trigger creates one child and locks its funds, or does neither;
* `OneChild` — the invariant: a stop has a child exactly if it is filled, and no second one;
* `stops_spawn_once` — every run keeps it.
-/

/-! ### Runs -/

/-- A transaction of a print or of a rescan, the trailing update of a print, or a request. -/
inductive StopStep
  | trigger (stopId : OrderId) (isTrailing : Bool)
  | trail (m : StopMonitor) (symbol : Symbol) (price : ℚ)
  | serve (req : Request)

/-- The store after a step. -/
def StopStep.store (s : Store) : StopStep → Store
  | .trigger stopId isTrailing => (tryTrigger isTrailing stopId s).2
  | .trail m symbol price => s.setRedis (trailingUpdate m symbol price)
  | .serve req => s.serve req

/-- The ids of the orders that are in the second store only. -/
def insertedIds (s s' : Store) : List OrderId :=
  (List.range s'.orderIdSeq).filter fun id => (s.pg.orders id).isNone && (s'.pg.orders id).isSome

/-- A store, and the orders that triggering has created for each stop. -/
structure StopRun where
  store : Store
  children : OrderId → List OrderId

/-- The run after a step. -/
def StopRun.step (r : StopRun) (x : StopStep) : StopRun where
  store := x.store r.store
  children :=
    match x with
    | .trigger stopId _ => Function.update r.children stopId
        (r.children stopId ++ insertedIds r.store (x.store r.store))
    | _ => r.children

/-- The run that starts with a store. -/
def StopRun.start (s : Store) : StopRun := { store := s, children := fun _ => [] }

/-- **Nothing else is done to stops**: the worker leaves their statuses alone.  Prints and rescans
    come as their transactions. -/
def StopsApart (r : StopRun) : StopStep → Prop
  | .serve .work => ∀ id o o', r.store.pg.orders id = some o → o.type.isStop = true →
      (r.store.serve .work).pg.orders id = some o' → o'.status = o.status
  | .serve req => req.isCall = true
  | _ => True

/-! ### Prints and rescans are runs -/

theorem after_triggers (isTrailing : Bool) (ids : List OrderId) (r : StopRun) :
    (Run.after StopRun.step r (ids.map fun id => .trigger id isTrailing)).store =
      triggerAll isTrailing ids r.store := by
  induction ids generalizing r with
  | nil => rfl
  | cons id ids ih => exact ih (r.step (.trigger id isTrailing))

/-- **A trade print** is a trailing update and a run of triggers. -/
theorem serve_print_run (r : StopRun) (m : StopMonitor) (symbol : Symbol) (price : ℚ) :
    ∃ plain trailing : List OrderId, r.store.serve (.print m symbol price) =
      (Run.after StopRun.step r (.trail m symbol price :: plain.map (fun id => .trigger id false) ++
        trailing.map fun id => .trigger id true)).store := by
  refine ⟨getAllTriggeredStops (trailingUpdate m symbol price r.store.redis) symbol price,
    getTriggeredTrailingStops (trailingUpdate m symbol price r.store.redis) symbol price, ?_⟩
  rw [Run.after_append, after_triggers, Run.after_cons, after_triggers, serve_print]
  rfl

/-- **A rescan** is a run of triggers. -/
theorem serve_rescan_run (r : StopRun) (symbol : Symbol) (lastPrice : ℚ) :
    ∃ ids : List OrderId, r.store.serve (.rescan symbol lastPrice) =
      (Run.after StopRun.step r (ids.map fun id => .trigger id false)).store := by
  refine ⟨rescanSelected r.store.pg r.store.orderIdSeq symbol lastPrice, ?_⟩
  rw [after_triggers]
  exact congrArg Prod.snd (forEach_tryTrigger false _ r.store)

/-! ### One trigger -/

section

variable {s s' : Store}

/-- Every balance is as it was; a missing row counts as zeros. -/
def SameBalances (s s' : Store) : Prop :=
  ∀ key, amounts (s'.rowOrZero key) = amounts (s.rowOrZero key)

/-- An amount of a user has been locked, and every other balance is as it was. -/
def Locks (userId : UserId) (lock : Asset × ℚ) (s s' : Store) : Prop :=
  ∀ key, amounts (s'.rowOrZero key) =
    amounts (s.rowOrZero key) + Moved.single (userId, lock.1) (opAmounts .lock lock.2) key

/-- **A trigger creates one child and locks its funds, or does neither.** -/
inductive TriggerEffect (stopId : OrderId) (s s' : Store) : Prop
  | spawned (order : Order) (pair : TradingPair) (lock : Asset × ℚ)
      (horder : s.pg.orders stopId = some order) (hpending : order.status = .pending)
      (hpair : s.pg.tradingPairs order.symbol = some pair)
      (hlock : triggerLock order pair (oppositeOrdersForMatch s.redis order.symbol .buy askLimit) =
        some lock)
      (hcovered : 0 < lock.2 ∧ lock.2 ≤ (s.rowOrZero (order.userId, lock.1)).availableBalance)
      (hseq : s'.orderIdSeq = s.orderIdSeq + 1) (hchild : insertedIds s s' = [s.orderIdSeq])
      (hrows : s'.pg.orders = Function.update (Function.update s.pg.orders stopId
        (some { order with status := .filled, version := order.version + 1 })) s.orderIdSeq
          (some (triggeredChild stopId order)))
      (hlocks : Locks order.userId lock s s')
  | abandoned (hseq : s'.orderIdSeq = s.orderIdSeq) (hchild : insertedIds s s' = [])
      (hrows : s'.pg.orders = s.pg.orders) (hlocks : SameBalances s s')

theorem insertedIds_of_orders (h : s'.pg.orders = s.pg.orders) : insertedIds s s' = [] := by
  unfold insertedIds
  rw [h, List.filter_eq_nil_iff]
  intro id _
  cases s.pg.orders id <;> simp

theorem amounts_withRow (s : Store) (key key' : BalanceKey) :
    amounts ((s.withRow key).rowOrZero key') = amounts (s.rowOrZero key') := by
  unfold Store.rowOrZero Store.withRow
  cases hrow : s.pg.balances key with
  | some row => rfl
  | none =>
    show amounts ((Function.update s.pg.balances key (some _) key').getD _) = _
    by_cases hkey : key' = key
    · subst hkey
      rw [Function.update_self, hrow]
      rfl
    · rw [Function.update_of_ne hkey]

theorem locks_moveBalance (s : Store) (userId : UserId) (lock : Asset × ℚ) (update : BalanceUpdate) :
    Locks userId lock s (s.moveBalance (userId, lock.1)
      (lockedRow (s.rowOrZero (userId, lock.1)) lock.2) update) := by
  intro key
  unfold Store.rowOrZero
  show amounts ((Function.update s.pg.balances (userId, lock.1) (some _) key).getD _) = _
  by_cases hkey : key = (userId, lock.1)
  · subst hkey
    rw [Function.update_self, Moved.single_apply, if_pos rfl]
    simp [amounts, lockedRow, opAmounts, sub_eq_add_neg]
  · rw [Function.update_of_ne hkey, Moved.single_apply, if_neg hkey, add_zero]

/-- **Every trigger** has this effect. -/
theorem tryTrigger_effect (hids : IdsBelow s) (stopId : OrderId) (isTrailing : Bool) :
    TriggerEffect stopId s (tryTrigger isTrailing stopId s).2 := by
  obtain ⟨s', hx, hcases⟩ := triggerStopOrder_cases stopId isTrailing s
  have hx' : (tryTrigger isTrailing stopId s).2 = s' := by
    unfold tryTrigger Prog.tryExcept
    rw [hx]
  rw [hx']
  rcases hcases with rfl | ⟨key, rfl⟩ | ⟨order, pair, lock, horder, hpending, hpair, hlock, hpos, hle, rfl⟩
  · exact .abandoned rfl (insertedIds_of_orders rfl) rfl fun _ => rfl
  · obtain ⟨hseq, horders⟩ : (s.withRow key).orderIdSeq = s.orderIdSeq ∧
        (s.withRow key).pg.orders = s.pg.orders := by
      obtain ⟨balances, updates, hq⟩ := quiet_withRow s key
      rw [hq]
      exact ⟨rfl, rfl⟩
    exact .abandoned hseq (insertedIds_of_orders horders) horders (amounts_withRow s key)
  · have hne : stopId ≠ s.orderIdSeq := (hids stopId (by rw [horder]; simp)).ne
    refine .spawned order pair lock horder hpending hpair hlock ⟨hpos, hle⟩ rfl ?_ rfl ?_
    · -- the stop is not new, and the next id is not taken
      have hseq : s.pg.orders s.orderIdSeq = none := by
        by_contra hsome
        exact lt_irrefl _ (hids _ hsome)
      show (List.range (s.orderIdSeq + 1)).filter (fun id => (s.pg.orders id).isNone &&
        (Function.update (Function.update s.pg.orders stopId _) s.orderIdSeq _ id).isSome) = _
      rw [List.range_succ, List.filter_append, List.filter_eq_nil_iff.mpr, List.nil_append,
        List.filter_cons_of_pos (by simp [hseq]), List.filter_nil]
      intro id hid
      rw [Function.update_of_ne (List.mem_range.mp hid).ne]
      by_cases hstop : id = stopId
      · simp [hstop, horder]
      · rw [Function.update_of_ne hstop]
        cases s.pg.orders id <;> simp
    · exact locks_moveBalance s order.userId lock
        (lockUpdate (order.userId, lock.1) (-lock.2) .stopTriggered (some stopId))

/-! ### The invariant -/

/-- **A stop has a child exactly if it is filled, and no second one.** -/
structure OneChild (r : StopRun) : Prop where
  consistent : Consistent r.store
  below : ∀ id, r.children id ≠ [] → id < r.store.orderIdSeq
  atMostOne : ∀ id o, r.store.pg.orders id = some o → o.type.isStop = true →
    (r.children id).length ≤ 1
  filled_iff : ∀ id o, r.store.pg.orders id = some o → o.type.isStop = true →
    (r.children id ≠ [] ↔ o.status = .filled)

variable {r : StopRun}

/-- A row and its successor have the same type, and are filled alike. -/
def SameFilled (o o' : Order) : Prop := o'.type = o.type ∧ (o'.status = .filled ↔ o.status = .filled)

theorem SameFilled.refl (o : Order) : SameFilled o o := ⟨rfl, .rfl⟩

/-- The API fills no order. -/
theorem sameFilled_rowSteps : RowSteps SameFilled fun o => o.status ≠ .filled where
  refl := SameFilled.refl
  trans := fun h h' => ⟨h'.1.trans h.1, h'.2.trans h.2⟩
  stays := fun hN hR h => hN (hR.2.mp h)
  slLink := fun o _ => .refl o
  tpLink := fun o _ => .refl o
  replacedLink := fun o _ => .refl o
  cancel := by
    intro o hactive
    refine ⟨rfl, iff_of_false (by simp [Order.canceled]) fun hfilled => ?_⟩
    rw [hfilled] at hactive
    exact absurd hactive (by decide)
  newRow := by
    intro userId dto
    unfold newOrder
    cases dto.type.isStop <;> simp
  childRow := fun _ _ _ => by simp [sltpChild]
  replacementRow := fun _ _ _ _ => by simp [replacement]

/-- **A step in which every stop stays, filled or not**, and new stops are not filled. -/
theorem OneChild.of_rows (h : OneChild r) {x : StopStep} (hchildren : (r.step x).children = r.children)
    (hconsistent : Consistent (x.store r.store))
    (hrows : RowsMove (fun o o' => o'.type.isStop = true → SameFilled o o') (fun o => o.status ≠ .filled)
      r.store (x.store r.store)) : OneChild (r.step x) := by
  have hold : ∀ id o', (x.store r.store).pg.orders id = some o' → o'.type.isStop = true →
      (∃ o, r.store.pg.orders id = some o ∧ o.type.isStop = true ∧
        (o'.status = .filled ↔ o.status = .filled)) ∨ r.children id = [] ∧ o'.status ≠ .filled := by
    intro id o' ho' hstop
    rcases hrows.rows id o' ho' with ⟨o, ho, hsame⟩ | ⟨hle, hnew⟩
    · obtain ⟨htype, hfilled⟩ := hsame hstop
      exact .inl ⟨o, ho, htype ▸ hstop, hfilled⟩
    · refine .inr ⟨?_, hnew⟩
      by_contra hne
      exact absurd (h.below id hne) (not_lt.mpr hle)
  refine ⟨hconsistent, fun id hne => ?_, fun id o' ho' hstop => ?_, fun id o' ho' hstop => ?_⟩
  · rw [hchildren] at hne
    exact (h.below id hne).trans_le hrows.seq
  · rw [hchildren]
    rcases hold id o' ho' hstop with ⟨o, ho, hstop₀, -⟩ | ⟨hnil, -⟩
    · exact h.atMostOne id o ho hstop₀
    · rw [hnil]
      exact Nat.zero_le 1
  · rw [hchildren]
    rcases hold id o' ho' hstop with ⟨o, ho, hstop₀, hfilled⟩ | ⟨hnil, hne⟩
    · exact (h.filled_iff id o ho hstop₀).trans hfilled.symm
    · exact iff_of_false (not_not.mpr hnil) hne

/-- **A trigger.** -/
theorem OneChild.trigger (h : OneChild r) (stopId : OrderId) (isTrailing : Bool) :
    OneChild (r.step (.trigger stopId isTrailing)) := by
  have hconsistent : Consistent (tryTrigger isTrailing stopId r.store).2 :=
    consistent_monitor.tryTrigger isTrailing stopId r.store h.consistent
  have hchildren : (r.step (.trigger stopId isTrailing)).children = Function.update r.children stopId
      (r.children stopId ++ insertedIds r.store (tryTrigger isTrailing stopId r.store).2) := rfl
  cases tryTrigger_effect h.consistent.ids stopId isTrailing with
  | abandoned hseq hchild hrows _ =>
    refine h.of_rows ?_ hconsistent ⟨hseq.ge, fun id o ho => .inl ⟨o, ?_, fun _ => .refl o⟩⟩
    · rw [hchildren, hchild, List.append_nil, Function.update_eq_self]
    · rwa [← hrows]
  | spawned order pair lock horder hpending hpair hlock hcovered hseq hchild hrows hlocks =>
    rw [hchild] at hchildren
    -- a stop that is still pending has no child yet
    have hnil : order.type.isStop = true → r.children stopId = [] := by
      intro hstop
      by_contra hne
      have hfilled := (h.filled_iff stopId order horder hstop).mp hne
      rw [hpending] at hfilled
      exact absurd hfilled (by decide)
    have hrow : ∀ id o, (r.step (.trigger stopId isTrailing)).store.pg.orders id = some o →
        o.type.isStop = true →
          id = stopId ∧ order.type.isStop = true ∧ o.status = .filled ∨
            id ≠ stopId ∧ r.store.pg.orders id = some o := by
      intro id o ho hstop
      have ho : (tryTrigger isTrailing stopId r.store).2.pg.orders id = some o := ho
      rw [hrows] at ho
      by_cases hnew : id = r.store.orderIdSeq
      · rw [hnew, Function.update_self] at ho
        rw [← Option.some.inj ho, triggeredChild_isStop] at hstop
        exact absurd hstop (by decide)
      rw [Function.update_of_ne hnew] at ho
      by_cases hid : id = stopId
      · rw [hid, Function.update_self] at ho
        rw [← Option.some.inj ho] at hstop ⊢
        exact .inl ⟨hid, hstop, rfl⟩
      · rw [Function.update_of_ne hid] at ho
        exact .inr ⟨hid, ho⟩
    refine ⟨hconsistent, fun id hne => ?_, fun id o ho hstop => ?_, fun id o ho hstop => ?_⟩
    · show id < (tryTrigger isTrailing stopId r.store).2.orderIdSeq
      rw [hseq]
      by_cases hid : id = stopId
      · rw [hid]
        exact (h.consistent.ids stopId (by rw [horder]; simp)).trans (Nat.lt_succ_self _)
      · rw [hchildren, Function.update_of_ne hid] at hne
        exact (h.below id hne).trans (Nat.lt_succ_self _)
    · rw [hchildren]
      rcases hrow id o ho hstop with ⟨rfl, hstop₀, -⟩ | ⟨hid, ho⟩
      · rw [Function.update_self, hnil hstop₀]
        exact le_rfl
      · rw [Function.update_of_ne hid]
        exact h.atMostOne id o ho hstop
    · rw [hchildren]
      rcases hrow id o ho hstop with ⟨rfl, hstop₀, hfilled⟩ | ⟨hid, ho⟩
      · rw [Function.update_self, hfilled]
        exact iff_of_true (by simp) rfl
      · rw [Function.update_of_ne hid]
        exact h.filled_iff id o ho hstop

/-- **A round of the worker** that leaves the statuses of stops alone. -/
theorem OneChild.work (h : OneChild r) (hx : StopsApart r (.serve .work)) :
    OneChild (r.step (.serve .work)) := by
  have hprocessed : Processed r.store (r.store.serve .work) := processed_work h.consistent.engine
  refine h.of_rows rfl (consistent_serve h.consistent .work) ⟨hprocessed.seq.ge, fun id o' ho' => .inl ?_⟩
  cases ho : r.store.pg.orders id with
  | none => exact absurd ((hprocessed.none id ho).symm.trans ho') (by simp)
  | some o =>
    obtain ⟨o₁, ho₁, hstays⟩ := hprocessed.stays id o ho
    obtain rfl : o₁ = o' := Option.some.inj (ho₁.symm.trans ho')
    have htype : o₁.type = o.type := congrArg OrderTerms.type hstays.1
    refine ⟨o, rfl, fun hstop => ⟨htype, ?_⟩⟩
    rw [hx id o o₁ ho (htype ▸ hstop) ho']

/-- **Any step.** -/
theorem OneChild.step (h : OneChild r) (x : StopStep) (hx : StopsApart r x) : OneChild (r.step x) := by
  cases x with
  | trigger stopId isTrailing => exact h.trigger stopId isTrailing
  | trail m symbol price =>
    obtain ⟨trailing, states, hupdate⟩ := trailingUpdate_eq m symbol price r.store.redis
    refine h.of_rows rfl (h.consistent.of_drains (drains_setRedis ?_ ?_))
      ⟨le_rfl, fun id o ho => .inl ⟨o, ho, fun _ => .refl o⟩⟩
    · rw [hupdate]
      exact bookShrinks_refl rfl
    · rw [hupdate]
      exact fun _ hp => .inl hp
  | serve req =>
    by_cases hcall : req.isCall = true
    · have hmove := sameFilled_rowSteps.serve h.consistent.ids hcall
      refine h.of_rows rfl (consistent_serve h.consistent req) ⟨hmove.seq, fun id o ho => ?_⟩
      rcases hmove.rows id o ho with ⟨o₀, ho₀, hsame⟩ | hnew
      · exact .inl ⟨o₀, ho₀, fun _ => hsame⟩
      · exact .inr hnew
    · cases req with
      | work => exact h.work hx
      | place userId dto => exact absurd rfl hcall
      | placeBulk userId dtos => exact absurd rfl hcall
      | cancel userId orderId => exact absurd rfl hcall
      | modify userId orderId newPrice newQuantity => exact absurd rfl hcall
      | print m symbol price => exact absurd hx hcall
      | rescan symbol lastPrice => exact absurd hx hcall

theorem oneChild_start {s : Store} (h : Consistent s)
    (hfilled : ∀ id o, s.pg.orders id = some o → o.type.isStop = true → o.status ≠ .filled) :
    OneChild (StopRun.start s) where
  consistent := h
  below := fun _ hne => absurd rfl hne
  atMostOne := fun _ _ _ _ => Nat.zero_le 1
  filled_iff := fun id o ho hstop => iff_of_false (fun hne => hne rfl) (hfilled id o ho hstop)

/-- The step, if it is a trigger, creates one child and locks its funds, or does neither. -/
def StopStep.Effect (r : StopRun) : StopStep → Prop
  | .trigger stopId isTrailing => TriggerEffect stopId r.store (r.step (.trigger stopId isTrailing)).store
  | _ => True

/-- **A stop spawns at most one child**, in every interleaving of what prints and rescans do, with
    anything between that leaves stops alone or cancels them: it has spawned one exactly if it is
    filled, and each trigger locks funds exactly if it creates a child. -/
theorem stops_spawn_once {s : Store} {steps : List StopStep} (h : Consistent s)
    (hfilled : ∀ id o, s.pg.orders id = some o → o.type.isStop = true → o.status ≠ .filled)
    (hapart : Run.Along StopRun.step StopsApart (StopRun.start s) steps) :
    (∀ id o, (Run.after StopRun.step (StopRun.start s) steps).store.pg.orders id = some o →
      o.type.isStop = true →
        ((Run.after StopRun.step (StopRun.start s) steps).children id).length ≤ 1 ∧
        (((Run.after StopRun.step (StopRun.start s) steps).children id).length = 1 ↔
          o.status = .filled)) ∧
      Run.Along StopRun.step StopStep.Effect (StopRun.start s) steps := by
  have hstart := oneChild_start h hfilled
  refine ⟨fun id o ho hstop => ?_, hapart.mono (fun r x hr hx => ⟨hr.step x hx, ?_⟩) hstart⟩
  · have hone := hapart.invariant (I := OneChild) (fun r x hr hx => hr.step x hx) hstart
    have hle := hone.atMostOne id o ho hstop
    refine ⟨hle, Iff.trans ?_ (hone.filled_iff id o ho hstop)⟩
    rw [← List.length_pos_iff]
    omega
  · cases x with
    | trigger stopId isTrailing => exact tryTrigger_effect hr.consistent.ids stopId isTrailing
    | trail m symbol price => trivial
    | serve req => trivial

end

/-! ### A stop that is delivered three times -/

/-- User 1 places a sell stop; two prints and a rescan trigger it. -/
def deliveredThrice : List StopStep :=
  [.serve (.place 1 sellStopDto), .trigger 1 false, .trail freshMonitor "BTC/USDT" 85, .trigger 1 true,
    .trigger 1 false]

theorem stops_spawn_once_deliveredThrice :
    (Run.after StopRun.step (StopRun.start stopStart) deliveredThrice).children 1 = [2] ∧
      ((Run.after StopRun.step (StopRun.start stopStart) deliveredThrice).store.pg.orders 1).map
        Order.status = some .filled ∧
      Run.Along StopRun.step StopStep.Effect (StopRun.start stopStart) deliveredThrice := by
  refine ⟨by decide +kernel, by decide +kernel, (stops_spawn_once (consistent_start _ _ _) ?_ ?_).2⟩
  · exact fun id o ho => absurd ho (by simp [Store.start])
  · exact ⟨rfl, trivial, trivial, trivial, trivial, trivial⟩

end SpotExchange.Exchange
