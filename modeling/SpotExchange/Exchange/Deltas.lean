import SpotExchange.Exchange.Trailing

namespace SpotExchange.Exchange

open SpotExchange.Lib
open SpotExchange.Engine (OrderId)

/-!
# Trailing deltas

`redis_client/stops.py` on trailing stops of both kinds of delta: the ZSET `trailing:{symbol}` and the
HASHes `trailing_state:{order_id}`, and the two commands that keep one in step with the other.

* `TrailingKeys.register`, `TrailingKeys.updateTrailingExtremes` — the two functions;
* `Shows` — what the keys show of a set of orders with given extremes;
* `Shows.updateTrailingExtremes` — one call moves the extremes that it should;
* `trailing_inStep` — every run of calls: score, extreme, trigger, answer and order of the calls;
* `updateTrailingExtremes_abs` — with absolute deltas it is the update of the stop monitor.
-/

/-! ### The keys -/

/-- `delta_type`; whatever is not `"pct"` is an absolute delta. -/
inductive DeltaType
  | pct
  | abs
  deriving DecidableEq, Repr

/-- The HASH `trailing_state:{order_id}` with all its fields. -/
structure TrailingHash where
  orderId : OrderId
  symbol : Symbol
  side : OrderSide
  deltaType : DeltaType
  deltaValue : ℚ
  currentExtreme : ℚ
  currentTrigger : ℚ
  deriving DecidableEq, Repr

/-- The keys of trailing stops. -/
structure TrailingKeys where
  trailing : Symbol → SortedSet OrderId
  state : OrderId → Option TrailingHash

/-- The arguments of `register_trailing_stop`. -/
structure TrailingOrder where
  orderId : OrderId
  symbol : Symbol
  side : OrderSide
  deltaType : DeltaType
  deltaValue : ℚ
  initialExtreme : ℚ
  initialTrigger : ℚ
  deriving DecidableEq, Repr

/-- The trigger that belongs to an extreme. -/
def triggerOf (side : OrderSide) (deltaType : DeltaType) (deltaValue extreme : ℚ) : ℚ :=
  match side, deltaType with
  | .sell, .pct => extreme * (1 - deltaValue / 100)
  | .sell, .abs => extreme - deltaValue
  | .buy, .pct => extreme * (1 + deltaValue / 100)
  | .buy, .abs => extreme + deltaValue

/-- `new_extreme` and `new_trigger` of a trailing stop, if there is a new trigger. -/
def TrailingHash.moved (h : TrailingHash) (newHigh newLow : Option ℚ) : Option (ℚ × ℚ) :=
  match h.side with
  | .sell => (newHigh.filter fun high => high > h.currentExtreme).map fun high =>
      (high, triggerOf .sell h.deltaType h.deltaValue high)
  | .buy => (newLow.filter fun low => low < h.currentExtreme).map fun low =>
      (low, triggerOf .buy h.deltaType h.deltaValue low)

namespace TrailingKeys

/-- No trailing stops. -/
def empty : TrailingKeys := ⟨fun _ => [], fun _ => none⟩

/-- `register_trailing_stop`. -/
def register (k : TrailingKeys) (o : TrailingOrder) : TrailingKeys where
  trailing := Function.update k.trailing o.symbol
    ((k.trailing o.symbol).zadd memberKey (o.initialTrigger * scoreMultiplier) o.orderId)
  state := Function.update k.state o.orderId (some
    { orderId := o.orderId, symbol := o.symbol, side := o.side, deltaType := o.deltaType,
      deltaValue := o.deltaValue, currentExtreme := o.initialExtreme,
      currentTrigger := o.initialTrigger })

/-- The `ZADD` and the `HSET` for one order that has a new trigger. -/
def updateTrigger (symbol : Symbol) (k : TrailingKeys) (update : OrderId × ℚ × ℚ) : TrailingKeys where
  trailing := Function.update k.trailing symbol
    ((k.trailing symbol).zadd memberKey (update.2.2 * scoreMultiplier) update.1)
  state := Function.update k.state update.1 ((k.state update.1).map fun h =>
    { h with currentExtreme := update.2.1, currentTrigger := update.2.2 })

/-- The updates of `updates_pipe`: all states are loaded before any of them is executed. -/
def updates (k : TrailingKeys) (symbol : Symbol) (newHigh newLow : Option ℚ) :
    List (OrderId × ℚ × ℚ) :=
  (k.trailing symbol).members.filterMap fun oid =>
    ((k.state oid).bind fun h => h.moved newHigh newLow).map fun new => (oid, new)

/-- **`update_trailing_extremes`**: the keys after it, and the ids that it returns. -/
def updateTrailingExtremes (k : TrailingKeys) (symbol : Symbol) (newHigh newLow : Option ℚ) :
    TrailingKeys × List OrderId :=
  let updates := k.updates symbol newHigh newLow
  (updates.foldl (updateTrigger symbol) k, updates.map Prod.fst)

end TrailingKeys

/-- One call of `update_trailing_extremes`. -/
structure ExtremesCall where
  symbol : Symbol
  newHigh : Option ℚ
  newLow : Option ℚ
  deriving DecidableEq, Repr

/-- The keys after a call. -/
def TrailingKeys.call (k : TrailingKeys) (c : ExtremesCall) : TrailingKeys :=
  (k.updateTrailingExtremes c.symbol c.newHigh c.newLow).1

/-- The keys of a set of orders. -/
def TrailingKeys.registered (orders : List TrailingOrder) : TrailingKeys :=
  orders.foldl .register .empty

/-! ### What the keys should show -/

/-- The HASH of an order with some extreme: until that has moved, the trigger is the initial one. -/
def TrailingOrder.hashAt (o : TrailingOrder) (extreme : ℚ) : TrailingHash where
  orderId := o.orderId
  symbol := o.symbol
  side := o.side
  deltaType := o.deltaType
  deltaValue := o.deltaValue
  currentExtreme := extreme
  currentTrigger := if extreme = o.initialExtreme then o.initialTrigger
    else triggerOf o.side o.deltaType o.deltaValue extreme

/-- The entry of the ZSET for an order with some extreme. -/
def TrailingOrder.entryAt (o : TrailingOrder) (extreme : ℚ) : ℚ × OrderId :=
  ((o.hashAt extreme).currentTrigger * scoreMultiplier, o.orderId)

/-- **What the keys show of a set of orders** with given extremes. -/
structure Shows (orders : List TrailingOrder) (extreme : OrderId → ℚ) (k : TrailingKeys) : Prop where
  states : ∀ o ∈ orders, k.state o.orderId = some (o.hashAt (extreme o.orderId))
  others : ∀ id, id ∉ orders.map TrailingOrder.orderId → k.state id = none
  listed : ∀ symbol, (k.trailing symbol).Perm ((orders.filter fun o => o.symbol = symbol).map
    fun o => o.entryAt (extreme o.orderId))
  ordered : ∀ symbol, SortedSet.InOrder memberKey (k.trailing symbol)

/-- The price that a call has for an order. -/
def ExtremesCall.priceFor (c : ExtremesCall) (o : TrailingOrder) : Option ℚ :=
  if c.symbol = o.symbol then
    match o.side with
    | .sell => c.newHigh
    | .buy => c.newLow
  else none

/-- The extreme of an order after a call. -/
def TrailingOrder.extremeAfter (o : TrailingOrder) (extreme : ℚ) (c : ExtremesCall) : ℚ :=
  (c.priceFor o).elim extreme (o.side.further extreme)

section

variable {orders : List TrailingOrder} {o o' : TrailingOrder} {extreme extreme' : OrderId → ℚ}
  {k k' : TrailingKeys} {symbol : Symbol} {newHigh newLow : Option ℚ} {e : ℚ} {c : ExtremesCall}

theorem orders_ext (hids : (orders.map TrailingOrder.orderId).Nodup) (ho : o ∈ orders)
    (ho' : o' ∈ orders) (h : o.orderId = o'.orderId) : o = o' :=
  List.inj_on_of_nodup_map hids ho ho' h

/-- The keys show the extremes of the orders only. -/
theorem Shows.congr (h : Shows orders extreme k)
    (heq : ∀ o ∈ orders, extreme' o.orderId = extreme o.orderId) : Shows orders extreme' k := by
  refine ⟨fun o ho => ?_, h.others, fun symbol => ?_, h.ordered⟩
  · rw [heq o ho]
    exact h.states o ho
  · rw [List.map_congr_left fun o ho => by rw [heq o (List.mem_of_mem_filter ho)]]
    exact h.listed symbol

/-- One set of extremes, one state of the keys. -/
theorem Shows.unique (h : Shows orders extreme k) (h' : Shows orders extreme k') : k = k' := by
  have htrailing : k.trailing = k'.trailing := by
    ext1 symbol
    apply SortedSet.InOrder.eq_of_perm memberKey_injective (h.ordered symbol) (h'.ordered symbol)
    exact (h.listed symbol).trans (h'.listed symbol).symm
  have hstate : k.state = k'.state := by
    ext1 id
    by_cases hid : id ∈ orders.map TrailingOrder.orderId
    · obtain ⟨o, ho, rfl⟩ := List.mem_map.mp hid
      rw [h.states o ho, h'.states o ho]
    · rw [h.others id hid, h'.others id hid]
  cases k
  cases k'
  exact congrArg₂ TrailingKeys.mk htrailing hstate

theorem Shows.mem_members (h : Shows orders extreme k) {id : OrderId} :
    id ∈ (k.trailing symbol).members ↔ ∃ o ∈ orders, o.symbol = symbol ∧ o.orderId = id := by
  have hperm := (h.listed symbol).map Prod.snd
  show id ∈ (k.trailing symbol).map Prod.snd ↔ _
  rw [hperm.mem_iff]
  simp [TrailingOrder.entryAt, and_assoc]

theorem Shows.distinct (hids : (orders.map TrailingOrder.orderId).Nodup)
    (h : Shows orders extreme k) (symbol : Symbol) : (k.trailing symbol).Distinct := by
  have hperm := (h.listed symbol).map Prod.snd
  have hmap : ((orders.filter fun o => o.symbol = symbol).map fun o =>
      o.entryAt (extreme o.orderId)).map Prod.snd
        = (orders.filter fun o => o.symbol = symbol).map TrailingOrder.orderId := by
    rw [List.map_map]
    rfl
  rw [hmap] at hperm
  apply hperm.nodup_iff.mpr
  exact hids.sublist (List.filter_sublist.map _)

/-- A new score keeps the listings sorted. -/
theorem Shows.ordered_zadd (h : Shows orders extreme k) (symbol : Symbol) (score : ℚ) (id : OrderId)
    (symbol' : Symbol) : SortedSet.InOrder memberKey (Function.update k.trailing symbol
      ((k.trailing symbol).zadd memberKey score id) symbol') := by
  by_cases hsymbol : symbol' = symbol
  · subst hsymbol
    rw [Function.update_self]
    exact (h.ordered _).zadd
  · rw [Function.update_of_ne hsymbol]
    exact h.ordered symbol'

/-! ### Registration -/

/-- One more order. -/
theorem Shows.register (h : Shows orders extreme k) (hnew : o.orderId ∉ orders.map TrailingOrder.orderId)
    (hextreme : extreme o.orderId = o.initialExtreme) :
    Shows (orders ++ [o]) extreme (k.register o) := by
  have hhash : o.hashAt (extreme o.orderId) = ⟨o.orderId, o.symbol, o.side, o.deltaType, o.deltaValue,
      o.initialExtreme, o.initialTrigger⟩ := by
    simp [TrailingOrder.hashAt, hextreme]
  have hentry : o.entryAt (extreme o.orderId) = (o.initialTrigger * scoreMultiplier, o.orderId) := by
    rw [TrailingOrder.entryAt, hhash]
  refine ⟨fun o' ho' => ?_, fun id hid => ?_, fun symbol => ?_, fun symbol => ?_⟩
  · show Function.update k.state o.orderId _ o'.orderId = _
    rcases List.mem_append.mp ho' with ho' | ho'
    · have hne : o'.orderId ≠ o.orderId := by
        intro heq
        exact hnew (heq ▸ List.mem_map_of_mem ho')
      rw [Function.update_of_ne hne]
      exact h.states o' ho'
    · rw [List.mem_singleton.mp ho', Function.update_self, hhash]
  · rw [List.map_append, List.mem_append, not_or, List.map_singleton, List.mem_singleton] at hid
    show Function.update k.state o.orderId _ id = none
    rw [Function.update_of_ne hid.2]
    exact h.others id hid.1
  · show (Function.update k.trailing o.symbol _ symbol).Perm _
    by_cases hsymbol : symbol = o.symbol
    · subst hsymbol
      -- a new id: ZADD inserts a member
      have hout : o.orderId ∉ (k.trailing o.symbol).members := by
        rw [h.mem_members]
        rintro ⟨o', ho', -, heq⟩
        exact hnew (heq ▸ List.mem_map_of_mem ho')
      rw [Function.update_self, List.filter_append, List.filter_cons_of_pos (by simp),
        List.filter_nil, List.map_append, List.map_singleton, hentry]
      apply (SortedSet.zadd_perm hout).trans
      exact ((h.listed o.symbol).cons _).trans (List.perm_append_singleton _ _).symm
    · rw [Function.update_of_ne hsymbol, List.filter_append,
        List.filter_cons_of_neg (by simpa using Ne.symm hsymbol), List.filter_nil, List.append_nil]
      exact h.listed symbol
  · exact h.ordered_zadd _ _ _ symbol

/-- **Registered orders** have their initial extremes. -/
theorem shows_registered (hids : (orders.map TrailingOrder.orderId).Nodup)
    (hextreme : ∀ o ∈ orders, extreme o.orderId = o.initialExtreme) :
    Shows orders extreme (.registered orders) := by
  unfold TrailingKeys.registered
  induction orders using List.reverseRecOn with
  | nil => exact ⟨by simp, fun _ _ => rfl, fun _ => .refl _, fun _ => .nil⟩
  | append_singleton orders o ih =>
    rw [List.map_append, List.nodup_append] at hids
    rw [List.forall_mem_append] at hextreme
    rw [List.foldl_append, List.foldl_cons, List.foldl_nil]
    apply (ih hids.1 hextreme.1).register
    · intro hmem
      exact hids.2.2 _ hmem _ (by simp) rfl
    · exact hextreme.2 o (by simp)

/-! ### One new trigger -/

/-- **One order moves**, in the HASH and in the ZSET. -/
theorem Shows.updateTrigger (hids : (orders.map TrailingOrder.orderId).Nodup)
    (h : Shows orders extreme k) (ho : o ∈ orders) (hmoved : e ≠ o.initialExtreme) :
    Shows orders (Function.update extreme o.orderId e)
      (k.updateTrigger o.symbol (o.orderId, e, triggerOf o.side o.deltaType o.deltaValue e)) := by
  have hother : ∀ o' ∈ orders, o' ≠ o → o'.orderId ≠ o.orderId :=
    fun o' ho' hne heq => hne (orders_ext hids ho' ho heq)
  have hentry : o.entryAt e
      = (triggerOf o.side o.deltaType o.deltaValue e * scoreMultiplier, o.orderId) := by
    simp [TrailingOrder.entryAt, TrailingOrder.hashAt, hmoved]
  refine ⟨fun o' ho' => ?_, fun id hid => ?_, fun symbol => ?_, fun symbol => ?_⟩
  · show Function.update k.state o.orderId _ o'.orderId = _
    by_cases heq : o' = o
    · subst heq
      rw [Function.update_self, Function.update_self, h.states o' ho']
      simp [TrailingOrder.hashAt, hmoved]
    · rw [Function.update_of_ne (hother o' ho' heq), Function.update_of_ne (hother o' ho' heq)]
      exact h.states o' ho'
  · have hne : id ≠ o.orderId := by
      rintro rfl
      exact hid (List.mem_map_of_mem ho)
    show Function.update k.state o.orderId _ id = none
    rw [Function.update_of_ne hne]
    exact h.others id hid
  · show (Function.update k.trailing o.symbol _ symbol).Perm _
    by_cases hsymbol : symbol = o.symbol
    · subst hsymbol
      -- a member already: ZADD moves it to its new score
      have hmem : o.orderId ∈ (k.trailing o.symbol).members := h.mem_members.mpr ⟨o, ho, rfl, rfl⟩
      rw [Function.update_self]
      apply (SortedSet.zadd_perm_map (h.distinct hids o.symbol) hmem).trans
      apply ((h.listed o.symbol).map _).trans
      rw [List.map_map]
      apply List.Perm.of_eq
      apply List.map_congr_left
      intro o' ho'
      by_cases heq : o' = o
      · subst heq
        rw [Function.update_self, hentry]
        exact if_pos rfl
      · have hne := hother o' (List.mem_of_mem_filter ho') heq
        rw [Function.update_of_ne hne]
        exact if_neg hne
    · rw [Function.update_of_ne hsymbol]
      apply (h.listed symbol).trans
      apply List.Perm.of_eq
      apply List.map_congr_left
      intro o' ho'
      have hne : o' ≠ o := by
        rintro rfl
        exact hsymbol (of_decide_eq_true (List.mem_filter.mp ho').2).symm
      rw [Function.update_of_ne (hother o' (List.mem_of_mem_filter ho') hne)]
  · exact h.ordered_zadd _ _ _ symbol

/-! ### A call -/

/-- An extreme that is no nearer than the initial one, and moves on, is not the initial one. -/
theorem further_ne {side : OrderSide} {initial x p : ℚ} (hahead : side.further initial x = x)
    (hmoved : side.further x p ≠ x) : side.further x p ≠ initial := by
  cases side with
  | sell =>
    have hle : initial ≤ x := max_eq_right_iff.mp hahead
    have hlt : x < p := by
      by_contra hp
      exact hmoved (max_eq_left (not_lt.mp hp))
    show max x p ≠ initial
    rw [max_eq_right hlt.le]
    exact (hle.trans_lt hlt).ne'
  | buy =>
    have hle : x ≤ initial := min_eq_right_iff.mp hahead
    have hlt : p < x := by
      by_contra hp
      exact hmoved (min_eq_left (not_lt.mp hp))
    show min x p ≠ initial
    rw [min_eq_right hlt.le]
    exact (hlt.trans_le hle).ne

theorem further_assoc (side : OrderSide) (x y z : ℚ) :
    side.further (side.further x y) z = side.further x (side.further y z) := by
  cases side with
  | sell => exact max_assoc x y z
  | buy => exact min_assoc x y z

/-- **No extreme is nearer than the initial one.** -/
def Ahead (orders : List TrailingOrder) (extreme : OrderId → ℚ) : Prop :=
  ∀ o ∈ orders, o.side.further o.initialExtreme (extreme o.orderId) = extreme o.orderId

/-- The state of an order moves if its extreme does, and the trigger with it. -/
theorem moved_hashAt (hsymbol : c.symbol = o.symbol) : (o.hashAt e).moved c.newHigh c.newLow
    = if o.extremeAfter e c = e then none
      else some (o.extremeAfter e c, triggerOf o.side o.deltaType o.deltaValue (o.extremeAfter e c)) := by
  unfold TrailingHash.moved TrailingOrder.extremeAfter ExtremesCall.priceFor
  rw [if_pos hsymbol]
  show (match o.side with | .sell => _ | .buy => _) = _
  -- a SELL follows the highs and a BUY the lows
  cases o.side with
  | sell =>
    cases c.newHigh with
    | none => simp
    | some high =>
      show ((some high).filter fun h => h > e).map _ = if max e high = e then none else _
      by_cases hlt : e < high
      · have hmax : max e high = high := max_eq_right hlt.le
        simp [Option.filter, hmax, hlt, hlt.ne', TrailingOrder.hashAt, OrderSide.further]
      · simp [Option.filter, hlt, max_eq_left (not_lt.mp hlt)]
  | buy =>
    cases c.newLow with
    | none => simp
    | some low =>
      show ((some low).filter fun l => l < e).map _ = if min e low = e then none else _
      by_cases hlt : low < e
      · have hmin : min e low = low := min_eq_right hlt.le
        simp [Option.filter, hmin, hlt, hlt.ne, TrailingOrder.hashAt, OrderSide.further]
      · simp [Option.filter, hlt, min_eq_left (not_lt.mp hlt)]

/-- Where an id is looked up in what a list of ids has. -/
theorem lookup_filterMap {α β : Type} [DecidableEq α] (ids : List α) (f : α → Option β) (id : α) :
    (ids.filterMap fun i => (f i).map fun b => (i, b)).lookup id = if id ∈ ids then f id else none := by
  induction ids with
  | nil => rfl
  | cons i ids ih =>
    cases hi : f i with
    | none =>
      rw [List.filterMap_cons_none (by simp [hi]), ih]
      by_cases heq : id = i
      · subst heq
        rw [if_pos List.mem_cons_self, hi]
        exact ite_self _
      · simp only [List.mem_cons, heq, false_or]
    | some b =>
      rw [List.filterMap_cons_some (by simp [hi]; rfl), List.lookup_cons, ih]
      by_cases heq : id = i
      · subst heq
        simp [hi]
      · have hbeq : (id == i) = false := by simpa using heq
        simp only [hbeq, List.mem_cons, heq, false_or]

theorem map_fst_filterMap {α β : Type} (ids : List α) (f : α → Option β) :
    (ids.filterMap fun i => (f i).map fun b => (i, b)).map Prod.fst
      = ids.filter fun i => (f i).isSome := by
  induction ids with
  | nil => rfl
  | cons i ids ih =>
    cases hi : f i with
    | none =>
      rw [List.filterMap_cons_none (by simp [hi]), List.filter_cons_of_neg (by simp [hi]), ih]
    | some b =>
      rw [List.filterMap_cons_some (by simp [hi]; rfl), List.filter_cons_of_pos (by simp [hi]),
        List.map_cons, ih]

/-- A pipeline of updates for different orders. -/
theorem Shows.foldl_updateTrigger (hids : (orders.map TrailingOrder.orderId).Nodup) (symbol : Symbol)
    (us : List (OrderId × ℚ × ℚ)) (hus : (us.map Prod.fst).Nodup)
    (hmoved : ∀ u ∈ us, ∃ o ∈ orders, o.symbol = symbol ∧ o.orderId = u.1 ∧
      u.2.2 = triggerOf o.side o.deltaType o.deltaValue u.2.1 ∧ u.2.1 ≠ o.initialExtreme)
    (h : Shows orders extreme k) :
    Shows orders (fun id => ((us.lookup id).map Prod.fst).getD (extreme id))
      (us.foldl (TrailingKeys.updateTrigger symbol) k) := by
  induction us generalizing extreme k with
  | nil => exact h
  | cons u us ih =>
    rw [List.map_cons, List.nodup_cons] at hus
    rw [List.forall_mem_cons] at hmoved
    -- induction along the pipeline: one order is moved, the others keep their extreme
    obtain ⟨o, ho, rfl, hid, htrigger, hne⟩ := hmoved.1
    rw [List.foldl_cons]
    have hstep := h.updateTrigger hids ho hne
    rw [← htrigger, hid] at hstep
    apply (ih hus.2 hmoved.2 hstep).congr
    intro o' ho'
    rw [List.lookup_cons]
    by_cases heq : o'.orderId = u.1
    · have hnone : us.lookup u.1 = none := by
        rw [List.lookup_eq_none_iff]
        intro v hv
        have hne : v.1 ≠ u.1 := fun hv1 => hus.1 (hv1 ▸ List.mem_map_of_mem hv)
        simpa using hne.symm
      rw [heq, beq_self_eq_true, hnone]
      exact (Function.update_self u.1 u.2.1 extreme).symm
    · have hbeq : (o'.orderId == u.1) = false := by simpa using heq
      rw [hbeq, Function.update_of_ne heq]

/-- What an order has in a call: nothing, or its new extreme and the trigger that belongs to it. -/
theorem Shows.moved (h : Shows orders extreme k) (ho : o ∈ orders) (hsymbol : c.symbol = o.symbol) :
    ((k.state o.orderId).bind fun h => h.moved c.newHigh c.newLow)
      = if o.extremeAfter (extreme o.orderId) c = extreme o.orderId then none
        else some (o.extremeAfter (extreme o.orderId) c,
          triggerOf o.side o.deltaType o.deltaValue (o.extremeAfter (extreme o.orderId) c)) := by
  rw [h.states o ho]
  exact moved_hashAt hsymbol

theorem extremeAfter_other (hsymbol : c.symbol ≠ o.symbol) : o.extremeAfter e c = e := by
  rw [TrailingOrder.extremeAfter, ExtremesCall.priceFor, if_neg hsymbol]
  rfl

theorem extremeAfter_ne (hahead : o.side.further o.initialExtreme e = e)
    (hmoved : o.extremeAfter e c ≠ e) : o.extremeAfter e c ≠ o.initialExtreme := by
  unfold TrailingOrder.extremeAfter at hmoved ⊢
  cases hprice : c.priceFor o with
  | none =>
    rw [hprice] at hmoved
    exact absurd rfl hmoved
  | some p =>
    rw [hprice] at hmoved
    exact further_ne hahead hmoved

/-- **The ids that a call returns** are those of the orders whose extreme moves. -/
theorem Shows.mem_returned (h : Shows orders extreme k) (c : ExtremesCall) (id : OrderId) :
    id ∈ (k.updateTrailingExtremes c.symbol c.newHigh c.newLow).2 ↔
      ∃ o ∈ orders, o.orderId = id ∧ o.extremeAfter (extreme id) c ≠ extreme id := by
  show id ∈ (k.updates c.symbol c.newHigh c.newLow).map Prod.fst ↔ _
  rw [TrailingKeys.updates, map_fst_filterMap, List.mem_filter, h.mem_members]
  constructor
  · rintro ⟨⟨o, ho, hsymbol, rfl⟩, hmoved⟩
    refine ⟨o, ho, rfl, fun heq => ?_⟩
    rw [h.moved ho hsymbol.symm, if_pos heq] at hmoved
    simp at hmoved
  · rintro ⟨o, ho, rfl, hmoved⟩
    have hsymbol : c.symbol = o.symbol := by
      by_contra hne
      exact hmoved (extremeAfter_other hne)
    refine ⟨⟨o, ho, hsymbol.symm, rfl⟩, ?_⟩
    rw [h.moved ho hsymbol, if_neg hmoved]
    rfl

theorem Shows.returned_nodup (hids : (orders.map TrailingOrder.orderId).Nodup)
    (h : Shows orders extreme k) (c : ExtremesCall) :
    (k.updateTrailingExtremes c.symbol c.newHigh c.newLow).2.Nodup := by
  show ((k.updates c.symbol c.newHigh c.newLow).map Prod.fst).Nodup
  rw [TrailingKeys.updates, map_fst_filterMap]
  exact (h.distinct hids c.symbol).filter _

/-- **One call** moves each order's extreme as its price does. -/
theorem Shows.call (hids : (orders.map TrailingOrder.orderId).Nodup) (h : Shows orders extreme k)
    (hahead : Ahead orders extreme) (c : ExtremesCall)
    (hafter : ∀ o ∈ orders, extreme' o.orderId = o.extremeAfter (extreme o.orderId) c) :
    Shows orders extreme' (k.call c) := by
  have hpipeline := h.foldl_updateTrigger hids c.symbol
    (k.updates c.symbol c.newHigh c.newLow) (h.returned_nodup hids c) (fun u hu => ?_)
  · apply hpipeline.congr
    intro o ho
    rw [hafter o ho, TrailingKeys.updates, lookup_filterMap]
    by_cases hsymbol : c.symbol = o.symbol
    · rw [if_pos (h.mem_members.mpr ⟨o, ho, hsymbol.symm, rfl⟩), h.moved ho hsymbol]
      split_ifs with heq
      · exact heq
      · rfl
    -- the call of another symbol
    · have hout : o.orderId ∉ (k.trailing c.symbol).members := by
        rw [h.mem_members]
        rintro ⟨o', ho', hsymbol', heq⟩
        rw [orders_ext hids ho' ho heq] at hsymbol'
        exact hsymbol hsymbol'.symm
      rw [if_neg hout, extremeAfter_other hsymbol]
      rfl
  · obtain ⟨id, hid, hu⟩ := List.mem_filterMap.mp hu
    obtain ⟨o, ho, hsymbol, rfl⟩ := h.mem_members.mp hid
    rw [h.moved ho hsymbol.symm] at hu
    split_ifs at hu with heq
    · simp at hu
    · obtain rfl : (o.orderId, _, _) = u := Option.some.inj hu
      exact ⟨o, ho, hsymbol, rfl, rfl, extremeAfter_ne (hahead o ho) heq⟩

theorem Ahead.call (hahead : Ahead orders extreme) (c : ExtremesCall)
    (hafter : ∀ o ∈ orders, extreme' o.orderId = o.extremeAfter (extreme o.orderId) c) :
    Ahead orders extreme' := by
  intro o ho
  rw [hafter o ho, TrailingOrder.extremeAfter]
  cases c.priceFor o with
  | none => exact hahead o ho
  | some p =>
    show o.side.further o.initialExtreme (o.side.further _ p) = o.side.further _ p
    rw [← further_assoc, hahead o ho]

/-! ### A run of calls -/

/-- The highs that a symbol is given. -/
def highsOf (symbol : Symbol) (calls : List ExtremesCall) : List ℚ :=
  calls.filterMap fun c => if c.symbol = symbol then c.newHigh else none

/-- The lows that a symbol is given. -/
def lowsOf (symbol : Symbol) (calls : List ExtremesCall) : List ℚ :=
  calls.filterMap fun c => if c.symbol = symbol then c.newLow else none

/-- The extreme of an order after a run of calls: the highest of the highs, the lowest of the lows. -/
def TrailingOrder.extremeOver (o : TrailingOrder) (calls : List ExtremesCall) : ℚ :=
  match o.side with
  | .sell => (highsOf o.symbol calls).foldl max o.initialExtreme
  | .buy => (lowsOf o.symbol calls).foldl min o.initialExtreme

theorem extremeOver_append (o : TrailingOrder) (calls : List ExtremesCall) (c : ExtremesCall) :
    o.extremeOver (calls ++ [c]) = o.extremeAfter (o.extremeOver calls) c := by
  unfold TrailingOrder.extremeAfter TrailingOrder.extremeOver ExtremesCall.priceFor highsOf lowsOf
  by_cases hsymbol : c.symbol = o.symbol
  · cases o.side with
    | sell => cases hhigh : c.newHigh <;> simp [hsymbol, hhigh, OrderSide.further]
    | buy => cases hlow : c.newLow <;> simp [hsymbol, hlow, OrderSide.further]
  · cases o.side <;> simp [hsymbol]

/-- The extremes of all orders after a run. -/
def extremesOver (orders : List TrailingOrder) (calls : List ExtremesCall) (id : OrderId) : ℚ :=
  ((orders.find? fun o => o.orderId = id).map fun o => o.extremeOver calls).getD 0

theorem extremesOver_of_mem (hids : (orders.map TrailingOrder.orderId).Nodup) (ho : o ∈ orders)
    (calls : List ExtremesCall) : extremesOver orders calls o.orderId = o.extremeOver calls := by
  have hfind : orders.find? (fun o' => o'.orderId = o.orderId) = some o := by
    cases hfound : orders.find? fun o' => o'.orderId = o.orderId with
    | none => exact absurd (List.find?_eq_none.mp hfound o ho) (by simp)
    | some o' =>
      have hid : o'.orderId = o.orderId := by simpa using List.find?_some hfound
      rw [orders_ext hids (List.mem_of_find?_eq_some hfound) ho hid]
  rw [extremesOver, hfind]
  rfl

/-- **All calls.** -/
theorem shows_calls (hids : (orders.map TrailingOrder.orderId).Nodup) (calls : List ExtremesCall) :
    Shows orders (extremesOver orders calls) (calls.foldl .call (.registered orders)) ∧
      Ahead orders (extremesOver orders calls) := by
  induction calls using List.reverseRecOn with
  | nil =>
    have hinitial : ∀ o ∈ orders, extremesOver orders [] o.orderId = o.initialExtreme := by
      intro o ho
      rw [extremesOver_of_mem hids ho]
      unfold TrailingOrder.extremeOver highsOf lowsOf
      cases o.side <;> rfl
    refine ⟨shows_registered hids hinitial, fun o ho => ?_⟩
    rw [hinitial o ho]
    cases o.side with
    | sell => exact max_self _
    | buy => exact min_self _
  | append_singleton calls c ih =>
    have hafter : ∀ o ∈ orders, extremesOver orders (calls ++ [c]) o.orderId
        = o.extremeAfter (extremesOver orders calls o.orderId) c := by
      intro o ho
      rw [extremesOver_of_mem hids ho, extremesOver_of_mem hids ho, extremeOver_append]
    rw [List.foldl_append, List.foldl_cons, List.foldl_nil]
    exact ⟨ih.1.call hids ih.2 c hafter, ih.2.call c hafter⟩

/-- The keys have one entry for an order, with its trigger as the score. -/
theorem Shows.mem_trailing_iff (hids : (orders.map TrailingOrder.orderId).Nodup)
    (h : Shows orders extreme k) (ho : o ∈ orders) (score : ℚ) :
    (score, o.orderId) ∈ k.trailing o.symbol ↔
      score = (o.hashAt (extreme o.orderId)).currentTrigger * scoreMultiplier := by
  rw [(h.listed o.symbol).mem_iff, List.mem_map]
  constructor
  · rintro ⟨o', ho', hentry⟩
    have hid : o'.orderId = o.orderId := congrArg Prod.snd hentry
    obtain rfl := orders_ext hids (List.mem_of_mem_filter ho') ho hid
    exact (congrArg Prod.fst hentry).symm
  · rintro rfl
    exact ⟨o, List.mem_filter.mpr ⟨ho, by simp⟩, rfl⟩

/-- An order's extreme depends on which highs and lows there were, not on their order. -/
theorem extremeOver_perm (o : TrailingOrder) {calls calls' : List ExtremesCall}
    (hhighs : (highsOf o.symbol calls).Perm (highsOf o.symbol calls'))
    (hlows : (lowsOf o.symbol calls).Perm (lowsOf o.symbol calls')) :
    o.extremeOver calls = o.extremeOver calls' := by
  unfold TrailingOrder.extremeOver
  cases o.side with
  | sell => exact hhighs.foldl_eq _
  | buy => exact hlows.foldl_eq _

/-- **Trailing state and trailing queue stay in step**, through any run of calls: there is one entry for
    each order, scored with the trigger of its HASH; the extreme is the furthest price that was given;
    a trigger whose extreme has moved belongs to that extreme; the next call returns the ids of the
    orders whose extreme it changes; and the same highs and lows in another order lead to the same keys. -/
theorem trailing_inStep (orders : List TrailingOrder)
    (hids : (orders.map TrailingOrder.orderId).Nodup) (calls : List ExtremesCall) :
    let k := calls.foldl TrailingKeys.call (.registered orders)
    (∀ o ∈ orders, ∃ h, k.state o.orderId = some h ∧
      (∀ score, (score, o.orderId) ∈ k.trailing o.symbol ↔ score = h.currentTrigger * scoreMultiplier) ∧
      h.currentExtreme = o.extremeOver calls ∧
      (h.currentExtreme ≠ o.initialExtreme →
        h.currentTrigger = triggerOf o.side o.deltaType o.deltaValue h.currentExtreme)) ∧
    (∀ c : ExtremesCall, let answer := k.updateTrailingExtremes c.symbol c.newHigh c.newLow
      answer.2.Nodup ∧ ∀ id, id ∈ answer.2 ↔
        (answer.1.state id).map TrailingHash.currentExtreme
          ≠ (k.state id).map TrailingHash.currentExtreme) ∧
    ∀ calls' : List ExtremesCall, (∀ symbol, (highsOf symbol calls).Perm (highsOf symbol calls') ∧
        (lowsOf symbol calls).Perm (lowsOf symbol calls')) →
      calls'.foldl TrailingKeys.call (.registered orders) = k := by
  intro k
  obtain ⟨hshows, hahead⟩ := shows_calls hids calls
  refine ⟨fun o ho => ⟨_, hshows.states o ho, hshows.mem_trailing_iff hids ho, ?_, ?_⟩,
    fun c => ⟨hshows.returned_nodup hids c, fun id => ?_⟩, fun calls' hsame => ?_⟩
  · exact extremesOver_of_mem hids ho calls
  · exact fun hmoved => if_neg hmoved
  · -- the extremes after one more call
    have hafter : ∀ o ∈ orders, extremesOver orders (calls ++ [c]) o.orderId
        = o.extremeAfter (extremesOver orders calls o.orderId) c := by
      intro o ho
      rw [extremesOver_of_mem hids ho, extremesOver_of_mem hids ho, extremeOver_append]
    have hnext := hshows.call hids hahead c hafter
    rw [hshows.mem_returned]
    by_cases hid : id ∈ orders.map TrailingOrder.orderId
    · obtain ⟨o, ho, rfl⟩ := List.mem_map.mp hid
      show _ ↔ ((k.call c).state o.orderId).map _ ≠ _
      rw [hnext.states o ho, hshows.states o ho, hafter o ho]
      show _ ↔ some (o.extremeAfter _ c) ≠ some (extremesOver orders calls o.orderId)
      rw [Ne, Option.some.injEq]
      constructor
      · rintro ⟨o', ho', heq, hmoved⟩
        rwa [orders_ext hids ho' ho heq] at hmoved
      · exact fun hmoved => ⟨o, ho, rfl, hmoved⟩
    · show _ ↔ ((k.call c).state id).map _ ≠ _
      rw [hnext.others id hid, hshows.others id hid]
      refine iff_of_false ?_ (by simp)
      rintro ⟨o, ho, rfl, -⟩
      exact hid (List.mem_map_of_mem ho)
  -- the keys are determined by the extremes, and these by the highs and lows
  · have hsame' : Shows orders (extremesOver orders calls)
        (calls'.foldl .call (.registered orders)) := by
      apply (shows_calls hids calls').1.congr
      intro o ho
      rw [extremesOver_of_mem hids ho, extremesOver_of_mem hids ho]
      exact extremeOver_perm o (hsame o.symbol).1 (hsame o.symbol).2
    exact hsame'.unique hshows

/-- A sell stop one percent below the highest price, and a buy stop 500 above the lowest. -/
def pctAndAbs : List TrailingOrder :=
  [⟨3, "BTC/USDT", .sell, .pct, 1, 42000, 41580⟩, ⟨2, "BTC/USDT", .buy, .abs, 500, 40000, 40500⟩]

/-- A new high and a new low at once, and a lower high. -/
theorem trailing_inStep_pctAndAbs :
    let k := [⟨"BTC/USDT", some 44000, some 39500⟩, ⟨"BTC/USDT", some 43000, none⟩].foldl
      TrailingKeys.call (.registered pctAndAbs)
    k.trailing "BTC/USDT" = [(40000 * 1000000, 2), (43560 * 1000000, 3)] ∧
    ∃ h, k.state 3 = some h ∧
      (∀ score, (score, 3) ∈ k.trailing "BTC/USDT" ↔ score = h.currentTrigger * scoreMultiplier) := by
  intro k
  refine ⟨by decide +kernel, ?_⟩
  obtain ⟨h, hstate, hscore, -⟩ := (trailing_inStep pctAndAbs (by decide)
    [⟨"BTC/USDT", some 44000, some 39500⟩, ⟨"BTC/USDT", some 43000, none⟩]).1
      ⟨3, "BTC/USDT", .sell, .pct, 1, 42000, 41580⟩ List.mem_cons_self
  exact ⟨h, hstate, hscore⟩

/-! ### Absolute deltas -/

/-- The state of the stop monitor's model, which knows absolute deltas only. -/
def TrailingHash.toState (h : TrailingHash) : TrailingState where
  symbol := h.symbol
  side := h.side
  deltaValue := h.deltaValue
  currentExtreme := h.currentExtreme
  currentTrigger := h.currentTrigger

/-- **The keys hold what the store of the stop monitor holds**, and all deltas are absolute. -/
structure Refines (k : TrailingKeys) (r : Redis) : Prop where
  trailing : k.trailing = r.trailing
  state : ∀ id, (k.state id).map TrailingHash.toState = r.trailingState id
  absolute : ∀ id, ∀ h ∈ k.state id, h.deltaType = .abs

theorem moved_toState {h : TrailingHash} (habs : h.deltaType = .abs) :
    h.toState.moved newHigh newLow = h.moved newHigh newLow := by
  unfold TrailingState.moved TrailingHash.moved TrailingHash.toState
  cases h.side <;> simp [triggerOf, habs]

/-- One member that moves. -/
theorem Refines.updateTrigger {r : Redis} {id : OrderId} {h : TrailingHash} {new : ℚ × ℚ}
    (hrefines : Refines k r) (hstate : k.state id = some h)
    (hmoved : h.moved newHigh newLow = some new) :
    Refines (k.updateTrigger symbol (id, new)) (updateTrailing symbol newHigh newLow r id) := by
  have hknown : r.trailingState id = some h.toState := by
    rw [← hrefines.state id, hstate]
    rfl
  have hmoved' : h.toState.moved newHigh newLow = some new := by
    rw [moved_toState (hrefines.absolute id h hstate), hmoved]
  unfold updateTrailing TrailingKeys.updateTrigger
  simp only [hknown, hmoved', hstate, Option.map_some]
  refine ⟨?_, fun id' => ?_, fun id' h' hh' => ?_⟩
  -- the ZSETs, the HASHes, and that every HASH is ABS
  · rw [hrefines.trailing]
  · by_cases heq : id' = id
    · subst heq
      simp only [Function.update_self, Option.map_some]
      rfl
    · simp only [Function.update_of_ne heq]
      exact hrefines.state id'
  · by_cases heq : id' = id
    · subst heq
      simp only [Function.update_self, Option.mem_some_iff] at hh'
      subst hh'
      exact hrefines.absolute id' h hstate
    · simp only [Function.update_of_ne heq] at hh'
      exact hrefines.absolute id' h' hh'

/-- A member that does not move. -/
theorem updateTrailing_of_unmoved {r : Redis} {id : OrderId} (hrefines : Refines k r)
    (hunmoved : ((k.state id).bind fun h => h.moved newHigh newLow) = none) :
    updateTrailing symbol newHigh newLow r id = r := by
  unfold updateTrailing
  rw [← hrefines.state id]
  cases hstate : k.state id with
  | none => rfl
  | some h =>
    rw [hstate, Option.bind_some] at hunmoved
    simp only [Option.map_some, moved_toState (hrefines.absolute id h hstate), hunmoved]

/-- The passes over the members read what was loaded before the first of them. -/
theorem Refines.foldl {r : Redis} {loaded : TrailingKeys} {ids : List OrderId} (hids : ids.Nodup)
    (hrefines : Refines k r) (hloaded : ∀ id ∈ ids, k.state id = loaded.state id) :
    Refines ((ids.filterMap fun id => ((loaded.state id).bind fun h => h.moved newHigh newLow).map
        fun new => (id, new)).foldl (TrailingKeys.updateTrigger symbol) k)
      (ids.foldl (updateTrailing symbol newHigh newLow) r) := by
  induction ids generalizing k r with
  | nil => exact hrefines
  | cons id ids ih =>
    rw [List.nodup_cons] at hids
    rw [List.forall_mem_cons] at hloaded
    rw [List.foldl_cons]
    cases hmoved : (loaded.state id).bind fun h => h.moved newHigh newLow with
    | none =>
      rw [List.filterMap_cons_none (by rw [hmoved]; rfl), updateTrailing_of_unmoved hrefines
        (by rw [hloaded.1, hmoved])]
      exact ih hids.2 hrefines hloaded.2
    | some new =>
      obtain ⟨h, hstate, hnew⟩ := Option.bind_eq_some_iff.mp hmoved
      rw [List.filterMap_cons_some (by rw [hmoved]; rfl), List.foldl_cons]
      apply ih hids.2 (hrefines.updateTrigger (hloaded.1.trans hstate) hnew)
      -- what the pipeline reads was loaded before it, and the ids are distinct
      intro id' hid'
      have hne : id' ≠ id := fun heq => hids.1 (heq ▸ hid')
      show Function.update k.state id _ id' = _
      rw [Function.update_of_ne hne]
      exact hloaded.2 id' hid'

/-- **With absolute deltas** this is the update that the stop monitor makes. -/
theorem updateTrailingExtremes_abs {r : Redis} (hdistinct : (r.trailing symbol).Distinct)
    (hrefines : Refines k r) :
    Refines (k.updateTrailingExtremes symbol newHigh newLow).1
      (updateTrailingExtremes symbol newHigh newLow r) := by
  show Refines ((k.updates symbol newHigh newLow).foldl _ k) _
  unfold TrailingKeys.updates updateTrailingExtremes
  rw [hrefines.trailing]
  exact hrefines.foldl hdistinct fun _ _ => rfl

/-- So is the registration. -/
theorem Refines.register {r : Redis} (hrefines : Refines k r) (habs : o.deltaType = .abs) :
    Refines (k.register o) (registerTrailingStop o.orderId
      ⟨o.symbol, o.side, o.deltaValue, o.initialExtreme, o.initialTrigger⟩ r) := by
  unfold TrailingKeys.register registerTrailingStop
  refine ⟨?_, fun id => ?_, fun id h hh => ?_⟩
  · rw [hrefines.trailing]
  · by_cases heq : id = o.orderId
    · subst heq
      simp only [Function.update_self, Option.map_some]
      rfl
    · simp only [Function.update_of_ne heq]
      exact hrefines.state id
  · by_cases heq : id = o.orderId
    · subst heq
      simp only [Function.update_self, Option.mem_some_iff] at hh
      subst hh
      exact habs
    · simp only [Function.update_of_ne heq] at hh
      exact hrefines.absolute id h hh

end

end SpotExchange.Exchange
