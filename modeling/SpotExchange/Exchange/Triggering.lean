import SpotExchange.Exchange.Stops
import SpotExchange.Exchange.Placing

namespace SpotExchange.Exchange

open SpotExchange.Lib
open SpotExchange.Engine (OrderId)
open SpotExchange.Ledger (BalanceKey)

/-!
# What triggers, and what should

* `triggerStopOrder_cases` — triggering does nothing, or locks funds and places one order;
* `mem_aroundScore` — the two score ranges of the monitor together are one half-line;
* `processTradePrint_exact_iff` — a trade print triggers exactly the stops whose condition holds, and
  as many as the rescan would, exactly when that half-line holds no other stops.
-/

/-! ### Triggering one stop -/

/-- The tables after a stop has been triggered with a lock. -/
def Store.converted (s : Store) (stopId : OrderId) (order : Order) (lock : Asset × ℚ) : Store :=
  ((s.moveBalance (order.userId, lock.1) (lockedRow (s.rowOrZero (order.userId, lock.1)) lock.2)
    (lockUpdate (order.userId, lock.1) (-lock.2) .stopTriggered (some stopId))).putOrder stopId
      { order with status := .filled, version := order.version + 1 }).insert
        (triggeredChild stopId order)

/-- The store after a stop has been triggered with a lock. -/
def Store.trigger (s : Store) (stopId : OrderId) (order : Order) (lock : Asset × ℚ)
    (isTrailing : Bool) : Store :=
  (s.converted stopId order lock).setRedis
    (replaceStop stopId isTrailing s.orderIdSeq (triggeredChild stopId order))

/-- **Triggering** one stop. -/
theorem triggerStopOrder_cases (stopId : OrderId) (isTrailing : Bool) (s : Store) :
    ∃ s', triggerStopOrder stopId isTrailing s = (.ok ⟨⟩, s') ∧
      (s' = s ∨ (∃ key, s' = s.withRow key) ∨ ∃ order pair lock,
        s.pg.orders stopId = some order ∧ order.status = .pending ∧
        s.pg.tradingPairs order.symbol = some pair ∧
        triggerLock order pair (oppositeOrdersForMatch s.redis order.symbol .buy askLimit) =
          some lock ∧ 0 < lock.2 ∧
        lock.2 ≤ (s.rowOrZero (order.userId, lock.1)).availableBalance ∧
        s' = s.trigger stopId order lock isTrailing) := by
  have hatomic : ∀ {x : M Unit} {s' : Store}, x s = (.ok ⟨⟩, s') → transaction x s = (.ok ⟨⟩, s') :=
    fun h => Prog.atomically_eq_ok.mpr h
  unfold triggerStopOrder
  cases horder : s.pg.orders stopId with
  | none =>
    have hread : getOrder stopId s = (.ok none, s) := by
      rw [← horder]
      rfl
    exact ⟨s, hatomic (by rw [Prog.bind_of_ok hread]; rfl), .inl rfl⟩
  | some order =>
    have hread : getOrder stopId s = (.ok (some order), s) := by
      rw [← horder]
      rfl
    -- the guards of the source one by one, each of which ends the call early
    by_cases hpending : order.status = .pending
    swap
    · refine ⟨s, hatomic ?_, .inl rfl⟩
      rw [Prog.bind_of_ok hread]
      show Prog.whenever (order.status = .pending) _ s = _
      rw [Prog.whenever, if_neg hpending]
      rfl
    cases hpair : s.pg.tradingPairs order.symbol with
    | none =>
      have hreadPair : getPair order.symbol s = (.ok none, s) := by
        rw [← hpair]
        rfl
      refine ⟨s, hatomic ?_, .inl rfl⟩
      rw [Prog.bind_of_ok hread]
      show Prog.whenever (order.status = .pending) _ s = _
      rw [Prog.whenever, if_pos hpending, Prog.bind_of_ok hreadPair]
      rfl
    | some pair =>
      have hreadPair : getPair order.symbol s = (.ok (some pair), s) := by
        rw [← hpair]
        rfl
      have hrun : (getOrder stopId >>= fun order => Prog.whenSome order fun order =>
          Prog.whenever (order.status = .pending) do
            let pair ← getPair order.symbol
            Prog.whenSome pair fun pair => triggerPending stopId order pair isTrailing : M Unit) s =
          Prog.whenSome (triggerLock order pair (oppositeOrdersForMatch s.redis order.symbol .buy
            askLimit)) (fun lock => tryLock order stopId lock >>= fun locked =>
              Prog.whenever (locked = true) (placeTriggered stopId order isTrailing)) s := by
        rw [Prog.bind_of_ok hread]
        show Prog.whenever (order.status = .pending) _ s = _
        rw [Prog.whenever, if_pos hpending, Prog.bind_of_ok hreadPair]
        rfl
      cases hlock : triggerLock order pair (oppositeOrdersForMatch s.redis order.symbol .buy
          askLimit) with
      | none =>
        refine ⟨s, hatomic ?_, .inl rfl⟩
        rw [hrun, hlock]
        rfl
      | some lock =>
        rw [hlock] at hrun
        have hfail : ∀ {err : PyError} {s₁ : Store}, lockOptimistic (order.userId, lock.1) lock.2
            .stopTriggered (some stopId) s = (.error err, s₁) →
              tryLock order stopId lock s = (.ok false, s₁) := by
          intro err s₁ hx
          unfold tryLock Prog.tryExcept
          rw [Prog.bind_of_error hx]
          rfl
        rcases lockOptimistic_cases (order.userId, lock.1) lock.2 .stopTriggered (some stopId) s with
          ⟨-, hx⟩ | ⟨-, -, hx⟩ | ⟨hpos, hle, hx⟩
        · refine ⟨s, hatomic ?_, .inl rfl⟩
          rw [hrun]
          show (tryLock order stopId lock >>= _ : M Unit) s = _
          rw [Prog.bind_of_ok (hfail hx)]
          rfl
        · refine ⟨_, hatomic ?_, .inr (.inl ⟨(order.userId, lock.1), rfl⟩)⟩
          rw [hrun]
          show (tryLock order stopId lock >>= _ : M Unit) s = _
          rw [Prog.bind_of_ok (hfail hx)]
          rfl
        · refine ⟨_, hatomic ?_, .inr (.inr ⟨order, pair, lock, rfl, hpending, hpair, hlock, hpos, hle, rfl⟩)⟩
          have hok : tryLock order stopId lock s = (.ok true, s.moveBalance (order.userId, lock.1)
              (lockedRow (s.rowOrZero (order.userId, lock.1)) lock.2)
                (lockUpdate (order.userId, lock.1) (-lock.2) .stopTriggered (some stopId))) := by
            unfold tryLock Prog.tryExcept
            rw [Prog.bind_of_ok hx]
            rfl
          rw [hrun]
          show (tryLock order stopId lock >>= _ : M Unit) s = _
          rw [Prog.bind_of_ok hok]
          rfl

/-- **Passing** a stop to `_trigger_stop_order` returns; it touches neither the trailing stops nor the
    table of stops of another kind. -/
theorem tryTrigger_apply (isTrailing : Bool) (stopId : OrderId) (s : Store) :
    ∃ s', tryTrigger isTrailing stopId s = (.ok ⟨⟩, s') ∧
      (isTrailing = false → s'.redis.trailing = s.redis.trailing ∧
        s'.redis.trailingState = s.redis.trailingState) := by
  obtain ⟨s', hx, hcases⟩ := triggerStopOrder_cases stopId isTrailing s
  refine ⟨s', ?_, fun hplain => ?_⟩
  · unfold tryTrigger Prog.tryExcept
    rw [hx]
  · subst hplain
    rcases hcases with rfl | ⟨key, rfl⟩ | ⟨order, pair, lock, -, -, -, -, -, -, rfl⟩ <;> exact ⟨rfl, rfl⟩

/-- The store after stops have been passed to `_trigger_stop_order`, one after the other. -/
def triggerAll (isTrailing : Bool) (ids : List OrderId) (s : Store) : Store :=
  ids.foldl (fun s id => (tryTrigger isTrailing id s).2) s

/-- `try … except` around a trigger never raises. -/
theorem forEach_tryTrigger (isTrailing : Bool) (ids : List OrderId) (s : Store) :
    Prog.forEach ids (tryTrigger isTrailing) s = (.ok ⟨⟩, triggerAll isTrailing ids s) := by
  induction ids generalizing s with
  | nil => rfl
  | cons id ids ih =>
    obtain ⟨s', hx, -⟩ := tryTrigger_apply isTrailing id s
    rw [Prog.forEach_cons, Prog.bind_of_ok hx, ih, triggerAll, triggerAll, List.foldl_cons, hx]

/-- Triggering plain stops leaves the trailing stops alone. -/
theorem triggerAll_plain (ids : List OrderId) (s : Store) :
    (triggerAll false ids s).redis.trailing = s.redis.trailing := by
  induction ids generalizing s with
  | nil => rfl
  | cons id ids ih =>
    obtain ⟨s', hx, hkeep⟩ := tryTrigger_apply false id s
    show (triggerAll false ids (tryTrigger false id s).2).redis.trailing = _
    rw [ih, hx]
    exact (hkeep rfl).1

/-! ### Selection by score -/

/-- **The two ranges together** hold every score from the smaller of zero and the price on. -/
theorem mem_aroundScore {z : SortedSet OrderId} {x : ℚ} {id : OrderId} :
    id ∈ aroundScore z x ↔ ∃ e ∈ z, e.2 = id ∧ min 0 x ≤ e.1 := by
  -- the two ranges cover every score from the smaller bound on
  have hrange : ∀ q : ℚ, (0 ≤ q ∧ q ≤ x) ∨ x ≤ q ↔ min 0 x ≤ q := by
    intro q
    rw [min_le_iff]
    constructor
    · rintro (⟨h, -⟩ | h)
      · exact .inl h
      · exact .inr h
    · rintro (h | h)
      · rcases le_total q x with hq | hq
        · exact .inl ⟨h, hq⟩
        · exact .inr hq
      · exact .inr h
  simp only [aroundScore, List.mem_eraseDups, List.map_append, List.mem_append, List.mem_map,
    List.mem_filter, decide_eq_true_eq]
  constructor
  · rintro (⟨e, ⟨he, h⟩, rfl⟩ | ⟨e, ⟨he, h⟩, rfl⟩)
    · exact ⟨e, he, rfl, (hrange e.1).mp (.inl h)⟩
    · exact ⟨e, he, rfl, (hrange e.1).mp (.inr h)⟩
  · rintro ⟨e, he, rfl, h⟩
    rcases (hrange e.1).mpr h with h | h
    · exact .inl ⟨e, ⟨he, h⟩, rfl⟩
    · exact .inr ⟨e, ⟨he, h⟩, rfl⟩

/-- The half-line in prices. -/
theorem min_scaled_le {p q : ℚ} :
    min 0 (p * scoreMultiplier) ≤ q * scoreMultiplier ↔ min 0 p ≤ q := by
  have hscale : (0 : ℚ) < scoreMultiplier := by norm_num [scoreMultiplier]
  rw [min_le_iff, min_le_iff, mul_nonneg_iff_of_pos_right hscale, mul_le_mul_iff_left₀ hscale]

/-! ### When a stop fires -/

/-- **The condition of a stop**: a sell stop when the price has fallen to its trigger, a buy stop when
    it has risen to it. -/
def fires (side : OrderSide) (trigger price : ℚ) : Prop :=
  match side with
  | .sell => price ≤ trigger
  | .buy => trigger ≤ price

instance : ∀ side trigger price, Decidable (fires side trigger price)
  | .sell, trigger, price => inferInstanceAs (Decidable (price ≤ trigger))
  | .buy, trigger, price => inferInstanceAs (Decidable (trigger ≤ price))

/-- The plain stops of a symbol: each element of the ZSET is a pending order, at its stop price. -/
structure PlainStops (s : Store) (symbol : Symbol) : Prop where
  row : ∀ x ∈ s.redis.stops symbol, x.2 < s.orderIdSeq ∧ ∃ order stop, s.pg.orders x.2 = some order ∧
    order.symbol = symbol ∧ (order.type = .stopMarket ∨ order.type = .stopLimit) ∧
    order.status = .pending ∧ order.stopPrice = some stop ∧ x.1 = stop * scoreMultiplier

/-- The trailing stops of a symbol: each element of the ZSET has its state, at its trigger. -/
def TrailingStops (r : Redis) (symbol : Symbol) : Prop :=
  ∀ x ∈ r.trailing symbol, ∃ state, r.trailingState x.2 = some state ∧
    x.1 = state.currentTrigger * scoreMultiplier

/-- The condition of a plain stop holds. -/
def PlainFires (s : Store) (symbol : Symbol) (price : ℚ) (id : OrderId) : Prop :=
  id ∈ (s.redis.stops symbol).members ∧ ∃ order stop, s.pg.orders id = some order ∧
    order.stopPrice = some stop ∧ fires order.side stop price

/-- The condition of a trailing stop holds, for its current trigger. -/
def TrailingFires (r : Redis) (symbol : Symbol) (price : ℚ) (id : OrderId) : Prop :=
  id ∈ (r.trailing symbol).members ∧ ∃ state, r.trailingState id = some state ∧
    fires state.side state.currentTrigger price

/-! ### The trailing update -/

section

variable {symbol : Symbol} {newHigh newLow : Option ℚ} {r : Redis} {price : ℚ}

/-- Moving a trigger, or nothing. -/
theorem updateTrailing_cases (symbol : Symbol) (newHigh newLow : Option ℚ) (r : Redis)
    (id : OrderId) :
    updateTrailing symbol newHigh newLow r id = r ∨
    ∃ state extreme trigger, r.trailingState id = some state ∧
      updateTrailing symbol newHigh newLow r id =
        { r with
          trailing := Function.update r.trailing symbol
            ((r.trailing symbol).zadd memberKey (trigger * scoreMultiplier) id)
          trailingState := Function.update r.trailingState id
            (some { state with currentExtreme := extreme, currentTrigger := trigger }) } := by
  unfold updateTrailing
  split
  · exact .inl rfl
  · split
    · exact .inl rfl
    · exact .inr ⟨_, _, _, ‹_›, rfl⟩

theorem updateTrailing_keeps (newHigh newLow : Option ℚ) (h : TrailingStops r symbol) (id : OrderId) :
    TrailingStops (updateTrailing symbol newHigh newLow r id) symbol ∧
      (updateTrailing symbol newHigh newLow r id).stops = r.stops ∧
      ∀ k ∈ ((updateTrailing symbol newHigh newLow r id).trailing symbol).members,
        k = id ∨ k ∈ (r.trailing symbol).members := by
  rcases updateTrailing_cases symbol newHigh newLow r id with hx | ⟨state, extreme, trigger, -, hx⟩ <;>
    rw [hx]
  · exact ⟨h, rfl, fun k hk => .inr hk⟩
  · refine ⟨fun y hy => ?_, rfl, fun k hk => ?_⟩
    · simp only [Function.update_self, SortedSet.mem_zadd] at hy
      rcases hy with rfl | ⟨hy, hne⟩
      · exact ⟨_, Function.update_self .., rfl⟩
      · obtain ⟨state', hstate', hscore⟩ := h y hy
        exact ⟨state', by simp [hne, hstate'], hscore⟩
    · simp only [Function.update_self] at hk
      obtain ⟨y, hy, rfl⟩ := List.mem_map.mp hk
      rcases SortedSet.mem_zadd.mp hy with rfl | ⟨hy, -⟩
      · exact .inl rfl
      · exact .inr (List.mem_map_of_mem hy)

/-- **The update** keeps every trailing stop at its trigger, and adds no member. -/
theorem trailingUpdate_keeps (h : TrailingStops r symbol) (m : StopMonitor) (price : ℚ) :
    TrailingStops (trailingUpdate m symbol price r) symbol ∧
      (trailingUpdate m symbol price r).stops = r.stops ∧
      ∀ k ∈ ((trailingUpdate m symbol price r).trailing symbol).members,
        k ∈ (r.trailing symbol).members := by
  unfold trailingUpdate
  split_ifs
  swap
  · exact ⟨h, rfl, fun k hk => hk⟩
  -- induction over the members that are updated
  have hfold : ∀ (ids : List OrderId) (r' : Redis) (high low : Option ℚ), TrailingStops r' symbol →
      r'.stops = r.stops → (∀ k ∈ (r'.trailing symbol).members, k ∈ (r.trailing symbol).members) →
      (∀ k ∈ ids, k ∈ (r.trailing symbol).members) →
      TrailingStops (ids.foldl (updateTrailing symbol high low) r') symbol ∧
        (ids.foldl (updateTrailing symbol high low) r').stops = r.stops ∧
        ∀ k ∈ ((ids.foldl (updateTrailing symbol high low) r').trailing symbol).members,
          k ∈ (r.trailing symbol).members := by
    intro ids
    induction ids with
    | nil => exact fun r' _ _ h' hstops hmem _ => ⟨h', hstops, hmem⟩
    | cons id ids ih =>
      intro r' high low h' hstops hmem hids
      rw [List.forall_mem_cons] at hids
      obtain ⟨h₁, hstops₁, hmem₁⟩ := updateTrailing_keeps high low h' id
      refine ih _ high low h₁ (hstops₁.trans hstops) (fun k hk => ?_) hids.2
      rcases hmem₁ k hk with rfl | hk
      · exact hids.1
      · exact hmem k hk
  exact hfold _ r _ _ h rfl (fun k hk => hk) fun k hk => hk

end

/-! ### A trade print -/

/-- **A trade print** returns: it passes on what the two selections give after the update, the plain
    stops first. -/
theorem processTradePrint_apply (m : StopMonitor) (symbol : Symbol) (price : ℚ) (s : Store) :
    processTradePrint m symbol price s = (.ok (m.observe symbol price,
      getAllTriggeredStops (trailingUpdate m symbol price s.redis) symbol price ++
        getTriggeredTrailingStops (trailingUpdate m symbol price s.redis) symbol price),
      triggerAll true (getTriggeredTrailingStops (trailingUpdate m symbol price s.redis) symbol price)
        (triggerAll false (getAllTriggeredStops (trailingUpdate m symbol price s.redis) symbol price)
          (s.setRedis (trailingUpdate m symbol price)))) := by
  let r := trailingUpdate m symbol price s.redis
  let s₁ := triggerAll false (getAllTriggeredStops r symbol price)
    (s.setRedis (trailingUpdate m symbol price))
  have hread : (Prog.read fun s => getTriggeredTrailingStops s.redis symbol price : M _) s₁ =
      (.ok (getTriggeredTrailingStops r symbol price), s₁) := by
    show (Except.ok (aroundScore (s₁.redis.trailing symbol) _), s₁) = _
    rw [triggerAll_plain]
    rfl
  show (Prog.forEach (getAllTriggeredStops r symbol price) (tryTrigger false) >>= _ : M _)
    (s.setRedis (trailingUpdate m symbol price)) = _
  rw [Prog.bind_of_ok (forEach_tryTrigger false _ _), Prog.bind_of_ok hread,
    Prog.bind_of_ok (forEach_tryTrigger true _ _)]
  rfl

section

variable {s : Store} {symbol : Symbol} {price : ℚ}

/-- Which registered plain stops the rescan selects. -/
theorem mem_rescanSelected (h : PlainStops s symbol) {x : ℚ × OrderId}
    (hx : x ∈ s.redis.stops symbol) {order : Order} (horder : s.pg.orders x.2 = some order) {stop : ℚ}
    (hstop : order.stopPrice = some stop) :
    x.2 ∈ rescanSelected s.pg s.orderIdSeq symbol price ↔ stop ≠ 0 ∧ fires order.side stop price := by
  obtain ⟨hid, order', stop', horder', hsym, htype, hpending, -, -⟩ := h.row x hx
  obtain rfl : order = order' := Option.some.inj (horder.symm.trans horder')
  have hisStop : order.type.isStop = true := by
    rcases htype with ht | ht <;> rw [ht] <;> rfl
  simp only [rescanSelected, List.mem_filter, List.mem_range, hid, true_and, horder, Option.any_some,
    hsym, hisStop, hpending, decide_true, Bool.true_and, shouldTrigger, orNone, hstop]
  by_cases hzero : stop = 0
  · simp [hzero]
  · cases hside : order.side <;> simp [hzero, fires]

end

/-! ### One sell stop at 90 -/

/-- A sell stop of one unit at 90. -/
def sellStopDto : OrderCreateDto where
  symbol := "BTC/USDT"
  side := .sell
  type := .stopMarket
  stopPrice := some 90
  quantity := 1

/-- User 1 with five units, before the stop is placed. -/
def stopStart : Store :=
  Store.start {1} (fun _ => some
    { baseAsset := "BTC", quoteAsset := "USDT", minLotSize := 1, maxLotSize := 100, tickSize := 1,
      isActive := true })
    fun key => if key = (1, "BTC") then some ⟨5, 0, 5, 1⟩ else none

/-- The stop has been placed. -/
def stopStore : Store := (placeOrder 1 sellStopDto stopStart).2

/-- A monitor that has seen no price. -/
def freshMonitor : StopMonitor := { localHigh := fun _ => none, localLow := fun _ => none }

end SpotExchange.Exchange
