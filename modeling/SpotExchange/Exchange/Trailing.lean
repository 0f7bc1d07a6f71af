import SpotExchange.Exchange.Triggering
import SpotExchange.Lib.Run

namespace SpotExchange.Exchange

open SpotExchange.Lib
open SpotExchange.Engine (OrderId)

/-!
# Trailing stops and the prices since

A trailing stop keeps the highest price since its registration, or the lowest.  The monitor passes
only its own highs and lows on, and it has been watching for longer than most of the stops.

* `TrailStep`, `TrailRun` — registrations and prints in any order, with the prices of each stop since
  its registration;
* `print_follows_iff` — a stop follows a print exactly if the print is no news to it, or news to the
  monitor;
* `trailing_follows` — every run of such prints keeps every extreme right.
-/

/-! ### The extreme that follows a price -/

/-- The further of two prices: a sell stop looks up, a buy stop down. -/
def OrderSide.further : OrderSide → ℚ → ℚ → ℚ
  | .sell, extreme, price => max extreme price
  | .buy, extreme, price => min extreme price

/-- The state of a trailing stop after a new high or low. -/
def TrailingState.observed (newHigh newLow : Option ℚ) (st : TrailingState) : TrailingState :=
  match st.moved newHigh newLow with
  | none => st
  | some (extreme, trigger) => { st with currentExtreme := extreme, currentTrigger := trigger }

/-- **The print is no news to the stop, or it is news to the monitor.** -/
def TrailingState.Notices (m : StopMonitor) (price : ℚ) (st : TrailingState) : Prop :=
  match st.side with
  | .sell => st.currentExtreme < price → ∀ high ∈ m.localHigh st.symbol, high < price
  | .buy => price < st.currentExtreme → ∀ low ∈ m.localLow st.symbol, price < low

section

variable {newHigh newLow : Option ℚ} {st : TrailingState} {m : StopMonitor} {price : ℚ}

theorem observed_symbol : (st.observed newHigh newLow).symbol = st.symbol := by
  unfold TrailingState.observed
  split <;> rfl

theorem observed_side : (st.observed newHigh newLow).side = st.side := by
  unfold TrailingState.observed
  split <;> rfl

theorem observed_none : st.observed none none = st := by
  cases hside : st.side <;> simp [TrailingState.observed, TrailingState.moved, hside]

/-- The extreme moves to the new high, or the new low, if that is further. -/
theorem observed_extreme : (st.observed newHigh newLow).currentExtreme =
    match st.side with
    | .sell => newHigh.elim st.currentExtreme (max st.currentExtreme)
    | .buy => newLow.elim st.currentExtreme (min st.currentExtreme) := by
  unfold TrailingState.observed TrailingState.moved
  cases hside : st.side with
  | sell =>
    cases newHigh with
    | none => rfl
    | some high =>
      by_cases h : st.currentExtreme < high
      · simp [Option.filter, h, h.le]
      · simp [Option.filter, h, not_lt.mp h]
  | buy =>
    cases newLow with
    | none => rfl
    | some low =>
      by_cases h : low < st.currentExtreme
      · simp [Option.filter, h, h.le]
      · simp [Option.filter, h, not_lt.mp h]

/-- A second pass over the same stop finds nothing new. -/
theorem observed_observed :
    (st.observed newHigh newLow).observed newHigh newLow = st.observed newHigh newLow := by
  have hmoved : (st.observed newHigh newLow).moved newHigh newLow = none := by
    unfold TrailingState.moved
    rw [observed_side, observed_extreme]
    cases st.side with
    | sell => cases newHigh <;> simp [Option.filter]
    | buy => cases newLow <;> simp [Option.filter]
  rw [TrailingState.observed, hmoved]

/-- **What the monitor passes on** moves the extreme as the price should, exactly if the stop notices. -/
theorem observed_print_iff (st : TrailingState) (m : StopMonitor) (price : ℚ) :
    (st.observed (m.newHigh st.symbol price) (m.newLow st.symbol price)).currentExtreme =
      st.side.further st.currentExtreme price ↔ st.Notices m price := by
  rw [observed_extreme]
  unfold TrailingState.Notices StopMonitor.newHigh StopMonitor.newLow OrderSide.further
  cases st.side with
  | sell =>
    show (if _ then some price else none : Option ℚ).elim _ _ = _ ↔ (_ → _)
    split_ifs with hnew
    · exact iff_of_true rfl fun _ => hnew
    · show st.currentExtreme = max st.currentExtreme price ↔ _
      rw [eq_comm, max_eq_left_iff]
      exact ⟨fun hle hlt => absurd hle (not_le.mpr hlt), fun h => not_lt.mp fun hlt => hnew (h hlt)⟩
  | buy =>
    show (if _ then some price else none : Option ℚ).elim _ _ = _ ↔ (_ → _)
    split_ifs with hnew
    · exact iff_of_true rfl fun _ => hnew
    · show st.currentExtreme = min st.currentExtreme price ↔ _
      rw [eq_comm, min_eq_left_iff]
      exact ⟨fun hle hlt => absurd hle (not_le.mpr hlt), fun h => not_lt.mp fun hlt => hnew (h hlt)⟩

end

/-! ### The update of all stops of a symbol -/

section

variable {symbol : Symbol} {r : Redis} {id : OrderId}

/-- One pass observes one stop. -/
theorem updateTrailing_state (symbol : Symbol) (newHigh newLow : Option ℚ) (r : Redis) (k : OrderId) :
    (updateTrailing symbol newHigh newLow r k).trailingState = Function.update r.trailingState k
      ((r.trailingState k).map (TrailingState.observed newHigh newLow)) := by
  unfold updateTrailing TrailingState.observed
  cases hstate : r.trailingState k with
  | none =>
    show r.trailingState = Function.update r.trailingState k none
    rw [← hstate, Function.update_eq_self]
  | some st =>
    cases hmoved : st.moved newHigh newLow with
    | none =>
      simp only [Option.map_some, hmoved]
      rw [← hstate, Function.update_eq_self]
    | some new => simp only [Option.map_some, hmoved]

/-- **All passes** observe the listed stops, each one as if once. -/
theorem foldl_updateTrailing_state (newHigh newLow : Option ℚ) (ids : List OrderId) (r : Redis)
    (id : OrderId) : (ids.foldl (updateTrailing symbol newHigh newLow) r).trailingState id =
      if id ∈ ids then (r.trailingState id).map (TrailingState.observed newHigh newLow)
      else r.trailingState id := by
  induction ids generalizing r with
  | nil => rfl
  | cons k ids ih =>
    rw [List.foldl_cons, ih, updateTrailing_state]
    by_cases hk : id = k
    · subst hk
      rw [Function.update_self, if_pos List.mem_cons_self, Option.map_map]
      have honce : TrailingState.observed newHigh newLow ∘ TrailingState.observed newHigh newLow =
          TrailingState.observed newHigh newLow := funext fun _ => observed_observed
      rw [honce]
      exact ite_self _
    · rw [Function.update_of_ne hk]
      simp only [List.mem_cons, hk, false_or]

/-- A symbol's trailing stops are listed in its ZSET. -/
def Redis.Listed (symbol : Symbol) (r : Redis) : Prop :=
  ∀ id st, r.trailingState id = some st → st.symbol = symbol → id ∈ (r.trailing symbol).members

theorem orNone_of_ne {x : Option ℚ} (h : ∀ q ∈ x, q ≠ 0) : orNone x = x := by
  cases x with
  | none => rfl
  | some q =>
    have hne : q ≠ 0 := h q rfl
    simp [orNone, Option.filter, hne]

/-- **The trailing update of a print** observes the listed stops. -/
theorem trailingUpdate_state (m : StopMonitor) (symbol : Symbol) {price : ℚ} (hprice : 0 < price)
    (r : Redis) (id : OrderId) : (trailingUpdate m symbol price r).trailingState id =
      if id ∈ (r.trailing symbol).members then (r.trailingState id).map
        (TrailingState.observed (m.newHigh symbol price) (m.newLow symbol price))
      else r.trailingState id := by
  -- a positive price is truthy, so the call gets the high or the low as it is
  have hhigh : orNone (m.newHigh symbol price) = m.newHigh symbol price := by
    refine orNone_of_ne fun q hq => ?_
    unfold StopMonitor.newHigh at hq
    split_ifs at hq
    · obtain rfl := Option.some.inj hq
      exact hprice.ne'
    · exact absurd hq (by simp)
  have hlow : orNone (m.newLow symbol price) = m.newLow symbol price := by
    refine orNone_of_ne fun q hq => ?_
    unfold StopMonitor.newLow at hq
    split_ifs at hq
    · obtain rfl := Option.some.inj hq
      exact hprice.ne'
    · exact absurd hq (by simp)
  unfold trailingUpdate
  split_ifs with hnews hid hid
  · rw [updateTrailingExtremes, foldl_updateTrailing_state, if_pos hid, hhigh, hlow]
  · rw [updateTrailingExtremes, foldl_updateTrailing_state, if_neg hid]
  · -- neither a high nor a low
    rw [not_or, Option.not_isSome_iff_eq_none, Option.not_isSome_iff_eq_none] at hnews
    rw [hnews.1, hnews.2]
    cases r.trailingState id with
    | none => rfl
    | some st => exact congrArg some observed_none.symm
  · rfl

/-- The update keeps every stop in its ZSET. -/
theorem trailingUpdate_members (m : StopMonitor) (symbol : Symbol) (price : ℚ) (r : Redis)
    {symbol' : Symbol}    (hid : id ∈ (r.trailing symbol').members) :
    id ∈ ((trailingUpdate m symbol price r).trailing symbol').members := by
  unfold trailingUpdate
  split_ifs
  swap
  · exact hid
  unfold updateTrailingExtremes
  generalize (r.trailing symbol).members = ids
  induction ids generalizing r with
  | nil => exact hid
  | cons k ids ih =>
    refine ih _ ?_
    -- an update keeps the member and moves its score
    rcases updateTrailing_cases symbol _ _ r k with hx | ⟨st, extreme, trigger, -, hx⟩
    · rwa [hx]
    · rw [hx]
      show id ∈ SortedSet.members (Function.update r.trailing symbol _ symbol')
      by_cases hsymbol : symbol' = symbol
      · subst hsymbol
        rw [Function.update_self]
        by_cases hk : id = k
        · exact List.mem_map.mpr ⟨_, SortedSet.mem_zadd.mpr (.inl rfl), hk.symm⟩
        · obtain ⟨x, hx, rfl⟩ := List.mem_map.mp hid
          exact List.mem_map_of_mem (SortedSet.mem_zadd.mpr (.inr ⟨hx, hk⟩))
      · rwa [Function.update_of_ne hsymbol]

end

/-! ### Triggering -/

/-- Stops leave, each with its state; the others stay as they are. -/
structure StopsLeave (r r' : Redis) : Prop where
  state : ∀ id st, r'.trailingState id = some st → r.trailingState id = some st
  member : ∀ id symbol, (r'.trailingState id).isSome → id ∈ (r.trailing symbol).members →
    id ∈ (r'.trailing symbol).members

theorem StopsLeave.refl {r r' : Redis} (htrailing : r'.trailing = r.trailing)
    (hstate : r'.trailingState = r.trailingState) : StopsLeave r r' where
  state := fun id st h => by rwa [hstate] at h
  member := fun id symbol _ h => by rwa [htrailing]

theorem StopsLeave.trans {r r' r'' : Redis} (h : StopsLeave r r') (h' : StopsLeave r' r'') :
    StopsLeave r r'' where
  state := fun id st hst => h.state id st (h'.state id st hst)
  member := fun id symbol hsome hid => by
    refine h'.member id symbol hsome (h.member id symbol ?_ hid)
    obtain ⟨st, hst⟩ := Option.isSome_iff_exists.mp hsome
    rw [h'.state id st hst]
    rfl

/-- **A trigger** removes one stop, or none. -/
theorem stopsLeave_tryTrigger (isTrailing : Bool) (stopId : OrderId) (s : Store) :
    StopsLeave s.redis (tryTrigger isTrailing stopId s).2.redis := by
  obtain ⟨s', hx, hcases⟩ := triggerStopOrder_cases stopId isTrailing s
  have hx' : (tryTrigger isTrailing stopId s).2 = s' := by
    unfold tryTrigger Prog.tryExcept
    rw [hx]
  rw [hx']
  -- only a stop that has triggered leaves its ZSET and its HASH
  rcases hcases with rfl | ⟨key, rfl⟩ | ⟨order, pair, lock, -, -, -, -, -, -, rfl⟩
  · exact .refl rfl rfl
  · unfold Store.withRow
    split <;> exact .refl rfl rfl
  cases isTrailing with
  | false => exact .refl rfl rfl
  | true =>
    refine ⟨fun id st hst => ?_, fun id symbol hsome hid => ?_⟩
    · have hst : Function.update s.redis.trailingState stopId none id = some st := hst
      by_cases hid : id = stopId
      · rw [hid, Function.update_self] at hst
        exact absurd hst (by simp)
      · rwa [Function.update_of_ne hid] at hst
    · have hsome : (Function.update s.redis.trailingState stopId none id).isSome := hsome
      have hne : id ≠ stopId := by
        rintro rfl
        rw [Function.update_self] at hsome
        exact absurd hsome (by simp)
      show id ∈ SortedSet.members (Function.update s.redis.trailing _ _ symbol)
      by_cases hsymbol : symbol = (triggeredChild stopId order).symbol
      · subst hsymbol
        rw [Function.update_self]
        obtain ⟨x, hx, rfl⟩ := List.mem_map.mp hid
        exact List.mem_map_of_mem (SortedSet.mem_zrem.mpr ⟨hx, hne⟩)
      · rwa [Function.update_of_ne hsymbol]

theorem stopsLeave_triggerAll (isTrailing : Bool) (ids : List OrderId) (s : Store) :
    StopsLeave s.redis (triggerAll isTrailing ids s).redis := by
  induction ids generalizing s with
  | nil => exact .refl rfl rfl
  | cons id ids ih => exact (stopsLeave_tryTrigger isTrailing id s).trans (ih _)

/-! ### Runs -/

/-- A registration, a print, or anything else that happens to the store. -/
inductive TrailStep
  | register (id : OrderId) (state : TrailingState)
  | print (price : ℚ)
  | elsewhere (store : Store)

/-- The monitor and the store; of each stop the extreme that it was registered with, and the prices
    since. -/
structure TrailRun where
  monitor : StopMonitor
  store : Store
  initial : OrderId → ℚ
  seen : OrderId → List ℚ

/-- The run after a step, for one symbol. -/
def TrailRun.step (symbol : Symbol) (r : TrailRun) : TrailStep → TrailRun
  | .register id state =>
      { r with
        store := r.store.setRedis (registerTrailingStop id state)
        initial := Function.update r.initial id state.currentExtreme
        seen := Function.update r.seen id [] }
  | .print price =>
      match processTradePrint r.monitor symbol price r.store with
      | (.ok result, store) =>
          { r with monitor := result.1, store := store, seen := fun id => r.seen id ++ [price] }
      | (.error _, store) => { r with store := store }
  | .elsewhere store => { r with store := store }

/-- The run of a monitor that starts where no price has been recorded yet. -/
def TrailRun.start (m : StopMonitor) (s : Store) : TrailRun where
  monitor := m
  store := s
  initial := fun id => ((s.redis.trailingState id).map TrailingState.currentExtreme).getD 0
  seen := fun _ => []

/-- Prices are positive, and what happens elsewhere leaves the trailing stops alone. -/
def TrailStep.Proper (r : TrailRun) : TrailStep → Prop
  | .register _ _ => True
  | .print price => 0 < price
  | .elsewhere s => s.redis.trailing = r.store.redis.trailing ∧
      s.redis.trailingState = r.store.redis.trailingState

/-- **Every registered stop notices the print.** -/
def AllNotice (symbol : Symbol) (r : TrailRun) : TrailStep → Prop
  | .print price => ∀ id st, r.store.redis.trailingState id = some st → st.symbol = symbol →
      st.Notices r.monitor price
  | _ => True

/-- **Every registered stop has followed every price since its registration.** -/
def TrailRun.Follows (symbol : Symbol) (r : TrailRun) : Prop :=
  ∀ id st, r.store.redis.trailingState id = some st → st.symbol = symbol →
    st.currentExtreme = (r.seen id).foldl st.side.further (r.initial id)

section

variable {symbol : Symbol} {r : TrailRun} {price : ℚ}

/-- What a print leaves registered. -/
theorem print_state (hprice : 0 < price) (hlisted : r.store.redis.Listed symbol) {id : OrderId}
    {st' : TrailingState}
    (hst' : (r.step symbol (.print price)).store.redis.trailingState id = some st')
    (hsymbol : st'.symbol = symbol) : ∃ st, r.store.redis.trailingState id = some st ∧
      st.symbol = symbol ∧ st' = st.observed (r.monitor.newHigh st.symbol price)
        (r.monitor.newLow st.symbol price) := by
  simp only [TrailRun.step, processTradePrint_apply] at hst'
  have hleave := ((stopsLeave_triggerAll false _ _).trans (stopsLeave_triggerAll true _ _)).state id st'
    hst'
  have hupdated := trailingUpdate_state r.monitor symbol hprice r.store.redis id
  rw [show (trailingUpdate r.monitor symbol price r.store.redis).trailingState id = some st' from hleave]
    at hupdated
  split_ifs at hupdated with hid
  · obtain ⟨st, hst, rfl⟩ := Option.map_eq_some_iff.mp hupdated.symm
    rw [observed_symbol] at hsymbol
    exact ⟨st, hst, hsymbol, by rw [hsymbol]⟩
  · -- a registered stop is listed
    exact absurd (hlisted id st' hupdated.symm hsymbol) hid

/-- **A stop that stays follows the print exactly if it notices it.** -/
theorem print_follows_iff (hprice : 0 < price) (hlisted : r.store.redis.Listed symbol)
    (hfollows : r.Follows symbol) {id : OrderId} {st' : TrailingState}
    (hst' : (r.step symbol (.print price)).store.redis.trailingState id = some st')
    (hsymbol : st'.symbol = symbol) : ∃ st, r.store.redis.trailingState id = some st ∧
      (st'.currentExtreme = (r.seen id ++ [price]).foldl st'.side.further (r.initial id) ↔
        st.Notices r.monitor price) := by
  obtain ⟨st, hst, hsym, rfl⟩ := print_state hprice hlisted hst' hsymbol
  refine ⟨st, hst, ?_⟩
  rw [List.foldl_append, observed_side, ← hfollows id st hst hsym]
  exact observed_print_iff st r.monitor price

/-- The ZSET lists the registered stops after every step. -/
theorem listed_step (hlisted : r.store.redis.Listed symbol) {x : TrailStep} (hx : x.Proper r) :
    (r.step symbol x).store.redis.Listed symbol := by
  intro id st hst hsymbol
  cases x with
  | register k state =>
    have hst : Function.update r.store.redis.trailingState k (some state) id = some st := hst
    show id ∈ SortedSet.members (Function.update r.store.redis.trailing state.symbol _ symbol)
    -- the registered order itself, or one that was listed before
    by_cases hid : id = k
    · rw [hid, Function.update_self] at hst
      obtain rfl := Option.some.inj hst
      rw [← hsymbol, Function.update_self]
      exact List.mem_map.mpr ⟨_, SortedSet.mem_zadd.mpr (.inl rfl), hid.symm⟩
    · rw [Function.update_of_ne hid] at hst
      have hmem := hlisted id st hst hsymbol
      by_cases hsame : symbol = state.symbol
      · rw [hsame, Function.update_self]
        rw [hsame] at hmem
        obtain ⟨y, hy, rfl⟩ := List.mem_map.mp hmem
        exact List.mem_map_of_mem (SortedSet.mem_zadd.mpr (.inr ⟨hy, hid⟩))
      · rwa [Function.update_of_ne hsame]
  | print price =>
    obtain ⟨st₀, hst₀, hsym₀, -⟩ := print_state hx hlisted hst hsymbol
    have hmem := trailingUpdate_members r.monitor symbol price r.store.redis
      (hlisted id st₀ hst₀ hsym₀)
    simp only [TrailRun.step, processTradePrint_apply] at hst ⊢
    exact ((stopsLeave_triggerAll false _ _).trans (stopsLeave_triggerAll true _ _)).member id symbol
      (by rw [hst]; rfl) hmem
  | elsewhere s =>
    have hst : s.redis.trailingState id = some st := hst
    show id ∈ SortedSet.members (s.redis.trailing symbol)
    rw [hx.2] at hst
    rw [hx.1]
    exact hlisted id st hst hsymbol

/-- Every step that all stops notice keeps every extreme right. -/
theorem follows_step (hlisted : r.store.redis.Listed symbol) (hfollows : r.Follows symbol)
    {x : TrailStep} (hx : x.Proper r) (hnotice : AllNotice symbol r x) :
    (r.step symbol x).Follows symbol := by
  intro id st hst hsymbol
  cases x with
  | register k state =>
    have hst : Function.update r.store.redis.trailingState k (some state) id = some st := hst
    show st.currentExtreme = (Function.update r.seen k [] id).foldl st.side.further
      (Function.update r.initial k state.currentExtreme id)
    by_cases hid : id = k
    · subst hid
      rw [Function.update_self] at hst ⊢
      rw [Function.update_self, ← Option.some.inj hst]
      rfl
    · rw [Function.update_of_ne hid] at hst ⊢
      rw [Function.update_of_ne hid]
      exact hfollows id st hst hsymbol
  | print price =>
    obtain ⟨st₀, hst₀, hiff⟩ := print_follows_iff hx hlisted hfollows hst hsymbol
    obtain ⟨st₁, hst₁, hsym₁, -⟩ := print_state hx hlisted hst hsymbol
    obtain rfl : st₀ = st₁ := Option.some.inj (hst₀.symm.trans hst₁)
    simp only [TrailRun.step, processTradePrint_apply]
    exact hiff.mpr (hnotice id st₀ hst₀ hsym₁)
  | elsewhere s =>
    have hst : s.redis.trailingState id = some st := hst
    rw [hx.2] at hst
    exact hfollows id st hst hsymbol

/-- **A trailing stop follows every price since it was registered**, in every run of registrations and
    prints in which no print falls between the extreme of a registered stop and the monitor's own. -/
theorem trailing_follows {m : StopMonitor} {s : Store} {steps : List TrailStep}
    (hlisted : s.redis.Listed symbol)
    (hrun : Run.Along (TrailRun.step symbol) (fun r x => x.Proper r ∧ AllNotice symbol r x)
      (.start m s) steps) :
    (Run.after (TrailRun.step symbol) (.start m s) steps).Follows symbol := by
  have hstart : (TrailRun.start m s).Follows symbol := by
    intro id st hst _
    have hst : s.redis.trailingState id = some st := hst
    show st.currentExtreme = ((s.redis.trailingState id).map TrailingState.currentExtreme).getD 0
    rw [hst]
    rfl
  have hinv := hrun.invariant (I := fun r => r.store.redis.Listed symbol ∧ r.Follows symbol)
    (fun r x hr hx => ⟨listed_step hr.1 hx.1, follows_step hr.1 hr.2 hx.1 hx.2⟩) ⟨hlisted, hstart⟩
  exact hinv.2

end

/-! ### A sell stop that trails by five -/

/-- The stop, for ten units; user 1 has five, so that triggering it is refused. -/
def trailingSellDto : OrderCreateDto where
  symbol := "BTC/USDT"
  side := .sell
  type := .trailingStop
  stopPrice := some 100
  trailingDelta := some 5
  quantity := 10

/-- The row of the stop is there, its registration is not. -/
def trailStore : Store := { (placeOrder 1 trailingSellDto stopStart).2 with redis := stopStart.redis }

/-- What the stop is registered with. -/
def trailingSell : TrailingState where
  symbol := "BTC/USDT"
  side := .sell
  deltaValue := 5
  currentExtreme := 100
  currentTrigger := 100

/-- The price is 90, the stop is registered, the price rises to 105: the stop follows. -/
theorem trailing_follows_afterLower :
    (Run.after (TrailRun.step "BTC/USDT") (.start freshMonitor trailStore)
      [.print 90, .register 1 trailingSell, .print 105]).Follows "BTC/USDT" ∧
    ((Run.after (TrailRun.step "BTC/USDT") (.start freshMonitor trailStore)
      [.print 90, .register 1 trailingSell, .print 105]).store.redis.trailingState 1).map
        TrailingState.currentExtreme = some 105 := by
  have hlisted : trailStore.redis.Listed "BTC/USDT" := fun id st hst _ => by
    have hst : (none : Option TrailingState) = some st := hst
    exact absurd hst (by simp)
  have h90 : (0 : ℚ) < 90 := by norm_num
  have h105 : (0 : ℚ) < 105 := by norm_num
  refine ⟨trailing_follows hlisted ⟨⟨h90, fun id st hst _ => ?_⟩, ⟨trivial, trivial⟩,
    ⟨h105, fun id st hst hsymbol => ?_⟩, trivial⟩, by decide +kernel⟩
  · have hst : (none : Option TrailingState) = some st := hst
    exact absurd hst (by simp)
  · have hst : Function.update ((TrailRun.step "BTC/USDT" (.start freshMonitor trailStore)
        (.print 90)).store.redis.trailingState) 1 (some trailingSell) id = some st := hst
    by_cases hid : id = 1
    · -- the monitor has seen nothing above 90
      rw [hid, Function.update_self] at hst
      obtain rfl := Option.some.inj hst
      show (100 : ℚ) < 105 → ∀ high ∈ _, high < 105
      intro _
      decide +kernel
    · rw [Function.update_of_ne hid] at hst
      obtain ⟨st₀, hst₀, -⟩ := print_state h90 hlisted hst hsymbol
      have hst₀ : (none : Option TrailingState) = some st₀ := hst₀
      exact absurd hst₀ (by simp)

/-- **The price rises to 110, the stop is registered, the price is 105**: the stop stays at 100. -/
theorem trailing_stuck :
    Run.Along (TrailRun.step "BTC/USDT") (fun r x => x.Proper r) (.start freshMonitor trailStore)
      [.print 110, .register 1 trailingSell, .print 105] ∧
    ¬ (Run.after (TrailRun.step "BTC/USDT") (.start freshMonitor trailStore)
      [.print 110, .register 1 trailingSell, .print 105]).Follows "BTC/USDT" := by
  refine ⟨⟨?_, trivial, ?_, trivial⟩, fun h => ?_⟩
  · show (0 : ℚ) < 110
    norm_num
  · show (0 : ℚ) < 105
    norm_num
  · have hextreme := h 1 trailingSell (by decide +kernel) rfl
    revert hextreme
    decide +kernel

end SpotExchange.Exchange
