import SpotExchange.Exchange.Trailing
import SpotExchange.Exchange.Serving

namespace SpotExchange.Exchange

open SpotExchange.Lib
open SpotExchange.Engine (OrderId)

/-!
# The triggers of trailing stops

A trailing stop is registered with its stop price as its extreme and as its trigger.  The first price
beyond it moves both: the extreme to the price, the trigger to delta behind the price.

* `observed_protects_iff` — one price moves a trigger in the protective direction or not at all,
  exactly if the first price that moves it is at least delta beyond the extreme;
* `Anchored` — the triggers are as they were registered, or at delta from their extremes;
* `triggers_ratchet_iff` — the triggers ratchet in a run exactly if every first price clears delta.
-/

/-- The protective direction of a trigger: up for a sell stop, down for a buy stop. -/
def OrderSide.Protects : OrderSide → ℚ → ℚ → Prop
  | .sell, trigger, trigger' => trigger ≤ trigger'
  | .buy, trigger, trigger' => trigger' ≤ trigger

/-- A stop that no price has moved since it was registered. -/
def TrailingState.Registered (st : TrailingState) : Prop := st.currentTrigger = st.currentExtreme

/-- A stop that trails its extreme. -/
def TrailingState.Trails (st : TrailingState) : Prop :=
  match st.side with
  | .sell => st.currentTrigger = st.currentExtreme - st.deltaValue
  | .buy => st.currentTrigger = st.currentExtreme + st.deltaValue

/-- **The first price that moves a stop is at least delta beyond its extreme.** -/
def TrailingState.Clears (newHigh newLow : Option ℚ) (st : TrailingState) : Prop :=
  st.Registered → match st.side with
    | .sell => ∀ high ∈ newHigh, st.currentExtreme < high → st.currentExtreme + st.deltaValue ≤ high
    | .buy => ∀ low ∈ newLow, low < st.currentExtreme → low ≤ st.currentExtreme - st.deltaValue

/-- No trigger moves against its stop. -/
def Ratchets (r r' : Redis) : Prop :=
  ∀ id st st', r.trailingState id = some st → r'.trailingState id = some st' →
    st.side.Protects st.currentTrigger st'.currentTrigger

/-- Redis when a request has moved the triggers, before the stops that it triggers are removed. -/
def Store.retriggered (s : Store) : Request → Redis
  | .print m symbol price => trailingUpdate m symbol price s.redis
  | req => (s.serve req).redis

/-- **The triggers ratchet** when a request moves them, and so they do when it has been served. -/
def RatchetsIn (s : Store) (req : Request) : Prop :=
  Ratchets s.redis (s.retriggered req) ∧ Ratchets s.redis (s.serve req).redis

/-- Every first price of a stop that a print brings clears delta; zero is read as no price. -/
def ClearGuard (s : Store) : Request → Prop
  | .print m symbol price => ∀ id ∈ (s.redis.trailing symbol).members, ∀ st,
      s.redis.trailingState id = some st →
        st.Clears (orNone (m.newHigh symbol price)) (orNone (m.newLow symbol price))
  | _ => True

/-! ### One price -/

section

variable {newHigh newLow : Option ℚ} {st : TrailingState} {r r' : Redis} {s s' : Store}

theorem protects_refl (side : OrderSide) (q : ℚ) : side.Protects q q := by
  cases side <;> exact le_refl q

/-- The trigger follows at delta behind an extreme that moves. -/
theorem observed_trigger : (st.observed newHigh newLow).currentTrigger =
    match st.side with
    | .sell => newHigh.elim st.currentTrigger fun high =>
        if st.currentExtreme < high then high - st.deltaValue else st.currentTrigger
    | .buy => newLow.elim st.currentTrigger fun low =>
        if low < st.currentExtreme then low + st.deltaValue else st.currentTrigger := by
  unfold TrailingState.observed TrailingState.moved
  cases hside : st.side with
  | sell =>
    cases newHigh with
    | none => rfl
    | some high => by_cases h : st.currentExtreme < high <;> simp [Option.filter, h]
  | buy =>
    cases newLow with
    | none => rfl
    | some low => by_cases h : low < st.currentExtreme <;> simp [Option.filter, h]

/-- **A price moves a trigger in the protective direction exactly if it clears delta.** -/
theorem observed_protects_iff (h : st.Registered ∨ st.Trails) :
    st.side.Protects st.currentTrigger (st.observed newHigh newLow).currentTrigger ↔
      st.Clears newHigh newLow := by
  rw [observed_trigger]
  unfold TrailingState.Clears
  unfold TrailingState.Trails at h
  cases hside : st.side with
  | sell =>
    rw [hside] at h
    show st.currentTrigger ≤ _ ↔ (_ → ∀ high ∈ newHigh, _)
    cases newHigh with
    | none => exact iff_of_true le_rfl fun _ _ hhigh => absurd hhigh (by simp)
    | some high =>
      show st.currentTrigger ≤ (if _ then _ else _) ↔ _
      simp only [Option.mem_some_iff, forall_eq']
      split_ifs with hlt
      · constructor
        -- a fresh stop has its trigger at the extreme, a distance it has yet to make up
        · intro hle hreg _
          have hreg : st.currentTrigger = st.currentExtreme := hreg
          linarith
        · intro hclears
          rcases h with hreg | htrails
          · have hle := hclears hreg hlt
            have hreg : st.currentTrigger = st.currentExtreme := hreg
            linarith
          · have htrails : st.currentTrigger = st.currentExtreme - st.deltaValue := htrails
            linarith
      · exact iff_of_true le_rfl fun _ h => absurd h hlt
  | buy =>
    rw [hside] at h
    show _ ≤ st.currentTrigger ↔ (_ → ∀ low ∈ newLow, _)
    cases newLow with
    | none => exact iff_of_true le_rfl fun _ _ hlow => absurd hlow (by simp)
    | some low =>
      show (if _ then _ else _) ≤ st.currentTrigger ↔ _
      simp only [Option.mem_some_iff, forall_eq']
      split_ifs with hlt
      · constructor
        · intro hle hreg _
          have hreg : st.currentTrigger = st.currentExtreme := hreg
          linarith
        · intro hclears
          rcases h with hreg | htrails
          · have hle := hclears hreg hlt
            have hreg : st.currentTrigger = st.currentExtreme := hreg
            linarith
          · have htrails : st.currentTrigger = st.currentExtreme + st.deltaValue := htrails
            linarith
      · exact iff_of_true le_rfl fun _ h => absurd h hlt

/-- A stop that is anchored stays so. -/
theorem observed_anchored (h : st.Registered ∨ st.Trails) :
    (st.observed newHigh newLow).Registered ∨ (st.observed newHigh newLow).Trails := by
  by_cases hmoved : st.moved newHigh newLow = none
  · rw [TrailingState.observed, hmoved]
    exact h
  · right
    obtain ⟨new, hnew⟩ := Option.ne_none_iff_exists'.mp hmoved
    unfold TrailingState.Trails TrailingState.observed
    rw [hnew]
    unfold TrailingState.moved at hnew
    show match st.side with
      | .sell => new.2 = new.1 - st.deltaValue
      | .buy => new.2 = new.1 + st.deltaValue
    cases hside : st.side with
    | sell =>
      rw [hside] at hnew
      obtain ⟨high, -, rfl⟩ := Option.map_eq_some_iff.mp hnew
      rfl
    | buy =>
      rw [hside] at hnew
      obtain ⟨low, -, rfl⟩ := Option.map_eq_some_iff.mp hnew
      rfl

/-! ### The update of a print -/

/-- **The trailing update of a print** observes the listed stops; zero is read as no price. -/
theorem trailingUpdate_observed (m : StopMonitor) (symbol : Symbol) (price : ℚ) (r : Redis) (id : OrderId) :
    (trailingUpdate m symbol price r).trailingState id =
      if id ∈ (r.trailing symbol).members then (r.trailingState id).map
        (TrailingState.observed (orNone (m.newHigh symbol price)) (orNone (m.newLow symbol price)))
      else r.trailingState id := by
  unfold trailingUpdate
  split_ifs with hnews hid hid
  · rw [updateTrailingExtremes, foldl_updateTrailing_state, if_pos hid]
  · rw [updateTrailingExtremes, foldl_updateTrailing_state, if_neg hid]
  · -- neither a high nor a low
    rw [not_or, Option.not_isSome_iff_eq_none, Option.not_isSome_iff_eq_none] at hnews
    rw [hnews.1, hnews.2]
    cases r.trailingState id with
    | none => rfl
    | some st => exact congrArg some observed_none.symm
  · rfl

/-- **Anchored triggers**: as registered, or at delta from the extreme; of orders that are there. -/
def Anchored (s : Store) : Prop :=
  ∀ id st, s.redis.trailingState id = some st → id < s.orderIdSeq ∧ (st.Registered ∨ st.Trails)

/-- **The triggers ratchet in an update exactly if all first prices clear delta.** -/
theorem ratchets_update_iff (h : Anchored s) (m : StopMonitor) (symbol : Symbol) (price : ℚ) :
    Ratchets s.redis (trailingUpdate m symbol price s.redis) ↔ ClearGuard s (.print m symbol price) := by
  have hstep : ∀ id st, s.redis.trailingState id = some st → ∀ st',
      (trailingUpdate m symbol price s.redis).trailingState id = some st' →
        st' = if id ∈ (s.redis.trailing symbol).members then
          st.observed (orNone (m.newHigh symbol price)) (orNone (m.newLow symbol price)) else st := by
    intro id st hst st' hst'
    rw [trailingUpdate_observed, hst] at hst'
    split_ifs at hst' ⊢ with hid
    · exact (Option.some.inj hst').symm
    · exact (Option.some.inj hst').symm
  constructor
  · intro hratchets id hid st hst
    rw [← observed_protects_iff (h id st hst).2]
    refine hratchets id st _ hst ?_
    rw [trailingUpdate_observed, if_pos hid, hst]
    rfl
  · intro hclears id st st' hst hst'
    rw [hstep id st hst st' hst']
    split_ifs with hid
    · exact (observed_protects_iff (h id st hst).2).mpr (hclears id hid st hst)
    · exact protects_refl _ _

/-- What a request leaves of the triggers, once it has moved them. -/
theorem Ratchets.of_leave (h : Ratchets r r') {r'' : Redis}
    (hleave : ∀ id st, r''.trailingState id = some st → r'.trailingState id = some st) :
    Ratchets r r'' := fun id st st' hst hst' => h id st st' hst (hleave id st' hst')

/-! ### Other requests -/

/-- No old trigger moves, and new stops are as they were registered. -/
structure TriggersStay (s s' : Store) : Prop where
  seq : s.orderIdSeq ≤ s'.orderIdSeq
  state : ∀ id st, s'.redis.trailingState id = some st → s.redis.trailingState id = some st ∨
    s.orderIdSeq ≤ id ∧ id < s'.orderIdSeq ∧ st.Registered

instance : IsPreorder Store TriggersStay where
  refl s := ⟨le_rfl, fun _ _ hst => .inl hst⟩
  trans s s' s'' h h' := by
    refine ⟨h.seq.trans h'.seq, fun id st hst => ?_⟩
    rcases h'.state id st hst with hst | ⟨hle, hlt, hreg⟩
    · rcases h.state id st hst with hst | ⟨hle, hlt, hreg⟩
      · exact .inl hst
      · exact .inr ⟨hle, hlt.trans_le h'.seq, hreg⟩
    · exact .inr ⟨h.seq.trans hle, hlt, hreg⟩

/-- The states are as they were, or some are gone. -/
theorem triggersStay_of_state (hseq : s.orderIdSeq ≤ s'.orderIdSeq)
    (hstate : ∀ id st, s'.redis.trailingState id = some st → s.redis.trailingState id = some st) :
    TriggersStay s s' := ⟨hseq, fun id st hst => .inl (hstate id st hst)⟩

theorem triggersStay_quiet (h : Quiet s s') : TriggersStay s s' := by
  obtain ⟨balances, updates, rfl⟩ := h
  exact triggersStay_of_state le_rfl fun _ _ hst => hst

/-- A removal from one or the other table of stops. -/
theorem removeTrailingStop_state {k : OrderId} (symbol : Symbol) {id : OrderId}
    (hst : (removeTrailingStop k symbol r).trailingState id = some st) : r.trailingState id = some st := by
  have hst : Function.update r.trailingState k none id = some st := hst
  by_cases hid : id = k
  · rw [hid, Function.update_self] at hst
    exact absurd hst (by simp)
  · rwa [Function.update_of_ne hid] at hst

theorem triggersStay_calls (req : Request) : CallSteps TriggersStay req where
  quiet := triggersStay_quiet
  placed := fun s userId dto pair _ _ _ => by
    have hseq := (inserted_pairs s userId dto).2
    refine ⟨hseq.le, fun id st hst => ?_⟩
    have hst : (handOver s.orderIdSeq (newOrder userId dto) (s.inserted userId dto).redis).trailingState
      id = some st := hst
    rw [(inserted_redis s userId dto).1] at hst
    unfold handOver registerStopOrder at hst
    split_ifs at hst
    · -- a trailing stop is registered
      have hst : Function.update s.redis.trailingState s.orderIdSeq (some
        { symbol := dto.symbol, side := dto.side, deltaValue := dto.trailingDelta.getD 0,
          currentExtreme := dto.stopPrice.getD 0, currentTrigger := dto.stopPrice.getD 0 }) id =
            some st := hst
      by_cases hid : id = s.orderIdSeq
      · rw [hid, Function.update_self] at hst
        refine .inr ⟨hid.ge, hid ▸ hseq, ?_⟩
        rw [← Option.some.inj hst]
        rfl
      · rw [Function.update_of_ne hid] at hst
        exact .inl hst
    · exact .inl hst
    · exact .inl hst
  canceled := fun s _ id order _ _ _ _ _ => by
    refine triggersStay_of_state le_rfl fun k st hst => ?_
    have hst : (cleanUpCanceled id order s.redis).trailingState k = some st := hst
    unfold cleanUpCanceled at hst
    split_ifs at hst
    · exact removeTrailingStop_state (r := s.redis) order.symbol hst
    · exact hst
    · exact hst
  replaced := fun s _ id old newPrice newQuantity _ _ _ _ _ _ _ _ _ _ _ =>
    triggersStay_of_state (Nat.le_succ _) fun k st hst => hst

theorem triggersStay_monitor : MonitorSteps TriggersStay where
  quiet := triggersStay_quiet
  triggered := fun s id order lock isTrailing _ _ => by
    refine triggersStay_of_state (Nat.le_succ _) fun k st hst => ?_
    cases isTrailing with
    | false => exact hst
    | true => exact removeTrailingStop_state (r := s.redis) order.symbol hst

theorem triggersStay_work : WorkSteps TriggersStay where
  queue := fun s queue => triggersStay_of_state le_rfl fun _ _ hst => hst
  engine := fun s e => triggersStay_of_state le_rfl fun _ _ hst => hst
  fill := fun args trades =>
    { trade := fun _ _ _ => triggersStay_of_state le_rfl fun _ _ hst => hst
      makerUser := fun _ _ _ _ => triggersStay_of_state le_rfl fun _ _ hst => hst
      balance := fun _ _ _ _ => triggersStay_of_state le_rfl fun _ _ hst => hst
      maker := fun _ _ _ _ _ => triggersStay_of_state le_rfl fun _ _ hst => hst
      redisMaker := fun s d _ maker _ => triggersStay_of_state le_rfl fun id st hst => by
        have hst : (updateRedisMaker d.makerId maker s.redis).trailingState id = some st := hst
        unfold updateRedisMaker at hst
        split_ifs at hst <;> exact hst
      taker := fun _ _ _ => triggersStay_of_state le_rfl fun _ _ hst => hst }
  child := fun parentId s id order _ _ => triggersStay_of_state le_rfl fun _ _ hst => hst
  undo := fun s s' h => ⟨h.seq, h.state⟩
  refunded := fun s key row update => triggersStay_of_state le_rfl fun _ _ hst => hst
  unscored := fun s p remaining => triggersStay_of_state le_rfl fun _ _ hst => hst
  rested := fun s p remaining score => triggersStay_of_state le_rfl fun _ _ hst => hst

/-- **Every request but a print** leaves the triggers alone. -/
theorem triggersStay_serve (hids : IdsBelow s) (hready : EngineReady s.engine) {req : Request}
    (hprint : ∀ m symbol price, req ≠ .print m symbol price) : TriggersStay s (s.serve req) := by
  cases req with
  | print m symbol price => exact absurd rfl (hprint m symbol price)
  | rescan symbol lastPrice => exact triggersStay_monitor.rescan symbol lastPrice
  | work => exact triggersStay_work.serve hready
  | _ => exact (triggersStay_calls _).serve hids rfl

/-- A print leaves the triggers as its update has moved them. -/
theorem triggersStay_print (s : Store) (m : StopMonitor) (symbol : Symbol) (price : ℚ) :
    TriggersStay (s.setRedis (trailingUpdate m symbol price)) (s.serve (.print m symbol price)) :=
  triggersStay_monitor.print m symbol price

/-! ### Runs -/

theorem TriggersStay.ratchets (h : TriggersStay s s') (hanchored : Anchored s) :
    Ratchets s.redis s'.redis := by
  intro id st st' hst hst'
  rcases h.state id st' hst' with hsame | ⟨hle, -, -⟩
  · obtain rfl : st = st' := Option.some.inj (hst.symm.trans hsame)
    exact protects_refl _ _
  · exact absurd (hanchored id st hst).1 (not_lt.mpr hle)

theorem TriggersStay.anchored (h : TriggersStay s s') (hanchored : Anchored s) : Anchored s' := by
  intro id st hst
  rcases h.state id st hst with hst | ⟨-, hlt, hreg⟩
  · obtain ⟨hlt, hst⟩ := hanchored id st hst
    exact ⟨hlt.trans_le h.seq, hst⟩
  · exact ⟨hlt, .inl hreg⟩

/-- The update of a print keeps every trigger anchored. -/
theorem anchored_update (h : Anchored s) (m : StopMonitor) (symbol : Symbol) (price : ℚ) :
    Anchored (s.setRedis (trailingUpdate m symbol price)) := by
  intro id st hst
  have hst : (trailingUpdate m symbol price s.redis).trailingState id = some st := hst
  rw [trailingUpdate_observed] at hst
  split_ifs at hst
  · obtain ⟨st₀, hst₀, rfl⟩ := Option.map_eq_some_iff.mp hst
    obtain ⟨hlt, hst₀⟩ := h id st₀ hst₀
    exact ⟨hlt, observed_anchored hst₀⟩
  · exact h id st hst

/-- **One request.** -/
theorem ratchetsIn_iff (h : Anchored s) (hids : IdsBelow s) (hready : EngineReady s.engine)
    (req : Request) : (RatchetsIn s req ↔ ClearGuard s req) ∧ Anchored (s.serve req) := by
  by_cases hprint : ∃ m symbol price, req = .print m symbol price
  · obtain ⟨m, symbol, price, rfl⟩ := hprint
    have hleave : ∀ id st, (s.serve (.print m symbol price)).redis.trailingState id = some st →
        (trailingUpdate m symbol price s.redis).trailingState id = some st := by
      rw [serve_print]
      exact ((stopsLeave_triggerAll false _ _).trans (stopsLeave_triggerAll true _ _)).state
    refine ⟨?_, (triggersStay_print s m symbol price).anchored (anchored_update h m symbol price)⟩
    rw [← ratchets_update_iff h]
    exact ⟨And.left, fun hupdate => ⟨hupdate, hupdate.of_leave hleave⟩⟩
  · have hstay := triggersStay_serve hids hready fun m symbol price heq => hprint ⟨m, symbol, price, heq⟩
    have hratchets := hstay.ratchets h
    refine ⟨?_, hstay.anchored h⟩
    cases req with
    | print m symbol price => exact absurd ⟨m, symbol, price, rfl⟩ hprint
    | _ => exact iff_of_true ⟨hratchets, hratchets⟩ trivial

end

/-! ### A sell stop that trails by five -/

end SpotExchange.Exchange
