import SpotExchange.Exchange.Worker
import SpotExchange.Exchange.Batch
import SpotExchange.Engine.Amounts

namespace SpotExchange.Exchange

open SpotExchange.Lib
open SpotExchange.Engine (OrderId CSide CMatchingEngine PassiveOrder MatchResult TradeResult
  MatchFacts SameFrame LoadedLevels matchLevels)

/-!
# The exits of `_handle_place`

* `EngineReady` — what the worker's engine keeps between two actions;
* `matchPlaced_spec` — matching changes the engine only, and its result is what `MatchFacts` says of
  the makers that were loaded;
* `handlePlace_eq_ok`, `persistTrades_eq_ok`, `finishPlaced` — the exits, one by one.
-/

/-! ### The engine between two actions -/

/-- **What the engine keeps**: the order of its sides, and room for every maker. -/
structure EngineReady (e : CMatchingEngine) : Prop where
  direction : ∀ s, (e.bookSide s).isDescending = decide (s = CSide.buy)
  nodePool : makerLimit ≤ e.nodePoolCap
  trades : makerLimit ≤ e.tradesCap

theorem EngineReady.of_frame {e e' : CMatchingEngine} (h : EngineReady e) (hframe : SameFrame e e') :
    EngineReady e' where
  direction := fun s => (hframe.direction s).trans (h.direction s)
  nodePool := by rw [hframe.nodePoolCap]; exact h.nodePool
  trades := by rw [hframe.tradesCap]; exact h.trades

theorem engineReady_new : EngineReady CMatchingEngine.new where
  direction := fun s => by cases s <;> rfl
  nodePool := by decide
  trades := by decide

theorem engineReady_reset {e : CMatchingEngine} (h : EngineReady e) :
    EngineReady (Engine.reset e) where
  direction := fun s => by
    cases s
    · exact h.direction .buy
    · exact h.direction .sell
  nodePool := h.nodePool
  trades := h.trades

/-! ### Loading -/

/-- The engine replaced. -/
def Store.setEngine (s : Store) (e : CMatchingEngine) : Store := { s with engine := e }

/-- The makers that the worker loads for a taker. -/
def Store.makers (s : Store) (symbol : Symbol) (takerSide : OrderSide) : List PassiveOrder :=
  (oppositeOrdersForMatch s.redis symbol takerSide makerLimit).map BookOrder.passive

theorem makers_length_le (s : Store) (symbol : Symbol) (takerSide : OrderSide) :
    (s.makers symbol takerSide).length ≤ makerLimit := by
  rw [Store.makers, List.length_map]
  refine (List.length_filterMap_le _ _).trans ?_
  cases takerSide <;> simp

/-- A maker shows the engine all it is loaded with. -/
theorem passive_plain (o : BookOrder) : o.passive.plain := by
  intro h
  have hiceberg : o.isIceberg = true := h
  simp [BookOrder.passive, BookOrder.loadedQuantity, hiceberg]

theorem makers_plain (s : Store) (symbol : Symbol) (takerSide : OrderSide) :
    ∀ o ∈ s.makers symbol takerSide, o.plain := by
  intro o ho
  obtain ⟨b, -, rfl⟩ := List.mem_map.mp ho
  exact passive_plain b

/-- The pool of a reset engine has a slot for every maker. -/
theorem makers_fit {e : CMatchingEngine} (h : makerLimit ≤ e.nodePoolCap) (s : Store) (symbol : Symbol)
    (takerSide : OrderSide) : (Engine.reset e).nodePoolSize + (s.makers symbol takerSide).length ≤
      (Engine.reset e).nodePoolCap := by
  show 0 + _ ≤ _
  rw [zero_add]
  exact (makers_length_le s symbol takerSide).trans h

/-- Loading one maker. -/
theorem loadMaker_apply (o : BookOrder) (s : Store) (e : CMatchingEngine) :
    (∃ e', Engine.addPassiveOrder e o.passive = .ok e' ∧
      loadMaker o (s.setEngine e) = (.ok ⟨⟩, s.setEngine e')) ∨
    ∃ err, loadMaker o (s.setEngine e) = (.error (.engine err), s.setEngine e) := by
  have hread : (Prog.read Store.engine : M CMatchingEngine) (s.setEngine e) =
      (.ok e, s.setEngine e) := rfl
  rw [loadMaker, Prog.bind_of_ok hread]
  cases hadd : Engine.addPassiveOrder e o.passive with
  | error err => exact .inr ⟨err, rfl⟩
  | ok e' => exact .inl ⟨e', rfl, rfl⟩

/-- **Loading** changes the engine; if it returns, every maker has been added. -/
theorem loadMakers_spec (makers : List BookOrder) (s : Store) (e : CMatchingEngine) :
    ∃ e', SameFrame e e' ∧ (Prog.forEach makers loadMaker (s.setEngine e)).2 = s.setEngine e' ∧
      ∀ u, (Prog.forEach makers loadMaker (s.setEngine e)).1 = .ok u →
        Engine.loadAll e (makers.map BookOrder.passive) = .ok e' := by
  induction makers generalizing e with
  | nil => exact ⟨e, ⟨fun _ => rfl, rfl, rfl⟩, rfl, fun _ _ => rfl⟩
  | cons o makers ih =>
    rw [Prog.forEach_cons]
    rcases loadMaker_apply o s e with ⟨e₁, hadd, hx⟩ | ⟨err, hx⟩
    · obtain ⟨e', hframe, hstate, hok⟩ := ih e₁
      rw [Prog.bind_of_ok hx]
      refine ⟨e', (Engine.addPassiveOrder_frame hadd).trans hframe, hstate, fun u hu => ?_⟩
      rw [List.map_cons, Engine.loadAll, List.foldlM_cons, hadd]
      exact hok u hu
    · rw [Prog.bind_of_error hx]
      exact ⟨e, ⟨fun _ => rfl, rfl, rfl⟩, rfl, fun u hu => absurd hu (by simp)⟩

/-- Makers that the engine takes are loaded. -/
theorem loadMakers_ok {makers : List BookOrder} {e e' : CMatchingEngine} (s : Store)
    (h : Engine.loadAll e (makers.map BookOrder.passive) = .ok e') :
    Prog.forEach makers loadMaker (s.setEngine e) = (.ok ⟨⟩, s.setEngine e') := by
  induction makers generalizing e with
  | nil =>
    obtain rfl : e = e' := Except.ok.inj h
    rfl
  | cons o makers ih =>
    rw [List.map_cons, Engine.loadAll, List.foldlM_cons] at h
    cases hadd : Engine.addPassiveOrder e o.passive with
    | error err => simp [hadd, bind, Except.bind] at h
    | ok e₁ =>
      rw [hadd] at h
      have hone : loadMaker o (s.setEngine e) = (.ok ⟨⟩, s.setEngine e₁) := by
        have hread : (Prog.read Store.engine : M CMatchingEngine) (s.setEngine e) =
            (.ok e, s.setEngine e) := rfl
        rw [loadMaker, Prog.bind_of_ok hread, hadd]
        rfl
      rw [Prog.forEach_cons, Prog.bind_of_ok hone]
      exact ih h

/-! ### Matching -/

/-- The makers of a placement, on the other side as the engine sees it. -/
def Store.offers (s : Store) (payload : OrderActionPayload) : List PassiveOrder :=
  (s.makers payload.symbol payload.side).filter fun o => o.side = (toCSide payload.side).opp

/-- The volume that is loaded for a placement, within its limit. -/
def Store.crossingVolume (s : Store) (payload : OrderActionPayload) : ℚ :=
  Engine.volumeWithin (takerOrder payload) ((s.offers payload).map PassiveOrder.offer)

theorem buildCorder_eq_ok {payload : OrderActionPayload} {c : Engine.COrder}
    (h : buildCorder payload = .ok c) : 0 < payload.quantity ∧ c = takerOrder payload := by
  unfold buildCorder at h
  split_ifs at h with hq
  all_goals
    split at h
    · exact absurd h (by simp)
    · exact ⟨not_le.mp hq, (Except.ok.inj h).symm⟩

/-- What `matchPlaced` does once the makers are loaded. -/
def matchLoaded (payload : OrderActionPayload) : M MatchResult := do
  let corder ← Prog.ofExcept (buildCorder payload)
  let engine ← Prog.read Store.engine
  let (result, engine) ← Prog.ofExcept ((Engine.matchActiveOrder engine corder).mapError .engine)
  Prog.modify fun s => { s with engine := engine }
  return result

theorem matchPlaced_apply (payload : OrderActionPayload) (s : Store) :
    matchPlaced payload s = (Prog.forEach (oppositeOrdersForMatch s.redis payload.symbol payload.side
      makerLimit) loadMaker >>= fun _ => matchLoaded payload)
        (s.setEngine (Engine.reset s.engine)) := rfl

theorem matchLoaded_apply (payload : OrderActionPayload) (s : Store) (e : CMatchingEngine) :
    (∃ r e', 0 < payload.quantity ∧
      Engine.matchActiveOrder e (takerOrder payload) = .ok (r, e') ∧
      matchLoaded payload (s.setEngine e) = (.ok r, s.setEngine e')) ∨
    ∃ err, matchLoaded payload (s.setEngine e) = (.error err, s.setEngine e) := by
  unfold matchLoaded
  cases hbuild : buildCorder payload with
  | error err => exact .inr ⟨err, rfl⟩
  | ok c =>
    obtain ⟨hq, rfl⟩ := buildCorder_eq_ok hbuild
    cases hmatch : Engine.matchActiveOrder e (takerOrder payload) with
    | error err =>
      refine .inr ⟨.engine err, ?_⟩
      show (Prog.ofExcept ((Engine.matchActiveOrder e (takerOrder payload)).mapError PyError.engine) >>= _)
        (s.setEngine e) = _
      rw [hmatch]
      rfl
    | ok x =>
      refine .inl ⟨x.1, x.2, hq, rfl, ?_⟩
      show (Prog.ofExcept ((Engine.matchActiveOrder e (takerOrder payload)).mapError PyError.engine) >>= _)
        (s.setEngine e) = _
      rw [hmatch]
      rfl

/-- **Matching** changes the engine only; a match that returns has gone through the levels of the
    loaded makers. -/
theorem matchPlaced_levels {s : Store} (h : EngineReady s.engine) (payload : OrderActionPayload) :
    ∃ e, EngineReady e ∧ (matchPlaced payload s).2 = s.setEngine e ∧
      ∀ r, (matchPlaced payload s).1 = .ok r → 0 < payload.quantity ∧
        (∀ o ∈ s.makers payload.symbol payload.side, 0 < o.qty) ∧
        ∃ ls, LoadedLevels (takerOrder payload).side.opp (s.offers payload) ls ∧
          r = (matchLevels (takerOrder payload) ls).1 := by
  have hready := engineReady_reset h
  obtain ⟨e₁, hframe, hstate, hload⟩ := loadMakers_spec
    (oppositeOrdersForMatch s.redis payload.symbol payload.side makerLimit) s (Engine.reset s.engine)
  have hready₁ := hready.of_frame hframe
  rw [matchPlaced_apply]
  rcases hx : Prog.forEach (oppositeOrdersForMatch s.redis payload.symbol payload.side makerLimit)
    loadMaker (s.setEngine (Engine.reset s.engine)) with ⟨err | u, s₁⟩ <;> rw [hx] at hstate hload <;>
    obtain rfl : s₁ = s.setEngine e₁ := hstate
  · rw [Prog.bind_of_error hx]
    exact ⟨e₁, hready₁, rfl, fun r hr => absurd hr (by simp)⟩
  rw [Prog.bind_of_ok hx]
  have hload := hload u rfl
  -- the loaded engine represents the makers
  have hrep := Engine.engineRep_reset h.direction
  have hplain := makers_plain s payload.symbol payload.side
  have hlen := makers_length_le s payload.symbol payload.side
  have hcap := makers_fit h.nodePool s payload.symbol payload.side
  rcases matchLoaded_apply payload s e₁ with ⟨r, e₂, hq, hmatch, hx⟩ | ⟨err, hx⟩ <;> rw [hx]
  · obtain ⟨ls, e₃, hls, hmatch', hframe₂⟩ := Engine.matchLoaded_levels hrep
      (fun t => by cases t <;> rfl) hplain hcap (hlen.trans hready.trades) hload (takerOrder payload)
    obtain ⟨hr, rfl⟩ : (matchLevels (takerOrder payload) ls).1 = r ∧ e₃ = e₂ := by
      have := hmatch'.symm.trans hmatch
      simpa using this
    obtain ⟨-, -, -, hpos, -⟩ := Engine.loadAll_spec hrep hplain hcap hload
    refine ⟨e₃, hready.of_frame hframe₂, rfl, fun r' hr' => ⟨hq, hpos, ls, hls, ?_⟩⟩
    rw [hr]
    exact (Except.ok.inj hr').symm
  · exact ⟨e₁, hready₁, rfl, fun r hr => absurd hr (by simp)⟩

/-- **A taker that can be built is matched** with makers of positive quantities. -/
theorem matchPlaced_ok {s : Store} (h : EngineReady s.engine) {payload : OrderActionPayload}
    (hbuilt : buildCorder payload = .ok (takerOrder payload))
    (hpos : ∀ o ∈ s.makers payload.symbol payload.side, 0 < o.qty) :
    ∃ ls e, LoadedLevels (takerOrder payload).side.opp (s.offers payload) ls ∧
      matchPlaced payload s = (.ok (matchLevels (takerOrder payload) ls).1, s.setEngine e) := by
  have hready := engineReady_reset h
  have hrep := Engine.engineRep_reset h.direction
  have hplain := makers_plain s payload.symbol payload.side
  have hlen := makers_length_le s payload.symbol payload.side
  have hcap := makers_fit h.nodePool s payload.symbol payload.side
  obtain ⟨e₁, hload⟩ := Engine.loadAll_ok hrep hplain hpos hcap
  obtain ⟨ls, e₂, hls, hmatch, -⟩ := Engine.matchLoaded_levels hrep (fun t => by cases t <;> rfl)
    hplain hcap (hlen.trans hready.trades) hload (takerOrder payload)
  refine ⟨ls, e₂, hls, ?_⟩
  rw [matchPlaced_apply, Prog.bind_of_ok (loadMakers_ok s hload)]
  unfold matchLoaded
  rw [hbuilt]
  show (Prog.ofExcept ((Engine.matchActiveOrder e₁ (takerOrder payload)).mapError PyError.engine) >>= _)
    (s.setEngine e₁) = _
  rw [hmatch]
  rfl

/-- Such a match is described by `MatchFacts`. -/
theorem matchPlaced_spec {s : Store} (h : EngineReady s.engine) (payload : OrderActionPayload) :
    ∃ e, EngineReady e ∧ (matchPlaced payload s).2 = s.setEngine e ∧
      ∀ r, (matchPlaced payload s).1 = .ok r → 0 < payload.quantity ∧
        (∀ o ∈ s.makers payload.symbol payload.side, 0 < o.qty) ∧
        MatchFacts (takerOrder payload) (s.offers payload) r := by
  obtain ⟨e, hready, hstate, hmatched⟩ := matchPlaced_levels h payload
  refine ⟨e, hready, hstate, fun r hr => ?_⟩
  obtain ⟨hq, hpos, ls, hls, rfl⟩ := hmatched r hr
  exact ⟨hq, hpos, hls.facts rfl hq⟩

/-! ### Persisting -/

/-- **Persisting** trades: nothing to do, no such pair, or a batch that commits or is undone. -/
theorem persistTrades_cases (payload : OrderActionPayload) (trades : List TradeResult) (s : Store) :
    trades = [] ∧ persistTrades payload trades s = (.ok true, s) ∨
    trades ≠ [] ∧ s.pg.tradingPairs payload.symbol = none ∧
      persistTrades payload trades s = (.ok false, s) ∨
    trades ≠ [] ∧ ∃ pair, s.pg.tradingPairs payload.symbol = some pair ∧
      ((∃ rows s', persistTradeBatch (batchArgs payload pair)
          (trades.map (domainTrade s.redis payload)) s = (.ok rows, s') ∧
          persistTrades payload trades s = (.ok true, s')) ∨
        ∃ err s', persistTradeBatch (batchArgs payload pair)
          (trades.map (domainTrade s.redis payload)) s = (.error err, s') ∧
          persistTrades payload trades s = (.error err, { s' with pg := s.pg })) := by
  unfold persistTrades
  by_cases hne : trades = []
  · exact .inl ⟨hne, by rw [if_pos hne]; rfl⟩
  rw [if_neg hne]
  cases hpair : s.pg.tradingPairs payload.symbol with
  | none =>
    have hread : getPair payload.symbol s = (.ok none, s) := by
      rw [← hpair]
      rfl
    refine .inr (.inl ⟨hne, rfl, ?_⟩)
    rw [transaction, Prog.atomically_eq_ok, persistMatch, Prog.bind_of_ok hread]
    rfl
  | some pair =>
    have hread : getPair payload.symbol s = (.ok (some pair), s) := by
      rw [← hpair]
      rfl
    have hbatch : persistMatch payload trades s = (persistTradeBatch (batchArgs payload pair)
        (trades.map (domainTrade s.redis payload)) >>= fun _ => (pure true : M Bool)) s := by
      rw [persistMatch, Prog.bind_of_ok hread]
      rfl
    refine .inr (.inr ⟨hne, pair, rfl, ?_⟩)
    rcases hx : persistTradeBatch (batchArgs payload pair) (trades.map (domainTrade s.redis payload)) s
      with ⟨err | rows, s'⟩
    · refine .inr ⟨err, s', rfl, ?_⟩
      rw [transaction, Prog.atomically_eq_error]
      exact ⟨s', by rw [hbatch, Prog.bind_of_error hx], rfl⟩
    · refine .inl ⟨rows, s', rfl, ?_⟩
      rw [transaction, Prog.atomically_eq_ok, hbatch, Prog.bind_of_ok hx]
      rfl

/-! ### What is left -/

/-- The sequence number of the next resting order. -/
def Store.nextSeq (s : Store) (symbol : Symbol) : ℕ := (s.redis.seq symbol + 1) % scoreMultiplier

/-- The store with a sequence number taken. -/
def Store.takeSeq (s : Store) (symbol : Symbol) : Store :=
  s.setRedis fun r => { r with seq := Function.update r.seq symbol (r.seq symbol + 1) }

/-- The store with an order in the book. -/
def Store.addToBook (s : Store) (symbol : Symbol) (side : OrderSide) (score : ℚ) (id : OrderId) :
    Store :=
  s.setRedis fun r => r.setBook symbol side ((r.book symbol side).zadd memberKey score id)

/-- **Resting** an order: its price has a score, or nothing rests. -/
theorem addRestingOrder_cases (id : OrderId) (symbol : Symbol) (side : OrderSide) (price : ℚ)
    (s : Store) :
    (∃ score, encodeScore price (s.nextSeq symbol) = .ok score ∧
      addRestingOrder id symbol side price s =
        (.ok (s.nextSeq symbol), (s.takeSeq symbol).addToBook symbol side score id)) ∨
    ∃ err, encodeScore price (s.nextSeq symbol) = .error err ∧
      addRestingOrder id symbol side price s = (.error err, s.takeSeq symbol) := by
  have hseq : (s.takeSeq symbol).redis.seq symbol % scoreMultiplier = s.nextSeq symbol :=
    congrArg (fun n => n % scoreMultiplier) (Function.update_self ..)
  have hrun : addRestingOrder id symbol side price s =
      (Prog.ofExcept (encodeScore price ((s.takeSeq symbol).redis.seq symbol % scoreMultiplier)) >>=
        fun score => onRedis (fun r => r.setBook symbol side
          ((r.book symbol side).zadd memberKey score id)) >>=
        fun _ => (pure ((s.takeSeq symbol).redis.seq symbol % scoreMultiplier) : M ℕ))
          (s.takeSeq symbol) := rfl
  rw [hrun, hseq]
  cases encodeScore price (s.nextSeq symbol) with
  | error err => exact .inr ⟨err, rfl, rfl⟩
  | ok score => exact .inl ⟨score, rfl, rfl⟩

/-- The store with the HASH of a resting taker, and a sequence number taken for it. -/
def Store.prepareResting (s : Store) (payload : OrderActionPayload) (remaining : ℚ) : Store :=
  (s.setRedis (hset payload.orderId (restingHash payload remaining))).takeSeq payload.symbol

/-- The store with a taker resting at a score. -/
def Store.rest (s : Store) (payload : OrderActionPayload) (remaining score : ℚ) : Store :=
  ((s.prepareResting payload remaining).addToBook payload.symbol payload.side score
    payload.orderId).setRedis (addOpenOrder payload.userId payload.symbol payload.orderId)

/-- **Resting** what is left of a taker. -/
theorem insertRestingTaker_cases (payload : OrderActionPayload) (remaining : ℚ) (s : Store) :
    (∃ score, encodeScore (payload.price.getD 0) (s.nextSeq payload.symbol) = .ok score ∧
      insertRestingTaker payload remaining s = (.ok ⟨⟩, s.rest payload remaining score)) ∨
    ∃ err, encodeScore (payload.price.getD 0) (s.nextSeq payload.symbol) = .error err ∧
      insertRestingTaker payload remaining s = (.error err, s.prepareResting payload remaining) := by
  have hrun : insertRestingTaker payload remaining s = (addRestingOrder payload.orderId payload.symbol
      payload.side (payload.price.getD 0) >>= fun _ =>
        onRedis (addOpenOrder payload.userId payload.symbol payload.orderId))
          (s.setRedis (hset payload.orderId (restingHash payload remaining))) := rfl
  rw [hrun]
  rcases addRestingOrder_cases payload.orderId payload.symbol payload.side (payload.price.getD 0)
    (s.setRedis (hset payload.orderId (restingHash payload remaining))) with
    ⟨score, hscore, hx⟩ | ⟨err, herr, hx⟩
  · rw [Prog.bind_of_ok hx]
    exact .inl ⟨score, hscore, rfl⟩
  · rw [Prog.bind_of_error hx]
    exact .inr ⟨err, herr, rfl⟩

/-- **Refunding**: without a pair, a balance or anything locked there is nothing to do; otherwise
    the whole locked balance is unlocked. -/
theorem refund_cases {payload : OrderActionPayload} {s s' : Store} {u : Unit}
    (h : refundMarketBuyLeftover payload s = (.ok u, s')) :
    s' = s ∧ (∀ pair row, s.pg.tradingPairs payload.symbol = some pair →
      s.pg.balances (payload.userId, pair.quoteAsset) = some row → row.lockedBalance ≤ 0) ∨
    ∃ pair row, s.pg.tradingPairs payload.symbol = some pair ∧
      s.pg.balances (payload.userId, pair.quoteAsset) = some row ∧ 0 < row.lockedBalance ∧
      pessimistic .unlock (payload.userId, pair.quoteAsset) row.lockedBalance .marketBuyRefund
        (some payload.orderId) s = (.ok ⟨⟩, s') := by
  rw [refundMarketBuyLeftover, transaction, Prog.atomically_eq_ok] at h
  obtain ⟨pair?, s₁, hread, h⟩ := Prog.bind_eq_ok.mp h
  obtain ⟨hpair, rfl⟩ : s.pg.tradingPairs payload.symbol = pair? ∧ s = s₁ := by
    simpa [getPair] using hread
  rcases Prog.whenSome_eq_ok.mp h with ⟨hnone, hs⟩ | ⟨pair, rfl, h⟩
  · refine .inl ⟨hs.symm, fun pair row hp => ?_⟩
    rw [hpair, hnone] at hp
    exact absurd hp (by simp)
  obtain ⟨bal?, s₁, hread, h⟩ := Prog.bind_eq_ok.mp h
  obtain ⟨hbal, rfl⟩ : (s.pg.balances (payload.userId, pair.quoteAsset)).map
      (fun _ => (payload.userId, pair.quoteAsset)) = bal? ∧ s = s₁ := by
    simpa [getBalanceForUpdate] using hread
  cases hrow : s.pg.balances (payload.userId, pair.quoteAsset) with
  | none =>
    rw [hrow, Option.map_none] at hbal
    subst hbal
    refine .inl ⟨(congrArg Prod.snd h).symm, fun pair' row hp hr => ?_⟩
    obtain rfl : pair = pair' := Option.some.inj (hpair.symm.trans hp)
    exact absurd (hrow.symm.trans hr) (by simp)
  | some row =>
    rw [hrow, Option.map_some] at hbal
    subst hbal
    have hlocked : lockedBalance (payload.userId, pair.quoteAsset) s = (.ok row.lockedBalance, s) := by
      show (Except.ok ((s.pg.balances (payload.userId, pair.quoteAsset)).elim 0 _), s) = _
      rw [hrow]
      rfl
    obtain ⟨locked, s₁, hread, h⟩ := Prog.bind_eq_ok.mp h
    obtain ⟨rfl, rfl⟩ : row.lockedBalance = locked ∧ s = s₁ := by
      simpa [hlocked] using hread
    rcases Prog.whenever_eq_ok.mp h with ⟨hle, hs⟩ | ⟨hpos, h⟩
    · refine .inl ⟨hs.symm, fun pair' row' hp hr => ?_⟩
      obtain rfl : pair = pair' := Option.some.inj (hpair.symm.trans hp)
      obtain rfl : row = row' := Option.some.inj (hrow.symm.trans hr)
      exact not_lt.mp hle
    · exact .inr ⟨pair, row, hpair, hrow, hpos, h⟩

/-! ### The handler -/

/-- **The exits of `_handle_place`** when it returns. -/
theorem handlePlace_eq_ok {payload : OrderActionPayload} {s s' : Store} {r : MatchResult}
    (h : handlePlace payload s = (.ok r, s')) :
    ∃ s₁, matchPlaced payload s = (.ok r, s₁) ∧
      (isOutcomeReject r.outcome = true ∧ s₁ = s' ∨
        isOutcomeReject r.outcome = false ∧ ∃ persisted s₂,
          persistTrades payload r.trades s₁ = (.ok persisted, s₂) ∧
          (persisted = false ∧ s₂ = s' ∨
            persisted = true ∧ finishPlaced payload r.remainingQty s₂ = (.ok ⟨⟩, s'))) := by
  obtain ⟨r', s₁, hmatch, h⟩ := Prog.bind_eq_ok.mp h
  obtain ⟨_, s₂, hrest, h⟩ := Prog.bind_eq_ok.mp h
  obtain ⟨rfl, rfl⟩ : r' = r ∧ s₂ = s' := by simpa using h
  refine ⟨s₁, hmatch, ?_⟩
  rcases Prog.whenever_eq_ok.mp hrest with ⟨hrej, hs⟩ | ⟨hacc, hrest⟩
  · exact .inl ⟨by simpa using hrej, hs⟩
  · obtain ⟨persisted, s₃, hpersist, hrest⟩ := Prog.bind_eq_ok.mp hrest
    refine .inr ⟨hacc, persisted, s₃, hpersist, ?_⟩
    rcases Prog.whenever_eq_ok.mp hrest with ⟨hno, hs⟩ | ⟨hyes, hrest⟩
    · exact .inl ⟨by simpa using hno, hs⟩
    · exact .inr ⟨hyes, hrest⟩

/-- **The exits of `_handle_place`** when it raises. -/
theorem handlePlace_eq_error {payload : OrderActionPayload} {s s' : Store} {err : PyError}
    (h : handlePlace payload s = (.error err, s')) :
    matchPlaced payload s = (.error err, s') ∨
    ∃ r s₁, matchPlaced payload s = (.ok r, s₁) ∧
      (persistTrades payload r.trades s₁ = (.error err, s') ∨
        ∃ s₂, persistTrades payload r.trades s₁ = (.ok true, s₂) ∧
          finishPlaced payload r.remainingQty s₂ = (.error err, s')) := by
  rcases Prog.bind_eq_error.mp h with h | ⟨r, s₁, hmatch, h⟩
  · exact .inl h
  refine .inr ⟨r, s₁, hmatch, ?_⟩
  rcases Prog.bind_eq_error.mp h with h | ⟨_, s₂, -, h⟩
  · unfold Prog.whenever at h
    split_ifs at h with hacc
    · rcases Prog.bind_eq_error.mp h with h | ⟨persisted, s₂, hpersist, h⟩
      · exact .inl h
      · split_ifs at h with hyes
        · subst hyes
          exact .inr ⟨s₂, hpersist, h⟩
        · exact absurd (congrArg Prod.fst h) (by simp)
    · exact absurd (congrArg Prod.fst h) (by simp)
  · exact absurd (congrArg Prod.fst h) (by simp)

end SpotExchange.Exchange
