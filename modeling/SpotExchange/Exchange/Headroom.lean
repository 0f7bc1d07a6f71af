import SpotExchange.Engine.FillLog
import SpotExchange.Exchange.Handling

namespace SpotExchange.Exchange

open SpotExchange.Lib
open SpotExchange.Engine (OrderId CMatchingEngine COrder PassiveOrder MatchResult EngineShape Ghost
  fillLog cells flat view initialTradesCap)

/-!
# Matching ends, within the trade buffer

* `loadMakers_shape` — whatever Redis holds, loading makers leaves a well-formed engine;
* `loadedEngine_fills` — with the makers of `_handle_place`, a match fills each of them once at most;
* `matching_ends` — every match returns, and the worker's never fill the trade buffer.
-/

variable {e : CMatchingEngine} {G : Ghost} {s : Store}

/-! ### The loaded makers -/

/-- Loading keeps the shape of the engine, and no search in it goes on for ever. -/
theorem loadMakers_shape (makers : List BookOrder) (s : Store) (h : EngineShape e G) :
    ∃ e' G', (Prog.forEach makers loadMaker (s.setEngine e)).2 = s.setEngine e' ∧ EngineShape e' G' ∧
      (Prog.forEach makers loadMaker (s.setEngine e)).1 ≠ .error (.engine .diverged) := by
  induction makers generalizing e G with
  | nil => exact ⟨e, G, rfl, h, by simp [Prog.forEach]⟩
  | cons o makers ih =>
    have hread : (Prog.read Store.engine : M CMatchingEngine) (s.setEngine e) = (.ok e, s.setEngine e) :=
      rfl
    rw [Prog.forEach_cons]
    cases hadd : Engine.addPassiveOrder e o.passive with
    | error err =>
      have hone : loadMaker o (s.setEngine e) = (.error (.engine err), s.setEngine e) := by
        rw [loadMaker, Prog.bind_of_ok hread, hadd]
        rfl
      rw [Prog.bind_of_error hone]
      refine ⟨e, G, rfl, h, fun heq => ?_⟩
      obtain rfl : err = .diverged := by simpa using heq
      exact Engine.addPassiveOrder_ne_diverged h o.passive hadd
    | ok e₁ =>
      have hone : loadMaker o (s.setEngine e) = (.ok ⟨⟩, s.setEngine e₁) := by
        rw [loadMaker, Prog.bind_of_ok hread, hadd]
        rfl
      obtain ⟨G₁, h₁, -⟩ := h.run (.addPassiveOrder o.passive)
      simp only [Engine.EngineCall.run, hadd] at h₁
      rw [Prog.bind_of_ok hone]
      exact ih h₁

/-- The engine with the makers of a placement. -/
def loadedEngine (payload : OrderActionPayload) (s : Store) : Except PyError Unit × Store :=
  Prog.forEach (oppositeOrdersForMatch s.redis payload.symbol payload.side makerLimit) loadMaker
    (s.setEngine (Engine.reset s.engine))

/-- What `loadedEngine` has loaded if it returns. -/
theorem loadedEngine_eq_ok {payload : OrderActionPayload} {u : Unit} {t : Store}
    (hload : loadedEngine payload s = (.ok u, t)) :
    t = s.setEngine t.engine ∧
      Engine.loadAll (Engine.reset s.engine) (s.makers payload.symbol payload.side) = .ok t.engine := by
  obtain ⟨e₁, -, hstate, hloaded⟩ := loadMakers_spec
    (oppositeOrdersForMatch s.redis payload.symbol payload.side makerLimit) s (Engine.reset s.engine)
  obtain rfl : t = s.setEngine e₁ := (congrArg Prod.snd hload).symm.trans hstate
  exact ⟨rfl, hloaded u (congrArg Prod.fst hload)⟩

/-- **Each maker is filled once at most.** -/
theorem loadedEngine_fills (h : EngineShape s.engine G)
    (hpool : makerLimit ≤ s.engine.nodePoolCap) {payload : OrderActionPayload} {u : Unit} {t : Store}
    (hload : loadedEngine payload s = (.ok u, t)) (c : COrder) :
    (fillLog t.engine c).length ≤ makerLimit ∧ t.engine.tradesCap = s.engine.tradesCap := by
  obtain ⟨-, hall⟩ := loadedEngine_eq_ok hload
  have hplain := makers_plain s payload.symbol payload.side
  have hlen := makers_length_le s payload.symbol payload.side
  have hcap := makers_fit hpool s payload.symbol payload.side
  obtain ⟨G₁, h₁, hframe, -, hflat⟩ :=
    Engine.loadAll_spec (Engine.engineRep_reset h.direction) hplain hcap hall
  have hperm := hflat c.side.opp
  rw [show flat (view (Engine.reset s.engine) (fun _ => []) c.side.opp) = [] from rfl,
    List.nil_append] at hperm
  refine ⟨?_, hframe.tradesCap⟩
  -- one slot for each maker
  have hcells : (cells (G₁ c.side.opp)).length =
      ((s.makers payload.symbol payload.side).filter fun o => o.side = c.side.opp).length := by
    rw [← Engine.length_flat_view, hperm.length_eq, List.length_map]
  calc (fillLog t.engine c).length
      ≤ (cells (G₁ c.side.opp)).length := by
        apply Engine.fillLog_length_le h₁.toEngineShape c
        intro m hm
        obtain ⟨price, hnode⟩ := Engine.mem_flat_view hm
        obtain ⟨o, ho, hplaced⟩ := List.mem_map.mp (hperm.mem_iff.mp hnode)
        apply Engine.fillBound_of_plain
        rw [← hplaced]
        exact (hplain o (List.mem_of_mem_filter ho)).placed
    _ ≤ (s.makers payload.symbol payload.side).length := hcells.trans_le (List.length_filter_le _ _)
    _ ≤ makerLimit := hlen

/-! ### The match -/

/-- A taker that cannot be built is refused for its quantities. -/
theorem buildCorder_ne_engine (payload : OrderActionPayload) (err : Engine.EngineError) :
    buildCorder payload ≠ .error (.engine err) := by
  have hparts : ∀ visible hidden quantity, checkParts visible hidden quantity ≠ .error (.engine err) := by
    intro visible hidden quantity
    unfold checkParts
    split_ifs
    · simp
    · simp
    · split
      · split_ifs <;> simp
      · simp
  unfold buildCorder
  split_ifs with hq hice
  · simp
  · cases hx : checkParts payload.visibleQty payload.hiddenQty payload.quantity with
    | error err' =>
      rintro heq
      obtain rfl : err' = .engine err := by simpa using heq
      exact hparts _ _ _ hx
    | ok u => simp
  · simp

/-- **Placing an order always ends**, whatever makers Redis holds. -/
theorem matchPlaced_ends (h : EngineShape s.engine G) (payload : OrderActionPayload) :
    (matchPlaced payload s).1 ≠ .error (.engine .diverged) := by
  obtain ⟨e₁, G₁, hstate, h₁, hends⟩ := loadMakers_shape
    (oppositeOrdersForMatch s.redis payload.symbol payload.side makerLimit) s
    (Engine.engineRep_reset h.direction).toEngineShape
  rw [matchPlaced_apply]
  rcases hx : Prog.forEach (oppositeOrdersForMatch s.redis payload.symbol payload.side makerLimit)
    loadMaker (s.setEngine (Engine.reset s.engine)) with ⟨err | u, t⟩ <;> rw [hx] at hstate hends
  · rw [Prog.bind_of_error hx]
    exact fun heq => hends (congrArg Except.error (Except.error.inj heq))
  · obtain rfl : t = s.setEngine e₁ := hstate
    rw [Prog.bind_of_ok hx]
    unfold matchLoaded
    cases hbuild : buildCorder payload with
    | error err =>
      intro heq
      obtain rfl : err = .engine .diverged := Except.error.inj heq
      exact buildCorder_ne_engine payload _ hbuild
    | ok c =>
      obtain ⟨r, e₂, hmatch⟩ := Engine.matchActiveOrder_returns h₁ c
      show ((Prog.ofExcept ((Engine.matchActiveOrder e₁ c).mapError PyError.engine) >>= _)
        (s.setEngine e₁)).1 ≠ _
      rw [hmatch]
      show (Except.ok r : Except PyError MatchResult) ≠ _
      simp

/-- Its trades are those of the loaded engine. -/
theorem matchPlaced_trades {payload : OrderActionPayload} {r : MatchResult} {t : Store}
    (hrun : matchPlaced payload s = (.ok r, t)) :
    ∃ u t₁, loadedEngine payload s = (.ok u, t₁) ∧
      r.trades.length = min t₁.engine.tradesCap (fillLog t₁.engine (takerOrder payload)).length := by
  rw [matchPlaced_apply] at hrun
  obtain ⟨u, t₁, hload, hrun⟩ := Prog.bind_eq_ok.mp hrun
  refine ⟨u, t₁, hload, ?_⟩
  have hengine : t₁ = s.setEngine t₁.engine := (loadedEngine_eq_ok hload).1
  rw [hengine] at hrun
  rcases matchLoaded_apply payload s t₁.engine with ⟨r', e', -, hmatch, hx⟩ | ⟨err, hx⟩
  · obtain rfl : r' = r := Except.ok.inj (congrArg Prod.fst (hx.symm.trans hrun))
    exact Engine.matchActiveOrder_trades hmatch
  · exact absurd (congrArg Prod.fst (hx.symm.trans hrun)) (by simp)

/-! ### Every engine that calls lead to -/

/-- **Matching ends, and the worker's matches leave room in the trade buffer.**  On every engine that
    calls lead to, a match returns; it fills an iceberg that hides something twice at most, another
    maker once, and emits a trade for each fill while the buffer lasts.  Whatever Redis holds, the
    engine that `_handle_place` loads is filled a thousand times at most, with room for 1024. -/
theorem matching_ends :
    (∀ (calls : List Engine.EngineCall) (c : COrder), ∃ r e',
      Engine.matchActiveOrder (Engine.runCalls CMatchingEngine.new calls) c = .ok (r, e') ∧
      r.trades.length =
        min initialTradesCap (fillLog (Engine.runCalls CMatchingEngine.new calls) c).length ∧
      ∀ m, (fillLog (Engine.runCalls CMatchingEngine.new calls) c).count m ≤
        ((Engine.runCalls CMatchingEngine.new calls).nodePool m).fillBound) ∧
    ∀ (calls : List Engine.EngineCall) (s : Store) (payload : OrderActionPayload),
      s.engine = Engine.runCalls CMatchingEngine.new calls →
      (matchPlaced payload s).1 ≠ .error (.engine .diverged) ∧
      (∀ u t, loadedEngine payload s = (.ok u, t) → ∀ c,
        (fillLog t.engine c).length ≤ 1000 ∧ t.engine.tradesCap = 1024) ∧
      ∀ r t, matchPlaced payload s = (.ok r, t) → r.trades.length ≤ 1000 := by
  constructor
  · intro calls c
    obtain ⟨G, h, -, htrades⟩ := Engine.engineShape_runCalls calls
    obtain ⟨r, e', hrun⟩ := Engine.matchActiveOrder_returns h c
    refine ⟨r, e', hrun, ?_, fun m => ?_⟩
    · rw [← htrades]
      exact Engine.matchActiveOrder_trades hrun
    · apply (Engine.count_fillLog_le h c m).trans
      split_ifs
      · exact le_rfl
      · exact Nat.zero_le _
  · intro calls s payload hengine
    obtain ⟨G, h, hpool, htrades⟩ := Engine.engineShape_runCalls calls
    rw [← hengine] at h hpool htrades
    have hroom : makerLimit ≤ s.engine.nodePoolCap := by
      rw [hpool]
      decide
    have hfills : ∀ u t, loadedEngine payload s = (.ok u, t) → ∀ c,
        (fillLog t.engine c).length ≤ 1000 ∧ t.engine.tradesCap = 1024 := by
      intro u t hload c
      obtain ⟨hle, hsame⟩ := loadedEngine_fills h hroom hload c
      exact ⟨hle, hsame.trans htrades⟩
    refine ⟨matchPlaced_ends h payload, hfills, fun r t hrun => ?_⟩
    obtain ⟨u, t₁, hload, hlength⟩ := matchPlaced_trades hrun
    rw [hlength]
    exact (min_le_right _ _).trans (hfills u t₁ hload _).1

/-- An iceberg that shows 4 of 10 in front of a plain ask of 3. -/
def hiddenThenPlain : List Engine.EngineCall :=
  [.addPassiveOrder ⟨1, .sell, 100, 10, true, 4, 6⟩, .addPassiveOrder ⟨2, .sell, 100, 3, false, 0, 0⟩]

/-- A market order to buy 20. -/
def buyTwenty : OrderActionPayload where
  action := .place
  orderId := 3
  symbol := "BTC/USDT"
  userId := 9
  side := .buy
  type := .market
  quantity := 20

/-- The iceberg is filled twice, the plain ask once; without makers in Redis nothing is. -/
theorem matching_ends_buyTwenty :
    fillLog (Engine.runCalls CMatchingEngine.new hiddenThenPlain) (takerOrder buyTwenty) = [0, 0, 1] ∧
      (∃ r e', Engine.matchActiveOrder (Engine.runCalls CMatchingEngine.new hiddenThenPlain)
        (takerOrder buyTwenty) = .ok (r, e') ∧ r.trades.length = 3) ∧
      (matchPlaced buyTwenty (Store.start ∅ (fun _ => none) fun _ => none)).1 ≠
        .error (.engine .diverged) := by
  have hlog : fillLog (Engine.runCalls CMatchingEngine.new hiddenThenPlain) (takerOrder buyTwenty) =
      [0, 0, 1] := by decide +kernel
  obtain ⟨r, e', hrun, hlength, -⟩ := matching_ends.1 hiddenThenPlain (takerOrder buyTwenty)
  refine ⟨hlog, ⟨r, e', hrun, ?_⟩, (matching_ends.2 [] _ buyTwenty rfl).1⟩
  rw [hlength, hlog]
  rfl

end SpotExchange.Exchange
