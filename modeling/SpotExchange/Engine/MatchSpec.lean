import SpotExchange.Engine.LevelWalkSpec

namespace SpotExchange.Engine

open SpotExchange.Lib

/-!
# `match_active_order`, on represented engines

* `walkSide` — the walk of a taker along the levels of the opposite side;
* `SideWalk.run_spec` — the outer loop of `_match_internal` computes it;
* `coversWithin` — `_precheck_fok` on represented levels;
* `matchActiveOrder_shape`, `matchActiveOrder_spec` — the whole call.
-/

variable {pool : ℕ → OrderNode} {c : COrder} {cap : ℕ}

/-! ### Along the levels -/

/-- Walk a taker of which `r` is left along the levels, best price first. -/
def walkSide (c : COrder) : ℚ → List Level → Walked (List Level)
  | r, [] => { trades := [], rest := [], remaining := r }
  | r, l :: ls =>
      if r ≤ 0 ∨ c.outOfLimit l.price = true then { trades := [], rest := l :: ls, remaining := r }
      else
        let w := walkLevel c l.price r l.orders
        if w.rest = [] then
          let s := walkSide c w.remaining ls
          { s with trades := w.trades ++ s.trades }
        else
          { trades := w.trades, rest := { l with orders := w.rest } :: ls,
            remaining := w.remaining }

theorem walkSide_nonpos (c : COrder) {r : ℚ} (h : r ≤ 0) (ls : List Level) :
    walkSide c r ls = { trades := [], rest := ls, remaining := r } := by
  cases ls with
  | nil => rfl
  | cons l ls => rw [walkSide, if_pos (.inl h)]

section Equations

variable {r : ℚ} {l : Level} (ls : List Level)

/-- The limit excludes the best level. -/
theorem walkSide_out (h : c.outOfLimit l.price = true) :
    walkSide c r (l :: ls) = { trades := [], rest := l :: ls, remaining := r } := by
  rw [walkSide, if_pos (.inr h)]

/-- The best level is emptied. -/
theorem walkSide_emptied (hr : 0 < r) (h : ¬ c.outOfLimit l.price = true)
    (hrest : (walkLevel c l.price r l.orders).rest = []) :
    walkSide c r (l :: ls) =
      { walkSide c (walkLevel c l.price r l.orders).remaining ls with
        trades := (walkLevel c l.price r l.orders).trades ++
          (walkSide c (walkLevel c l.price r l.orders).remaining ls).trades } := by
  rw [walkSide, if_neg (not_or.mpr ⟨not_le.mpr hr, h⟩), if_pos hrest]

/-- Something of the best level is left. -/
theorem walkSide_kept (hr : 0 < r) (h : ¬ c.outOfLimit l.price = true)
    (hrest : (walkLevel c l.price r l.orders).rest ≠ []) :
    walkSide c r (l :: ls) =
      { trades := (walkLevel c l.price r l.orders).trades
        rest := { l with orders := (walkLevel c l.price r l.orders).rest } :: ls
        remaining := (walkLevel c l.price r l.orders).remaining } := by
  rw [walkSide, if_neg (not_or.mpr ⟨not_le.mpr hr, h⟩), if_neg hrest]

theorem walkSide_trades_le (hr : 0 < r) (h : ¬ c.outOfLimit l.price = true) :
    (walkLevel c l.price r l.orders).trades.length ≤ (walkSide c r (l :: ls)).trades.length := by
  by_cases hrest : (walkLevel c l.price r l.orders).rest = []
  · rw [walkSide_emptied ls hr h hrest, List.length_append]
    exact Nat.le_add_right _ _
  · rw [walkSide_kept ls hr h hrest]

end Equations

/-- A maker of which something is left has used up the taker. -/
theorem fillMaker_remaining {o o' : Resting} {r : ℚ} (h : (fillMaker o r).maker = some o') :
    (fillMaker o r).remaining = 0 := by
  have hplain : ∀ o r, (fillPlain o r).maker = some o' → (fillPlain o r).remaining = 0 := by
    intro o r h
    unfold fillPlain at h ⊢
    split_ifs at h ⊢
    rfl
  unfold fillMaker at h ⊢
  split_ifs at h ⊢
  · rfl
  · rfl
  · exact hplain _ _ h
  · exact hplain _ _ h

/-- A level of which something is left has used up the taker. -/
theorem walkLevel_remaining_le (c : COrder) (price : ℚ) (r : ℚ) (os : List Resting)
    (h : (walkLevel c price r os).rest ≠ []) : (walkLevel c price r os).remaining ≤ 0 := by
  induction os generalizing r with
  | nil => exact absurd rfl h
  | cons o os ih =>
    rcases le_or_gt r 0 with hr | hr
    · rw [walkLevel_nonpos c price hr]
      exact hr
    rw [walkLevel_cons_pos c price hr, walkAfter] at h ⊢
    cases hm : (fillMaker o r).maker with
    | some o' => exact (fillMaker_remaining hm).le
    | none =>
      rw [hm] at h
      exact ih _ h

/-! ### The outer loop -/

/-- The trades emitted so far. -/
def SideWalk.trades (s : SideWalk) : List TradeResult := slice s.tradesBuf s.tradesCount

/-- What the walk along the levels `L` has to have done when it computes `res`. -/
structure SideWalk.Ran (s : SideWalk) (L : List GhostLevel) (res : Walked (List Level))
    (s' : SideWalk) : Prop where
  grow : s'.poolGrowNeeded = false
  remaining : s'.remainingQty = res.remaining
  direction : s'.opp.isDescending = s.opp.isDescending
  frame : ∀ j ∉ cells L, s'.pool j = s.pool j
  trades : s'.trades = s.trades ++ res.trades
  rest : ∃ L', SideRep s'.pool s'.opp L' ∧ viewSide s'.pool L' = res.rest ∧
    (cells L').Sublist (cells L) ∧ ∀ g ∈ L', g.2 ≠ []

/-- A walk that does not start. -/
theorem SideWalk.ran_refl {s : SideWalk} {L : List GhostLevel} (h : SideRep s.pool s.opp L)
    (hne : ∀ g ∈ L, g.2 ≠ []) (hgrow : s.poolGrowNeeded = false) :
    s.Ran L { trades := [], rest := viewSide s.pool L, remaining := s.remainingQty } s :=
  ⟨hgrow, rfl, rfl, fun _ _ => rfl, by simp, L, h, rfl, List.Sublist.refl _, hne⟩

/-- One iteration: the walk along the first level, whose limit is not exceeded. -/
theorem SideWalk.step_spec (c : COrder) (cap : ℕ) {g : GhostLevel} {L : List GhostLevel}
    {fuelLevel : ℕ} {s : SideWalk}
    (h : SideRep s.pool s.opp (g :: L)) (hnd : g.2.Nodup) (hdisj : ∀ j ∈ cells L, j ∉ g.2)
    (hidx : s.lvlIdx = 0) (hgrow : s.poolGrowNeeded = false)
    (hout : ¬ c.outOfLimit g.1.price = true) (hfuel : 2 * g.2.length ≤ fuelLevel)
    (hfit : s.tradesCount + (walkLevel c g.1.price s.remainingQty
      (viewLevel s.pool g).orders).trades.length ≤ cap) :
    ∃ w, SideWalk.step c cap fuelLevel s = some (s.leave w) ∧
      s.enter.Ran g.2 (walkLevel c g.1.price s.remainingQty (viewLevel s.pool g).orders) w ∧
      w.lvl.price = g.1.price ∧
      ∃ ids', ids' <:+ g.2 ∧ LevelRep w.pool w.lvl ids' ∧
        (ids'.map fun i => (w.pool i).resting) =
          (walkLevel c g.1.price s.remainingQty (viewLevel s.pool g).orders).rest ∧
        SideRep w.pool { s.opp with levels := Function.update s.opp.levels s.lvlIdx w.lvl }
          ((w.lvl, ids') :: L) := by
  have hlvl : s.opp.levels s.lvlIdx = g.1 := by rw [hidx]; exact h.level_eq (by simp)
  have hrep : LevelRep s.pool g.1 g.2 := h.rep g List.mem_cons_self
  -- the inner loop runs on the level at the front
  have hcorrect := LevelWalk.correct c cap hnd s.enter
    (by simp only [SideWalk.enter, hlvl]; exact hrep)
    (by simp only [SideWalk.enter, hlvl]; exact hrep.chain.head_eq) hgrow
  simp only [SideWalk.enter, hlvl] at hcorrect
  obtain ⟨w, hrun, hran⟩ := hcorrect hfit
  obtain ⟨ids', hsuf, hrep', horders⟩ := hran.rest
  refine ⟨w, ?_, ?_, hran.price, ids', hsuf, hrep', horders, ?_⟩
  · rw [SideWalk.step, hlvl, if_neg hout, SideWalk.enter, hlvl, whileFuel_mono hrun hfuel]
    rfl
  · rw [SideWalk.enter, hlvl]
    exact hran
  · have hset := h.set (i := 0) (g := (w.lvl, ids')) (by simp) hran.price hrep'
      fun j hj => hran.frame j (hdisj j hj)
    rwa [hidx]

/-- After a level that was emptied. -/
theorem SideWalk.leave_emptied (s : SideWalk) {w : LevelWalk} (hgrow : w.poolGrowNeeded = false)
    (hcount : w.lvl.orderCount = 0) :
    (s.leave w).pool = w.pool ∧
      (s.leave w).opp = removeLevel
        { s.opp with levels := Function.update s.opp.levels s.lvlIdx w.lvl } s.lvlIdx ∧
      (s.leave w).lvlIdx = s.lvlIdx ∧ (s.leave w).remainingQty = w.remainingQty ∧
      (s.leave w).trades = w.trades ∧ (s.leave w).poolGrowNeeded = false ∧
      (s.leave w).stopped = s.stopped := by
  simp [SideWalk.leave, hgrow, hcount, SideWalk.trades, LevelWalk.trades]

/-- After a level of which something is left. -/
theorem SideWalk.leave_kept (s : SideWalk) {w : LevelWalk} (hgrow : w.poolGrowNeeded = false)
    (hcount : w.lvl.orderCount ≠ 0) :
    (s.leave w).pool = w.pool ∧
      (s.leave w).opp =
        { s.opp with levels := Function.update s.opp.levels s.lvlIdx w.lvl } ∧
      (s.leave w).remainingQty = w.remainingQty ∧ (s.leave w).trades = w.trades ∧
      (s.leave w).poolGrowNeeded = false := by
  simp [SideWalk.leave, hgrow, hcount, SideWalk.trades, LevelWalk.trades]

/-- The walk along the levels. -/
theorem SideWalk.run_spec (c : COrder) (cap : ℕ) {L : List GhostLevel} {fuel fuelLevel : ℕ} {s : SideWalk}
    (h : SideRep s.pool s.opp L) (hnd : (cells L).Nodup) (hne : ∀ g ∈ L, g.2 ≠ [])
    (hidx : s.lvlIdx = 0) (hgrow : s.poolGrowNeeded = false) (hstop : s.stopped = false)
    (hfuel : L.length ≤ fuel) (hfuelLevel : 2 * (cells L).length ≤ fuelLevel)
    (hfit : s.tradesCount +
      (walkSide c s.remainingQty (viewSide s.pool L)).trades.length ≤ cap) :
    ∃ s', whileFuel SideWalk.running (SideWalk.step c cap fuelLevel) fuel s = some s' ∧
      s.Ran L (walkSide c s.remainingQty (viewSide s.pool L)) s' := by
  induction L generalizing s fuel with
  | nil =>
    refine ⟨s, whileFuel_of_not ?_ fuel, SideWalk.ran_refl h hne hgrow⟩
    simp [SideWalk.running, h.size_eq]
  | cons g L ih =>
    -- induction on the levels: the front one is walked, then the walk goes on or ends
    rcases le_or_gt s.remainingQty 0 with hr | hr
    · rw [walkSide_nonpos c hr]
      exact ⟨s, whileFuel_of_not (by simp [SideWalk.running, not_lt.mpr hr]) fuel,
        SideWalk.ran_refl h hne hgrow⟩
    obtain ⟨fuel, rfl⟩ : ∃ k, fuel = k + 1 := ⟨fuel - 1, by simp at hfuel; omega⟩
    have hrunning : s.running = true := by
      simp [SideWalk.running, hr, hidx, hstop, h.size_eq]
    have hview : viewSide s.pool (g :: L) = viewLevel s.pool g :: viewSide s.pool L := rfl
    rw [hview] at hfit ⊢
    by_cases hout : c.outOfLimit g.1.price = true
    · -- the limit excludes the level: `break`
      have hlvl : s.opp.levels s.lvlIdx = g.1 := by rw [hidx]; exact h.level_eq (by simp)
      rw [walkSide_out (l := viewLevel s.pool g) _ hout]
      refine ⟨{ s with stopped := true }, ?_, ?_⟩
      · rw [whileFuel_succ hrunning (by rw [SideWalk.step, hlvl, if_pos hout])]
        exact whileFuel_of_not (by simp [SideWalk.running]) fuel
      · exact ⟨hgrow, rfl, rfl, fun _ _ => rfl, by simp [SideWalk.trades], g :: L, h, rfl,
          List.Sublist.refl _, hne⟩
    have hsplit : (g.2 ++ cells L).Nodup := hnd
    have hdisj : ∀ j ∈ cells L, j ∉ g.2 := fun j hj hj' =>
      (List.nodup_append.mp hsplit).2.2 j hj' j hj rfl
    rw [cells_cons, List.length_append] at hfuelLevel
    obtain ⟨w, hstep, hran, hprice, ids', hsuf, hrep', horders, hset⟩ :=
      SideWalk.step_spec c cap h (List.nodup_append.mp hsplit).1 hdisj hidx hgrow hout
        (by omega : 2 * g.2.length ≤ fuelLevel)
        (le_trans (Nat.add_le_add_left
          (walkSide_trades_le (l := viewLevel s.pool g) _ hr hout) _) hfit)
    set res := walkLevel c g.1.price s.remainingQty (viewLevel s.pool g).orders with hres
    have hrest : res.rest = [] ↔ ids' = [] := by rw [← horders, List.map_eq_nil_iff]
    have hframe : ∀ j ∈ cells L, w.pool j = s.pool j := fun j hj => hran.frame j (hdisj j hj)
    have hwtrades : slice w.tradesBuf w.tradesCount = s.trades ++ res.trades := hran.trades
    by_cases hnil : ids' = []
    · -- the level is emptied: the others shift into its place, and the walk goes on
      rw [walkSide_emptied (l := viewLevel s.pool g) _ hr hout (hrest.mpr hnil)] at hfit ⊢
      obtain ⟨hpool, hopp, hidx', hremaining, htrades, hgrow', hstop'⟩ :=
        s.leave_emptied hran.grow (hrep'.count_eq_zero.mpr hnil)
      generalize s.leave w = s₁ at hstep hpool hopp hidx' hremaining htrades hgrow' hstop'
      have hview' : viewSide s₁.pool L = viewSide s.pool L := by
        rw [hpool]; exact viewSide_congr hframe
      have hside : SideRep s₁.pool s₁.opp L := by
        rw [hpool, hopp, hidx]
        exact (hidx ▸ hset).removeLevel (i := 0) (by simp)
      have htrades' : s₁.trades = s.trades ++ res.trades := htrades.trans hwtrades
      have hcount' : s₁.tradesCount = s.tradesCount + res.trades.length := by
        simpa [SideWalk.trades] using congrArg List.length htrades'
      have hremaining' : s₁.remainingQty = res.remaining := hremaining.trans hran.remaining
      obtain ⟨s', hrun, hran'⟩ := ih (s := s₁) hside
        (List.nodup_append.mp hsplit).2.1 (fun g' hg' => hne g' (List.mem_cons_of_mem _ hg'))
        (hidx'.trans hidx) hgrow' (hstop'.trans hstop)
        (Nat.le_of_succ_le_succ hfuel) (by omega)
        (by rw [hcount', hremaining', hview', Nat.add_assoc, ← List.length_append]; exact hfit)
      rw [hremaining', hview'] at hran'
      refine ⟨s', (whileFuel_succ hrunning hstep fuel).trans hrun, hran'.grow, hran'.remaining,
        ?_, ?_, ?_, ?_⟩
      · rw [hran'.direction, hopp]; rfl
      · intro j hj
        have hj' : j ∉ g.2 ∧ j ∉ cells L := by simpa [not_or] using hj
        rw [hran'.frame j hj'.2, hpool]
        exact hran.frame j hj'.1
      · rw [hran'.trades, htrades', List.append_assoc]
        rfl
      · obtain ⟨L', hL', hviewL', hsub, hneL'⟩ := hran'.rest
        exact ⟨L', hL', hviewL', hsub.trans (List.sublist_append_right _ _), hneL'⟩
    · -- something of it is left: the taker is used up
      have hle : w.remainingQty ≤ 0 :=
        hran.remaining.le.trans (walkLevel_remaining_le _ _ _ _ (mt hrest.mp hnil))
      rw [walkSide_kept (l := viewLevel s.pool g) _ hr hout (mt hrest.mp hnil)]
      obtain ⟨hpool, hopp, hremaining, htrades, hgrow'⟩ :=
        s.leave_kept hran.grow (mt hrep'.count_eq_zero.mp hnil)
      generalize s.leave w = s₁ at hstep hpool hopp hremaining htrades hgrow'
      have hview' : viewSide w.pool L = viewSide s.pool L := viewSide_congr hframe
      refine ⟨s₁, ?_, hgrow', hremaining.trans hran.remaining, by rw [hopp], ?_,
        htrades.trans hwtrades, (w.lvl, ids') :: L, ?_, ?_, hsuf.sublist.append_right _, ?_⟩
      · rw [whileFuel_succ hrunning hstep]
        exact whileFuel_of_not (by simp [SideWalk.running, hremaining, not_lt.mpr hle]) fuel
      · intro j hj
        rw [hpool]
        exact hran.frame j fun hj' => hj (List.mem_append_left _ hj')
      · rw [hpool, hopp]; exact hset
      · simp only [viewSide, List.map_cons, viewLevel, horders, hprice, hpool] at hview' ⊢
        rw [hview']
        rfl
      · intro g' hg'
        rcases List.mem_cons.mp hg' with rfl | hg'
        · exact hnil
        · exact hne g' (List.mem_cons_of_mem _ hg')

/-! ### The checks before the loops -/

/-- What is left to fill at a level. -/
def Level.volume (l : Level) : ℚ := (l.orders.map Resting.remainingQty).sum

/-- `_precheck_fok` on represented levels. -/
def coversWithin (c : COrder) : ℚ → List Level → Bool
  | _, [] => false
  | cumulative, l :: ls =>
      if c.outOfLimit l.price then false
      else if cumulative + l.volume ≥ c.quantity then true
      else coversWithin c (cumulative + l.volume) ls

/-- `_would_cross` on represented levels: the best one is within the limit. -/
def crossesBest (c : COrder) (ls : List Level) : Bool :=
  c.price.isSome && ls.head?.any fun l => !c.outOfLimit l.price

theorem LevelRep.volume_eq {lvl : PriceLevel} {ids : List ℕ} (h : LevelRep pool lvl ids) :
    lvl.totalVolume = (viewLevel pool (lvl, ids)).volume := by
  rw [h.volume, Level.volume, viewLevel, List.map_map]
  rfl

theorem precheckLoop_eq {L : List GhostLevel} (h : ∀ g ∈ L, LevelRep pool g.1 g.2)
    (cumulative : ℚ) :
    precheckLoop c cumulative (L.map Prod.fst) = coversWithin c cumulative (viewSide pool L) := by
  induction L generalizing cumulative with
  | nil => rfl
  | cons g L ih =>
    have hvol := (h g List.mem_cons_self).volume_eq
    have hih := ih (fun g' hg' => h g' (List.mem_cons_of_mem _ hg')) (cumulative + g.1.totalVolume)
    rw [List.map_cons, precheckLoop, hih, hvol]
    rfl

theorem precheckFok_eq {e : CMatchingEngine} {G : Ghost} (h : EngineShape e G) (c : COrder) :
    precheckFok e c = coversWithin c 0 (view e G c.side.opp) := by
  rw [precheckFok, (h.side c.side.opp).levels, precheckLoop_eq (h.side c.side.opp).rep]
  rfl

theorem wouldCross_eq {e : CMatchingEngine} {G : Ghost} (h : EngineShape e G) (c : COrder) :
    wouldCross e c = crossesBest c (view e G c.side.opp) := by
  have hside := h.side c.side.opp
  rw [wouldCross, crossesBest, view, viewSide]
  cases hp : c.price with
  | none => rfl
  | some p =>
    cases hG : G c.side.opp with
    | nil =>
      have hsize : (e.bookSide c.side.opp).size = 0 := by rw [hside.size_eq, hG]; rfl
      simp [hsize]
    | cons g L =>
      rw [hG] at hside
      have hsize : 0 < (e.bookSide c.side.opp).size := by rw [hside.size_eq]; simp
      have hlvl : (e.bookSide c.side.opp).levels 0 = g.1 := hside.level_eq (by simp)
      simp only [hsize, hlvl, decide_true, Bool.true_and, Option.isSome_some, List.map_cons,
        List.head?_cons, Option.any_some, viewLevel]
      rw [Bool.eq_iff_iff]
      cases hs : c.side <;> simp [COrder.outOfLimit, hp, hs]

/-! ### The call -/

/-- The outcome of a taker that got to the loops. -/
def walkOutcome (c : COrder) (w : Walked (List Level)) : CMatchOutcome :=
  if 0 < w.remaining ∧ (c.type = .market ∨ c.type = .ioc) ∧ w.trades.length = 0 then .noLiquidity
  else .ok

/-- `match_active_order` on the levels of the opposite side: what it returns, and the levels
    afterwards. -/
def matchLevels (c : COrder) (ls : List Level) : MatchResult × List Level :=
  if c.type = .postOnly then
    ({ trades := [], outcome := if crossesBest c ls then .postOnlyCross else .ok,
       remainingQty := c.remainingQty }, ls)
  else if c.type = .fok ∧ coversWithin c 0 ls = false then
    ({ trades := [], outcome := .fokRejected, remainingQty := c.remainingQty }, ls)
  else
    let w := walkSide c c.remainingQty ls
    ({ trades := w.trades, outcome := walkOutcome c w, remainingQty := w.remaining }, w.rest)

/-- A taker that gets to the loops. -/
theorem matchLevels_walk {c : COrder} (ls : List Level) (hpost : c.type ≠ .postOnly)
    (hrej : ¬ (c.type = .fok ∧ coversWithin c 0 ls = false)) :
    matchLevels c ls =
      ({ trades := (walkSide c c.remainingQty ls).trades,
         outcome := walkOutcome c (walkSide c c.remainingQty ls),
         remainingQty := (walkSide c c.remainingQty ls).remaining },
       (walkSide c c.remainingQty ls).rest) := by
  rw [matchLevels, if_neg hpost, if_neg hrej]

/-- The trade buffer is no part of what an engine represents. -/
theorem EngineShape.withTrades {e : CMatchingEngine} {G : Ghost} (h : EngineShape e G)
    (buf : ℕ → TradeResult) (n cap : ℕ) :
    EngineShape { e with tradesBuf := buf, tradesCount := n, tradesCap := cap } G where
  side := fun s => by cases s; exacts [h.side .buy, h.side .sell]
  nonempty := h.nonempty
  direction := fun s => by cases s; exacts [h.direction .buy, h.direction .sell]
  nodup := h.nodup
  bound := h.bound

/-- `_match_internal`, from an empty trade buffer that has room for the fills. -/
theorem matchInternal_shape {e : CMatchingEngine} {G : Ghost} (h : EngineShape e G) (c : COrder)
    (hcount : e.tradesCount = 0)
    (hfit : (matchLevels c (view e G c.side.opp)).1.trades.length ≤ e.tradesCap) :
    ∃ e' G', matchInternal e c = .ok ((matchLevels c (view e G c.side.opp)).1.outcome,
        (matchLevels c (view e G c.side.opp)).1.remainingQty, e') ∧
      slice e'.tradesBuf e'.tradesCount = (matchLevels c (view e G c.side.opp)).1.trades ∧
      EngineShape e' G' ∧
      view e' G' c.side.opp = (matchLevels c (view e G c.side.opp)).2 ∧
      view e' G' c.side = view e G c.side ∧
      e'.nodePoolSize = e.nodePoolSize ∧ e'.nodePoolCap = e.nodePoolCap ∧
      e'.tradesCap = e.tradesCap := by
  have hempty : slice e.tradesBuf e.tradesCount = [] := by rw [hcount]; rfl
  unfold matchLevels at hfit ⊢
  -- POST_ONLY and a FOK that falls short return before the loops
  by_cases hpost : c.type = .postOnly
  · simp only [if_pos hpost] at hfit ⊢
    refine ⟨e, G, ?_, hempty, h, rfl, rfl, rfl, rfl, rfl⟩
    simp only [matchInternal, if_pos hpost, wouldCross_eq h c]
  by_cases hrej : c.type = .fok ∧ coversWithin c 0 (view e G c.side.opp) = false
  · simp only [if_neg hpost, if_pos hrej] at hfit ⊢
    refine ⟨e, G, ?_, hempty, h, rfl, rfl, rfl, rfl, rfl⟩
    simp only [matchInternal, if_neg hpost, precheckFok_eq h c, if_pos hrej]
  simp only [if_neg hpost, if_neg hrej] at hfit ⊢
  -- the loops
  let opp := e.bookSide c.side.opp
  let s₀ : SideWalk :=
    { pool := e.nodePool, opp := opp, lvlIdx := 0, remainingQty := c.remainingQty,
      tradesBuf := e.tradesBuf, tradesCount := e.tradesCount, poolGrowNeeded := false,
      stopped := false }
  have hside : SideRep s₀.pool s₀.opp (G c.side.opp) := h.side c.side.opp
  obtain ⟨s, hrun, hran⟩ := SideWalk.run_spec c e.tradesCap (s := s₀) hside (h.cells_nodup _) (h.nonempty _)
    rfl rfl rfl hside.size_eq.ge (Nat.mul_le_mul_left 2 (h.length_cells_le _))
    (by simp only [s₀, hcount, Nat.zero_add]; exact hfit)
  have htrades : slice s.tradesBuf s.tradesCount =
      (walkSide c c.remainingQty (view e G c.side.opp)).trades := by
    have := hran.trades
    simp only [SideWalk.trades, s₀, hempty] at this
    exact this
  have hlen : s.tradesCount = (walkSide c c.remainingQty (view e G c.side.opp)).trades.length := by
    rw [← htrades, slice_length]
  obtain ⟨L', hL', hviewL', hsub, hneL'⟩ := hran.rest
  let e' : CMatchingEngine :=
    { e.setBookSide c.side.opp s.opp with
      nodePool := s.pool, tradesBuf := s.tradesBuf, tradesCount := s.tradesCount }
  have hside' : e'.bookSide c.side.opp = s.opp := CMatchingEngine.bookSide_set_self e _ _
  have hsize' : e'.nodePoolSize = e.nodePoolSize := CMatchingEngine.set_nodePoolSize e _ _
  -- the walk writes no node of the other side
  have hframe : ∀ j ∈ cells (G c.side.opp.opp), s.pool j = e.nodePool j := fun j hj =>
    hran.frame j fun hj' => h.not_mem_opp hj' hj
  refine ⟨e', Function.update G c.side.opp L', ?_, htrades, ?_, ?_, ?_, hsize',
    CMatchingEngine.set_nodePoolCap e _ _, CMatchingEngine.set_tradesCap e _ _⟩
  · simp only [matchInternal, if_neg hpost, precheckFok_eq h c, if_neg hrej]
    rw [show whileFuel SideWalk.running _ _ _ = some s from hrun]
    simp only [hran.grow, Bool.false_eq_true, if_false, hran.remaining]
    rw [walkOutcome, ← hlen]
    rfl
  · refine h.setSide c.side.opp (hside'.symm ▸ hL') (by rw [hside']; exact hran.direction)
      (CMatchingEngine.bookSide_set_opp e _ _) hneL' (hsub.nodup (h.cells_nodup _)) ?_ hsize'.ge
      hframe
    intro j hj
    exact ⟨h.not_mem_opp (hsub.subset hj), hsize' ▸ h.bound _ j (hsub.subset hj)⟩
  · rw [view, Function.update_self]
    exact hviewL'
  · have hview : view e' (Function.update G c.side.opp L') c.side.opp.opp =
        view e G c.side.opp.opp := view_update_opp c.side.opp hframe
    rwa [opp_opp] at hview

/-- **`match_active_order`.** When the trade buffer has room for the fills, the call computes
    `matchLevels` of the opposite side, and leaves the taker's side alone. -/
theorem matchActiveOrder_shape {e : CMatchingEngine} {G : Ghost} (h : EngineShape e G) (c : COrder)
    (hfit : (matchLevels c (view e G c.side.opp)).1.trades.length ≤ e.tradesCap) :
    ∃ e' G', matchActiveOrder e c = .ok ((matchLevels c (view e G c.side.opp)).1, e') ∧
      EngineShape e' G' ∧
      view e' G' c.side.opp = (matchLevels c (view e G c.side.opp)).2 ∧
      view e' G' c.side = view e G c.side ∧
      e'.nodePoolSize = e.nodePoolSize ∧ e'.nodePoolCap = e.nodePoolCap ∧
      e'.tradesCap = e.tradesCap := by
  obtain ⟨e', G', hrun, htrades, hrest⟩ :=
    matchInternal_shape (h.withTrades e.tradesBuf 0 e.tradesCap) c rfl hfit
  refine ⟨e', G', ?_, hrest⟩
  rw [matchActiveOrder, hrun]
  simp only [htrades]
  rfl

/-! ### Valid orders stay valid -/

theorem fillMaker_valid {o o' : Resting} (h : o.Valid) {r : ℚ}
    (hm : (fillMaker o r).maker = some o') : o'.Valid := by
  have hplain : ∀ o : Resting, o.Valid → ¬ (o.isIceberg = true ∧ o.visibleQty < o.remainingQty) →
      ∀ r, (fillPlain o r).maker = some o' → o'.Valid := by
    intro o h hice r hm
    have hav : o.visibleAvail = o.remainingQty := if_neg hice
    unfold fillPlain at hm
    split_ifs at hm with hr
    exact Option.some.inj hm ▸ h.reduce (hav.symm ▸ hr)
  unfold fillMaker at hm
  split_ifs at hm with hice h1 h2
  · have hav : o.visibleAvail = o.visibleQty := if_pos hice
    exact Option.some.inj hm ▸ h.reduce (hav.symm ▸ h1)
  · exact Option.some.inj hm ▸ Resting.refill_valid hice.2
  · refine hplain o.refill (Resting.refill_valid hice.2) ?_ _ hm
    exact fun h => lt_irrefl _ h.2
  · exact hplain o h hice r hm

theorem walkLevel_valid (c : COrder) (price r : ℚ) {os : List Resting} (h : ∀ o ∈ os, o.Valid) :
    ∀ o ∈ (walkLevel c price r os).rest, o.Valid := by
  induction os generalizing r with
  | nil => exact h
  | cons o os ih =>
    rw [List.forall_mem_cons] at h
    rcases le_or_gt r 0 with hr | hr
    · rw [walkLevel_nonpos c price hr]
      exact List.forall_mem_cons.mpr h
    rw [walkLevel_cons_pos c price hr, walkAfter]
    cases hm : (fillMaker o r).maker with
    | some o' => exact List.forall_mem_cons.mpr ⟨fillMaker_valid h.1 hm, h.2⟩
    | none => exact ih _ h.2

theorem walkSide_valid (c : COrder) (r : ℚ) {ls : List Level}
    (h : ∀ l ∈ ls, ∀ o ∈ l.orders, o.Valid) :
    ∀ l ∈ (walkSide c r ls).rest, ∀ o ∈ l.orders, o.Valid := by
  induction ls generalizing r with
  | nil => exact h
  | cons l ls ih =>
    have hall := h
    rw [List.forall_mem_cons] at h
    rcases le_or_gt r 0 with hr | hr
    · rw [walkSide_nonpos c hr]
      exact hall
    by_cases hout : c.outOfLimit l.price = true
    · rw [walkSide_out ls hout]
      exact hall
    by_cases hrest : (walkLevel c l.price r l.orders).rest = []
    · rw [walkSide_emptied ls hr hout hrest]
      exact ih _ h.2
    · rw [walkSide_kept ls hr hout hrest]
      exact List.forall_mem_cons.mpr ⟨walkLevel_valid c _ _ h.1, h.2⟩

theorem matchLevels_valid (c : COrder) {ls : List Level}
    (h : ∀ l ∈ ls, ∀ o ∈ l.orders, o.Valid) :
    ∀ l ∈ (matchLevels c ls).2, ∀ o ∈ l.orders, o.Valid := by
  rw [matchLevels]
  by_cases hpost : c.type = .postOnly
  · rw [if_pos hpost]
    exact h
  rw [if_neg hpost]
  by_cases hrej : c.type = .fok ∧ coversWithin c 0 ls = false
  · rw [if_pos hrej]
    exact h
  · rw [if_neg hrej]
    exact walkSide_valid c _ h

/-- `match_active_order` keeps all orders valid. -/
theorem matchActiveOrder_spec {e : CMatchingEngine} {G : Ghost} (h : EngineRep e G) (c : COrder)
    (hfit : (matchLevels c (view e G c.side.opp)).1.trades.length ≤ e.tradesCap) :
    ∃ e' G', matchActiveOrder e c = .ok ((matchLevels c (view e G c.side.opp)).1, e') ∧
      EngineRep e' G' ∧
      view e' G' c.side.opp = (matchLevels c (view e G c.side.opp)).2 ∧
      view e' G' c.side = view e G c.side ∧
      e'.nodePoolSize = e.nodePoolSize ∧ e'.nodePoolCap = e.nodePoolCap ∧
      e'.tradesCap = e.tradesCap := by
  obtain ⟨e', G', hrun, hshape, hview, hsame, hrest⟩ :=
    matchActiveOrder_shape h.toEngineShape c hfit
  refine ⟨e', G', hrun, hshape.rep fun s => ?_, hview, hsame, hrest⟩
  rcases eq_or_eq_opp c.side s with rfl | rfl
  · rw [hsame]
    exact h.orders_valid _
  · rw [hview]
    exact matchLevels_valid c (h.orders_valid _)

/-! ### How many fills a call needs -/

/-- The fills that `match_active_order` emits when its buffer has two places for every node of
    the pool: a maker takes one fill, and an iceberg that is refilled a second one. -/
def fillsNeeded (e : CMatchingEngine) (c : COrder) : ℕ :=
  match matchActiveOrder { e with tradesCap := 2 * e.nodePoolSize } c with
  | .ok (result, _) => result.trades.length
  | .error _ => 0

theorem fillMaker_fills_le (o : Resting) (r : ℚ) : (fillMaker o r).fills.length ≤ 2 := by
  have hplain : ∀ o r, (fillPlain o r).fills.length = 1 := by
    intro o r
    unfold fillPlain
    split_ifs <;> rfl
  unfold fillMaker
  split_ifs <;> simp [hplain]

theorem walkLevel_trades_le (c : COrder) (price r : ℚ) (os : List Resting) :
    (walkLevel c price r os).trades.length ≤ 2 * os.length := by
  induction os generalizing r with
  | nil => simp [walkLevel]
  | cons o os ih =>
    rcases le_or_gt r 0 with hr | hr
    · rw [walkLevel_nonpos c price hr]; simp
    have hf := fillMaker_fills_le o r
    rw [walkLevel_cons_pos c price hr, walkAfter, List.length_cons]
    cases (fillMaker o r).maker with
    | some o' => simp only [List.length_map]; omega
    | none =>
      have := ih (fillMaker o r).remaining
      simp only [List.length_append, List.length_map]; omega

/-- The orders of all levels. -/
def flatten (ls : List Level) : List Resting := ls.flatMap Level.orders

theorem walkSide_trades_length_le (c : COrder) (r : ℚ) (ls : List Level) :
    (walkSide c r ls).trades.length ≤ 2 * (flatten ls).length := by
  induction ls generalizing r with
  | nil => simp [walkSide]
  | cons l ls ih =>
    have hl := walkLevel_trades_le c l.price r l.orders
    have hih := ih (walkLevel c l.price r l.orders).remaining
    rw [walkSide]
    simp only [flatten, List.flatMap_cons, List.length_append] at hih ⊢
    split_ifs
    · simp
    · simp only [List.length_append]; omega
    · simp only; omega

theorem length_flatten_view (e : CMatchingEngine) (G : Ghost) (s : CSide) :
    (flatten (view e G s)).length = (cells (G s)).length := by
  simp [flatten, view, viewSide, viewLevel, cells, List.length_flatMap, List.flatMap_map]

theorem fillsNeeded_eq {e : CMatchingEngine} {G : Ghost} (h : EngineShape e G) (c : COrder) :
    fillsNeeded e c = (matchLevels c (view e G c.side.opp)).1.trades.length := by
  have hlen : (matchLevels c (view e G c.side.opp)).1.trades.length ≤ 2 * e.nodePoolSize := by
    have hcells := h.length_cells_le c.side.opp
    have hwalk := walkSide_trades_length_le c c.remainingQty (view e G c.side.opp)
    rw [length_flatten_view] at hwalk
    unfold matchLevels
    by_cases hpost : c.type = .postOnly
    · rw [if_pos hpost]
      exact Nat.zero_le _
    rw [if_neg hpost]
    split_ifs
    · exact Nat.zero_le _
    · exact hwalk.trans (Nat.mul_le_mul_left 2 hcells)
  obtain ⟨e', G', hrun, -⟩ := matchActiveOrder_shape
    (h.withTrades e.tradesBuf e.tradesCount (2 * e.nodePoolSize)) c hlen
  rw [fillsNeeded, hrun]
  rfl

end SpotExchange.Engine
