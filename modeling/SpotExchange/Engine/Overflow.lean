import SpotExchange.Engine.Invariant

namespace SpotExchange.Engine

open SpotExchange.Lib

/-!
# Matches that run out of trade buffer

A match that needs more fills than the buffer holds breaks out of both loops in the middle of a
fill: the maker, its level and the taker are already reduced, the trade is not emitted.  The
pointer structure survives this, so an engine keeps its shape whatever is called on it.

* `LevelWalk.run_cases`, `SideWalk.run_cases` — a walk is the one that a larger buffer allows, or
  it stops at a full buffer;
* `matchActiveOrder_overflow` — what the call returns then;
* `engineShape_runCalls` — every engine that any calls lead to has its shape.
-/

variable {c : COrder} {cap : ℕ}

/-! ### Along one level -/

/-- A fill leaves something of the maker, or nothing. -/
theorem takeFromMaker_live_or_zero {n : OrderNode} (hs : n.resting.Sound) (r : ℚ) :
    (takeFromMaker n r).1.resting.Live ∨ (takeFromMaker n r).1.remainingQty = 0 := by
  by_cases hlt : r < n.resting.visibleAvail
  · exact .inl ((takeFromMaker_of_lt hlt).1 ▸ hs.reduce hlt)
  by_cases hice : n.isIceberg = true ∧ n.visibleQty < n.remainingQty
  · have hav : n.resting.visibleAvail = n.visibleQty := if_pos hice
    have htake := takeFromMaker_refill hice (hav ▸ not_lt.mp hlt)
    exact .inl (htake.1 ▸ (Resting.refill_valid hice.2).live)
  · have hav : n.resting.visibleAvail = n.remainingQty := if_neg hice
    exact .inr (takeFromMaker_all hice (hav ▸ not_lt.mp hlt)).1

/-- A fill leaves the maker sound. -/
theorem takeFromMaker_sound {n : OrderNode} (hs : n.resting.Sound) (r : ℚ) :
    (takeFromMaker n r).1.resting.Sound := by
  rcases takeFromMaker_live_or_zero hs r with hlive | hzero
  · exact hlive.sound
  · refine ⟨hzero.ge, fun hi => ?_⟩
    have hplain : n.isIceberg = false := by
      unfold takeFromMaker at hi
      split at hi <;> exact hi
    have hvis : (takeFromMaker n r).1.visibleQty = n.visibleQty := by
      unfold takeFromMaker
      split <;> simp [hplain]
    show 0 < (takeFromMaker n r).1.visibleQty
    rw [hvis]
    exact hs.visible_pos hplain

/-- The walk `w` is still inside the level on which `w₀` started with the orders `ids`. -/
structure LevelWalk.Inside (w₀ : LevelWalk) (cap : ℕ) (ids : List ℕ) (w : LevelWalk) : Prop where
  grow : w.poolGrowNeeded = false
  count : w.tradesCount ≤ cap
  price : w.lvl.price = w₀.lvl.price
  frame : ∀ j ∉ ids, w.pool j = w₀.pool j
  shape : ∃ ids', ids' <:+ ids ∧ LevelRep w.pool w.lvl ids' ∧ w.maker = ids'.head?

/-- The walk `w` has stopped there at a full buffer. -/
structure LevelWalk.Stuck (w₀ : LevelWalk) (cap : ℕ) (ids : List ℕ) (w : LevelWalk) : Prop where
  grow : w.poolGrowNeeded = true
  count : w.tradesCount = cap
  price : w.lvl.price = w₀.lvl.price
  frame : ∀ j ∉ ids, w.pool j = w₀.pool j
  shape : ∃ ids', ids' <:+ ids ∧ ids' ≠ [] ∧ LevelRep w.pool w.lvl ids'

/-- With room in the buffer, an iteration does not depend on how much. -/
theorem LevelWalk.step_cap {w : LevelWalk} {cap' : ℕ} (h : w.tradesCount < cap)
    (h' : w.tradesCount < cap') : LevelWalk.step c cap w = LevelWalk.step c cap' w := by
  unfold LevelWalk.step
  cases w.maker with
  | none => rfl
  | some m => simp only [ge_iff_le, if_neg (not_le.mpr h), if_neg (not_le.mpr h')]

/-- An iteration with room in the buffer. -/
theorem LevelWalk.Inside.step {w₀ w : LevelWalk} {ids : List ℕ} (h : w₀.Inside cap ids w)
    (hnd : ids.Nodup) (hrun : w.running = true) (hroom : w.tradesCount < cap) :
    ∃ w', LevelWalk.step c cap w = some w' ∧ w₀.Inside cap ids w' := by
  obtain ⟨ids', hsuf, hrep, hmaker⟩ := h.shape
  have hnd' : ids'.Nodup := hnd.sublist hsuf.sublist
  cases ids' with
  | nil => simp [LevelWalk.running, hmaker] at hrun
  | cons m ids' =>
    have hm : m ∈ ids := hsuf.subset List.mem_cons_self
    have hframe : ∀ w' : LevelWalk, (∀ j ≠ m, w'.pool j = w.pool j) → ∀ j ∉ ids, w'.pool j = w₀.pool j :=
      fun w' hw' j hj => (hw' j fun hjm => hj (hjm ▸ hm)).trans (h.frame j hj)
    rcases takeFromMaker_live_or_zero (hrep.sound m List.mem_cons_self) w.remainingQty with
      hlive | hzero
    · obtain ⟨w', hstep, htook, hrep', hmaker', -⟩ :=
        step_keep (c := c) hrep hnd' hmaker h.grow hroom hlive
      refine ⟨w', hstep, htook.grow, by have := htook.count; omega, htook.price.trans h.price,
        hframe w' htook.frame, m :: ids', hsuf, hrep', hmaker'⟩
    · obtain ⟨w', hstep, htook, hrep', hmaker'⟩ :=
        step_drop (c := c) hrep hnd' hmaker h.grow hroom hzero
      refine ⟨w', hstep, htook.grow, by have := htook.count; omega, htook.price.trans h.price,
        hframe w' htook.frame, ids', (List.suffix_cons m ids').trans hsuf, hrep', hmaker'⟩

/-- An iteration at a full buffer takes from the maker and stops. -/
theorem LevelWalk.Inside.step_full {w₀ w : LevelWalk} {ids : List ℕ} (h : w₀.Inside cap ids w)
    (hnd : ids.Nodup) (hrun : w.running = true) (hfull : cap ≤ w.tradesCount) :
    ∃ w', LevelWalk.step c cap w = some w' ∧ w'.running = false ∧ w₀.Stuck cap ids w' := by
  obtain ⟨ids', hsuf, hrep, hmaker⟩ := h.shape
  have hnd' : ids'.Nodup := hnd.sublist hsuf.sublist
  cases ids' with
  | nil => simp [LevelWalk.running, hmaker] at hrun
  | cons m ids' =>
    have hm : m ∈ ids := hsuf.subset List.mem_cons_self
    have hmaker' : w.maker = some m := hmaker
    refine ⟨_, by simp only [LevelWalk.step, hmaker', ge_iff_le, if_pos hfull]; rfl, ?_, ?_⟩
    · simp [LevelWalk.running]
    · exact
        { grow := rfl
          count := le_antisymm h.count hfull
          price := h.price
          frame := by
            intro j hj
            have hjm : j ≠ m := fun hjm => hj (hjm ▸ hm)
            exact (Function.update_of_ne hjm _ _).trans (h.frame j hj)
          shape := ⟨m :: ids', hsuf, List.cons_ne_nil m ids',
            hrep.takeHead (List.nodup_cons.mp hnd').1 (takeFromMaker_next _ _)
              (takeFromMaker_remainingQty _ _)
              (takeFromMaker_sound (hrep.sound m List.mem_cons_self) _)⟩ }

/-- **The walk along a level under two buffers.** Where the larger one suffices, the smaller one
    leads to the same end, or the walk is stuck. -/
theorem LevelWalk.run_cases {cap' : ℕ} (hcap : cap ≤ cap') {w₀ t : LevelWalk} {ids : List ℕ}
    (hrep : LevelRep w₀.pool w₀.lvl ids) (hnd : ids.Nodup) (hmaker : w₀.maker = ids.head?)
    (hgrow : w₀.poolGrowNeeded = false) (hcount : w₀.tradesCount ≤ cap) {fuel : ℕ}
    (h : whileFuel LevelWalk.running (LevelWalk.step c cap') fuel w₀ = some t) :
    whileFuel LevelWalk.running (LevelWalk.step c cap) fuel w₀ = some t ∧ w₀.Inside cap ids t ∨
      ∃ u, whileFuel LevelWalk.running (LevelWalk.step c cap) fuel w₀ = some u ∧
        w₀.Stuck cap ids u := by
  refine whileFuel_early (P := w₀.Inside cap ids) (Q := w₀.Stuck cap ids) ?_
    ⟨hgrow, hcount, rfl, fun _ _ => rfl, ids, List.suffix_rfl, hrep, hmaker⟩ h
  intro w t hw hrun hstep
  rcases lt_or_ge w.tradesCount cap with hroom | hfull
  · obtain ⟨w', hstep', hw'⟩ := hw.step (c := c) hnd hrun hroom
    have hsame := step_cap (c := c) hroom (hroom.trans_le hcap)
    rw [← hsame, hstep', Option.some.injEq] at hstep
    exact .inl ⟨hstep ▸ hstep', hstep ▸ hw'⟩
  · exact .inr (hw.step_full hnd hrun hfull)

/-! ### Along the levels -/

/-- What the walk along the levels `L` leaves in memory, wherever it stops. -/
structure SideWalk.Keeps (s₀ : SideWalk) (L : List GhostLevel) (s : SideWalk)
    (L' : List GhostLevel) : Prop where
  rep : SideRep s.pool s.opp L'
  cells : (cells L').Sublist (cells L)
  nonempty : ∀ g ∈ L', g.2 ≠ []
  prices : ∀ g ∈ L', ∃ g₀ ∈ L, g₀.1.price = g.1.price
  direction : s.opp.isDescending = s₀.opp.isDescending
  frame : ∀ j ∉ Engine.cells L, s.pool j = s₀.pool j

/-- The walk `s` is still on its way: at the first level, or done with its taker. -/
structure SideWalk.Inside (s₀ : SideWalk) (cap : ℕ) (L : List GhostLevel) (s : SideWalk) :
    Prop where
  grow : s.poolGrowNeeded = false
  count : s.tradesCount ≤ cap
  front : s.lvlIdx = 0 ∨ s.remainingQty ≤ 0
  keeps : ∃ L', s₀.Keeps L s L'

/-- The walk `s` has stopped at a full buffer. -/
structure SideWalk.Stuck (s₀ : SideWalk) (cap : ℕ) (L : List GhostLevel) (s : SideWalk) :
    Prop where
  grow : s.poolGrowNeeded = true
  count : s.tradesCount = cap
  keeps : ∃ L', s₀.Keeps L s L'

/-- Exchanging the first level for what a walk has left of it. -/
theorem SideWalk.Keeps.setFirst {s₀ s : SideWalk} {L L' : List GhostLevel} {g : GhostLevel}
    (h : s₀.Keeps L s (g :: L')) (hnd : (Engine.cells L).Nodup) {w : LevelWalk} {ids' : List ℕ}
    (hsuf : ids' <:+ g.2) (hprice : w.lvl.price = g.1.price)
    (hframe : ∀ j ∉ g.2, w.pool j = s.pool j) (hrep : LevelRep w.pool w.lvl ids') (hne : ids' ≠ [])
    {t : SideWalk} (hpool : t.pool = w.pool)
    (hopp : t.opp = { s.opp with levels := Function.update s.opp.levels 0 w.lvl }) :
    s₀.Keeps L t ((w.lvl, ids') :: L') where
  rep := by
    have hnd' : (g.2 ++ Engine.cells L').Nodup := hnd.sublist h.cells
    rw [hpool, hopp]
    refine h.rep.set (i := 0) (g := (w.lvl, ids')) (by simp) hprice hrep fun j hj => hframe j ?_
    exact fun hj' => (List.nodup_append.mp hnd').2.2 j hj' j hj rfl
  cells := (hsuf.sublist.append_right _).trans h.cells
  nonempty := List.forall_mem_cons.mpr ⟨hne, fun g' hg' => h.nonempty g' (List.mem_cons_of_mem _ hg')⟩
  prices := by
    refine List.forall_mem_cons.mpr ⟨?_, fun g' hg' => h.prices g' (List.mem_cons_of_mem _ hg')⟩
    obtain ⟨g₀, hg₀, heq⟩ := h.prices g List.mem_cons_self
    exact ⟨g₀, hg₀, heq.trans hprice.symm⟩
  direction := by rw [hopp]; exact h.direction
  frame := by
    intro j hj
    rw [hpool, hframe j fun hj' => hj (h.cells.subset (List.mem_append_left _ hj'))]
    exact h.frame j hj

/-- Removing the first level once a walk has emptied it. -/
theorem SideWalk.Keeps.dropFirst {s₀ s : SideWalk} {L L' : List GhostLevel} {g : GhostLevel}
    (h : s₀.Keeps L s (g :: L')) (hnd : (Engine.cells L).Nodup) {w : LevelWalk}
    (hprice : w.lvl.price = g.1.price) (hframe : ∀ j ∉ g.2, w.pool j = s.pool j)
    (hrep : LevelRep w.pool w.lvl []) {t : SideWalk} (hpool : t.pool = w.pool)
    (hopp : t.opp =
      removeLevel { s.opp with levels := Function.update s.opp.levels 0 w.lvl } 0) :
    s₀.Keeps L t L' where
  rep := by
    have hnd' : (g.2 ++ Engine.cells L').Nodup := hnd.sublist h.cells
    have hset := h.rep.set (i := 0) (g := (w.lvl, [])) (by simp) hprice hrep fun j hj =>
      hframe j fun hj' => (List.nodup_append.mp hnd').2.2 j hj' j hj rfl
    rw [hpool, hopp]
    exact hset.removeLevel (i := 0) (by simp)
  cells := (List.sublist_append_right _ _).trans h.cells
  nonempty := fun g' hg' => h.nonempty g' (List.mem_cons_of_mem _ hg')
  prices := fun g' hg' => h.prices g' (List.mem_cons_of_mem _ hg')
  direction := by rw [hopp]; exact h.direction
  frame := by
    intro j hj
    rw [hpool, hframe j fun hj' => hj (h.cells.subset (List.mem_append_left _ hj'))]
    exact h.frame j hj

/-- An iteration under two buffers. -/
theorem SideWalk.Inside.step {cap' fuelLevel : ℕ} (hcap : cap ≤ cap') {s₀ s t : SideWalk}
    {L : List GhostLevel} (h : s₀.Inside cap L s) (hnd : (cells L).Nodup)
    (hrun : s.running = true) (hstep : SideWalk.step c cap' fuelLevel s = some t) :
    SideWalk.step c cap fuelLevel s = some t ∧ s₀.Inside cap L t ∨
      ∃ u, SideWalk.step c cap fuelLevel s = some u ∧ u.running = false ∧ s₀.Stuck cap L u := by
  obtain ⟨L', hkeeps⟩ := h.keeps
  simp only [SideWalk.running, Bool.and_eq_true, decide_eq_true_eq] at hrun
  obtain ⟨⟨hr, hidx⟩, -⟩ := hrun
  -- the taker is not used up, so the walk is at the first level
  have hzero : s.lvlIdx = 0 := h.front.resolve_right (not_le.mpr hr)
  cases L' with
  | nil =>
    rw [hkeeps.rep.size_eq, hzero] at hidx
    exact absurd hidx (by simp)
  | cons g L' =>
    have hlvl : s.opp.levels s.lvlIdx = g.1 := by rw [hzero]; exact hkeeps.rep.level_eq (by simp)
    rw [SideWalk.step, hlvl] at hstep ⊢
    by_cases hout : c.outOfLimit g.1.price = true
    · rw [if_pos hout, Option.some.injEq] at hstep
      rw [if_pos hout]
      subst hstep
      exact .inl ⟨rfl, h.grow, h.count, h.front, g :: L', hkeeps.rep, hkeeps.cells,
        hkeeps.nonempty, hkeeps.prices, hkeeps.direction, hkeeps.frame⟩
    rw [if_neg hout, Option.map_eq_some_iff] at hstep
    rw [if_neg hout]
    obtain ⟨w, hwalk, rfl⟩ := hstep
    have hrep : LevelRep s.pool g.1 g.2 := hkeeps.rep.rep g List.mem_cons_self
    have hnd' : (g.2 ++ cells L').Nodup := hnd.sublist hkeeps.cells
    rcases LevelWalk.run_cases hcap (by simp only [SideWalk.enter, hlvl]; exact hrep)
      (List.nodup_append.mp hnd').1 (by simp only [SideWalk.enter, hlvl]; exact hrep.chain.head_eq)
      h.grow h.count hwalk with ⟨hwalk', hin⟩ | ⟨u, hwalk', hstuck⟩
    · refine .inl ⟨by rw [hwalk']; rfl, ?_⟩
      obtain ⟨ids', hsuf, hrep', hmaker⟩ := hin.shape
      have hprice : w.lvl.price = g.1.price := by simpa only [SideWalk.enter, hlvl] using hin.price
      have hcount : w.tradesCount ≤ cap := hin.count
      by_cases hnil : ids' = []
      · subst hnil
        obtain ⟨hpool, hopp, hidx', hrem, htrades, hgrow, -⟩ :=
          s.leave_emptied hin.grow (hrep'.count_eq_zero.mpr rfl)
        rw [hzero] at hopp
        have hlen := congrArg List.length htrades
        simp only [SideWalk.trades, LevelWalk.trades, slice_length] at hlen
        exact ⟨hgrow, hlen.trans_le hcount, .inl (hidx'.trans hzero), L',
          hkeeps.dropFirst hnd hprice hin.frame hrep' hpool hopp⟩
      · obtain ⟨hpool, hopp, hrem, htrades, hgrow⟩ :=
          s.leave_kept hin.grow (mt hrep'.count_eq_zero.mp hnil)
        rw [hzero] at hopp
        have hlen := congrArg List.length htrades
        simp only [SideWalk.trades, LevelWalk.trades, slice_length] at hlen
        -- the walk left the level with a maker at hand, so the taker is used up
        have hexit := whileFuel_exit hwalk'
        obtain ⟨m, ms, rfl⟩ := List.exists_cons_of_ne_nil hnil
        have hle : w.remainingQty ≤ 0 := by
          simpa [LevelWalk.running, hmaker, hin.grow] using hexit
        exact ⟨hgrow, hlen.trans_le hcount, .inr (hrem.trans_le hle), _,
          hkeeps.setFirst hnd hsuf hprice hin.frame hrep' hnil hpool hopp⟩
    · refine .inr ⟨s.leave u, by rw [hwalk']; rfl, ?_, ?_⟩
      · simp [SideWalk.leave, hstuck.grow, SideWalk.running]
      · obtain ⟨ids', hsuf, hne, hrep'⟩ := hstuck.shape
        have hprice : u.lvl.price = g.1.price := by
          simpa only [SideWalk.enter, hlvl] using hstuck.price
        refine ⟨?_, ?_, _, hkeeps.setFirst hnd hsuf hprice hstuck.frame hrep' hne ?_ ?_⟩
        · simp [SideWalk.leave, hstuck.grow]
        · simp [SideWalk.leave, hstuck.grow, hstuck.count]
        · simp [SideWalk.leave, hstuck.grow]
        · simp [SideWalk.leave, hstuck.grow, hzero]

/-- **The walk along the levels under two buffers.** -/
theorem SideWalk.run_cases {cap' : ℕ} (hcap : cap ≤ cap') {s₀ t : SideWalk}
    {L : List GhostLevel} (hrep : SideRep s₀.pool s₀.opp L) (hnd : (cells L).Nodup)
    (hne : ∀ g ∈ L, g.2 ≠ []) (hidx : s₀.lvlIdx = 0) (hgrow : s₀.poolGrowNeeded = false)
    (hcount : s₀.tradesCount ≤ cap) {fuel fuelLevel : ℕ}
    (h : whileFuel SideWalk.running (SideWalk.step c cap' fuelLevel) fuel s₀ = some t) :
    whileFuel SideWalk.running (SideWalk.step c cap fuelLevel) fuel s₀ = some t ∧
        s₀.Inside cap L t ∨
      ∃ u, whileFuel SideWalk.running (SideWalk.step c cap fuelLevel) fuel s₀ = some u ∧
        s₀.Stuck cap L u :=
  whileFuel_early (P := s₀.Inside cap L) (Q := s₀.Stuck cap L)
    (fun _ _ hs hrun hstep => hs.step hcap hnd hrun hstep)
    ⟨hgrow, hcount, .inl hidx, L, hrep, List.Sublist.refl _, hne, fun g hg => ⟨g, hg, rfl⟩, rfl,
      fun _ _ => rfl⟩ h

/-! ### The call -/

variable {e : CMatchingEngine} {G : Ghost}

/-- Only a taker that gets to the loops trades. -/
theorem matchLevels_of_trades {ls : List Level} (h : (matchLevels c ls).1.trades ≠ []) :
    c.type ≠ .postOnly ∧ ¬ (c.type = .fok ∧ coversWithin c 0 ls = false) ∧
      (matchLevels c ls).1.trades = (walkSide c c.remainingQty ls).trades := by
  unfold matchLevels at h ⊢
  by_cases hpost : c.type = .postOnly
  · simp [if_pos hpost] at h
  rw [if_neg hpost] at h ⊢
  by_cases hrej : c.type = .fok ∧ coversWithin c 0 ls = false
  · simp [if_pos hrej] at h
  · rw [if_neg hrej]
    exact ⟨hpost, hrej, rfl⟩

theorem bookSide_withCount (e : CMatchingEngine) (n : ℕ) (s : CSide) :
    CMatchingEngine.bookSide { e with tradesCount := n } s = e.bookSide s := by
  cases s <;> rfl

/-- The precheck does not look at the trades. -/
theorem precheckFok_withCount (e : CMatchingEngine) (n : ℕ) (c : COrder) :
    precheckFok { e with tradesCount := n } c = precheckFok e c := by
  unfold precheckFok
  rw [bookSide_withCount]

/-- **A match that runs out of trade buffer** returns what the buffer holds under the outcome of a
    match without liquidity. -/
theorem matchActiveOrder_overflow (h : EngineShape e G) (c : COrder)
    (hfull : e.tradesCap < fillsNeeded e c) :
    ∃ r e' G', matchActiveOrder e c = .ok (r, e') ∧ r.outcome = .noLiquidity ∧
      r.trades.length = e.tradesCap ∧ EngineShape e' G' ∧ view e' G' c.side = view e G c.side ∧
      (∀ l' ∈ view e' G' c.side.opp, ∃ l ∈ view e G c.side.opp, l.price = l'.price) ∧
      e'.nodePoolSize = e.nodePoolSize ∧ e'.nodePoolCap = e.nodePoolCap ∧
      e'.tradesCap = e.tradesCap := by
  rw [fillsNeeded_eq h] at hfull
  obtain ⟨hpost, hrej, htrades⟩ := matchLevels_of_trades
    (List.ne_nil_of_length_pos (Nat.zero_lt_of_lt hfull))
  rw [htrades] at hfull
  let s₀ : SideWalk :=
    { pool := e.nodePool, opp := e.bookSide c.side.opp, lvlIdx := 0, remainingQty := c.remainingQty,
      tradesBuf := e.tradesBuf, tradesCount := 0, poolGrowNeeded := false, stopped := false }
  have hside : SideRep s₀.pool s₀.opp (G c.side.opp) := h.side c.side.opp
  -- a buffer with exactly the room that is needed suffices
  obtain ⟨s, hrun, hran⟩ := SideWalk.run_spec c
    (walkSide c c.remainingQty (view e G c.side.opp)).trades.length (s := s₀) hside
    (h.cells_nodup _) (h.nonempty _) rfl rfl rfl hside.size_eq.ge
    (Nat.mul_le_mul_left 2 (h.length_cells_le _)) (by simp only [s₀, Nat.zero_add]; exact le_rfl)
  have hlen : s.tradesCount = (walkSide c c.remainingQty (view e G c.side.opp)).trades.length := by
    have := congrArg List.length hran.trades
    simpa [SideWalk.trades, s₀, slice_zero, view] using this
  rcases SideWalk.run_cases hfull.le hside (h.cells_nodup _) (h.nonempty _) rfl rfl
    (Nat.zero_le _) hrun with ⟨-, hin⟩ | ⟨u, hrun', hstuck⟩
  · have := hin.count
    omega
  obtain ⟨L', hkeeps⟩ := hstuck.keeps
  let e' : CMatchingEngine :=
    { e.setBookSide c.side.opp u.opp with
      nodePool := u.pool, tradesBuf := u.tradesBuf, tradesCount := u.tradesCount }
  have hside' : e'.bookSide c.side.opp = u.opp := CMatchingEngine.bookSide_set_self e _ _
  have hsize' : e'.nodePoolSize = e.nodePoolSize := CMatchingEngine.set_nodePoolSize e _ _
  have hframe : ∀ j ∈ cells (G c.side.opp.opp), u.pool j = e.nodePool j := fun j hj =>
    hkeeps.frame j fun hj' => h.not_mem_opp hj' hj
  let r : MatchResult :=
    { trades := slice u.tradesBuf u.tradesCount, outcome := .noLiquidity,
      remainingQty := u.remainingQty }
  refine ⟨r, e', Function.update G c.side.opp L', ?_, rfl, ?_, ?_, ?_, ?_,
    hsize', CMatchingEngine.set_nodePoolCap e _ _, CMatchingEngine.set_tradesCap e _ _⟩
  · have hset : CMatchingEngine.setBookSide { e with tradesCount := 0 } c.side.opp u.opp =
        { e.setBookSide c.side.opp u.opp with tradesCount := 0 } := by
      cases c.side <;> rfl
    simp only [matchActiveOrder, matchInternal, if_neg hpost, precheckFok_withCount, precheckFok_eq h c,
      if_neg hrej, bookSide_withCount]
    rw [show whileFuel SideWalk.running _ _ _ = some u from hrun']
    simp only [hstuck.grow, if_true, hset]
    rfl
  · rw [slice_length, hstuck.count]
  · refine h.setSide c.side.opp (hside'.symm ▸ hkeeps.rep) (by rw [hside']; exact hkeeps.direction)
      (CMatchingEngine.bookSide_set_opp e _ _) hkeeps.nonempty
      (hkeeps.cells.nodup (h.cells_nodup _)) ?_ hsize'.ge hframe
    intro j hj
    exact ⟨h.not_mem_opp (hkeeps.cells.subset hj), hsize' ▸ h.bound _ j (hkeeps.cells.subset hj)⟩
  · have hview : view e' (Function.update G c.side.opp L') c.side.opp.opp =
        view e G c.side.opp.opp := view_update_opp c.side.opp hframe
    rwa [opp_opp] at hview
  · intro l' hl'
    rw [view, Function.update_self] at hl'
    obtain ⟨g, hg, rfl⟩ := List.mem_map.mp hl'
    obtain ⟨g₀, hg₀, hprice⟩ := hkeeps.prices g hg
    exact ⟨viewLevel e.nodePool g₀, List.mem_map_of_mem hg₀, hprice⟩

/-! ### Every call -/

/-- Every call returns, or raises what it raises before it writes anything; the engine keeps its
    shape and the sizes of its memory. -/
theorem EngineShape.run (h : EngineShape e G) (call : EngineCall) :
    ∃ G', EngineShape (call.run e) G' ∧ (call.run e).nodePoolCap = e.nodePoolCap ∧
      (call.run e).tradesCap = e.tradesCap := by
  cases call with
  | addPassiveOrder o =>
    by_cases hq : o.qty ≤ 0
    · exact ⟨G, by simpa only [EngineCall.run, addPassiveOrder, if_pos hq, and_true] using h⟩
    by_cases hcap : e.nodePoolSize + 1 > e.nodePoolCap
    · exact ⟨G, by
        simpa only [EngineCall.run, addPassiveOrder, if_neg hq, if_pos hcap, and_true] using h⟩
    obtain ⟨e', G', hrun, h', -, -, -, hcaps⟩ :=
      addPassiveOrder_shape h (not_le.mp hq) (not_lt.mp hcap)
    exact ⟨G', by simpa only [EngineCall.run, hrun] using ⟨h', hcaps⟩⟩
  | cancelOrder orderId side price =>
    obtain ⟨e', G', hrun, h', -, -, -, hcaps⟩ := cancelOrder_shape h orderId side price
    exact ⟨G', by simpa only [EngineCall.run, hrun] using ⟨h', hcaps⟩⟩
  | matchActiveOrder c =>
    rcases le_or_gt (fillsNeeded e c) e.tradesCap with hfit | hfull
    · rw [fillsNeeded_eq h] at hfit
      obtain ⟨e', G', hrun, h', -, -, -, hcaps⟩ := matchActiveOrder_shape h c hfit
      exact ⟨G', by simpa only [EngineCall.run, hrun] using ⟨h', hcaps⟩⟩
    · obtain ⟨r, e', G', hrun, -, -, h', -, -, -, hcaps⟩ := matchActiveOrder_overflow h c hfull
      exact ⟨G', by simpa only [EngineCall.run, hrun] using ⟨h', hcaps⟩⟩
  | reset => exact ⟨_, (engineRep_reset h.direction).toEngineShape, rfl, rfl⟩

theorem EngineShape.runCalls (h : EngineShape e G) (calls : List EngineCall) :
    ∃ G', EngineShape (runCalls e calls) G' ∧ (Engine.runCalls e calls).nodePoolCap = e.nodePoolCap ∧
      (Engine.runCalls e calls).tradesCap = e.tradesCap := by
  induction calls generalizing e G with
  | nil => exact ⟨G, h, rfl, rfl⟩
  | cons call calls ih =>
    obtain ⟨G', h', hpool, htrades⟩ := h.run call
    obtain ⟨G'', h'', hpool', htrades'⟩ := ih h'
    exact ⟨G'', h'', hpool'.trans hpool, htrades'.trans htrades⟩

/-- **Every engine that calls lead to has its shape**, whatever the calls: icebergs of any visible
    part, and matches that run out of trade buffer, included. -/
theorem engineShape_runCalls (calls : List EngineCall) :
    ∃ G, EngineShape (runCalls CMatchingEngine.new calls) G ∧
      (runCalls CMatchingEngine.new calls).nodePoolCap = initialNodePoolCap ∧
      (runCalls CMatchingEngine.new calls).tradesCap = initialTradesCap :=
  engineRep_new.toEngineShape.runCalls calls

end SpotExchange.Engine
