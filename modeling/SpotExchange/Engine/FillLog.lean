import SpotExchange.Engine.Overflow
import SpotExchange.Engine.Amounts

namespace SpotExchange.Engine

open SpotExchange.Lib

/-!
# How often a maker is filled

* `fillLog` — the makers that a match fills, one entry for each iteration of the inner loop, also for
  the one that finds the trade buffer full;
* `count_fillLog_le` — an iceberg that hides something is filled twice at most, another maker once;
* `matchActiveOrder_trades` — the trades are as many as the entries, up to the size of the buffer.
-/

variable {c : COrder} {cap : ℕ} {e : CMatchingEngine} {G : Ghost}

/-! ### The log -/

/-- One fill, and one more for what an iceberg hides. -/
def OrderNode.fillBound (n : OrderNode) : ℕ :=
  if n.isIceberg = true ∧ n.visibleQty < n.remainingQty then 2 else 1

/-- The makers that are filled at the level at `lvl_idx`. -/
def SideWalk.fills (c : COrder) (tradesCap fuel : ℕ) (s : SideWalk) : List ℕ :=
  if c.outOfLimit (s.opp.levels s.lvlIdx).price then []
  else (loopTrace LevelWalk.running (LevelWalk.step c tradesCap) fuel s.enter).filterMap LevelWalk.maker

/-- The locals of `_match_internal` in front of the outer loop. -/
def SideWalk.start (e : CMatchingEngine) (c : COrder) : SideWalk where
  pool := e.nodePool
  opp := e.bookSide c.side.opp
  lvlIdx := 0
  remainingQty := c.remainingQty
  tradesBuf := e.tradesBuf
  tradesCount := 0
  poolGrowNeeded := false
  stopped := false

/-- The makers that `match_active_order` fills, in order. -/
def fillLog (e : CMatchingEngine) (c : COrder) : List ℕ :=
  if c.type = .postOnly ∨ (c.type = .fok ∧ precheckFok e c = false) then []
  else
    (loopTrace SideWalk.running (SideWalk.step c e.tradesCap (2 * e.nodePoolSize))
      (e.bookSide c.side.opp).size (SideWalk.start e c)).flatMap
        (SideWalk.fills c e.tradesCap (2 * e.nodePoolSize))

theorem OrderNode.fillBound_pos (n : OrderNode) : 1 ≤ n.fillBound := by
  unfold fillBound
  split_ifs <;> omega

/-! ### Along one level -/

/-- **One iteration**: the walk is over, or it goes on to the next maker, or to the refilled one. -/
theorem LevelWalk.iterate_cases (c : COrder) (cap : ℕ) {w : LevelWalk} {m : ℕ} {ids : List ℕ}
    (hrep : LevelRep w.pool w.lvl (m :: ids)) (hnd : (m :: ids).Nodup) (hmaker : w.maker = some m)
    (hgrow : w.poolGrowNeeded = false) :
    ∃ w', LevelWalk.step c cap w = some w' ∧ (∀ j ≠ m, w'.pool j = w.pool j) ∧
      (w'.running = false ∨
        w'.poolGrowNeeded = false ∧ LevelRep w'.pool w'.lvl ids ∧ w'.maker = ids.head? ∨
        w'.poolGrowNeeded = false ∧ LevelRep w'.pool w'.lvl (m :: ids) ∧ w'.maker = some m ∧
          (w.pool m).fillBound = 2 ∧ (w'.pool m).fillBound = 1) := by
  rcases Nat.lt_or_ge w.tradesCount cap with hfit | hfull
  · rcases takeFromMaker_live_or_zero (hrep.sound m List.mem_cons_self) w.remainingQty with
      hlive | hzero
    · obtain ⟨w', hstep, htook, hrep', hmaker', hnode⟩ :=
        LevelWalk.step_keep (c := c) hrep hnd hmaker hgrow hfit hlive
      refine ⟨w', hstep, htook.frame, ?_⟩
      by_cases hlt : w.remainingQty < (w.pool m).resting.visibleAvail
      · -- the taker is used up
        apply Or.inl
        apply LevelWalk.not_running_of_le
        rw [htook.remaining, (takeFromMaker_of_lt hlt).2]
      by_cases hice : (w.pool m).isIceberg = true ∧ (w.pool m).visibleQty < (w.pool m).remainingQty
      · have hav : (w.pool m).resting.visibleAvail = (w.pool m).visibleQty := if_pos hice
        have hrefill := (takeFromMaker_refill hice (hav ▸ not_lt.mp hlt)).1
        refine .inr (.inr ⟨htook.grow, hrep', hmaker', if_pos hice, if_neg ?_⟩)
        -- the refilled maker shows all it has
        have hvisible := congrArg Resting.visibleQty (hnode.trans hrefill)
        have hremaining := congrArg Resting.remainingQty (hnode.trans hrefill)
        rintro ⟨-, hless⟩
        exact hless.ne (hvisible.trans hremaining.symm)
      · have hav : (w.pool m).resting.visibleAvail = (w.pool m).remainingQty := if_neg hice
        have hall := (takeFromMaker_all hice (hav ▸ not_lt.mp hlt)).1
        exact absurd hall hlive.remaining_pos.ne'
    · obtain ⟨w', hstep, htook, hrep', hmaker'⟩ :=
        LevelWalk.step_drop (c := c) hrep hnd hmaker hgrow hfit hzero
      exact ⟨w', hstep, htook.frame, .inr (.inl ⟨htook.grow, hrep', hmaker'⟩)⟩
  · -- at a full buffer the walk stops
    refine ⟨_, by simp only [LevelWalk.step, hmaker, ge_iff_le, if_pos hfull]; rfl, ?_, ?_⟩
    · exact fun j hj => Function.update_of_ne hj _ _
    · exact .inl (by simp [LevelWalk.running])

/-- **The fills along one level.** -/
theorem LevelWalk.count_trace_le {ids : List ℕ} (fuel : ℕ) {w : LevelWalk}
    (hrep : LevelRep w.pool w.lvl ids) (hnd : ids.Nodup) (hmaker : w.maker = ids.head?)
    (hgrow : w.poolGrowNeeded = false) (m : ℕ) :
    ((loopTrace LevelWalk.running (LevelWalk.step c cap) fuel w).filterMap LevelWalk.maker).count m ≤
      if m ∈ ids then (w.pool m).fillBound else 0 := by
  induction fuel generalizing w ids with
  | zero => exact Nat.zero_le _
  | succ fuel ih =>
    cases hrun : w.running with
    | false =>
      rw [loopTrace_of_not hrun]
      exact Nat.zero_le _
    | true =>
      cases ids with
      | nil => simp [LevelWalk.running, hmaker] at hrun
      | cons k ids =>
        have hk : k ∉ ids := (List.nodup_cons.mp hnd).1
        obtain ⟨w', hstep, hframe, hnext⟩ :=
          LevelWalk.iterate_cases c cap hrep hnd hmaker hgrow
        rw [loopTrace_succ hrun hstep, List.filterMap_cons_some hmaker, List.count_cons]
        have hpos := (w.pool m).fillBound_pos
        rcases hnext with hstop | ⟨hgrow', hrep', hmaker'⟩ | ⟨hgrow', hrep', hmaker', htwo, hone⟩
        · -- the last fill of this walk
          rw [loopTrace_of_not hstop]
          by_cases hm : m = k
          · subst hm
            simpa using hpos
          · simp [Ne.symm hm]
        · -- the maker is used up
          have hrest := ih hrep' (List.nodup_cons.mp hnd).2 hmaker' hgrow'
          by_cases hm : m = k
          · subst hm
            rw [if_neg hk] at hrest
            simp only [beq_self_eq_true, if_true, List.mem_cons_self]
            omega
          · rw [hframe m hm] at hrest
            simpa [hm, Ne.symm hm] using hrest
        · -- the maker is refilled, and comes once more
          have hrest := ih hrep' hnd hmaker' hgrow'
          by_cases hm : m = k
          · subst hm
            simp only [List.mem_cons_self, if_true, hone, htwo, beq_self_eq_true] at hrest ⊢
            omega
          · rw [hframe m hm] at hrest
            simpa [hm, Ne.symm hm] using hrest

/-! ### Along the levels -/

section Levels

variable {s t : SideWalk} {g : GhostLevel} {L : List GhostLevel} {fuelLevel : ℕ}

/-- The walk along the levels is in front of the levels `L`. -/
structure SideWalk.Facing (cap : ℕ) (L : List GhostLevel) (s : SideWalk) : Prop where
  rep : SideRep s.pool s.opp L
  nonempty : ∀ g ∈ L, g.2 ≠ []
  front : s.lvlIdx = 0
  grow : s.poolGrowNeeded = false
  count : s.tradesCount ≤ cap

/-- The walk along the first level starts at its first order. -/
theorem SideWalk.Facing.enter (h : s.Facing cap (g :: L)) :
    LevelRep s.enter.pool s.enter.lvl g.2 ∧ s.enter.maker = g.2.head? := by
  have hlvl : s.opp.levels s.lvlIdx = g.1 := by rw [h.front]; exact h.rep.level_eq (by simp)
  have hrep : LevelRep s.pool g.1 g.2 := h.rep.rep g List.mem_cons_self
  simp only [SideWalk.enter, hlvl]
  exact ⟨hrep, hrep.chain.head_eq⟩

/-- **One level**: the walk is over, or it faces the other levels. -/
theorem SideWalk.Facing.step_cases (h : s.Facing cap (g :: L)) (hnd : (cells (g :: L)).Nodup)
    (hout : ¬ c.outOfLimit (s.opp.levels s.lvlIdx).price = true)
    (hstep : SideWalk.step c cap fuelLevel s = some t) :
    t.running = false ∨ t.Facing cap L ∧ ∀ j ∉ g.2, t.pool j = s.pool j := by
  have hkeeps : s.Keeps (g :: L) s (g :: L) := ⟨h.rep, List.Sublist.refl _, h.nonempty,
    fun g hg => ⟨g, hg, rfl⟩, rfl, fun _ _ => rfl⟩
  have hlvl : s.opp.levels s.lvlIdx = g.1 := by rw [h.front]; exact h.rep.level_eq (by simp)
  have hnd' : (g.2 ++ cells L).Nodup := hnd
  rw [SideWalk.step, if_neg hout, Option.map_eq_some_iff] at hstep
  obtain ⟨w, hwalk, rfl⟩ := hstep
  rcases LevelWalk.run_cases le_rfl h.enter.1 (List.nodup_append.mp hnd').1 h.enter.2 h.grow h.count
    hwalk with ⟨-, hin⟩ | ⟨u, hwalk', hstuck⟩
  · obtain ⟨ids', hsuf, hrep', hmaker⟩ := hin.shape
    have hprice : w.lvl.price = g.1.price := by simpa only [SideWalk.enter, hlvl] using hin.price
    by_cases hnil : ids' = []
    · subst hnil
      obtain ⟨hpool, hopp, hidx', hrem, htrades, hgrow, -⟩ :=
        s.leave_emptied hin.grow (hrep'.count_eq_zero.mpr rfl)
      rw [h.front] at hopp
      have hlen := congrArg List.length htrades
      simp only [SideWalk.trades, LevelWalk.trades, slice_length] at hlen
      have hkept := hkeeps.dropFirst hnd hprice hin.frame hrep' hpool hopp
      refine .inr ⟨⟨hkept.rep, hkept.nonempty, hidx'.trans h.front, hgrow, ?_⟩, ?_⟩
      · exact hlen.trans_le hin.count
      · intro j hj
        rw [hpool]
        exact hin.frame j hj
    · -- a maker is left, so the taker is used up
      obtain ⟨-, -, hrem, -⟩ := s.leave_kept hin.grow (mt hrep'.count_eq_zero.mp hnil)
      obtain ⟨m, ms, rfl⟩ := List.exists_cons_of_ne_nil hnil
      have hle : w.remainingQty ≤ 0 := by
        simpa [LevelWalk.running, hmaker, hin.grow] using whileFuel_exit hwalk
      apply Or.inl
      have hleft : ¬ 0 < (s.leave w).remainingQty := not_lt.mpr (hrem.trans_le hle)
      simp [SideWalk.running, hleft]
  · obtain rfl : u = w := Option.some.inj (hwalk'.symm.trans hwalk)
    exact .inl (by simp [SideWalk.leave, hstuck.grow, SideWalk.running])

/-- A walk that is running has a level in front of it. -/
theorem SideWalk.Facing.exists_cons (h : s.Facing cap L) (hrun : s.running = true) :
    ∃ g L', L = g :: L' := by
  simp only [SideWalk.running, Bool.and_eq_true, decide_eq_true_eq] at hrun
  have hidx := hrun.1.2
  rw [h.rep.size_eq, h.front] at hidx
  exact List.exists_cons_of_length_pos hidx

/-- The fills at the first level. -/
theorem SideWalk.Facing.count_fills_le (h : s.Facing cap (g :: L)) (c : COrder) (fuelLevel : ℕ) (hnd : g.2.Nodup) (m : ℕ) :
    (SideWalk.fills c cap fuelLevel s).count m ≤ if m ∈ g.2 then (s.pool m).fillBound else 0 := by
  unfold SideWalk.fills
  by_cases hout : c.outOfLimit (s.opp.levels s.lvlIdx).price = true
  · rw [if_pos hout]
    exact Nat.zero_le _
  · rw [if_neg hout]
    exact LevelWalk.count_trace_le fuelLevel h.enter.1 hnd h.enter.2 h.grow m

/-- What is left behind the first level: nothing is filled any more, or only at the other levels. -/
theorem SideWalk.Facing.next (h : s.Facing cap (g :: L)) (hnd : (cells (g :: L)).Nodup)
    (hstep : SideWalk.step c cap fuelLevel s = some t) :
    t.running = false ∨ t.Facing cap L ∧ ∀ j ∉ g.2, t.pool j = s.pool j := by
  by_cases hout : c.outOfLimit (s.opp.levels s.lvlIdx).price = true
  · rw [SideWalk.step, if_pos hout, Option.some.injEq] at hstep
    apply Or.inl
    rw [← hstep]
    simp [SideWalk.running]
  · exact h.step_cases hnd hout hstep

/-- **The fills along the levels.** -/
theorem SideWalk.count_trace_le (fuel : ℕ) (h : s.Facing cap L) (hnd : (cells L).Nodup) (m : ℕ) :
    ((loopTrace SideWalk.running (SideWalk.step c cap fuelLevel) fuel s).flatMap
      (SideWalk.fills c cap fuelLevel)).count m ≤ if m ∈ cells L then (s.pool m).fillBound else 0 := by
  induction fuel generalizing s L with
  | zero => exact Nat.zero_le _
  | succ fuel ih =>
    cases hrun : s.running with
    | false =>
      rw [loopTrace_of_not hrun]
      exact Nat.zero_le _
    | true =>
      obtain ⟨g, L, rfl⟩ := h.exists_cons hrun
      obtain ⟨hndg, hndL, hdisjoint⟩ := List.nodup_append.mp (show (g.2 ++ cells L).Nodup from hnd)
      have hfirst := h.count_fills_le c fuelLevel hndg m
      have hrest : (((SideWalk.step c cap fuelLevel s).elim [] (loopTrace SideWalk.running
          (SideWalk.step c cap fuelLevel) fuel)).flatMap (SideWalk.fills c cap fuelLevel)).count m ≤
            if m ∈ cells L then (s.pool m).fillBound else 0 := by
        cases hstep : SideWalk.step c cap fuelLevel s with
        | none => exact Nat.zero_le _
        | some t =>
          rcases h.next hnd hstep with hstopped | ⟨hfacing, hframe⟩
          · simp [loopTrace_of_not hstopped]
          · have hle := ih hfacing hndL
            by_cases hm : m ∈ cells L
            · -- the first level has not touched it
              rw [hframe m fun hm' => hdisjoint m hm' m hm rfl] at hle
              exact hle
            · rw [if_neg hm] at hle ⊢
              exact hle
      rw [loopTrace, if_pos hrun, List.flatMap_cons, List.count_append, cells_cons]
      by_cases hm : m ∈ g.2
      · rw [if_pos hm] at hfirst
        rw [if_neg fun hm' => hdisjoint m hm m hm' rfl] at hrest
        rw [if_pos (List.mem_append_left _ hm)]
        omega
      · rw [if_neg hm] at hfirst
        simp only [List.mem_append, hm, false_or]
        omega

/-! ### As many trades as fills -/

/-- An iteration along one level emits a trade, or stops at a full buffer. -/
theorem LevelWalk.step_count {w w' : LevelWalk} (hrun : w.running = true)
    (hstep : LevelWalk.step c cap w = some w') (hle : w.tradesCount ≤ cap) :
    w'.tradesCount = min cap (w.tradesCount + 1) ∧
      (cap < w.tradesCount + 1 → w'.poolGrowNeeded = true) := by
  unfold LevelWalk.step at hstep
  cases hmaker : w.maker with
  | none => simp [LevelWalk.running, hmaker] at hrun
  | some m =>
    simp only [hmaker] at hstep
    by_cases hfull : w.tradesCount ≥ cap
    · rw [if_pos hfull] at hstep
      obtain rfl := Option.some.inj hstep
      refine ⟨?_, fun _ => rfl⟩
      show w.tradesCount = _
      omega
    · rw [if_neg hfull] at hstep
      obtain rfl := Option.some.inj hstep
      refine ⟨?_, fun hlt => absurd hlt (by omega)⟩
      show w.tradesCount + 1 = _
      omega

theorem SideWalk.fills_length (hout : ¬ c.outOfLimit (s.opp.levels s.lvlIdx).price = true) :
    (s.fills c cap fuelLevel).length =
      ((loopTrace LevelWalk.running (LevelWalk.step c cap) fuelLevel s.enter).map fun _ => 1).sum := by
  rw [SideWalk.fills, if_neg hout, List.map_const', List.sum_replicate, Nat.nsmul_eq_mul, Nat.mul_one,
    List.filterMap_length_eq_length]
  intro w hw
  have hrun := loopTrace_cond hw
  simp only [LevelWalk.running, Bool.and_eq_true] at hrun
  exact hrun.1.1

/-- An iteration along the levels emits as many trades as it fills makers, or stops. -/
theorem SideWalk.step_count (hstep : SideWalk.step c cap fuelLevel s = some t)
    (hle : s.tradesCount ≤ cap) :
    t.tradesCount = min cap (s.tradesCount + (s.fills c cap fuelLevel).length) ∧
      (cap < s.tradesCount + (s.fills c cap fuelLevel).length → t.stopped = true) := by
  rw [SideWalk.step] at hstep
  by_cases hout : c.outOfLimit (s.opp.levels s.lvlIdx).price = true
  · rw [if_pos hout, Option.some.injEq] at hstep
    subst hstep
    rw [SideWalk.fills, if_pos hout]
    exact ⟨(Nat.min_eq_right hle).symm, fun _ => rfl⟩
  · rw [if_neg hout, Option.map_eq_some_iff] at hstep
    obtain ⟨w, hwalk, rfl⟩ := hstep
    obtain ⟨hcount, hover⟩ := whileFuel_counts (Q := fun w : LevelWalk => w.poolGrowNeeded = true)
      (fun w hw => by simp [LevelWalk.running, hw])
      (fun w w' hrun hstep hle => LevelWalk.step_count hrun hstep hle)
      (show s.enter.tradesCount ≤ cap from hle) hwalk
    rw [← SideWalk.fills_length hout] at hcount hover
    have hsame : (s.leave w).tradesCount = w.tradesCount := by
      unfold SideWalk.leave
      split_ifs <;> rfl
    refine ⟨hsame.trans hcount, fun hlt => ?_⟩
    simp only [SideWalk.leave, hover hlt, if_true]

end Levels

/-! ### On engines -/

/-- **A match that returns** has emitted as many trades as it has filled makers, up to the size of its
    buffer. -/
theorem matchActiveOrder_trades {r : MatchResult} {e' : CMatchingEngine}
    (h : matchActiveOrder e c = .ok (r, e')) :
    r.trades.length = min e.tradesCap (fillLog e c).length := by
  unfold matchActiveOrder matchInternal at h
  unfold fillLog
  simp only [precheckFok_withCount, bookSide_withCount] at h
  by_cases hpost : c.type = .postOnly
  · simp only [if_pos hpost] at h
    rw [if_pos (.inl hpost), ← (Prod.mk.inj (Except.ok.inj h)).1]
    simp [slice_zero]
  by_cases hrej : c.type = .fok ∧ precheckFok e c = false
  · simp only [if_neg hpost, if_pos hrej] at h
    rw [if_pos (.inr hrej), ← (Prod.mk.inj (Except.ok.inj h)).1]
    simp [slice_zero]
  simp only [if_neg hpost, if_neg hrej] at h
  rw [if_neg (not_or.mpr ⟨hpost, hrej⟩), List.length_flatMap]
  split at h
  · exact absurd h (by simp)
  · rename_i outcome remaining e₁ hmatch
    split at hmatch
    · exact absurd hmatch (by simp)
    · rename_i s hwalk
      obtain ⟨hcount, -⟩ := whileFuel_counts (Q := fun s : SideWalk => s.stopped = true)
        (fun s hs => by simp [SideWalk.running, hs])
        (fun s t _ hstep hle => SideWalk.step_count hstep hle)
        (show (SideWalk.start e c).tradesCount ≤ e.tradesCap from Nat.zero_le _) hwalk
      rw [show (SideWalk.start e c).tradesCount = 0 from rfl, Nat.zero_add] at hcount
      rw [← hcount, ← (Prod.mk.inj (Except.ok.inj h)).1,
        ← (Prod.mk.inj (Prod.mk.inj (Except.ok.inj hmatch)).2).2]
      exact slice_length _ _

/-- **An iceberg that hides something is filled twice at most, another maker once.** -/
theorem count_fillLog_le (h : EngineShape e G) (c : COrder) (m : ℕ) :
    (fillLog e c).count m ≤ if m ∈ cells (G c.side.opp) then (e.nodePool m).fillBound else 0 := by
  unfold fillLog
  by_cases hskip : c.type = .postOnly ∨ (c.type = .fok ∧ precheckFok e c = false)
  · rw [if_pos hskip]
    exact Nat.zero_le _
  · rw [if_neg hskip]
    have hfacing : (SideWalk.start e c).Facing e.tradesCap (G c.side.opp) :=
      ⟨h.side c.side.opp, h.nonempty c.side.opp, rfl, rfl, Nat.zero_le _⟩
    exact SideWalk.count_trace_le _ hfacing (h.cells_nodup c.side.opp) m

/-- A match always returns. -/
theorem matchActiveOrder_returns (h : EngineShape e G) (c : COrder) :
    ∃ r e', matchActiveOrder e c = .ok (r, e') := by
  rcases le_or_gt (fillsNeeded e c) e.tradesCap with hfit | hfull
  · rw [fillsNeeded_eq h] at hfit
    obtain ⟨e', G', hrun, -⟩ := matchActiveOrder_shape h c hfit
    exact ⟨_, e', hrun⟩
  · obtain ⟨r, e', G', hrun, -⟩ := matchActiveOrder_overflow h c hfull
    exact ⟨r, e', hrun⟩

/-- The search for the level of an order ends. -/
theorem addPassiveOrder_ne_diverged (h : EngineShape e G) (o : PassiveOrder) :
    addPassiveOrder e o ≠ .error .diverged := by
  by_cases hq : o.qty ≤ 0
  · simp [addPassiveOrder, hq]
  by_cases hcap : e.nodePoolSize + 1 > e.nodePoolCap
  · rw [addPassiveOrder, if_neg hq, if_pos hcap]
    simp
  obtain ⟨e', G', hrun, -⟩ := addPassiveOrder_shape h (not_le.mp hq) (not_lt.mp hcap)
  rw [hrun]
  simp

/-- **Makers that hide nothing** are filled once each, so no more often than there are orders. -/
theorem fillLog_length_le (h : EngineShape e G) (c : COrder)
    (hplain : ∀ m ∈ cells (G c.side.opp), (e.nodePool m).fillBound = 1) :
    (fillLog e c).length ≤ (cells (G c.side.opp)).length := by
  have hcount : ∀ m, (fillLog e c).count m ≤ if m ∈ cells (G c.side.opp) then 1 else 0 := by
    intro m
    have hle := count_fillLog_le h c m
    by_cases hm : m ∈ cells (G c.side.opp)
    · rw [if_pos hm] at hle ⊢
      exact hle.trans_eq (hplain m hm)
    · rw [if_neg hm] at hle ⊢
      exact hle
  have hnodup : (fillLog e c).Nodup := by
    rw [List.nodup_iff_count_le_one]
    intro m
    apply (hcount m).trans
    split_ifs <;> omega
  have hsub : fillLog e c ⊆ cells (G c.side.opp) := by
    intro m hm
    by_contra hno
    have hzero := hcount m
    rw [if_neg hno] at hzero
    have hpos := List.count_pos_iff.mpr hm
    omega
  exact (List.subperm_of_subset hnodup hsub).length_le

/-! ### Makers that hide nothing -/

theorem length_flat_view (e : CMatchingEngine) (G : Ghost) (s : CSide) :
    (flat (view e G s)).length = (cells (G s)).length := by
  simp [flat, view, viewSide, viewLevel, cells, List.length_flatMap, List.flatMap_map]

/-- The order in a slot, at its price. -/
theorem mem_flat_view {s : CSide} {m : ℕ} (h : m ∈ cells (G s)) :
    ∃ price, (price, (e.nodePool m).resting) ∈ flat (view e G s) := by
  obtain ⟨g, hg, hm⟩ := mem_cells.mp h
  exact ⟨g.1.price, mem_flat.mpr ⟨viewLevel e.nodePool g, List.mem_map_of_mem hg, rfl,
    List.mem_map_of_mem hm⟩⟩

theorem fillBound_of_plain {n : OrderNode} {price : ℚ} (h : Placed.plain (price, n.resting)) :
    n.fillBound = 1 := by
  apply if_neg
  rintro ⟨hi, hlt⟩
  exact hlt.ne (h hi)

end SpotExchange.Engine
