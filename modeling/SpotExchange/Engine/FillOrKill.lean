import SpotExchange.Engine.Volume

namespace SpotExchange.Engine

open SpotExchange.Lib

/-!
# Fill or kill

The check of a fill-or-kill order sums cached level volumes, the walk consumes orders one fill at
a time.  They agree on every book that calls can build, one that a match left in the middle of a
fill included.

* `walkSide_type` — the walk does not look at the type of its taker;
* `coversWithin_volume` — the check compares the volume within the limit with the quantity;
* `matchActiveOrder_fillOrKill` — all or nothing, and all is what a limit order gets.
-/

variable {c : COrder} {e : CMatchingEngine} {G : Ghost}

/-! ### The walk and the type -/

theorem walkLevel_type (c : COrder) (t : CType) (price r : ℚ) (os : List Resting) :
    walkLevel { c with type := t } price r os = walkLevel c price r os := by
  induction os generalizing r with
  | nil => rfl
  | cons o os ih =>
    simp only [walkLevel, ih]
    rfl

theorem walkSide_type (c : COrder) (t : CType) (r : ℚ) (ls : List Level) :
    walkSide { c with type := t } r ls = walkSide c r ls := by
  induction ls generalizing r with
  | nil => rfl
  | cons l ls ih =>
    simp only [walkSide, ih, walkLevel_type]
    rfl

/-! ### The check -/

/-- What the orders on the opposite side have within the taker's limit. -/
def volumeFor (e : CMatchingEngine) (c : COrder) : ℚ :=
  volumeWithin c ((bookOrders e c.side.opp).map Placed.offer)

theorem coversWithin_volume (h : EngineShape e G) (hq : 0 < c.quantity) :
    coversWithin c 0 (view e G c.side.opp) = true ↔ c.quantity ≤ volumeFor e c := by
  rw [coversWithin_iff (h.flat_sound _) (h.view_sorted _) hq, zero_add, volumeFor,
    h.bookOrders_eq]

/-- What a walk leaves of a taker, on a represented book. -/
theorem walkSide_remaining (h : EngineShape e G) (hrem : 0 ≤ c.remainingQty) :
    (walkSide c c.remainingQty (view e G c.side.opp)).remaining =
      c.remainingQty - min c.remainingQty (volumeFor e c) := by
  have hwalk := walkFlat_remaining (c := c) (h.flat_sound c.side.opp)
    (flat_sorted (h.view_sorted _)) hrem
  rwa [walkSide_flat c c.remainingQty (h.view_nonempty _), ← h.bookOrders_eq] at hwalk

/-! ### All or nothing -/

/-- What the match of a fill-or-kill order `c` on `e` has to come to: it is rejected, and nothing
    happens, exactly when there is too little volume within its limit; else it is filled, as a
    limit order would be. -/
structure FillOrKill (e : CMatchingEngine) (c : COrder) (r : MatchResult) (e' : CMatchingEngine) :
    Prop where
  rejected_iff : r.outcome = .fokRejected ↔ volumeFor e c < c.quantity
  killed : r.outcome = .fokRejected → r.trades = [] ∧ ∀ s, bookOrders e' s = bookOrders e s
  filled : r.outcome ≠ .fokRejected → r.remainingQty = 0
  as_limit : r.outcome ≠ .fokRejected → ∃ r' e'',
    matchActiveOrder e { c with type := .limit } = .ok (r', e'') ∧ r'.trades = r.trades ∧
      ∀ s, bookOrders e'' s = bookOrders e' s

/-- What a match returns and leaves, when the buffer has room for it. -/
theorem matchActiveOrder_book (h : EngineShape e G) (c : COrder) (hfit : fillsNeeded e c ≤ e.tradesCap) :
    ∃ e', matchActiveOrder e c = .ok ((matchLevels c (view e G c.side.opp)).1, e') ∧
      bookOrders e' c.side.opp = flat (matchLevels c (view e G c.side.opp)).2 ∧
      bookOrders e' c.side = bookOrders e c.side := by
  rw [fillsNeeded_eq h] at hfit
  obtain ⟨e', G', hrun, h', hview, hsame, -⟩ := matchActiveOrder_shape h c hfit
  exact ⟨e', hrun, by rw [h'.bookOrders_eq, hview],
    by rw [h'.bookOrders_eq, h.bookOrders_eq, hsame]⟩

theorem EngineShape.fillOrKill (h : EngineShape e G) (hfok : c.type = .fok) (hq : 0 < c.quantity)
    (hrem : c.remainingQty = c.quantity) (hfit : fillsNeeded e c ≤ e.tradesCap) :
    ∃ r e', matchActiveOrder e c = .ok (r, e') ∧ FillOrKill e c r e' := by
  have hpost : c.type ≠ .postOnly := by rw [hfok]; decide
  have hcovers := coversWithin_volume h hq
  obtain ⟨e', hrun, hbook, hown⟩ := matchActiveOrder_book h c hfit
  refine ⟨_, e', hrun, ?_⟩
  by_cases hrej : coversWithin c 0 (view e G c.side.opp) = false
  · -- too little volume
    have hlt : volumeFor e c < c.quantity := by
      rw [← not_le, ← hcovers, hrej]
      decide
    have hlevels : matchLevels c (view e G c.side.opp) =
        ({ trades := [], outcome := .fokRejected, remainingQty := c.remainingQty },
         view e G c.side.opp) := by
      rw [matchLevels, if_neg hpost, if_pos ⟨hfok, hrej⟩]
    rw [hlevels] at hbook ⊢
    refine ⟨iff_of_true rfl hlt, fun _ => ⟨rfl, fun s => ?_⟩, fun hne => absurd rfl hne,
      fun hne => absurd rfl hne⟩
    rcases eq_or_eq_opp c.side s with rfl | rfl
    · exact hown
    · rw [hbook, h.bookOrders_eq]
  · have hle : c.quantity ≤ volumeFor e c := hcovers.mp (by simpa using hrej)
    have hlevels := matchLevels_walk (view e G c.side.opp) hpost (fun hc => hrej hc.2)
    have houtcome : walkOutcome c (walkSide c c.remainingQty (view e G c.side.opp)) = .ok := by
      rw [walkOutcome, if_neg]
      rintro ⟨-, htype | htype, -⟩ <;> rw [hfok] at htype <;> exact absurd htype (by decide)
    rw [hlevels, houtcome] at hbook ⊢
    refine ⟨iff_of_false (by simp) (not_lt.mpr hle), fun hout => absurd hout (by simp),
      fun _ => ?_, fun _ => ?_⟩
    · show (walkSide c c.remainingQty (view e G c.side.opp)).remaining = 0
      rw [walkSide_remaining h (by rw [hrem]; exact hq.le), hrem, min_eq_left hle, sub_self]
    · -- the limit order takes the same walk
      have hlimit : matchLevels { c with type := .limit } (view e G c.side.opp) =
          ({ trades := (walkSide c c.remainingQty (view e G c.side.opp)).trades,
             outcome := walkOutcome { c with type := .limit }
               (walkSide c c.remainingQty (view e G c.side.opp)),
             remainingQty := (walkSide c c.remainingQty (view e G c.side.opp)).remaining },
           (walkSide c c.remainingQty (view e G c.side.opp)).rest) := by
        rw [matchLevels_walk _ (by simp) (by simp), walkSide_type]
      have hfit' : fillsNeeded e { c with type := .limit } ≤ e.tradesCap := by
        rw [fillsNeeded_eq h] at hfit ⊢
        rw [hlevels] at hfit
        rw [hlimit]
        exact hfit
      obtain ⟨e'', hrun', hbook', hown'⟩ := matchActiveOrder_book h { c with type := .limit } hfit'
      rw [hlimit] at hrun' hbook'
      refine ⟨_, e'', hrun', rfl, fun s => ?_⟩
      rcases eq_or_eq_opp c.side s with rfl | rfl
      · exact hown'.trans hown.symm
      · exact hbook'.trans hbook.symm

/-- **Fill-or-kill is atomic and exact**, on every book that calls can build. -/
theorem matchActiveOrder_fillOrKill (calls : List EngineCall) {c : COrder} (hfok : c.type = .fok)
    (hq : 0 < c.quantity) (hrem : c.remainingQty = c.quantity)
    (hfit : FillsFit (runCalls CMatchingEngine.new calls) c) :
    ∃ r e', matchActiveOrder (runCalls CMatchingEngine.new calls) c = .ok (r, e') ∧
      FillOrKill (runCalls CMatchingEngine.new calls) c r e' := by
  obtain ⟨G, h, -⟩ := engineShape_runCalls calls
  exact h.fillOrKill hfok hq hrem ((fillsFit_iff h c).mp hfit)

/-- A buyer who wants to fill or kill eight units of the mixed book. -/
def fokBuyer : COrder where
  orderId := 9
  side := .buy
  type := .fok
  price := some 100
  quantity := 8
  remainingQty := 8
  isIceberg := false
  visibleQty := 8
  hiddenQty := 0

theorem matchActiveOrder_fillOrKill_mixedAsks :
    volumeFor (insertAll CMatchingEngine.new mixedAsks) fokBuyer = 10 ∧
      ∃ r e', matchActiveOrder (insertAll CMatchingEngine.new mixedAsks) fokBuyer = .ok (r, e') ∧
        FillOrKill (insertAll CMatchingEngine.new mixedAsks) fokBuyer r e' :=
  ⟨by decide +kernel, matchActiveOrder_fillOrKill (mixedAsks.map .addPassiveOrder) rfl
    (by decide +kernel) rfl
    (.inr (.inr ⟨4, by decide +kernel, .inr (by decide +kernel)⟩))⟩

end SpotExchange.Engine
