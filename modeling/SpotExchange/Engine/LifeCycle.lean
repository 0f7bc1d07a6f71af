import SpotExchange.Engine.FillOrKill

namespace SpotExchange.Engine

open SpotExchange.Lib

/-!
# The life cycle of a book

Takers are run one after the other, and what is left of one that may rest is inserted on its side
at its limit.  The book never crosses.

* `LifeStep`, `lifeRun` — the life cycle, with cancellations in between;
* `Apart` — no price of one side meets one of the other;
* `Apart.lifeStep` — every step keeps the sides apart;
* `crossesBest_iff_trades` — the check of a post-only order is whether a limit order would trade.
-/

variable {c : COrder} {e e' : CMatchingEngine} {G G' : Ghost}

/-! ### The life cycle -/

/-- A step: a taker, with the iceberg parts under which its caller would let it rest, or a
    cancellation. -/
inductive LifeStep
  | take (c : COrder) (isIceberg : Bool) (visibleQty hiddenQty : ℚ)
  | cancel (orderId : OrderId) (side : CSide) (price : ℚ)

/-- The caller inserts what is left of the taker. -/
def COrder.rests (c : COrder) (r : MatchResult) : Bool :=
  (decide (c.type = .limit) || decide (c.type = .postOnly)) && decide (r.outcome = .ok) &&
    decide (0 < r.remainingQty)

/-- The engine after a step.  A taker without a limit has no price to rest at. -/
def lifeStep (e : CMatchingEngine) : LifeStep → CMatchingEngine
  | .take c isIceberg visibleQty hiddenQty =>
      match matchActiveOrder e c with
      | .error _ => e
      | .ok (r, e') =>
          match c.price with
          | none => e'
          | some price =>
              if c.rests r then
                EngineCall.run e' (.addPassiveOrder
                  { orderId := c.orderId, side := c.side, price := price, qty := r.remainingQty,
                    isIceberg := isIceberg, visibleQty := visibleQty, hiddenQty := hiddenQty })
              else e'
  | .cancel orderId side price => EngineCall.run e (.cancelOrder orderId side price)

/-- The engine after a life cycle. -/
def lifeRun (e : CMatchingEngine) (steps : List LifeStep) : CMatchingEngine :=
  steps.foldl lifeStep e

/-- The best price of a side, as `snapshot` shows it. -/
def bestPrice (e : CMatchingEngine) (s : CSide) : Option ℚ := (snapshot e s 1).1.head?

/-- The best bid is strictly below the best ask. -/
def Uncrossed (e : CMatchingEngine) : Prop :=
  ∀ bid ∈ bestPrice e .buy, ∀ ask ∈ bestPrice e .sell, bid < ask

/-- A post-only order never trades, and is turned down exactly when a limit order of its side,
    price and quantity would trade. -/
def PostOnlyExact (e : CMatchingEngine) : Prop :=
  ∀ c : COrder, c.type = .postOnly → c.price.isSome → 0 < c.remainingQty →
    ∃ r e', matchActiveOrder e c = .ok (r, e') ∧ r.trades = [] ∧
      ∀ c' : COrder, c'.type = .limit → c'.side = c.side → c'.price = c.price →
        c'.remainingQty = c.remainingQty →
        ∃ r' e'', matchActiveOrder e c' = .ok (r', e'') ∧
          (r.outcome = .postOnlyCross ↔ r'.trades ≠ [])

/-! ### Sides that are apart -/

/-- A price `p` on side `s` does not meet a price `q` on the other side. -/
def clears (s : CSide) (p q : ℚ) : Prop :=
  match s with
  | .buy => p < q
  | .sell => q < p

theorem clears_opp (s : CSide) (p q : ℚ) : clears s.opp p q ↔ clears s q p := by
  cases s <;> exact Iff.rfl

/-- A taker's limit excludes the prices that it does not meet. -/
theorem outOfLimit_iff_clears {price : ℚ} (hp : c.price = some price) (q : ℚ) :
    c.outOfLimit q = true ↔ clears c.side price q := by
  unfold COrder.outOfLimit clears
  rw [hp]
  cases c.side <;> simp

/-- No price of one side meets one of the other. -/
def Apart (e : CMatchingEngine) (G : Ghost) : Prop :=
  ∀ s, ∀ l ∈ view e G s, ∀ l' ∈ view e G s.opp, clears s l.price l'.price

/-- Looking at one of the sides is enough. -/
theorem apart_of_side (s : CSide)
    (h : ∀ l ∈ view e G s, ∀ l' ∈ view e G s.opp, clears s l.price l'.price) : Apart e G := by
  intro t l hl l' hl'
  rcases eq_or_eq_opp s t with rfl | rfl
  · exact h l hl l' hl'
  · rw [opp_opp] at hl'
    exact (clears_opp s _ _).mpr (h l' hl' l hl)

theorem bestPrice_mem (h : EngineShape e G) {s : CSide} {p : ℚ} (hp : p ∈ bestPrice e s) :
    ∃ l ∈ view e G s, l.price = p := by
  have hmem : p ∈ (slice (e.bookSide s).levels (min (e.bookSide s).size 1)).map PriceLevel.price :=
    List.mem_of_mem_head? hp
  obtain ⟨lvl, hlvl, rfl⟩ := List.mem_map.mp hmem
  obtain ⟨i, hi, rfl⟩ := List.mem_map.mp hlvl
  have hlt : i < (G s).length := by
    rw [List.mem_range, (h.side s).size_eq] at hi
    omega
  rw [(h.side s).level_eq hlt]
  exact ⟨viewLevel e.nodePool (G s)[i], List.mem_map_of_mem (List.getElem_mem hlt), rfl⟩

theorem Apart.uncrossed (h : EngineShape e G) (hapart : Apart e G) : Uncrossed e := by
  intro bid hbid ask hask
  obtain ⟨l, hl, rfl⟩ := bestPrice_mem h hbid
  obtain ⟨l', hl', rfl⟩ := bestPrice_mem h hask
  exact hapart .buy l hl l' hl'

/-! ### Prices after a step -/

section Prices

variable {ls : List Level}

/-- The prices of the levels `ls'` are among those of `ls`. -/
def PricesIn (ls' ls : List Level) : Prop := ∀ l' ∈ ls', ∃ l ∈ ls, l.price = l'.price

theorem PricesIn.refl (ls : List Level) : PricesIn ls ls := fun l hl => ⟨l, hl, rfl⟩

theorem walkSide_prices (c : COrder) (r : ℚ) (ls : List Level) :
    PricesIn (walkSide c r ls).rest ls := by
  induction ls generalizing r with
  | nil => exact PricesIn.refl []
  | cons l ls ih =>
    rcases le_or_gt r 0 with hr | hr
    · rw [walkSide_nonpos c hr]
      exact PricesIn.refl _
    by_cases hout : c.outOfLimit l.price = true
    · rw [walkSide_out ls hout]
      exact PricesIn.refl _
    by_cases hrest : (walkLevel c l.price r l.orders).rest = []
    · rw [walkSide_emptied ls hr hout hrest]
      intro l' hl'
      obtain ⟨l₀, hl₀, hp⟩ := ih _ l' hl'
      exact ⟨l₀, List.mem_cons_of_mem _ hl₀, hp⟩
    · rw [walkSide_kept ls hr hout hrest]
      intro l' hl'
      rcases List.mem_cons.mp hl' with rfl | hl'
      · exact ⟨l, List.mem_cons_self, rfl⟩
      · exact ⟨l', List.mem_cons_of_mem _ hl', rfl⟩

theorem matchLevels_prices (c : COrder) (ls : List Level) : PricesIn (matchLevels c ls).2 ls := by
  rw [matchLevels]
  by_cases hpost : c.type = .postOnly
  · rw [if_pos hpost]
    exact PricesIn.refl ls
  rw [if_neg hpost]
  by_cases hrej : c.type = .fok ∧ coversWithin c 0 ls = false
  · rw [if_pos hrej]
    exact PricesIn.refl ls
  · rw [if_neg hrej]
    exact walkSide_prices c _ ls

theorem addResting_prices {d : Bool} {price : ℚ} {o : Resting} :
    ∀ l' ∈ addResting d price o ls, l'.price = price ∨ ∃ l ∈ ls, l.price = l'.price := by
  induction ls with
  | nil => simp [addResting]
  | cons l ls ih =>
    have htail : ∀ l' ∈ ls, ∃ l₀ ∈ l :: ls, l₀.price = l'.price :=
      fun l' hl' => ⟨l', List.mem_cons_of_mem _ hl', rfl⟩
    rw [addResting]
    split_ifs with hp
    · exact List.forall_mem_cons.mpr ⟨.inl hp, fun l' hl' => .inr (htail l' hl')⟩
    · exact List.forall_mem_cons.mpr ⟨.inl rfl, fun l' hl' => .inr ⟨l', hl', rfl⟩⟩
    · refine List.forall_mem_cons.mpr ⟨.inr ⟨l, List.mem_cons_self, rfl⟩, fun l' hl' => ?_⟩
      rcases ih l' hl' with h | ⟨l₀, hl₀, h⟩
      · exact .inl h
      · exact .inr ⟨l₀, List.mem_cons_of_mem _ hl₀, h⟩

theorem cancelResting_prices (price : ℚ) (orderId : OrderId) (ls : List Level) :
    PricesIn (cancelResting price orderId ls) ls := by
  induction ls with
  | nil => exact PricesIn.refl []
  | cons l ls ih =>
    have htail : PricesIn ls (l :: ls) := fun l' hl' => ⟨l', List.mem_cons_of_mem _ hl', rfl⟩
    simp only [cancelResting]
    split_ifs
    · exact htail
    · exact List.forall_mem_cons.mpr ⟨⟨l, List.mem_cons_self, rfl⟩, htail⟩
    · refine List.forall_mem_cons.mpr ⟨⟨l, List.mem_cons_self, rfl⟩, fun l' hl' => ?_⟩
      obtain ⟨l₀, hl₀, hp⟩ := ih l' hl'
      exact ⟨l₀, List.mem_cons_of_mem _ hl₀, hp⟩

/-- Behind a level out of the limit, all levels are. -/
theorem outOfLimit_tail {l : Level} (hout : c.outOfLimit l.price = true)
    (hs : (l :: ls).Pairwise fun l l' => before c.side.opp.descending l.price l'.price) :
    ∀ l' ∈ l :: ls, c.outOfLimit l'.price = true :=
  List.forall_mem_cons.mpr ⟨hout, fun l' hl' =>
    outOfLimit_mono hout (before_asymm ((List.pairwise_cons.mp hs).1 l' hl'))⟩

/-- **A taker of which something is left** has used up all levels within its limit. -/
theorem walkSide_rest_out (hs : ls.Pairwise fun l l' => before c.side.opp.descending l.price l'.price)
    {r : ℚ} (hrem : 0 < (walkSide c r ls).remaining) :
    ∀ l ∈ (walkSide c r ls).rest, c.outOfLimit l.price = true := by
  induction ls generalizing r with
  | nil => simp [walkSide]
  | cons l ls ih =>
    rcases le_or_gt r 0 with hr | hr
    · rw [walkSide_nonpos c hr] at hrem
      exact absurd hrem (not_lt.mpr hr)
    by_cases hout : c.outOfLimit l.price = true
    · rw [walkSide_out ls hout]
      exact outOfLimit_tail hout hs
    by_cases hrest : (walkLevel c l.price r l.orders).rest = []
    · rw [walkSide_emptied ls hr hout hrest] at hrem ⊢
      exact ih (List.pairwise_cons.mp hs).2 hrem
    · rw [walkSide_kept ls hr hout hrest] at hrem
      exact absurd hrem (not_lt.mpr (walkLevel_remaining_le c _ _ _ hrest))

/-- A taker that rests does not meet any price that is left. -/
theorem matchLevels_rests (hs : ls.Pairwise fun l l' => before c.side.opp.descending l.price l'.price)
    (hsome : c.price.isSome) (hrests : c.rests (matchLevels c ls).1 = true) :
    ∀ l ∈ (matchLevels c ls).2, c.outOfLimit l.price = true := by
  simp only [COrder.rests, Bool.and_eq_true, Bool.or_eq_true, decide_eq_true_eq] at hrests
  obtain ⟨⟨htype, hok⟩, hrem⟩ := hrests
  unfold matchLevels at hok hrem ⊢
  by_cases hpost : c.type = .postOnly
  · rw [if_pos hpost] at hok ⊢
    have hcross : crossesBest c ls = false := by
      by_contra hcross
      simp [hcross] at hok
    cases ls with
    | nil => simp
    | cons l ls =>
      refine outOfLimit_tail ?_ hs
      simpa [crossesBest, hsome] using hcross
  rw [if_neg hpost] at hok hrem ⊢
  have hrej : ¬ (c.type = .fok ∧ coversWithin c 0 ls = false) := by
    rintro ⟨hfok, -⟩
    rcases htype with htype | htype <;> rw [hfok] at htype <;> exact absurd htype (by decide)
  rw [if_neg hrej] at hrem ⊢
  exact walkSide_rest_out hs hrem

end Prices

/-! ### A step -/

/-- What a match leaves of the sides. -/
theorem matchActiveOrder_prices (h : EngineShape e G) (c : COrder) :
    ∃ r e' G', matchActiveOrder e c = .ok (r, e') ∧ EngineShape e' G' ∧
      view e' G' c.side = view e G c.side ∧
      PricesIn (view e' G' c.side.opp) (view e G c.side.opp) ∧
      (c.price.isSome → c.rests r = true →
        ∀ l ∈ view e' G' c.side.opp, c.outOfLimit l.price = true) := by
  rcases le_or_gt (fillsNeeded e c) e.tradesCap with hfit | hfull
  · rw [fillsNeeded_eq h] at hfit
    obtain ⟨e', G', hrun, h', hview, hsame, -⟩ := matchActiveOrder_shape h c hfit
    refine ⟨_, e', G', hrun, h', hsame, ?_, fun hsome hrests => ?_⟩
    · rw [hview]
      exact matchLevels_prices c _
    · rw [hview]
      exact matchLevels_rests (h.view_sorted _) hsome hrests
  · -- at a full buffer the outcome is not one after which the taker rests
    obtain ⟨r, e', G', hrun, hout, -, h', hsame, hprices, -⟩ := matchActiveOrder_overflow h c hfull
    refine ⟨r, e', G', hrun, h', hsame, hprices, fun _ hrests => ?_⟩
    simp [COrder.rests, hout] at hrests

/-- Sides of which prices only leave stay apart. -/
theorem Apart.shrink (hapart : Apart e G) (h : ∀ s, PricesIn (view e' G' s) (view e G s)) :
    Apart e' G' := by
  intro s l hl l' hl'
  obtain ⟨l₁, hl₁, hp⟩ := h s l hl
  obtain ⟨l₂, hl₂, hp'⟩ := h s.opp l' hl'
  rw [← hp, ← hp']
  exact hapart s l₁ hl₁ l₂ hl₂

/-- Inserting an order that does not meet the other side. -/
theorem Apart.insert (h : EngineShape e G) (hapart : Apart e G) (o : PassiveOrder)
    (hclear : ∀ l ∈ view e G o.side.opp, clears o.side o.price l.price) :
    ∃ G', EngineShape (EngineCall.run e (.addPassiveOrder o)) G' ∧
      Apart (EngineCall.run e (.addPassiveOrder o)) G' := by
  by_cases hq : o.qty ≤ 0
  · exact ⟨G, by simpa only [EngineCall.run, addPassiveOrder, if_pos hq] using ⟨h, hapart⟩⟩
  by_cases hcap : e.nodePoolSize + 1 > e.nodePoolCap
  · exact ⟨G, by
      simpa only [EngineCall.run, addPassiveOrder, if_neg hq, if_pos hcap] using ⟨h, hapart⟩⟩
  obtain ⟨e', G', hrun, h', hview, hopp, -⟩ :=
    addPassiveOrder_shape h (not_le.mp hq) (not_lt.mp hcap)
  refine ⟨G', by simpa only [EngineCall.run, hrun] using h', ?_⟩
  simp only [EngineCall.run, hrun]
  refine apart_of_side o.side fun l hl l' hl' => ?_
  rw [hview] at hl
  rw [hopp] at hl'
  rcases addResting_prices l hl with hp | ⟨l₀, hl₀, hp⟩
  · rw [hp]
    exact hclear l' hl'
  · rw [← hp]
    exact hapart o.side l₀ hl₀ l' hl'

/-- **Every step keeps the sides apart.** -/
theorem Apart.lifeStep (h : EngineShape e G) (hapart : Apart e G) (step : LifeStep) :
    ∃ G', EngineShape (lifeStep e step) G' ∧ Apart (Engine.lifeStep e step) G' := by
  cases step with
  | take c isIceberg visibleQty hiddenQty =>
    obtain ⟨r, e', G', hrun, h', hsame, hprices, hrests⟩ := matchActiveOrder_prices h c
    have hapart' : Apart e' G' := hapart.shrink fun s => by
      rcases eq_or_eq_opp c.side s with rfl | rfl
      · rw [hsame]
        exact PricesIn.refl _
      · exact hprices
    -- a taker without a price never rests
    cases hp : c.price with
    | none => exact ⟨G', by simpa only [Engine.lifeStep, hrun, hp] using ⟨h', hapart'⟩⟩
    | some price =>
      by_cases hrest : c.rests r = true
      · simp only [Engine.lifeStep, hrun, hp, if_pos hrest]
        -- what rests has a price that no level of the other side meets
        refine Apart.insert h' hapart' _ fun l hl => ?_
        exact (outOfLimit_iff_clears hp _).mp (hrests (by rw [hp]; rfl) hrest l hl)
      · exact ⟨G', by simpa only [Engine.lifeStep, hrun, hp, if_neg hrest] using ⟨h', hapart'⟩⟩
  | cancel orderId side price =>
    obtain ⟨e', G', hrun, h', hview, hopp, -⟩ := cancelOrder_shape h orderId side price
    refine ⟨G', by simpa only [Engine.lifeStep, EngineCall.run, hrun] using h', ?_⟩
    simp only [Engine.lifeStep, EngineCall.run, hrun]
    refine hapart.shrink fun s => ?_
    rcases eq_or_eq_opp side s with rfl | rfl
    · rw [hview]
      exact cancelResting_prices price orderId _
    · rw [hopp]
      exact PricesIn.refl _

/-! ### Post-only -/

/-- The best level is within the limit exactly when a walk trades. -/
theorem crossesBest_iff_trades {ls : List Level} (hne : ∀ l ∈ ls, l.orders ≠ []) (c' : COrder)
    (hsome : c.price.isSome) (hside : c'.side = c.side) (hprice : c'.price = c.price) {r : ℚ}
    (hr : 0 < r) : crossesBest c ls = true ↔ (walkSide c' r ls).trades ≠ [] := by
  have hlimit : ∀ p, c'.outOfLimit p = c.outOfLimit p := fun p => by
    rw [COrder.outOfLimit, COrder.outOfLimit, hside, hprice]
  cases ls with
  | nil => simp [crossesBest, walkSide]
  | cons l ls =>
    have hflat := walkSide_flat c' r hne
    by_cases hout : c.outOfLimit l.price = true
    · rw [walkSide_out ls ((hlimit _).trans hout)]
      simp [crossesBest, hsome, hout]
    · obtain ⟨o, os, ho⟩ := List.exists_cons_of_ne_nil (hne l List.mem_cons_self)
      have htrades : (walkFlat c' r (flat (l :: ls))).trades ≠ [] := by
        rw [flat_cons, ho, List.map_cons, List.cons_append,
          (walkFlat_cons _ hr (by rw [hlimit]; exact hout)).1]
        simp [(fillMaker_amounts o r).fills_ne]
      rw [hflat] at htrades
      simpa [crossesBest, hsome, hout] using htrades

theorem EngineShape.postOnlyExact (h : EngineShape e G) (hcap : 0 < e.tradesCap) :
    PostOnlyExact e := by
  intro c hpost hsome hr
  have hlevels : (matchLevels c (view e G c.side.opp)).1 =
      { trades := [], outcome := if crossesBest c (view e G c.side.opp) then .postOnlyCross else .ok,
        remainingQty := c.remainingQty } := by
    rw [matchLevels, if_pos hpost]
  obtain ⟨e', G', hrun, -⟩ := matchActiveOrder_shape h c (by rw [hlevels]; exact Nat.zero_le _)
  rw [hlevels] at hrun
  refine ⟨_, e', hrun, rfl, fun c' hlimit hside hprice hrem => ?_⟩
  -- the best price crosses if and only if a LIMIT order would trade
  have hcross := crossesBest_iff_trades (c := c) (h.view_nonempty c.side.opp) c' hsome hside hprice
    (hrem.symm ▸ hr : 0 < c'.remainingQty)
  have hwalk := matchLevels_walk (c := c') (view e G c'.side.opp)
    (by rw [hlimit]; decide) (by rw [hlimit]; exact fun h => absurd h.1 (by decide))
  have hoiff : (if crossesBest c (view e G c.side.opp) then CMatchOutcome.postOnlyCross else .ok) =
      .postOnlyCross ↔ crossesBest c (view e G c.side.opp) = true := by
    split_ifs with hc <;> simp [hc]
  rcases le_or_gt (fillsNeeded e c') e.tradesCap with hfit | hfull
  · rw [fillsNeeded_eq h] at hfit
    obtain ⟨e'', G'', hrun', -⟩ := matchActiveOrder_shape h c' hfit
    refine ⟨_, e'', hrun', hoiff.trans (hcross.trans ?_)⟩
    rw [hwalk, hside]
  · -- a match that runs out of buffer has traded
    obtain ⟨r', e'', G'', hrun', -, hlen, -⟩ := matchActiveOrder_overflow h c' hfull
    refine ⟨r', e'', hrun', hoiff.trans (hcross.trans (iff_of_true ?_ ?_))⟩
    · rw [fillsNeeded_eq h, hwalk] at hfull
      rw [← hside]
      exact List.ne_nil_of_length_pos (Nat.zero_lt_of_lt hfull)
    · exact List.ne_nil_of_length_pos (hlen ▸ hcap)

/-- A step keeps the size of the trade buffer. -/
theorem lifeStep_tradesCap (h : EngineShape e G) (step : LifeStep) :
    (lifeStep e step).tradesCap = e.tradesCap := by
  have hcall : ∀ {e G}, EngineShape e G → ∀ call, (EngineCall.run e call).tradesCap = e.tradesCap :=
    fun h call => by
      obtain ⟨G', -, -, htrades⟩ := h.run call
      exact htrades
  cases step with
  | take c isIceberg visibleQty hiddenQty =>
    obtain ⟨r, e', G', hrun, h', -⟩ := matchActiveOrder_prices h c
    have htrades := hcall h (.matchActiveOrder c)
    simp only [EngineCall.run, hrun] at htrades
    simp only [lifeStep, hrun]
    cases c.price with
    | none => exact htrades
    | some price =>
      simp only
      split_ifs
      · exact (hcall h' _).trans htrades
      · exact htrades
  | cancel orderId side price => exact hcall h _

theorem Apart.lifeRun (h : EngineShape e G) (hapart : Apart e G) (steps : List LifeStep) :
    ∃ G', EngineShape (lifeRun e steps) G' ∧ Apart (Engine.lifeRun e steps) G' ∧
      (Engine.lifeRun e steps).tradesCap = e.tradesCap := by
  induction steps generalizing e G with
  | nil => exact ⟨G, h, hapart, rfl⟩
  | cons step steps ih =>
    obtain ⟨G', h', hapart'⟩ := hapart.lifeStep h step
    obtain ⟨G'', h'', hapart'', htrades⟩ := ih h' hapart'
    exact ⟨G'', h'', hapart'', htrades.trans (lifeStep_tradesCap h step)⟩

/-- **The book stays uncrossed, and post-only is exact**, after every life cycle. -/
theorem lifeRun_uncrossed (steps : List LifeStep) :
    Uncrossed (lifeRun CMatchingEngine.new steps) ∧
      PostOnlyExact (lifeRun CMatchingEngine.new steps) := by
  have hempty : Apart CMatchingEngine.new fun _ => [] := fun s l hl => absurd hl List.not_mem_nil
  obtain ⟨G, h, hapart, htrades⟩ := hempty.lifeRun engineRep_new.toEngineShape steps
  exact ⟨hapart.uncrossed h, h.postOnlyExact (by rw [htrades]; decide)⟩

end SpotExchange.Engine
