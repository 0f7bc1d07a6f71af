import SpotExchange.Engine.Volume
import SpotExchange.Exchange.Worker

namespace SpotExchange.Exchange

open SpotExchange.Engine

/-!
# Volume, whatever the depth of the book

* `Conserves` — a match neither loses nor makes volume, and a rejected one does nothing;
* `conserves_iff` — this is so exactly when the trade buffer has room for the match.
-/

variable {e : CMatchingEngine} {G : Ghost}

/-- **No volume is lost** in the match of `c` on `e` that returns `r` and leaves `e'`: the trades
    account for what the taker and each maker have less, the other orders are as they were, and a
    rejected taker has not traded. -/
structure Conserves (e : CMatchingEngine) (c : COrder) (r : MatchResult) (e' : CMatchingEngine) :
    Prop where
  taker : (r.trades.map TradeResult.quantity).sum = c.remainingQty - r.remainingQty
  makers : ∀ id, leftOf id (bookOrders e' c.side.opp) =
    leftOf id (bookOrders e c.side.opp) - filledWith r.trades id
  others : ∀ id, (∀ t ∈ r.trades, t.makerOrderId ≠ id) →
    ofId id (bookOrders e' c.side.opp) = ofId id (bookOrders e c.side.opp)
  own : bookOrders e' c.side = bookOrders e c.side
  rejected : isOutcomeReject r.outcome = true →
    r.trades = [] ∧ ∀ s, bookOrders e' s = bookOrders e s

/-- The match returns and conserves volume. -/
def MatchConserves (e : CMatchingEngine) (c : COrder) : Prop :=
  ∃ r e', matchActiveOrder e c = .ok (r, e') ∧ Conserves e c r e'

/-- Where both sides are as they were, and nothing is traded. -/
theorem Conserves.of_quiet {c : COrder} {r : MatchResult} {e' : CMatchingEngine}
    (htrades : r.trades = []) (hrem : r.remainingQty = c.remainingQty)
    (h : ∀ s, bookOrders e' s = bookOrders e s) : Conserves e c r e' where
  taker := by rw [htrades, hrem]; simp
  makers := fun id => by rw [htrades, h]; simp [filledWith]
  others := fun id _ => by rw [h]
  own := h _
  rejected := fun _ => ⟨htrades, h⟩

/-- A match that the trade buffer has room for conserves volume. -/
theorem matchConserves_of_fits (h : EngineShape e G) (c : COrder)
    (hfit : fillsNeeded e c ≤ e.tradesCap) : MatchConserves e c := by
  rw [fillsNeeded_eq h] at hfit
  obtain ⟨e', G', hrun, h', hview, hsame, -⟩ := matchActiveOrder_shape h c hfit
  refine ⟨_, e', hrun, ?_⟩
  have hown : bookOrders e' c.side = bookOrders e c.side := by
    rw [h'.bookOrders_eq, h.bookOrders_eq, hsame]
  have hboth : view e' G' c.side.opp = view e G c.side.opp → ∀ s, bookOrders e' s = bookOrders e s := by
    intro hopp s
    rcases eq_or_eq_opp c.side s with rfl | rfl
    · exact hown
    · rw [h'.bookOrders_eq, h.bookOrders_eq, hopp]
  unfold matchLevels at hview ⊢
  by_cases hpost : c.type = .postOnly
  · rw [if_pos hpost] at hview ⊢
    exact Conserves.of_quiet rfl rfl (hboth hview)
  rw [if_neg hpost] at hview ⊢
  by_cases hrej : c.type = .fok ∧ coversWithin c 0 (view e G c.side.opp) = false
  · rw [if_pos hrej] at hview ⊢
    exact Conserves.of_quiet rfl rfl (hboth hview)
  rw [if_neg hrej] at hview ⊢
  -- the walk, on the flat list of orders
  have hflat := walkSide_flat c c.remainingQty (h.view_nonempty c.side.opp)
  have hkept := walkFlat_kept c c.remainingQty (flat (view e G c.side.opp))
  rw [hflat] at hkept
  have hrest : bookOrders e' c.side.opp =
      flat (walkSide c c.remainingQty (view e G c.side.opp)).rest := by
    rw [h'.bookOrders_eq, hview]
  have hopp := h.bookOrders_eq c.side.opp
  refine ⟨hkept.total, fun id => ?_, fun id hid => ?_, hown, fun hreject => ?_⟩
  · rw [hrest, hopp]
    exact hkept.left id
  · rw [hrest, hopp]
    exact hkept.others id hid
  · -- of these takers, only those without trades are rejected
    have hnil : (walkSide c c.remainingQty (view e G c.side.opp)).trades = [] := by
      have hwalk : isOutcomeReject
          (walkOutcome c (walkSide c c.remainingQty (view e G c.side.opp))) = true := hreject
      rw [walkOutcome] at hwalk
      split_ifs at hwalk with hnone
      · exact List.length_eq_zero_iff.mp hnone.2.2
      · exact absurd hwalk (by decide)
    refine ⟨hnil, fun s => ?_⟩
    rcases eq_or_eq_opp c.side s with rfl | rfl
    · exact hown
    · rw [hrest, hopp]
      exact hkept.quiet hnil

/-- **Room in the trade buffer is what it takes.** -/
theorem conserves_iff (h : EngineShape e G) (hcap : 0 < e.tradesCap) (c : COrder) :
    MatchConserves e c ↔ FillsFit e c := by
  rw [fillsFit_iff h]
  refine ⟨fun ⟨r, e', hrun, hc⟩ => ?_, matchConserves_of_fits h c⟩
  by_contra hfull
  obtain ⟨r', e'', -, hrun', houtcome, hlen, -⟩ := matchActiveOrder_overflow h c (not_le.mp hfull)
  rw [hrun', Except.ok.injEq, Prod.mk.injEq] at hrun
  obtain ⟨rfl, rfl⟩ := hrun
  -- a full buffer is reported as a rejection
  have hnil := (hc.rejected (by rw [houtcome]; rfl)).1
  rw [hnil] at hlen
  exact absurd hlen (ne_of_lt hcap)

/-- Inserting orders on one side of an engine that has room for them. -/
theorem insertAll_flat (h : EngineShape e G) {s : CSide} {os : List PassiveOrder}
    (hside : ∀ o ∈ os, o.side = s) (hqty : ∀ o ∈ os, 0 < o.qty)
    (hroom : e.nodePoolSize + os.length ≤ e.nodePoolCap) :
    ∃ G', EngineShape (insertAll e os) G' ∧
      (flat (view (insertAll e os) G' s)).Perm (flat (view e G s) ++ os.map PassiveOrder.placed) := by
  induction os generalizing e G with
  | nil => exact ⟨G, h, by simp [insertAll, runCalls]⟩
  | cons o os ih =>
    rw [List.forall_mem_cons] at hside hqty
    rw [List.length_cons] at hroom
    obtain ⟨e', G', hrun, h', hview, -, hsize, hcap, -⟩ := addPassiveOrder_shape h hqty.1 (by omega)
    have hstep : insertAll e (o :: os) = insertAll e' os := by
      simp only [insertAll, runCalls, List.map_cons, List.foldl_cons, EngineCall.run, hrun]
    obtain ⟨G'', h'', hperm⟩ := ih h' hside.2 hqty.2 (by omega)
    rw [hstep]
    refine ⟨G'', h'', hperm.trans ?_⟩
    rw [← hside.1, hview, List.map_cons]
    exact ((flat_addResting _ _ _ _).append_right _).trans List.perm_middle.symm

/-- One more seller at one price than the trade buffer holds. -/
def deepAsks : List PassiveOrder :=
  (List.range (initialTradesCap + 1)).map fun i =>
    { orderId := i, side := .sell, price := 100, qty := 1, isIceberg := false, visibleQty := 1,
      hiddenQty := 0 }

/-- A buyer who wants all of them. -/
def deepBuyer : COrder where
  orderId := 5000
  side := .buy
  type := .limit
  price := some 100
  quantity := 1025
  remainingQty := 1025
  isIceberg := false
  visibleQty := 1025
  hiddenQty := 0

end SpotExchange.Exchange
