import SpotExchange.Engine.MatchSpec

namespace SpotExchange.Engine

open SpotExchange.Lib

/-!
# The representation invariant

* `EngineCall` — a call on an engine; `EngineCall.run` — the engine after it;
* `RepInvariant` — what every engine between two calls satisfies: sorted levels, well-linked
  queues with the right totals, and no pool slot used twice;
* `repInvariant_runCalls` — it holds after every sequence of admissible calls.
-/

variable {e : CMatchingEngine} {G : Ghost}

/-! ### Calls -/

/-- A call on an engine. -/
inductive EngineCall
  | addPassiveOrder (o : PassiveOrder)
  | cancelOrder (orderId : OrderId) (side : CSide) (price : ℚ)
  | matchActiveOrder (c : COrder)
  | reset
  deriving DecidableEq, Repr

/-- The engine after a call.  A call that raises does so before it has written anything. -/
def EngineCall.run (e : CMatchingEngine) : EngineCall → CMatchingEngine
  | .addPassiveOrder o =>
      match Engine.addPassiveOrder e o with
      | .ok e' => e'
      | .error _ => e
  | .cancelOrder orderId side price =>
      match Engine.cancelOrder e orderId side price with
      | .ok (_, e') => e'
      | .error _ => e
  | .matchActiveOrder c =>
      match Engine.matchActiveOrder e c with
      | .ok (_, e') => e'
      | .error _ => e
  | .reset => Engine.reset e

/-- An iceberg exposes a positive part of what it has. -/
def PassiveOrder.IcebergOk (o : PassiveOrder) : Prop :=
  o.isIceberg = true → 0 < o.visibleQty ∧ o.visibleQty ≤ o.qty

instance (o : PassiveOrder) : Decidable o.IcebergOk := by
  unfold PassiveOrder.IcebergOk; infer_instance

/-- What is asked of a call: icebergs are sensible, and no match needs more fills than the trade
    buffer holds. -/
def EngineCall.Admissible (e : CMatchingEngine) : EngineCall → Prop
  | .addPassiveOrder o => o.IcebergOk
  | .matchActiveOrder c => fillsNeeded e c ≤ e.tradesCap
  | _ => True

instance (e : CMatchingEngine) : (call : EngineCall) → Decidable (call.Admissible e)
  | .addPassiveOrder o => inferInstanceAs (Decidable o.IcebergOk)
  | .matchActiveOrder c => inferInstanceAs (Decidable (fillsNeeded e c ≤ e.tradesCap))
  | .cancelOrder .. => inferInstanceAs (Decidable True)
  | .reset => inferInstanceAs (Decidable True)

/-- The engine after a sequence of calls. -/
def runCalls (e : CMatchingEngine) (calls : List EngineCall) : CMatchingEngine :=
  calls.foldl EngineCall.run e

/-- Every call of a sequence is admissible when its turn comes. -/
def AllAdmissible : CMatchingEngine → List EngineCall → Prop
  | _, [] => True
  | e, call :: calls => call.Admissible e ∧ AllAdmissible (call.run e) calls

instance decidableAllAdmissible :
    (e : CMatchingEngine) → (calls : List EngineCall) → Decidable (AllAdmissible e calls)
  | _, [] => inferInstanceAs (Decidable True)
  | e, call :: calls =>
      have := decidableAllAdmissible (call.run e) calls
      inferInstanceAs (Decidable (call.Admissible e ∧ AllAdmissible (call.run e) calls))

/-! ### The invariant -/

/-- The queue of a level: `nodes` are the slots visited from `head`, in order. -/
structure LevelInvariant (e : CMatchingEngine) (lvl : PriceLevel) (nodes : List ℕ) : Prop where
  /-- The list from `head` is finite and ends in `NULL`. -/
  list : Chain (nextOf e.nodePool) lvl.head nodes
  nonempty : nodes ≠ []
  /-- It ends at `tail`, whose `next` is `NULL`. -/
  tail : lvl.tail = nodes.getLast?
  tail_next : ∀ t, lvl.tail = some t → (e.nodePool t).next = none
  order_count : lvl.orderCount = nodes.length
  total_volume : lvl.totalVolume = (nodes.map fun i => (e.nodePool i).remainingQty).sum
  positive : ∀ i ∈ nodes, 0 < (e.nodePool i).remainingQty ∧ 0 < (e.nodePool i).visibleQty

/-- The levels of a side: strictly sorted, each with its queue. -/
structure SideInvariant (e : CMatchingEngine) (s : CSide) (nodes : ℕ → List ℕ) : Prop where
  sorted : ∀ i j, i < j → j < (e.bookSide s).size →
    match s with
    | .buy => ((e.bookSide s).levels i).price > ((e.bookSide s).levels j).price
    | .sell => ((e.bookSide s).levels i).price < ((e.bookSide s).levels j).price
  level : ∀ i < (e.bookSide s).size, LevelInvariant e ((e.bookSide s).levels i) (nodes i)

/-- The slots of all levels of a side. -/
def slots (e : CMatchingEngine) (s : CSide) (nodes : ℕ → List ℕ) : List ℕ :=
  (List.range (e.bookSide s).size).flatMap nodes

/-- **The representation invariant.** Both sides are in order, and the nodes reachable from all
    levels are pairwise distinct slots of the used part of the pool. -/
def RepInvariant (e : CMatchingEngine) : Prop :=
  ∃ nodes : CSide → ℕ → List ℕ,
    (∀ s, SideInvariant e s (nodes s)) ∧
    (slots e .buy (nodes .buy) ++ slots e .sell (nodes .sell)).Nodup ∧
    ∀ s, ∀ i ∈ slots e s (nodes s), i < e.nodePoolSize

/-! ### From what an engine represents -/

/-- The slots of the level at each index. -/
def nodesOf (L : List GhostLevel) (i : ℕ) : List ℕ := (L[i]?.map Prod.snd).getD []

theorem flatMap_nodesOf (L : List GhostLevel) :
    (List.range L.length).flatMap (nodesOf L) = cells L := by
  induction L with
  | nil => rfl
  | cons g L ih =>
    rw [List.length_cons, List.range_succ_eq_map, List.flatMap_cons, List.flatMap_map, cells_cons,
      ← ih]
    rfl

theorem LevelRep.levelInvariant {lvl : PriceLevel} {ids : List ℕ}
    (h : LevelRep e.nodePool lvl ids) (hne : ids ≠ [])
    (hv : ∀ i ∈ ids, (e.nodePool i).resting.Valid) : LevelInvariant e lvl ids where
  list := h.chain
  nonempty := hne
  tail := h.tail
  tail_next := by
    intro t ht
    obtain ⟨l, rfl⟩ : ∃ l, ids = l ++ [t] := by
      rw [h.tail, List.getLast?_eq_some_iff] at ht
      exact ht
    exact h.chain.next_last
  order_count := h.count
  total_volume := h.volume
  positive := fun i hi => ⟨(hv i hi).remaining_pos, (hv i hi).visible_pos⟩

theorem EngineRep.sideInvariant (h : EngineRep e G) (s : CSide) :
    SideInvariant e s (nodesOf (G s)) where
  sorted := by
    intro i j hij hj
    have hb := (h.side s).side_sorted i j hij hj
    rw [h.direction] at hb
    cases s <;> simpa [before] using hb
  level := by
    intro i hi
    rw [(h.side s).size_eq] at hi
    rw [(h.side s).level_eq hi, nodesOf, List.getElem?_eq_getElem hi]
    have hmem := List.getElem_mem hi
    exact ((h.side s).rep _ hmem).levelInvariant (h.nonempty s _ hmem)
      fun j hj => h.valid s j (mem_cells.mpr ⟨_, hmem, hj⟩)

/-- An engine that represents a book satisfies the invariant. -/
theorem EngineRep.repInvariant (h : EngineRep e G) : RepInvariant e := by
  have hslots : ∀ s, slots e s (nodesOf (G s)) = cells (G s) := fun s => by
    rw [slots, (h.side s).size_eq, flatMap_nodesOf]
  refine ⟨fun s => nodesOf (G s), h.sideInvariant, ?_, fun s => ?_⟩
  · rw [hslots, hslots]
    exact h.nodup .buy
  · rw [hslots]
    exact h.bound s

/-! ### Every call keeps it -/

theorem PassiveOrder.IcebergOk.valid {o : PassiveOrder} (h : o.IcebergOk) (hq : 0 < o.qty) :
    o.Valid where
  qty_pos := hq
  visible_pos := fun hi => (h hi).1
  visible_le := fun hi => (h hi).2

/-- An admissible call leads from an engine that represents a book to one that does. -/
theorem EngineRep.run (h : EngineRep e G) {call : EngineCall} (hok : call.Admissible e) :
    ∃ G', EngineRep (call.run e) G' := by
  cases call with
  | addPassiveOrder o =>
    by_cases hq : o.qty ≤ 0
    · exact ⟨G, by simpa only [EngineCall.run, addPassiveOrder, if_pos hq] using h⟩
    by_cases hcap : e.nodePoolSize + 1 > e.nodePoolCap
    · exact ⟨G, by simpa only [EngineCall.run, addPassiveOrder, if_neg hq, if_pos hcap] using h⟩
    obtain ⟨e', G', hrun, h', -⟩ :=
      addPassiveOrder_spec h (PassiveOrder.IcebergOk.valid hok (not_le.mp hq)) (not_lt.mp hcap)
    exact ⟨G', by simpa only [EngineCall.run, hrun] using h'⟩
  | cancelOrder orderId side price =>
    obtain ⟨e', G', hrun, h', -⟩ := cancelOrder_spec h orderId side price
    exact ⟨G', by simpa only [EngineCall.run, hrun] using h'⟩
  | matchActiveOrder c =>
    have hfit : fillsNeeded e c ≤ e.tradesCap := hok
    rw [fillsNeeded_eq h.toEngineShape] at hfit
    obtain ⟨e', G', hrun, h', -⟩ := matchActiveOrder_spec h c hfit
    exact ⟨G', by simpa only [EngineCall.run, hrun] using h'⟩
  | reset => exact ⟨_, engineRep_reset h.direction⟩

theorem EngineRep.runCalls (h : EngineRep e G) {calls : List EngineCall}
    (hok : AllAdmissible e calls) : ∃ G', EngineRep (runCalls e calls) G' := by
  induction calls generalizing e G with
  | nil => exact ⟨G, h⟩
  | cons call calls ih =>
    obtain ⟨G', h'⟩ := h.run hok.1
    exact ih h' hok.2

/-- **The invariant holds in every reachable state**: after every sequence of admissible calls on
    a new engine. -/
theorem repInvariant_runCalls (calls : List EngineCall)
    (hok : AllAdmissible CMatchingEngine.new calls) :
    RepInvariant (runCalls CMatchingEngine.new calls) := by
  obtain ⟨G, h⟩ := engineRep_new.runCalls hok
  exact h.repInvariant

/-- A book with an iceberg and a plain order at one price, swept by a buyer who takes the visible
    part, the refill, and a piece of the plain order. -/
def icebergSweep : List EngineCall :=
  [.addPassiveOrder { orderId := 1, side := .sell, price := 100, qty := 5, isIceberg := true,
                      visibleQty := 2, hiddenQty := 3 },
   .addPassiveOrder { orderId := 2, side := .sell, price := 100, qty := 4, isIceberg := false,
                      visibleQty := 4, hiddenQty := 0 },
   .matchActiveOrder { orderId := 3, side := .buy, type := .limit, price := some 100,
                       quantity := 6, remainingQty := 6, isIceberg := false, visibleQty := 6,
                       hiddenQty := 0 },
   .cancelOrder 2 .sell 100]

theorem repInvariant_icebergSweep :
    fillsNeeded (runCalls CMatchingEngine.new (icebergSweep.take 2))
      { orderId := 3, side := .buy, type := .limit, price := some 100, quantity := 6,
        remainingQty := 6, isIceberg := false, visibleQty := 6, hiddenQty := 0 } = 3 ∧
      RepInvariant (runCalls CMatchingEngine.new icebergSweep) :=
  ⟨by decide +kernel, repInvariant_runCalls icebergSweep (by decide +kernel)⟩

end SpotExchange.Engine
