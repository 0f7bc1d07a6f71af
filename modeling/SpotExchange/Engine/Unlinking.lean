import SpotExchange.Engine.CancelSpec
import SpotExchange.Engine.Volume

namespace SpotExchange.Engine

open SpotExchange.Lib

/-!
# What a cancellation takes out of the book

* `bookLevels` — the levels of a side with their orders, read off the engine's memory;
* `Cancelled` — at most one order goes, the first of its id in the level of its price;
* `AppendsBehind` — an order that is added to a level goes behind the last one there;
* `cancelOrder_cancelled` — both, for every engine that calls lead to, and for every engine that
  calls lead to afterwards; an order that is added and cancelled leaves no trace.
-/

variable {e : CMatchingEngine} {G : Ghost}

/-! ### The book as an observer reads it -/

/-- The levels of a side, best first, each with its orders from its head. -/
def bookLevels (e : CMatchingEngine) (s : CSide) : List Level :=
  (slice (e.bookSide s).levels (e.bookSide s).size).map fun lvl =>
    { price := lvl.price
      orders := (nodesFrom e.nodePool lvl.orderCount.toNat lvl.head).map fun i =>
        (e.nodePool i).resting }

/-- The levels that an observer reads are those that the engine represents. -/
theorem EngineShape.bookLevels_eq (h : EngineShape e G) (s : CSide) : bookLevels e s = view e G s := by
  rw [bookLevels, (h.side s).levels, view, viewSide, List.map_map]
  refine List.map_congr_left fun g hg => ?_
  have hrep := (h.side s).rep g hg
  have hcount : g.1.orderCount.toNat = g.2.length := by rw [hrep.count, Int.toNat_natCast]
  simp only [Function.comp_apply, viewLevel]
  rw [hcount, nodesFrom_of_chain hrep.chain]

/-! ### What is said of a call -/

/-- The level of a price with these orders; none without orders. -/
def levelOf (price : ℚ) : List Resting → List Level
  | [] => []
  | o :: os => [{ price := price, orders := o :: os }]

/-- **What `cancel_order` does**: it finds the order exactly where the level holds one with that id;
    the first of them goes, and everything else stays where it is. -/
structure Cancelled (e e' : CMatchingEngine) (orderId : OrderId) (s : CSide) (price : ℚ)
    (found : Bool) : Prop where
  found_iff : found = true ↔
    ∃ l ∈ bookLevels e s, l.price = price ∧ ∃ o ∈ l.orders, o.orderId = orderId
  untouched : found = false → e' = e
  removed : found = true → ∃ front back before o behind,
    bookLevels e s = front ++ { price := price, orders := before ++ o :: behind } :: back ∧
    o.orderId = orderId ∧ (∀ r ∈ before, r.orderId ≠ orderId) ∧
    bookLevels e' s = front ++ (levelOf price (before ++ behind) ++ back)
  otherSide : bookLevels e' s.opp = bookLevels e s.opp

/-- **An order goes behind the last one of its level**, and the other levels stay as they are. -/
def AppendsBehind (e : CMatchingEngine) : Prop :=
  ∀ o e', addPassiveOrder e o = .ok e' →
    (∀ l ∈ bookLevels e o.side, l.price = o.price → ∃ front back,
      bookLevels e o.side = front ++ l :: back ∧
      bookLevels e' o.side =
        front ++ { price := o.price, orders := l.orders ++ [o.resting] } :: back) ∧
    bookLevels e' o.side.opp = bookLevels e o.side.opp

/-! ### On represented levels -/

section Levels

variable {d : Bool} {price : ℚ} {ls : List Level} {orderId : OrderId}

theorem restsAt_iff : restsAt price orderId ls = true ↔
    ∃ l ∈ ls, l.price = price ∧ ∃ o ∈ l.orders, o.orderId = orderId := by
  simp [restsAt, List.any_eq_true]

/-- The order that goes, and what stays around it. -/
theorem cancelResting_split (hs : ls.Pairwise fun l l' => before d l.price l'.price)
    (h : restsAt price orderId ls = true) :
    ∃ front back before o behind,
      ls = front ++ { price := price, orders := before ++ o :: behind } :: back ∧
      o.orderId = orderId ∧ (∀ r ∈ before, r.orderId ≠ orderId) ∧
      cancelResting price orderId ls = front ++ (levelOf price (before ++ behind) ++ back) := by
  obtain ⟨l, hl, hprice, o₀, ho₀, hid₀⟩ := restsAt_iff.mp h
  obtain ⟨i, hi, rfl⟩ := List.getElem_of_mem hl
  obtain ⟨o, before, behind, hbefore, ho, horders, herase⟩ := List.exists_of_eraseP
    (p := fun r : Resting => decide (r.orderId = orderId)) ho₀ (by simpa using hid₀)
  rw [decide_eq_true_eq] at ho
  refine ⟨ls.take i, ls.drop (i + 1), before, o, behind, ?_, ho,
    fun r hr => by simpa using hbefore r hr, ?_⟩
  · rw [← horders, ← hprice, List.getElem_cons_drop, List.take_append_drop]
  · rw [← hprice, cancelResting_of_mem hs hi, herase]
    cases hrest : before ++ behind with
    | nil => rw [if_pos rfl, List.eraseIdx_eq_take_drop_succ]; rfl
    | cons r rs => rw [if_neg (by simp), List.set_eq_take_append_cons_drop, if_pos hi]; rfl

/-- The level that an order joins. -/
theorem addResting_split (hs : ls.Pairwise fun l l' => before d l.price l'.price) {l : Level}
    (hl : l ∈ ls) (hprice : l.price = price) (o : Resting) :
    ∃ front back, ls = front ++ l :: back ∧
      addResting d price o ls = front ++ { price := price, orders := l.orders ++ [o] } :: back := by
  obtain ⟨i, hi, rfl⟩ := List.getElem_of_mem hl
  refine ⟨ls.take i, ls.drop (i + 1), ?_, ?_⟩
  · rw [List.getElem_cons_drop, List.take_append_drop]
  · rw [addResting_of_mem o hs hi hprice, List.set_eq_take_append_cons_drop, if_pos hi, ← hprice]

/-- An order that has been added can be found. -/
theorem restsAt_addResting (o : Resting) (ls : List Level) :
    restsAt price o.orderId (addResting d price o ls) = true := by
  induction ls with
  | nil => simp [addResting, restsAt]
  | cons l ls ih =>
    rw [addResting]
    split_ifs with hprice hbefore
    · simp [restsAt, hprice]
    · simp [restsAt]
    · unfold restsAt at ih ⊢
      rw [List.any_cons, ih, Bool.or_true]

/-- **Added and cancelled.** -/
theorem cancelResting_addResting {o : Resting} (hne : ∀ l ∈ ls, l.orders ≠ [])
    (hno : restsAt price o.orderId ls = false) :
    cancelResting price o.orderId (addResting d price o ls) = ls := by
  induction ls with
  | nil => simp [addResting, cancelResting]
  | cons l ls ih =>
    rw [List.forall_mem_cons] at hne
    have hsplit : (decide (l.price = price) && l.orders.any fun r => r.orderId = o.orderId) = false ∧
        restsAt price o.orderId ls = false := by
      rw [← Bool.or_eq_false_iff]
      exact hno
    rw [addResting]
    split_ifs with hprice hbefore
    · -- the order is the last of a level
      have hothers : ∀ r ∈ l.orders, ¬ decide (r.orderId = o.orderId) = true := by
        have hany := hsplit.1
        rw [decide_eq_true hprice, Bool.true_and, List.any_eq_false] at hany
        exact hany
      have herase : (l.orders ++ [o]).eraseP (fun r => r.orderId = o.orderId) = l.orders := by
        rw [List.eraseP_append_right _ hothers]
        simp
      rw [cancelResting, if_pos hprice]
      simp only [herase, if_neg hne.1]
    · -- the order has a level to itself
      simp [cancelResting]
    · rw [cancelResting, if_neg hprice, ih hne.2 hsplit.2]

end Levels

/-! ### The search -/

/-- A search without success has written nothing. -/
theorem CancelWalk.run_unfound {orderId : OrderId} {fuel : ℕ} {w₀ w : CancelWalk}
    (h : whileFuel CancelWalk.running (CancelWalk.step orderId) fuel w₀ = some w)
    (hfound : w.found = false) : w.pool = w₀.pool ∧ w.lvl = w₀.lvl := by
  have hkept : w.found = false → w.pool = w₀.pool ∧ w.lvl = w₀.lvl := by
    refine whileFuel_inv (P := fun w : CancelWalk => w.found = false → w.pool = w₀.pool ∧ w.lvl = w₀.lvl)
      ?_ (fun _ => ⟨rfl, rfl⟩) h
    intro u t hu hrun hstep
    unfold CancelWalk.step at hstep
    cases hcur : u.cur with
    | none => simp [CancelWalk.running, hcur] at hrun
    | some i =>
      simp only [hcur] at hstep
      split_ifs at hstep with hid
      · obtain rfl := Option.some.inj hstep
        intro hno
        simp [CancelWalk.unlink] at hno
      · obtain rfl := Option.some.inj hstep
        exact hu
  exact hkept hfound

/-- **A cancellation that finds nothing changes nothing.** -/
theorem cancelOrder_unfound {e' : CMatchingEngine} {orderId : OrderId} {s : CSide} {price : ℚ}
    (h : cancelOrder e orderId s price = .ok (false, e')) : e' = e := by
  unfold cancelOrder at h
  dsimp only at h
  split at h
  · exact absurd h (by simp)
  · exact (congrArg Prod.snd (Except.ok.inj h)).symm
  · rename_i i hfind
    split at h
    · exact absurd h (by simp)
    · rename_i w hrun
      have hfound : w.found = false := congrArg Prod.fst (Except.ok.inj h)
      obtain ⟨hpool, hlvl⟩ := CancelWalk.run_unfound hrun hfound
      have hafter : _ = e' := congrArg Prod.snd (Except.ok.inj h)
      rw [← hafter, hfound, hpool, hlvl, Function.update_eq_self]
      cases s <;> rfl

/-! ### On engines -/

/-- **`cancel_order`.** -/
theorem EngineShape.cancelled (h : EngineShape e G) (orderId : OrderId) (s : CSide) (price : ℚ) :
    ∃ found e', cancelOrder e orderId s price = .ok (found, e') ∧
      Cancelled e e' orderId s price found := by
  obtain ⟨e', G', hrun, h', hview, hopp, -⟩ := cancelOrder_shape h orderId s price
  refine ⟨_, e', hrun, ?_, ?_, ?_, ?_⟩
  · rw [h.bookLevels_eq]
    exact restsAt_iff
  · intro hno
    rw [hno] at hrun
    exact cancelOrder_unfound hrun
  · intro hyes
    rw [h.bookLevels_eq, h'.bookLevels_eq, hview]
    exact cancelResting_split (h.view_sorted s) hyes
  · rw [h.bookLevels_eq, h'.bookLevels_eq, hopp]

/-- An addition that returns had a quantity and a slot. -/
theorem addPassiveOrder_eq_ok {e' : CMatchingEngine} {o : PassiveOrder}
    (h : addPassiveOrder e o = .ok e') : 0 < o.qty ∧ e.nodePoolSize + 1 ≤ e.nodePoolCap := by
  unfold addPassiveOrder at h
  split_ifs at h with hq hcap
  exact ⟨not_le.mp hq, not_lt.mp hcap⟩

theorem EngineShape.appendsBehind (h : EngineShape e G) : AppendsBehind e := by
  intro o e' hadd
  obtain ⟨hq, hcap⟩ := addPassiveOrder_eq_ok hadd
  obtain ⟨e₁, G', hrun, h', hview, hopp, -⟩ := addPassiveOrder_shape h hq hcap
  obtain rfl : e₁ = e' := Except.ok.inj (hrun.symm.trans hadd)
  rw [h.bookLevels_eq, h'.bookLevels_eq, hview, h.bookLevels_eq, h'.bookLevels_eq, hopp]
  exact ⟨fun l hl hprice => addResting_split (h.view_sorted o.side) hl hprice o.resting, rfl⟩

/-- An order that is added and cancelled leaves the levels as they were. -/
theorem EngineShape.addedAndCancelled (h : EngineShape e G) {o : PassiveOrder} {e₁ : CMatchingEngine}
    (hadd : addPassiveOrder e o = .ok e₁)
    (hnew : ∀ l ∈ bookLevels e o.side, l.price = o.price → ∀ r ∈ l.orders, r.orderId ≠ o.orderId) :
    ∃ e₂ G₂, cancelOrder e₁ o.orderId o.side o.price = .ok (true, e₂) ∧ EngineShape e₂ G₂ ∧
      ∀ s, bookLevels e₂ s = bookLevels e s := by
  obtain ⟨hq, hcap⟩ := addPassiveOrder_eq_ok hadd
  obtain ⟨e', G₁, hrun, h₁, hview₁, hopp₁, -⟩ := addPassiveOrder_shape h hq hcap
  obtain rfl : e' = e₁ := Except.ok.inj (hrun.symm.trans hadd)
  obtain ⟨e₂, G₂, hcancel, h₂, hview₂, hopp₂, -⟩ := cancelOrder_shape h₁ o.orderId o.side o.price
  have hid : o.resting.orderId = o.orderId := rfl
  rw [hview₁, ← hid, restsAt_addResting] at hcancel
  refine ⟨e₂, G₂, hcancel, h₂, fun s => ?_⟩
  rw [h.bookLevels_eq, h₂.bookLevels_eq]
  rcases eq_or_eq_opp o.side s with rfl | rfl
  · rw [hview₂, hview₁, ← hid]
    apply cancelResting_addResting (h.view_nonempty o.side)
    rw [Bool.eq_false_iff]
    intro hrests
    obtain ⟨l, hl, hprice, r, hr, hrid⟩ := restsAt_iff.mp hrests
    rw [← h.bookLevels_eq] at hl
    exact hnew l hl hprice r hr hrid
  · rw [hopp₂, hopp₁]

/-! ### Engines that calls lead to -/

/-- **Cancelling takes out one order at most, in every engine that calls lead to.**  Orders that are
    added later go behind the last one, and an order that is added and cancelled leaves no trace. -/
theorem cancelOrder_cancelled (calls : List EngineCall) :
    (∀ orderId s price, ∃ found e',
      cancelOrder (runCalls CMatchingEngine.new calls) orderId s price = .ok (found, e') ∧
      Cancelled (runCalls CMatchingEngine.new calls) e' orderId s price found ∧
      ∀ later, AppendsBehind (runCalls e' later)) ∧
    ∀ o e₁, addPassiveOrder (runCalls CMatchingEngine.new calls) o = .ok e₁ →
      (∀ l ∈ bookLevels (runCalls CMatchingEngine.new calls) o.side, l.price = o.price →
        ∀ r ∈ l.orders, r.orderId ≠ o.orderId) →
      ∃ e₂, cancelOrder e₁ o.orderId o.side o.price = .ok (true, e₂) ∧
        (∀ s, bookLevels e₂ s = bookLevels (runCalls CMatchingEngine.new calls) s) ∧
        ∀ later, AppendsBehind (runCalls e₂ later) := by
  obtain ⟨G, h, -⟩ := engineShape_runCalls calls
  constructor
  · intro orderId s price
    obtain ⟨found, e', hrun, hcancelled⟩ := h.cancelled orderId s price
    obtain ⟨G', h', -⟩ := h.run (.cancelOrder orderId s price)
    refine ⟨found, e', hrun, hcancelled, fun later => ?_⟩
    simp only [EngineCall.run, hrun] at h'
    obtain ⟨G'', h'', -⟩ := h'.runCalls later
    exact h''.appendsBehind
  · intro o e₁ hadd hnew
    obtain ⟨e₂, G₂, hcancel, h₂, hlevels⟩ := h.addedAndCancelled hadd hnew
    refine ⟨e₂, hcancel, hlevels, fun later => ?_⟩
    obtain ⟨G', h', -⟩ := h₂.runCalls later
    exact h'.appendsBehind

/-- An ask at 100. -/
def askAt100 (orderId : OrderId) (qty : ℚ) : PassiveOrder where
  orderId := orderId
  side := .sell
  price := 100
  qty := qty
  isIceberg := false
  visibleQty := 0
  hiddenQty := 0

/-- The last of three asks is added and cancelled; then the one before it is. -/
theorem cancelOrder_cancelled_lastAsk :
    ∃ e₁ e₂ e₃,
      addPassiveOrder (runCalls CMatchingEngine.new
        [.addPassiveOrder (askAt100 1 5), .addPassiveOrder (askAt100 2 3)]) (askAt100 3 4) = .ok e₁ ∧
      cancelOrder e₁ 3 .sell 100 = .ok (true, e₂) ∧
      bookLevels e₂ .sell =
        [{ price := 100, orders := [(askAt100 1 5).resting, (askAt100 2 3).resting] }] ∧
      cancelOrder (runCalls CMatchingEngine.new
        [.addPassiveOrder (askAt100 1 5), .addPassiveOrder (askAt100 2 3)]) 2 .sell 100 =
          .ok (true, e₃) ∧
      bookLevels e₃ .buy = [] ∧ AppendsBehind e₃ := by
  let calls : List EngineCall :=
    [.addPassiveOrder (askAt100 1 5), .addPassiveOrder (askAt100 2 3)]
  obtain ⟨hcancel, hadded⟩ := cancelOrder_cancelled calls
  have hasks : bookLevels (runCalls CMatchingEngine.new calls) .sell =
      [{ price := 100, orders := [(askAt100 1 5).resting, (askAt100 2 3).resting] }] := by
    decide +kernel
  have hbids : bookLevels (runCalls CMatchingEngine.new calls) .buy = [] := by decide +kernel
  have hroom : (addPassiveOrder (runCalls CMatchingEngine.new calls) (askAt100 3 4)).isOk = true := by
    decide +kernel
  rcases hadd : addPassiveOrder (runCalls CMatchingEngine.new calls) (askAt100 3 4) with err | e₁
  · rw [hadd] at hroom
    exact absurd hroom (by simp [Except.isOk, Except.toBool])
  obtain ⟨e₂, hcancel₂, hlevels, -⟩ := hadded _ e₁ hadd (by
    show ∀ l ∈ bookLevels (runCalls CMatchingEngine.new calls) .sell, _
    rw [hasks]
    decide +kernel)
  obtain ⟨found, e₃, hcancel₃, hdone, happends⟩ := hcancel 2 .sell 100
  -- the order rests there, so the search finds it
  have hfound : found = true := by
    rw [hdone.found_iff, hasks]
    decide +kernel
  rw [hfound] at hcancel₃
  exact ⟨e₁, e₂, e₃, rfl, hcancel₂, (hlevels .sell).trans hasks, hcancel₃,
    hdone.otherSide.trans hbids, happends []⟩

end SpotExchange.Engine
