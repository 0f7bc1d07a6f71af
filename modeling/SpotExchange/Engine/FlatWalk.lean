import SpotExchange.Engine.Invariant
import Mathlib.Algebra.Order.Group.MinMax

namespace SpotExchange.Engine

/-!
# The walk along a flat list of orders

The two nested walks (levels, and orders of a level) are one walk along the list of all orders
of the side with their prices, `flat`.  Each maker is taken in one or two fills; `mergeTrades`
joins consecutive trades with one maker, so that what is left is `min (taker, maker)` for each.

* `walkSide_flat` — the walk along the levels is `walkFlat` on the flat list;
* `fillMaker_amounts` — the fills with one maker sum up to `min`;
* `mergeTrades_fills` — merged, they are one trade.
-/

variable {c : COrder}

/-- An order with its price. -/
abbrev Placed := ℚ × Resting

/-- The orders of all levels with their prices, best first. -/
def flat (ls : List Level) : List Placed := ls.flatMap fun l => l.orders.map fun o => (l.price, o)

@[simp] theorem flat_nil : flat [] = [] := rfl

@[simp] theorem flat_cons (l : Level) (ls : List Level) :
    flat (l :: ls) = (l.orders.map fun o => (l.price, o)) ++ flat ls := rfl

theorem mem_flat {ls : List Level} {x : Placed} :
    x ∈ flat ls ↔ ∃ l ∈ ls, l.price = x.1 ∧ x.2 ∈ l.orders := by
  obtain ⟨p, o⟩ := x
  simp only [flat, List.mem_flatMap, List.mem_map, Prod.mk.injEq]
  constructor
  · rintro ⟨l, hl, o', ho', rfl, rfl⟩
    exact ⟨l, hl, rfl, ho'⟩
  · rintro ⟨l, hl, rfl, ho⟩
    exact ⟨l, hl, o, ho, rfl, rfl⟩

/-! ### One walk instead of two -/

/-- Walk a taker of which `r` is left along the orders. -/
def walkFlat (c : COrder) : ℚ → List Placed → Walked (List Placed)
  | r, [] => { trades := [], rest := [], remaining := r }
  | r, x :: xs =>
      if r ≤ 0 ∨ c.outOfLimit x.1 = true then { trades := [], rest := x :: xs, remaining := r }
      else
        let f := fillMaker x.2 r
        let trades := f.fills.map (c.trade x.1 x.2.orderId)
        match f.maker with
        | some o' => { trades := trades, rest := (x.1, o') :: xs, remaining := f.remaining }
        | none =>
            let w := walkFlat c f.remaining xs
            { w with trades := trades ++ w.trades }

theorem walkFlat_nonpos (c : COrder) {r : ℚ} (h : r ≤ 0) (xs : List Placed) :
    walkFlat c r xs = { trades := [], rest := xs, remaining := r } := by
  cases xs with
  | nil => rfl
  | cons x xs => rw [walkFlat, if_pos (.inl h)]

theorem walkFlat_out {r : ℚ} {xs : List Placed} (h : ∀ x ∈ xs.head?, c.outOfLimit x.1 = true) :
    walkFlat c r xs = { trades := [], rest := xs, remaining := r } := by
  cases xs with
  | nil => rfl
  | cons x xs => rw [walkFlat, if_pos (.inr (h x rfl))]

/-- Along the orders of one level, then along the others if it was emptied. -/
theorem walkFlat_append {price : ℚ} (hout : ¬ c.outOfLimit price = true) (r : ℚ)
    (os : List Resting) (xs : List Placed) :
    walkFlat c r ((os.map fun o => (price, o)) ++ xs) =
      let w := walkLevel c price r os
      if w.rest = [] then
        let s := walkFlat c w.remaining xs
        { s with trades := w.trades ++ s.trades }
      else
        { trades := w.trades, rest := (w.rest.map fun o => (price, o)) ++ xs,
          remaining := w.remaining } := by
  induction os generalizing r with
  | nil => rfl
  | cons o os ih =>
    rcases le_or_gt r 0 with hr | hr
    · rw [walkFlat_nonpos c hr, walkLevel_nonpos c price hr]
      rfl
    have hif : ¬ (r ≤ 0 ∨ c.outOfLimit price = true) := not_or.mpr ⟨not_le.mpr hr, hout⟩
    rw [List.map_cons, List.cons_append, walkFlat, if_neg hif, walkLevel_cons_pos c price hr,
      walkAfter]
    cases hm : (fillMaker o r).maker with
    | some o' => simp [hm]
    | none =>
      simp only [hm, ih]
      split_ifs
      · simp [List.append_assoc]
      · rfl

/-- **One walk.** The walk along the levels, on the flat list of orders. -/
theorem walkSide_flat (c : COrder) (r : ℚ) {ls : List Level} (hne : ∀ l ∈ ls, l.orders ≠ []) :
    walkFlat c r (flat ls) =
      { trades := (walkSide c r ls).trades, rest := flat (walkSide c r ls).rest,
        remaining := (walkSide c r ls).remaining } := by
  induction ls generalizing r with
  | nil => rfl
  | cons l ls ih =>
    rcases le_or_gt r 0 with hr | hr
    · rw [walkFlat_nonpos c hr, walkSide_nonpos c hr]
    by_cases hout : c.outOfLimit l.price = true
    · rw [walkSide_out ls hout, walkFlat_out]
      intro x hx
      obtain ⟨o, os, ho⟩ := List.exists_cons_of_ne_nil (hne l List.mem_cons_self)
      rw [flat_cons, ho] at hx
      obtain rfl : (l.price, o) = x := by simpa using hx
      exact hout
    rw [flat_cons, walkFlat_append hout]
    by_cases hrest : (walkLevel c l.price r l.orders).rest = []
    · have := ih (walkLevel c l.price r l.orders).remaining
        fun l' hl' => hne l' (List.mem_cons_of_mem _ hl')
      simp only [walkSide_emptied ls hr hout hrest, if_pos hrest, this]
    · simp only [walkSide_kept ls hr hout hrest, if_neg hrest, flat_cons]

/-! ### One maker -/

/-- What the fills with a maker amount to. -/
structure MakerFill.Amounts (f : MakerFill) (o : Resting) (r : ℚ) : Prop where
  fills : f.fills.sum = min r o.remainingQty
  fills_ne : f.fills ≠ []
  remaining : f.remaining = r - min r o.remainingQty
  used_up : f.maker = none → o.remainingQty ≤ r
  left : ∀ o', f.maker = some o' → r < o.remainingQty ∧ o'.orderId = o.orderId ∧
    o'.remainingQty = o.remainingQty - r

theorem fillPlain_amounts (o : Resting) (r : ℚ) : (fillPlain o r).Amounts o r := by
  unfold fillPlain
  split_ifs with h
  · exact
      { fills := by simp [min_eq_left h.le]
        fills_ne := by simp
        remaining := by simp [min_eq_left h.le]
        used_up := by simp
        left := by rintro o' ⟨⟩; exact ⟨h, rfl, rfl⟩ }
  · have hle := not_lt.mp h
    exact
      { fills := by simp [min_eq_right hle]
        fills_ne := by simp
        remaining := by simp [min_eq_right hle]
        used_up := fun _ => hle
        left := by simp }

/-- **One maker.** However many fills it takes, they sum up to what both sides have. -/
theorem fillMaker_amounts (o : Resting) (r : ℚ) : (fillMaker o r).Amounts o r := by
  unfold fillMaker
  split_ifs with hice h1 h2
  · have hlt : r < o.remainingQty := h1.trans hice.2
    exact
      { fills := by simp [min_eq_left hlt.le]
        fills_ne := by simp
        remaining := by simp [min_eq_left hlt.le]
        used_up := by simp
        left := by rintro o' ⟨⟩; exact ⟨hlt, rfl, rfl⟩ }
  · have hlt : r < o.remainingQty := h2 ▸ hice.2
    exact
      { fills := by simp [min_eq_left hlt.le]
        fills_ne := by simp
        remaining := by simp [min_eq_left hlt.le]
        used_up := by simp
        left := by rintro o' ⟨⟩; exact ⟨hlt, rfl, by simp [Resting.refill, h2]⟩ }
  · have h := fillPlain_amounts o.refill (r - o.visibleQty)
    have hmin : min (r - o.visibleQty) o.refill.remainingQty =
        min r o.remainingQty - o.visibleQty := by
      simp only [Resting.refill]
      exact min_sub_sub_right _ _ _
    exact
      { fills := by rw [List.sum_cons, h.fills, hmin]; ring
        fills_ne := by simp
        remaining := by rw [h.remaining, hmin]; ring
        used_up := fun hm => by
          have := h.used_up hm
          simp only [Resting.refill] at this
          linarith
        left := by
          intro o' hm
          obtain ⟨hlt', hid, hrem⟩ := h.left o' hm
          simp only [Resting.refill] at hlt' hid hrem
          exact ⟨by linarith, hid, by linarith⟩ }
  · exact fillPlain_amounts o r

theorem fillPlain_positive {o : Resting} (hv : o.Valid) {r : ℚ} (hr : 0 < r) :
    ∀ q ∈ (fillPlain o r).fills, 0 < q := by
  unfold fillPlain
  split_ifs
  · simpa using hr
  · simpa using hv.remaining_pos

/-- With a valid maker, each fill is a positive quantity. -/
theorem fillMaker_positive {o : Resting} (hv : o.Valid) {r : ℚ} (hr : 0 < r) :
    ∀ q ∈ (fillMaker o r).fills, 0 < q := by
  unfold fillMaker
  split_ifs with hice h1 h2
  · simpa using hr
  · simpa using hr
  · have hlt : o.visibleQty < r := lt_of_le_of_ne (not_lt.mp h1) (Ne.symm h2)
    exact List.forall_mem_cons.mpr ⟨hv.visible_pos,
      fillPlain_positive (Resting.refill_valid hice.2) (sub_pos.mpr hlt)⟩
  · exact fillPlain_positive hv hr

/-- Only orders of the list trade. -/
theorem walkFlat_makers (r : ℚ) (xs : List Placed) :
    ∀ t ∈ (walkFlat c r xs).trades, t.makerOrderId ∈ xs.map fun x => x.2.orderId := by
  induction xs generalizing r with
  | nil => simp [walkFlat]
  | cons x xs ih =>
    intro t ht
    rw [walkFlat] at ht
    by_cases hstop : r ≤ 0 ∨ c.outOfLimit x.1 = true
    · simp [if_pos hstop] at ht
    rw [if_neg hstop] at ht
    have hfills : ∀ t ∈ (fillMaker x.2 r).fills.map (c.trade x.1 x.2.orderId),
        t.makerOrderId ∈ (x :: xs).map fun x => x.2.orderId := by
      intro t ht
      obtain ⟨q, -, rfl⟩ := List.mem_map.mp ht
      exact List.mem_cons_self
    cases hm : (fillMaker x.2 r).maker with
    | some o' =>
      simp only [hm] at ht
      exact hfills t ht
    | none =>
      simp only [hm, List.mem_append] at ht
      rcases ht with ht | ht
      · exact hfills t ht
      · exact List.mem_cons_of_mem _ (ih _ t ht)

/-! ### Merging -/

/-- Join consecutive trades with one maker. -/
def mergeTrades : List TradeResult → List TradeResult
  | [] => []
  | t :: ts =>
      match mergeTrades ts with
      | [] => [t]
      | t' :: ts' =>
          if t'.makerOrderId = t.makerOrderId then
            { t with quantity := t.quantity + t'.quantity } :: ts'
          else t :: t' :: ts'

theorem mergeTrades_head_maker (ts : List TradeResult) :
    (mergeTrades ts).head?.map TradeResult.makerOrderId =
      ts.head?.map TradeResult.makerOrderId := by
  cases ts with
  | nil => rfl
  | cons t ts =>
    rw [mergeTrades]
    cases mergeTrades ts with
    | nil => rfl
    | cons t' ts' => dsimp only; split_ifs <;> rfl

/-- The fills with one maker merge into one trade. -/
theorem mergeTrades_fills (price : ℚ) {makerId : OrderId} {fills : List ℚ} (hne : fills ≠ [])
    (ts : List TradeResult) (hts : ∀ t ∈ ts, t.makerOrderId ≠ makerId) :
    mergeTrades (fills.map (c.trade price makerId) ++ ts) =
      c.trade price makerId fills.sum :: mergeTrades ts := by
  induction fills with
  | nil => exact absurd rfl hne
  | cons q fills ih =>
    rw [List.map_cons, List.cons_append, mergeTrades]
    rcases fills with _ | ⟨q', fills⟩
    · simp only [List.map_nil, List.nil_append, List.sum_singleton]
      have hhead := mergeTrades_head_maker ts
      cases hm : mergeTrades ts with
      | nil => rfl
      | cons t' ts' =>
        rw [hm] at hhead
        cases ts with
        | nil => simp at hhead
        | cons t ts =>
          have heq : t'.makerOrderId = t.makerOrderId := by simpa using hhead
          have hne' : t'.makerOrderId ≠ makerId := heq ▸ hts t List.mem_cons_self
          simp [COrder.trade, hne']
    · rw [ih (by simp)]
      simp [COrder.trade]

end SpotExchange.Engine
