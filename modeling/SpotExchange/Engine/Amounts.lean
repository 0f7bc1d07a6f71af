import SpotExchange.Engine.FlatWalk
import SpotExchange.Engine.PriceTime
import Mathlib.Algebra.Order.BigOperators.Group.List

namespace SpotExchange.Engine

/-!
# What a match amounts to

A caller that loads a list of makers and matches one taker does not care how the book is walked,
only what comes out.

* `volumeWithin` — what the makers within the taker's limit have;
* `WalkFacts`, `walkFlat_facts` — the trades of a walk: with which makers, at which prices, how
  much with each and in total;
* `loadAll_spec` — loading a list of orders into an empty engine;
* `matchLoaded_levels`, `LoadedLevels.facts` — loading and matching.
-/

variable {c : COrder}

/-! ### One step of the walk -/

/-- A maker is filled, and the walk goes on with what is left of the taker: with nothing, if the
    maker was not used up. -/
theorem walkFlat_cons {x : Placed} (xs : List Placed) {r : ℚ} (hr : 0 < r)
    (hout : ¬ c.outOfLimit x.1 = true) :
    (walkFlat c r (x :: xs)).trades = (fillMaker x.2 r).fills.map (c.trade x.1 x.2.orderId) ++
        (walkFlat c (r - min r x.2.remainingQty) xs).trades ∧
      (walkFlat c r (x :: xs)).remaining =
        (walkFlat c (r - min r x.2.remainingQty) xs).remaining := by
  have hf := fillMaker_amounts x.2 r
  rw [walkFlat, if_neg (not_or.mpr ⟨not_le.mpr hr, hout⟩)]
  cases hm : (fillMaker x.2 r).maker with
  | some o' =>
    have hlt := (hf.left o' hm).1
    have hzero : r - min r x.2.remainingQty = 0 := by rw [min_eq_left hlt.le, sub_self]
    simp only [hm, hf.remaining, hzero, walkFlat_nonpos c le_rfl, List.append_nil, and_self]
  | none => simp only [hm, hf.remaining, and_self]

/-- A taker of which nothing is left, or whose limit excludes the best order, does not trade. -/
theorem walkFlat_stop {x : Placed} (xs : List Placed) {r : ℚ}
    (h : r ≤ 0 ∨ c.outOfLimit x.1 = true) :
    (walkFlat c r (x :: xs)).trades = [] ∧ (walkFlat c r (x :: xs)).remaining = r := by
  rw [walkFlat, if_pos h]
  exact ⟨rfl, rfl⟩

/-! ### The whole walk -/

/-- What the orders within the taker's limit have. -/
def volumeWithin (c : COrder) (xs : List (ℚ × ℚ)) : ℚ :=
  ((xs.filter fun x => c.outOfLimit x.1 = false).map Prod.snd).sum

/-- An order's price and what is left of it. -/
def Placed.offer (x : Placed) : ℚ × ℚ := (x.1, x.2.remainingQty)

/-- What the trades with one maker amount to. -/
def filledWith (trades : List TradeResult) (makerId : OrderId) : ℚ :=
  ((trades.filter fun t => t.makerOrderId = makerId).map TradeResult.quantity).sum

theorem filledWith_append (ts ts' : List TradeResult) (makerId : OrderId) :
    filledWith (ts ++ ts') makerId = filledWith ts makerId + filledWith ts' makerId := by
  simp [filledWith]

/-- A maker of which something is filled has a trade. -/
theorem exists_of_filledWith_ne_zero {ts : List TradeResult} {makerId : OrderId}
    (h : filledWith ts makerId ≠ 0) : ∃ t ∈ ts, t.makerOrderId = makerId := by
  by_contra hnone
  apply h
  unfold filledWith
  rw [List.filter_eq_nil_iff.mpr fun t ht => by simpa using fun hid => hnone ⟨t, ht, hid⟩]
  rfl

theorem filledWith_fills (price : ℚ) (id : OrderId) (fills : List ℚ) (makerId : OrderId) :
    filledWith (fills.map (c.trade price id)) makerId = if id = makerId then fills.sum else 0 := by
  induction fills with
  | nil => simp [filledWith]
  | cons q fills ih =>
    have hcons : filledWith ((q :: fills).map (c.trade price id)) makerId =
        filledWith [c.trade price id q] makerId + filledWith (fills.map (c.trade price id)) makerId :=
      filledWith_append [c.trade price id q] _ makerId
    rw [hcons, ih]
    by_cases h : id = makerId <;> simp [filledWith, COrder.trade, h]

/-- The orders of an id. -/
def ofId (id : OrderId) (xs : List Placed) : List Placed := xs.filter fun x => x.2.orderId = id

/-- What is left of the orders of an id. -/
def leftOf (id : OrderId) (xs : List Placed) : ℚ := ((ofId id xs).map fun x => x.2.remainingQty).sum

theorem ofId_cons (id : OrderId) (x : Placed) (xs : List Placed) :
    ofId id (x :: xs) = if x.2.orderId = id then x :: ofId id xs else ofId id xs := by
  by_cases h : x.2.orderId = id <;> simp [ofId, h]

theorem leftOf_cons (id : OrderId) (x : Placed) (xs : List Placed) :
    leftOf id (x :: xs) = (if x.2.orderId = id then x.2.remainingQty else 0) + leftOf id xs := by
  rw [leftOf, ofId_cons]
  split_ifs
  · rfl
  · rw [zero_add]; rfl

/-- **A walk keeps the volume**: what is traded comes from the taker, and from the makers under
    whose ids it is traded; the others stay as they are. -/
structure WalkKept (r : ℚ) (xs : List Placed) (w : Walked (List Placed)) : Prop where
  total : (w.trades.map TradeResult.quantity).sum = r - w.remaining
  left : ∀ id, leftOf id w.rest = leftOf id xs - filledWith w.trades id
  others : ∀ id, (∀ t ∈ w.trades, t.makerOrderId ≠ id) → ofId id w.rest = ofId id xs
  quiet : w.trades = [] → w.rest = xs

theorem walkFlat_kept (c : COrder) (r : ℚ) (xs : List Placed) :
    WalkKept r xs (walkFlat c r xs) := by
  induction xs generalizing r with
  | nil => exact ⟨by simp [walkFlat], by simp [walkFlat, filledWith], by simp [walkFlat], by simp [walkFlat]⟩
  | cons x xs ih =>
    by_cases hstop : r ≤ 0 ∨ c.outOfLimit x.1 = true
    · rw [walkFlat, if_pos hstop]
      exact ⟨by simp, by simp [filledWith], fun _ _ => rfl, fun _ => rfl⟩
    have hf := fillMaker_amounts x.2 r
    have hfills : (((fillMaker x.2 r).fills.map (c.trade x.1 x.2.orderId)).map
        TradeResult.quantity).sum = min r x.2.remainingQty := by
      rw [← hf.fills, List.map_map]
      exact congrArg List.sum (List.map_id _)
    have hne : (fillMaker x.2 r).fills.map (c.trade x.1 x.2.orderId) ≠ [] := by
      simpa using hf.fills_ne
    -- a maker without trades is another one
    have hother : ∀ id, (∀ t ∈ (fillMaker x.2 r).fills.map (c.trade x.1 x.2.orderId),
        t.makerOrderId ≠ id) → x.2.orderId ≠ id := by
      intro id h
      obtain ⟨t, ts, ht⟩ := List.exists_cons_of_ne_nil hne
      obtain ⟨q, -, hq⟩ := List.mem_map.mp (ht ▸ List.mem_cons_self : t ∈ _)
      have := h t (ht ▸ List.mem_cons_self)
      rwa [← hq] at this
    rw [walkFlat, if_neg hstop]
    cases hm : (fillMaker x.2 r).maker with
    -- the taker ends inside this maker, which keeps the rest
    | some o' =>
      obtain ⟨hlt, hid, hrem⟩ := hf.left o' hm
      rw [min_eq_left hlt.le] at hfills
      simp only [hm]
      refine ⟨?_, fun id => ?_, fun id h => ?_, fun h => absurd h hne⟩
      · rw [hfills, hf.remaining, min_eq_left hlt.le]
        ring
      · rw [leftOf_cons, leftOf_cons, filledWith_fills, hf.fills, min_eq_left hlt.le, hid, hrem]
        split_ifs <;> ring
      · rw [ofId_cons, ofId_cons, hid, if_neg (hother id h), if_neg (hother id h)]
    -- the maker is used up, and the walk goes on behind it
    | none =>
      have hle := hf.used_up hm
      rw [min_eq_right hle] at hfills
      have h := ih (fillMaker x.2 r).remaining
      simp only [hm]
      refine ⟨?_, fun id => ?_, fun id hid => ?_, fun h => absurd (List.append_eq_nil_iff.mp h).1 hne⟩
      · rw [List.map_append, List.sum_append, hfills, h.total, hf.remaining, min_eq_right hle]
        ring
      · rw [h.left, leftOf_cons, filledWith_append, filledWith_fills, hf.fills, min_eq_right hle]
        split_ifs <;> ring
      · rw [List.forall_mem_append] at hid
        rw [h.others id hid.2, ofId_cons, if_neg (hother id hid.1)]

/-- **What a walk amounts to.** -/
structure WalkFacts (c : COrder) (r : ℚ) (xs : List Placed) (w : Walked (List Placed)) : Prop where
  trade : ∀ t ∈ w.trades, ∃ x ∈ xs, ∃ q, 0 < q ∧ c.outOfLimit x.1 = false ∧
    t = c.trade x.1 x.2.orderId q
  total : (w.trades.map TradeResult.quantity).sum = r - w.remaining
  filled : ∀ id, filledWith w.trades id ≤
    ((xs.filter fun x => x.2.orderId = id).map fun x => x.2.remainingQty).sum

theorem walkFlat_facts {xs : List Placed} (hv : ∀ x ∈ xs, x.2.Valid) (r : ℚ) :
    WalkFacts c r xs (walkFlat c r xs) := by
  induction xs generalizing r with
  | nil => exact ⟨by simp [walkFlat], by simp [walkFlat], by simp [walkFlat, filledWith]⟩
  | cons x xs ih =>
    have hvx := hv x List.mem_cons_self
    have hvxs : ∀ y ∈ xs, y.2.Valid := fun y hy => hv y (List.mem_cons_of_mem _ hy)
    have hnonneg : ∀ id, 0 ≤ (((x :: xs).filter fun y => y.2.orderId = id).map
        fun y => y.2.remainingQty).sum := by
      intro id
      refine List.sum_nonneg fun q hq => ?_
      obtain ⟨y, hy, rfl⟩ := List.mem_map.mp hq
      exact (hv y (List.mem_of_mem_filter hy)).remaining_pos.le
    by_cases hstop : r ≤ 0 ∨ c.outOfLimit x.1 = true
    · obtain ⟨htrades, hrem⟩ := walkFlat_stop xs hstop
      exact ⟨by simp [htrades], by simp [htrades, hrem],
        fun id => by simpa [htrades, filledWith] using hnonneg id⟩
    obtain ⟨hr, hout⟩ := not_or.mp hstop
    rw [not_le] at hr
    have hf := fillMaker_amounts x.2 r
    obtain ⟨htrades, hrem⟩ := walkFlat_cons xs hr hout
    have h := ih hvxs (r - min r x.2.remainingQty)
    refine ⟨fun t ht => ?_, (walkFlat_kept c r (x :: xs)).total, fun id => ?_⟩
    · rw [htrades, List.mem_append] at ht
      rcases ht with ht | ht
      · obtain ⟨q, hq, rfl⟩ := List.mem_map.mp ht
        exact ⟨x, List.mem_cons_self, q, fillMaker_positive hvx hr q hq, by simpa using hout, rfl⟩
      · obtain ⟨y, hy, q, hq⟩ := h.trade t ht
        exact ⟨y, List.mem_cons_of_mem _ hy, q, hq⟩
    · rw [htrades, filledWith_append, filledWith_fills, hf.fills]
      have hle := h.filled id
      by_cases hid : x.2.orderId = id
      · simp only [hid, if_true, List.filter_cons, decide_true, List.map_cons, List.sum_cons]
        exact add_le_add (min_le_right _ _) hle
      · simpa [hid, List.filter_cons] using hle

/-- A maker that shows all it has is taken in one fill. -/
def Placed.plain (x : Placed) : Prop := x.2.isIceberg = true → x.2.visibleQty = x.2.remainingQty

theorem fillMaker_plain {x : Placed} (h : x.plain) (r : ℚ) : (fillMaker x.2 r).fills.length = 1 := by
  have hno : ¬ (x.2.isIceberg = true ∧ x.2.visibleQty < x.2.remainingQty) :=
    fun ⟨hi, hlt⟩ => absurd (h hi) (ne_of_lt hlt)
  rw [fillMaker, if_neg hno, fillPlain]
  split_ifs <;> rfl

/-- Orders that show all they have take no more fills than there are orders. -/
theorem walkFlat_length_le {xs : List Placed} (hp : ∀ x ∈ xs, x.plain) (r : ℚ) : (walkFlat c r xs).trades.length ≤ xs.length := by
  induction xs generalizing r with
  | nil => simp [walkFlat]
  | cons x xs ih =>
    by_cases hstop : r ≤ 0 ∨ c.outOfLimit x.1 = true
    · simp [(walkFlat_stop xs hstop).1]
    obtain ⟨hr, hout⟩ := not_or.mp hstop
    rw [(walkFlat_cons _ (not_le.mp hr) hout).1, List.length_append,
      List.length_map, fillMaker_plain (hp x List.mem_cons_self), List.length_cons]
    have := ih (fun y hy => hp y (List.mem_cons_of_mem _ hy)) (r - min r x.2.remainingQty)
    omega

/-! ### Along a sorted list -/

/-- Best price first. -/
def PriceSorted (d : Bool) (xs : List Placed) : Prop := xs.Pairwise fun x y => ¬ before d y.1 x.1

/-- A limit that excludes a price excludes every worse one. -/
theorem outOfLimit_mono {p q : ℚ} (hout : c.outOfLimit p = true)
    (hpq : ¬ before c.side.opp.descending q p) : c.outOfLimit q = true := by
  unfold COrder.outOfLimit at hout ⊢
  cases hp : c.price with
  | none => rw [hp] at hout; exact absurd hout (by simp)
  | some l =>
    rw [hp] at hout
    cases hs : c.side <;>
      simp only [hs, CSide.opp, CSide.descending, before, decide_true, decide_false, Bool.true_and,
        Bool.false_and, Bool.or_false, Bool.false_or, decide_eq_true_eq, reduceCtorEq,
        Bool.false_eq_true, if_true, if_false, not_lt, gt_iff_lt] at hout hpq ⊢
    · exact lt_of_lt_of_le hout hpq
    · exact lt_of_le_of_lt hpq hout

/-- **What is left of a taker**: nothing, or what exceeds the volume within its limit. -/
theorem walkFlat_remaining {xs : List Placed} (hv : ∀ x ∈ xs, x.2.Sound)
    (hs : PriceSorted c.side.opp.descending xs) {r : ℚ} (hr : 0 ≤ r) :
    (walkFlat c r xs).remaining = r - min r (volumeWithin c (xs.map Placed.offer)) := by
  induction xs generalizing r with
  | nil => simp [walkFlat, volumeWithin, hr]
  | cons x xs ih =>
    have hvxs : ∀ y ∈ xs, y.2.Sound := fun y hy => hv y (List.mem_cons_of_mem _ hy)
    have hnonneg : ∀ ys : List Placed, (∀ y ∈ ys, y.2.Sound) →
        0 ≤ volumeWithin c (ys.map Placed.offer) := by
      intro ys hys
      refine List.sum_nonneg fun q hq => ?_
      obtain ⟨z, hz, rfl⟩ := List.mem_map.mp hq
      obtain ⟨y, hy, rfl⟩ := List.mem_map.mp (List.mem_of_mem_filter hz)
      exact (hys y hy).remaining_nonneg
    rcases hr.eq_or_lt with rfl | hr
    · rw [(walkFlat_stop _ (.inl le_rfl)).2, min_eq_left (hnonneg _ hv), sub_zero]
    by_cases hout : c.outOfLimit x.1 = true
    · -- everything behind is out of the limit, too
      have hzero : volumeWithin c ((x :: xs).map Placed.offer) = 0 := by
        have hall : ((x :: xs).map Placed.offer).filter (fun y => c.outOfLimit y.1 = false) = [] := by
          rw [List.filter_eq_nil_iff]
          intro y hy
          obtain ⟨z, hz, rfl⟩ := List.mem_map.mp hy
          have hz' : c.outOfLimit z.1 = true := by
            rcases List.mem_cons.mp hz with rfl | hz
            · exact hout
            · exact outOfLimit_mono hout ((List.pairwise_cons.mp hs).1 z hz)
          simp [Placed.offer, hz']
        rw [volumeWithin, hall]
        rfl
      rw [(walkFlat_stop _ (.inr hout)).2, hzero, min_eq_right hr.le, sub_zero]
    have hcons : volumeWithin c ((x :: xs).map Placed.offer) =
        x.2.remainingQty + volumeWithin c (xs.map Placed.offer) := by
      simp [volumeWithin, Placed.offer, hout]
    have hmin : 0 ≤ r - min r x.2.remainingQty := sub_nonneg.mpr (min_le_left _ _)
    rw [(walkFlat_cons _ hr hout).2, ih hvxs (List.pairwise_cons.mp hs).2 hmin, hcons]
    have hV := hnonneg xs hvxs
    -- the first maker covers the rest, or the rest moves on reduced by it
    rcases le_total r x.2.remainingQty with hle | hle
    · rw [min_eq_left hle, sub_self, min_eq_left hV, sub_zero,
        min_eq_left (hle.trans (le_add_of_nonneg_right hV)), sub_self]
    · rw [min_eq_right hle]
      have hshift : min (r - x.2.remainingQty) (volumeWithin c (xs.map Placed.offer)) =
          min r (x.2.remainingQty + volumeWithin c (xs.map Placed.offer)) - x.2.remainingQty := by
        rw [← min_sub_sub_right, add_sub_cancel_left]
      rw [hshift]
      ring

/-- The first trade is at the best price. -/
theorem walkFlat_head {xs : List Placed} (hs : PriceSorted c.side.opp.descending xs) {r : ℚ} {t : TradeResult}
    (ht : t ∈ (walkFlat c r xs).trades.head?) :
    ∀ x ∈ xs, ¬ before c.side.opp.descending x.1 t.price := by
  cases xs with
  | nil => simp
  | cons x xs =>
    by_cases hstop : r ≤ 0 ∨ c.outOfLimit x.1 = true
    · rw [(walkFlat_stop xs hstop).1] at ht
      exact absurd ht (by simp)
    obtain ⟨hr, hout⟩ := not_or.mp hstop
    rw [not_le] at hr
    have hf := fillMaker_amounts x.2 r
    obtain ⟨q, qs, hq⟩ := List.exists_cons_of_ne_nil hf.fills_ne
    rw [(walkFlat_cons _ hr hout).1, hq] at ht
    obtain rfl : c.trade x.1 x.2.orderId q = t := by simpa using ht
    intro y hy
    rcases List.mem_cons.mp hy with rfl | hy
    · exact before_irrefl _ _
    · exact (List.pairwise_cons.mp hs).1 y hy

/-! ### Loading a book -/

/-- `add_passive_order` for each order. -/
def loadAll (e : CMatchingEngine) (os : List PassiveOrder) : Except EngineError CMatchingEngine :=
  os.foldlM addPassiveOrder e

/-- The order in its place in the book. -/
def PassiveOrder.placed (o : PassiveOrder) : Placed := (o.price, o.resting)

/-- `addResting` adds one order. -/
theorem flat_addResting (d : Bool) (price : ℚ) (o : Resting) (ls : List Level) :
    (flat (addResting d price o ls)).Perm ((price, o) :: flat ls) := by
  induction ls with
  | nil => exact List.Perm.refl _
  | cons l ls ih =>
    rw [addResting]
    split_ifs with hp hb
    · subst hp
      simp only [flat_cons, List.map_append, List.map_cons, List.map_nil, List.append_assoc,
        List.singleton_append]
      exact List.perm_middle
    · exact List.Perm.refl _
    · simp only [flat_cons]
      exact (ih.append_left _).trans List.perm_middle

/-- What is loaded is valid if it shows all it has. -/
def PassiveOrder.plain (o : PassiveOrder) : Prop := o.isIceberg = true → o.visibleQty = o.qty

theorem PassiveOrder.plain.valid {o : PassiveOrder} (h : o.plain) (hq : 0 < o.qty) : o.Valid where
  qty_pos := hq
  visible_pos := fun hi => by rw [h hi]; exact hq
  visible_le := fun hi => (h hi).le

theorem PassiveOrder.plain.placed {o : PassiveOrder} (h : o.plain) : o.placed.plain := by
  intro hi
  have hi' : o.isIceberg = true := hi
  simp only [PassiveOrder.placed, PassiveOrder.resting, PassiveOrder.node, OrderNode.resting, hi',
    if_true]
  exact h hi'

/-- Only positive quantities are loaded. -/
theorem addPassiveOrder_pos {e e' : CMatchingEngine} {o : PassiveOrder}
    (h : addPassiveOrder e o = .ok e') : 0 < o.qty := by
  unfold addPassiveOrder at h
  split_ifs at h with hq
  exact not_le.mp hq

/-- What an engine keeps from one call to the next: the directions of its sides and the sizes of
    its buffers. -/
structure SameFrame (e e' : CMatchingEngine) : Prop where
  direction : ∀ s, (e'.bookSide s).isDescending = (e.bookSide s).isDescending
  nodePoolCap : e'.nodePoolCap = e.nodePoolCap
  tradesCap : e'.tradesCap = e.tradesCap

theorem SameFrame.trans {e e' e'' : CMatchingEngine} (h : SameFrame e e') (h' : SameFrame e' e'') :
    SameFrame e e'' where
  direction := fun s => (h'.direction s).trans (h.direction s)
  nodePoolCap := h'.nodePoolCap.trans h.nodePoolCap
  tradesCap := h'.tradesCap.trans h.tradesCap

/-- Loading keeps the frame, whatever the engine represents. -/
theorem addPassiveOrder_frame {e e' : CMatchingEngine} {o : PassiveOrder}
    (h : addPassiveOrder e o = .ok e') : SameFrame e e' := by
  unfold addPassiveOrder at h
  split_ifs at h
  cases hfind : findOrInsertLevel (e.bookSide o.side) o.price with
  | error err => simp [hfind] at h
  | ok r =>
    obtain ⟨i, side⟩ := r
    simp only [hfind, Except.ok.injEq] at h
    have hdir : side.isDescending = (e.bookSide o.side).isDescending := by
      unfold findOrInsertLevel at hfind
      split at hfind
      · exact absurd hfind (by simp)
      · simp only [Except.ok.injEq, Prod.mk.injEq] at hfind
        rw [← hfind.2]
      · simp only [Except.ok.injEq] at hfind
        have hside : (insertLevel (e.bookSide o.side) o.price).2 = side := congrArg Prod.snd hfind
        rw [← hside, insertLevel_isDescending]
    subst h
    refine ⟨fun s => ?_, ?_, ?_⟩
    · generalize o.side = t at hdir ⊢
      cases t <;> cases s <;> first | rfl | exact hdir
    · cases o.side <;> rfl
    · cases o.side <;> rfl

/-- **Loading** a list of orders that show all they have. -/
theorem loadAll_spec {e e' : CMatchingEngine} {G : Ghost} (h : EngineRep e G)
    {os : List PassiveOrder} (hp : ∀ o ∈ os, o.plain) (hcap : e.nodePoolSize + os.length ≤ e.nodePoolCap)
    (hload : loadAll e os = .ok e') :
    ∃ G', EngineRep e' G' ∧ SameFrame e e' ∧ (∀ o ∈ os, 0 < o.qty) ∧
      ∀ s, (flat (view e' G' s)).Perm
        (flat (view e G s) ++ (os.filter fun o => o.side = s).map PassiveOrder.placed) := by
  induction os generalizing e G with
  | nil =>
    obtain rfl : e = e' := by simpa [loadAll, pure, Except.pure] using hload
    exact ⟨G, h, ⟨fun _ => rfl, rfl, rfl⟩, by simp, fun s => by simp⟩
  | cons o os ih =>
    cases hadd : addPassiveOrder e o with
    | error err => simp [loadAll, hadd, bind, Except.bind] at hload
    | ok e₁ =>
      have hload' : loadAll e₁ os = .ok e' := by
        simpa [loadAll, hadd, bind, Except.bind] using hload
      have hpos := addPassiveOrder_pos hadd
      rw [List.length_cons] at hcap
      obtain ⟨e₁', G₁, hadd', h₁, hview, hopp, hsize, hcap₁, htrades⟩ :=
        addPassiveOrder_spec h ((hp o List.mem_cons_self).valid hpos) (by omega)
      obtain rfl : e₁' = e₁ := Except.ok.inj (hadd'.symm.trans hadd)
      obtain ⟨G', h', hframe, hqs, hflat⟩ := ih h₁ (fun o' ho' => hp o' (List.mem_cons_of_mem _ ho'))
        (by omega) hload'
      refine ⟨G', h', ⟨fun s => ?_, hframe.nodePoolCap.trans hcap₁, hframe.tradesCap.trans htrades⟩,
        ?_, fun s => (hflat s).trans ?_⟩
      · rw [h'.direction, h.direction]
      · intro o' ho'
        rcases List.mem_cons.mp ho' with rfl | ho'
        · exact hpos
        · exact hqs o' ho'
      -- the loaded order joins its own side, and the other side is as it was
      · rcases eq_or_eq_opp o.side s with rfl | rfl
        · rw [hview, List.filter_cons_of_pos (by simp), List.map_cons]
          exact ((flat_addResting _ _ _ _).append_right _).trans List.perm_middle.symm
        · rw [hopp, List.filter_cons_of_neg (by simpa using (opp_ne o.side).symm)]

/-- **Orders of positive quantities** are loaded as long as the pool has room. -/
theorem loadAll_ok {e : CMatchingEngine} {G : Ghost} (h : EngineRep e G) {os : List PassiveOrder}
    (hp : ∀ o ∈ os, o.plain) (hpos : ∀ o ∈ os, 0 < o.qty)
    (hcap : e.nodePoolSize + os.length ≤ e.nodePoolCap) : ∃ e', loadAll e os = .ok e' := by
  induction os generalizing e G with
  | nil => exact ⟨e, rfl⟩
  | cons o os ih =>
    rw [List.forall_mem_cons] at hp hpos
    rw [List.length_cons] at hcap
    obtain ⟨e₁, G₁, hadd, h₁, -, -, hsize, hcap₁, -⟩ :=
      addPassiveOrder_spec h (hp.1.valid hpos.1) (by omega)
    obtain ⟨e', hload⟩ := ih h₁ hp.2 hpos.2 (by omega)
    refine ⟨e', ?_⟩
    rw [loadAll, List.foldlM_cons, hadd]
    exact hload

/-! ### Matching against a loaded book -/

/-- An order's price and quantity. -/
def PassiveOrder.offer (o : PassiveOrder) : ℚ × ℚ := (o.price, o.qty)

/-- The outcome of a match, by the volume within the taker's limit. -/
def outcomeFor (c : COrder) (volume : ℚ) : CMatchOutcome :=
  if c.type = .postOnly then (if c.price.isSome ∧ 0 < volume then .postOnlyCross else .ok)
  else if c.type = .fok ∧ volume < c.quantity then .fokRejected
  else if (c.type = .market ∨ c.type = .ioc) ∧ volume = 0 then .noLiquidity
  else .ok

/-- What a match leaves of the taker, by the volume within its limit. -/
def remainingFor (c : COrder) (volume : ℚ) : ℚ :=
  if c.type = .postOnly ∨ c.type = .fok ∧ volume < c.quantity then c.quantity
  else c.quantity - min c.quantity volume

/-- **What a match amounts to**: `os` are the loaded orders of the opposite side. -/
structure MatchFacts (c : COrder) (os : List PassiveOrder) (r : MatchResult) : Prop where
  trade : ∀ t ∈ r.trades, ∃ o ∈ os, ∃ q, 0 < q ∧ c.outOfLimit o.price = false ∧
    t = c.trade o.price o.orderId q
  total : (r.trades.map TradeResult.quantity).sum = c.quantity - r.remainingQty
  filled : ∀ id, filledWith r.trades id ≤
    ((os.filter fun o => o.orderId = id).map PassiveOrder.qty).sum
  best : ∀ t ∈ r.trades.head?, ∀ o ∈ os, ¬ before c.side.opp.descending o.price t.price
  outcome : r.outcome = outcomeFor c (volumeWithin c (os.map PassiveOrder.offer))
  remaining : r.remainingQty = remainingFor c (volumeWithin c (os.map PassiveOrder.offer))

/-! ### The checks before the walk -/

theorem volumeWithin_append (xs ys : List (ℚ × ℚ)) :
    volumeWithin c (xs ++ ys) = volumeWithin c xs + volumeWithin c ys := by
  simp [volumeWithin]

theorem volumeWithin_perm {xs ys : List (ℚ × ℚ)} (h : xs.Perm ys) :
    volumeWithin c xs = volumeWithin c ys := ((h.filter _).map _).sum_eq

theorem volumeWithin_nonneg {xs : List (ℚ × ℚ)} (h : ∀ x ∈ xs, 0 ≤ x.2) : 0 ≤ volumeWithin c xs := by
  refine List.sum_nonneg fun q hq => ?_
  obtain ⟨x, hx, rfl⟩ := List.mem_map.mp hq
  exact h x (List.mem_of_mem_filter hx)

/-- The orders of one level are within the limit or not. -/
theorem volumeWithin_level (l : Level) :
    volumeWithin c ((l.orders.map fun o => (l.price, o)).map Placed.offer) =
      if c.outOfLimit l.price = true then 0 else l.volume := by
  rw [volumeWithin, Level.volume, List.map_map]
  by_cases h : c.outOfLimit l.price = true
  · rw [if_pos h, List.filter_eq_nil_iff.mpr]
    · rfl
    · intro x hx
      obtain ⟨o, -, rfl⟩ := List.mem_map.mp hx
      simp [Placed.offer, h]
  · rw [if_neg h, List.filter_eq_self.mpr, List.map_map]
    · rfl
    · intro x hx
      obtain ⟨o, -, rfl⟩ := List.mem_map.mp hx
      rw [decide_eq_true_eq]
      exact Bool.eq_false_iff.mpr h

section Levels

variable {ls : List Level}

/-- Levels out of the limit are followed by levels out of the limit. -/
theorem volumeWithin_out {l : Level} (hs : ∀ l' ∈ ls, before c.side.opp.descending l.price l'.price)
    (hout : c.outOfLimit l.price = true) :
    volumeWithin c ((flat (l :: ls)).map Placed.offer) = 0 := by
  have hall : ((flat (l :: ls)).map Placed.offer).filter (fun y => c.outOfLimit y.1 = false) = [] := by
    rw [List.filter_eq_nil_iff]
    intro y hy
    obtain ⟨x, hx, rfl⟩ := List.mem_map.mp hy
    obtain ⟨l', hl', hp, -⟩ := mem_flat.mp hx
    have hx' : c.outOfLimit x.1 = true := by
      rw [← hp]
      rcases List.mem_cons.mp hl' with rfl | hl'
      · exact hout
      · exact outOfLimit_mono hout (before_asymm (hs l' hl'))
    simp [Placed.offer, hx']
  rw [volumeWithin, hall]
  rfl

theorem flat_offers_nonneg (hv : ∀ x ∈ flat ls, x.2.Sound) :
    ∀ y ∈ (flat ls).map Placed.offer, 0 ≤ y.2 := by
  intro y hy
  obtain ⟨x, hx, rfl⟩ := List.mem_map.mp hy
  exact (hv x hx).remaining_nonneg

/-- The precheck of a fill-or-kill order compares with the volume within the limit. -/
theorem coversWithin_iff (hv : ∀ x ∈ flat ls, x.2.Sound)
    (hs : ls.Pairwise fun l l' => before c.side.opp.descending l.price l'.price) {cum : ℚ}
    (hcum : cum < c.quantity) :
    coversWithin c cum ls = true ↔
      c.quantity ≤ cum + volumeWithin c ((flat ls).map Placed.offer) := by
  induction ls generalizing cum with
  | nil =>
    have : ¬ c.quantity ≤ cum := not_le.mpr hcum
    simpa [coversWithin, volumeWithin] using this
  | cons l ls ih =>
    rw [List.pairwise_cons] at hs
    have hvls : ∀ x ∈ flat ls, x.2.Sound := fun x hx => hv x (by rw [flat_cons]; simp [hx])
    have hnonneg := volumeWithin_nonneg (c := c) (flat_offers_nonneg hvls)
    rw [coversWithin]
    by_cases hout : c.outOfLimit l.price = true
    · rw [if_pos hout, volumeWithin_out hs.1 hout, add_zero]
      simpa using hcum
    · rw [if_neg hout, flat_cons, List.map_append, volumeWithin_append, volumeWithin_level,
        if_neg hout]
      by_cases hge : cum + l.volume ≥ c.quantity
      · rw [if_pos hge]
        exact iff_of_true rfl (by linarith)
      · rw [if_neg hge, ih hvls hs.2 (not_le.mp hge), add_assoc]

/-- A post-only order crosses when there is volume within its limit. -/
theorem crossesBest_iff (hv : ∀ x ∈ flat ls, x.2.Valid) (hne : ∀ l ∈ ls, l.orders ≠ [])
    (hs : ls.Pairwise fun l l' => before c.side.opp.descending l.price l'.price) :
    crossesBest c ls = true ↔
      c.price.isSome ∧ 0 < volumeWithin c ((flat ls).map Placed.offer) := by
  rw [crossesBest, Bool.and_eq_true]
  refine and_congr_right fun _ => ?_
  cases ls with
  | nil => simp [volumeWithin]
  | cons l ls =>
    rw [List.pairwise_cons] at hs
    have hvls : ∀ x ∈ flat ls, x.2.Valid := fun x hx => hv x (by rw [flat_cons]; simp [hx])
    by_cases hout : c.outOfLimit l.price = true
    · rw [volumeWithin_out hs.1 hout]
      simp [hout]
    · have hpos : 0 < l.volume := by
        obtain ⟨o, os, ho⟩ := List.exists_cons_of_ne_nil (hne l List.mem_cons_self)
        have hmem : ∀ o' ∈ l.orders, 0 < o'.remainingQty := fun o' ho' =>
          (hv (l.price, o') (by rw [flat_cons]; simp [ho'])).remaining_pos
        rw [Level.volume, ho, List.map_cons, List.sum_cons]
        refine add_pos_of_pos_of_nonneg (hmem o (by simp [ho])) (List.sum_nonneg fun q hq => ?_)
        obtain ⟨o', ho', rfl⟩ := List.mem_map.mp hq
        exact (hmem o' (by rw [ho]; exact List.mem_cons_of_mem _ ho')).le
      have hnonneg := volumeWithin_nonneg (c := c) (flat_offers_nonneg fun x hx => (hvls x hx).sound)
      rw [flat_cons, List.map_append, volumeWithin_append, volumeWithin_level, if_neg hout]
      simpa [hout] using add_pos_of_pos_of_nonneg hpos hnonneg

/-- The flat list of sorted levels is sorted. -/
theorem flat_sorted {d : Bool} (hs : ls.Pairwise fun l l' => before d l.price l'.price) :
    PriceSorted d (flat ls) := by
  induction ls with
  | nil => exact List.Pairwise.nil
  | cons l ls ih =>
    rw [List.pairwise_cons] at hs
    rw [PriceSorted, flat_cons, List.pairwise_append]
    refine ⟨List.pairwise_map.mpr (List.pairwise_of_forall fun _ _ => before_irrefl _ _), ih hs.2, ?_⟩
    · intro x hx y hy
      obtain ⟨o, -, rfl⟩ := List.mem_map.mp hx
      obtain ⟨l', hl', hp, -⟩ := mem_flat.mp hy
      rw [← hp]
      exact before_asymm (hs.1 l' hl')

end Levels

/-! ### The match -/

/-- The walk and the checks before it, on the levels of the opposite side. -/
theorem matchLevels_facts {ls : List Level} {os : List PassiveOrder} (hc : c.remainingQty = c.quantity)
    (hq : 0 < c.quantity) (hv : ∀ x ∈ flat ls, x.2.Valid) (hne : ∀ l ∈ ls, l.orders ≠ [])
    (hs : ls.Pairwise fun l l' => before c.side.opp.descending l.price l'.price)
    (hperm : (flat ls).Perm (os.map PassiveOrder.placed)) : MatchFacts c os (matchLevels c ls).1 := by
  have hoffers : (flat ls).map Placed.offer |>.Perm (os.map PassiveOrder.offer) := by
    have := hperm.map Placed.offer
    rwa [List.map_map] at this
  have hV := volumeWithin_perm (c := c) hoffers
  have hsound : ∀ x ∈ flat ls, x.2.Sound := fun x hx => (hv x hx).sound
  have hVnonneg := volumeWithin_nonneg (c := c) (flat_offers_nonneg hsound)
  rw [hV] at hVnonneg
  -- what an order asks for is never negative
  have hqty : ∀ id, 0 ≤ ((os.filter fun o => o.orderId = id).map PassiveOrder.qty).sum := by
    intro id
    refine List.sum_nonneg fun q hq => ?_
    obtain ⟨o, ho, rfl⟩ := List.mem_map.mp hq
    exact (hv o.placed (hperm.mem_iff.mpr
      (List.mem_map_of_mem (List.mem_of_mem_filter ho)))).remaining_pos.le
  have hcross := crossesBest_iff hv hne hs
  have hcovers := coversWithin_iff hsound hs hq
  rw [hV] at hcross hcovers
  rw [zero_add] at hcovers
  unfold matchLevels
  -- POST_ONLY never trades: it is refused when the best price crosses
  by_cases hpost : c.type = .postOnly
  · rw [if_pos hpost]
    refine ⟨by simp, by simp [hc], fun id => by simpa [filledWith] using hqty id, by simp, ?_, ?_⟩
    · rw [outcomeFor, if_pos hpost]
      by_cases h : crossesBest c ls = true
      · rw [if_pos h, if_pos (hcross.mp h)]
      · rw [if_neg h, if_neg (mt hcross.mpr h)]
    · rw [remainingFor, if_pos (Or.inl hpost)]
      exact hc
  rw [if_neg hpost]
  -- FOK is refused before the walk when the volume falls short
  by_cases hrej : c.type = .fok ∧ coversWithin c 0 ls = false
  · have hlt : volumeWithin c (os.map PassiveOrder.offer) < c.quantity := by
      by_contra hge
      rw [hcovers.mpr (not_lt.mp hge)] at hrej
      exact absurd hrej.2 (by simp)
    rw [if_pos hrej]
    refine ⟨by simp, by simp [hc], fun id => by simpa [filledWith] using hqty id, by simp, ?_, ?_⟩
    · rw [outcomeFor, if_neg hpost, if_pos ⟨hrej.1, hlt⟩]
    · rw [remainingFor, if_pos (Or.inr ⟨hrej.1, hlt⟩)]
      exact hc
  rw [if_neg hrej]
  have hrej' : ¬ (c.type = .fok ∧ volumeWithin c (os.map PassiveOrder.offer) < c.quantity) := by
    rintro ⟨hfok, hlt⟩
    refine hrej ⟨hfok, ?_⟩
    by_contra h
    exact absurd (hcovers.mp (by simpa using h)) (not_le.mpr hlt)
  -- the walk along the levels is the walk along the flat list
  have hflat := walkSide_flat c c.remainingQty hne
  have hfacts := walkFlat_facts (c := c) hv c.remainingQty
  have hrem := walkFlat_remaining (c := c) hsound (flat_sorted hs) (r := c.remainingQty)
    (by rw [hc]; exact hq.le)
  have hhead := fun t => walkFlat_head (c := c) (flat_sorted hs) (r := c.remainingQty) (t := t)
  rw [hflat] at hfacts hrem hhead
  rw [hV, hc] at hrem
  have hremaining : (walkSide c c.remainingQty ls).remaining =
      remainingFor c (volumeWithin c (os.map PassiveOrder.offer)) := by
    rw [remainingFor, if_neg (not_or.mpr ⟨hpost, hrej'⟩), ← hrem, hc]
  refine ⟨?_, ?_, ?_, ?_, ?_, hremaining⟩
  · intro t ht
    obtain ⟨x, hx, q, hq, hout, rfl⟩ := hfacts.trade t ht
    obtain ⟨o, ho, rfl⟩ := List.mem_map.mp (hperm.mem_iff.mp hx)
    exact ⟨o, ho, q, hq, hout, rfl⟩
  · rw [← hc]
    exact hfacts.total
  · intro id
    refine (hfacts.filled id).trans_eq ?_
    have h := ((hperm.filter fun x => x.2.orderId = id).map fun x => x.2.remainingQty).sum_eq
    rw [h, List.filter_map, List.map_map]
    rfl
  · intro t ht o ho
    exact hhead t ht o.placed (hperm.mem_iff.mpr (List.mem_map_of_mem ho))
  · -- without volume there is no trade; with volume, there is
    have hiff : 0 < (walkSide c c.remainingQty ls).remaining ∧ (c.type = .market ∨ c.type = .ioc) ∧
        (walkSide c c.remainingQty ls).trades.length = 0 ↔
          (c.type = .market ∨ c.type = .ioc) ∧
            volumeWithin c (os.map PassiveOrder.offer) = 0 := by
      have htotal := hfacts.total
      simp only [hc] at htotal hrem
      rw [hrem, sub_sub_cancel] at htotal
      constructor
      · rintro ⟨-, htype, hlen⟩
        refine ⟨htype, ?_⟩
        rw [hc, List.length_eq_zero_iff] at hlen
        rw [hlen, List.map_nil, List.sum_nil] at htotal
        rcases min_choice c.quantity (volumeWithin c (os.map PassiveOrder.offer)) with h | h
        · rw [h] at htotal; exact absurd htotal (ne_of_lt hq)
        · rw [← h, ← htotal]
      · rintro ⟨htype, hzero⟩
        rw [hzero, min_eq_right hq.le] at htotal
        refine ⟨by rw [hc, hrem, hzero, min_eq_right hq.le, sub_zero]; exact hq, htype, ?_⟩
        rw [hc, List.length_eq_zero_iff]
        by_contra hne'
        obtain ⟨t, ts, hts⟩ := List.exists_cons_of_ne_nil hne'
        have hpos : 0 < ((walkSide c c.quantity ls).trades.map TradeResult.quantity).sum := by
          rw [hc] at hfacts
          refine List.sum_pos _ (fun q hq => ?_) (by simp [hts])
          obtain ⟨t', ht', rfl⟩ := List.mem_map.mp hq
          obtain ⟨x, -, q', hq', -, rfl⟩ := hfacts.trade t' ht'
          exact hq'
        exact absurd htotal (ne_of_gt hpos)
    show walkOutcome c (walkSide c c.remainingQty ls) = _
    rw [outcomeFor, if_neg hpost, if_neg hrej']
    unfold walkOutcome
    by_cases h : (c.type = .market ∨ c.type = .ioc) ∧ volumeWithin c (os.map PassiveOrder.offer) = 0
    · rw [if_pos h, if_pos (hiff.mpr h)]
    · rw [if_neg h, if_neg (mt hiff.mp h)]

/-- **The levels of a side that has been loaded** with some orders: best price first, none empty. -/
structure LoadedLevels (s : CSide) (os : List PassiveOrder) (ls : List Level) : Prop where
  valid : ∀ x ∈ flat ls, x.2.Valid
  nonempty : ∀ l ∈ ls, l.orders ≠ []
  sorted : ls.Pairwise fun l l' => before s.descending l.price l'.price
  perm : (flat ls).Perm (os.map PassiveOrder.placed)

/-- **Loading and matching**, on an engine that has been reset. -/
theorem matchLoaded_levels {e e₁ : CMatchingEngine} {G : Ghost} (h : EngineRep e G)
    (hempty : ∀ s, view e G s = []) {os : List PassiveOrder} (hp : ∀ o ∈ os, o.plain)
    (hcap : e.nodePoolSize + os.length ≤ e.nodePoolCap) (htrades : os.length ≤ e.tradesCap)
    (hload : loadAll e os = .ok e₁) (c : COrder) :
    ∃ ls e₂, LoadedLevels c.side.opp (os.filter fun o => o.side = c.side.opp) ls ∧
      matchActiveOrder e₁ c = .ok ((matchLevels c ls).1, e₂) ∧ SameFrame e e₂ := by
  obtain ⟨G₁, h₁, hframe, -, hflat⟩ := loadAll_spec h hp hcap hload
  have hperm := hflat c.side.opp
  rw [hempty, flat_nil, List.nil_append] at hperm
  have hv := h₁.view_valid c.side.opp
  have hne := h₁.view_nonempty c.side.opp
  have hplain : ∀ x ∈ flat (view e₁ G₁ c.side.opp), x.plain := by
    intro x hx
    obtain ⟨o, ho, rfl⟩ := List.mem_map.mp (hperm.mem_iff.mp hx)
    exact (hp o (List.mem_of_mem_filter ho)).placed
  -- one fill for each maker: the buffer has room
  have hfit : (matchLevels c (view e₁ G₁ c.side.opp)).1.trades.length ≤ e₁.tradesCap := by
    have hwalk := walkFlat_length_le (c := c) hplain c.remainingQty
    rw [walkSide_flat c c.remainingQty hne, hperm.length_eq, List.length_map] at hwalk
    have hle := hwalk.trans ((List.length_filter_le _ _).trans htrades)
    rw [hframe.tradesCap]
    unfold matchLevels
    by_cases hpost : c.type = .postOnly
    · rw [if_pos hpost]
      exact Nat.zero_le _
    rw [if_neg hpost]
    split_ifs
    · exact Nat.zero_le _
    · exact hle
  obtain ⟨e₂, G₂, hmatch, h₂, -, -, -, hcap₂, htrades₂⟩ := matchActiveOrder_spec h₁ c hfit
  refine ⟨_, e₂, ⟨hv, hne, h₁.view_sorted c.side.opp, hperm⟩, hmatch, fun s => ?_,
    hcap₂.trans hframe.nodePoolCap, htrades₂.trans hframe.tradesCap⟩
  rw [h₂.direction, h.direction]

/-- What it amounts to. -/
theorem LoadedLevels.facts {os : List PassiveOrder} {ls : List Level} (h : LoadedLevels c.side.opp os ls)
    (hc : c.remainingQty = c.quantity) (hq : 0 < c.quantity) : MatchFacts c os (matchLevels c ls).1 :=
  matchLevels_facts hc hq h.valid h.nonempty h.sorted h.perm

/-! ### Makers that are used up -/

/-- Amounts that are at most others, and sum to as much, are the same. -/
theorem eq_of_sum_le {α : Type*} {f g : α → ℚ} {xs : List α} (hle : ∀ x ∈ xs, f x ≤ g x)
    (hsum : (xs.map g).sum ≤ (xs.map f).sum) : ∀ x ∈ xs, f x = g x := by
  induction xs with
  | nil => simp
  | cons x xs ih =>
    rw [List.forall_mem_cons] at hle ⊢
    rw [List.map_cons, List.sum_cons, List.map_cons, List.sum_cons] at hsum
    have hrest : (xs.map f).sum ≤ (xs.map g).sum := List.sum_le_sum hle.2
    exact ⟨le_antisymm hle.1 (by linarith), ih hle.2 (by linarith [hle.1])⟩

/-- One of several makers, by its id. -/
private theorem filter_id {os : List PassiveOrder} (hnodup : (os.map PassiveOrder.orderId).Nodup)
    {o : PassiveOrder} (ho : o ∈ os) : os.filter (fun o' => o'.orderId = o.orderId) = [o] := by
  induction os with
  | nil => exact absurd ho List.not_mem_nil
  | cons x os ih =>
    rw [List.map_cons, List.nodup_cons] at hnodup
    rcases List.mem_cons.mp ho with rfl | ho
    · rw [List.filter_cons_of_pos (by simp), List.filter_eq_nil_iff.mpr]
      intro o' ho'
      simp only [decide_eq_true_eq]
      exact fun hid => hnodup.1 (hid ▸ List.mem_map_of_mem ho')
    · have hne : ¬ x.orderId = o.orderId := fun hid => hnodup.1 (hid ▸ List.mem_map_of_mem ho)
      rw [List.filter_cons_of_neg (by simpa using hne)]
      exact ih hnodup.2 ho

private theorem sum_ite_filter {α : Type*} (p : α → Prop) [DecidablePred p] (q : ℚ) (xs : List α) :
    (xs.map fun x => if p x then q else 0).sum = ((xs.filter p).map fun _ => q).sum := by
  induction xs with
  | nil => rfl
  | cons x xs ih => by_cases hx : p x <;> simp [hx, ih]

/-- The trades with several makers, summed over the makers. -/
private theorem filledWith_sum {os : List PassiveOrder} (hnodup : (os.map PassiveOrder.orderId).Nodup)
    {trades : List TradeResult} (h : ∀ t ∈ trades, ∃ o ∈ os, o.orderId = t.makerOrderId) :
    (os.map fun o => filledWith trades o.orderId).sum = (trades.map TradeResult.quantity).sum := by
  induction trades with
  | nil =>
    refine (List.sum_eq_zero fun y hy => ?_).trans rfl
    obtain ⟨o, -, rfl⟩ := List.mem_map.mp hy
    rfl
  | cons t trades ih =>
    rw [List.forall_mem_cons] at h
    obtain ⟨o, ho, hid⟩ := h.1
    have hcons : ∀ id, filledWith (t :: trades) id =
        (if t.makerOrderId = id then t.quantity else 0) + filledWith trades id := by
      intro id
      by_cases hid : t.makerOrderId = id <;> simp [filledWith, hid]
    have hone : (os.map fun o' => if t.makerOrderId = o'.orderId then t.quantity else 0).sum =
        t.quantity := by
      have hfilter := filter_id hnodup ho
      simp only [hid, eq_comm (b := t.makerOrderId)] at hfilter
      rw [sum_ite_filter, hfilter, List.map_singleton, List.sum_singleton]
    rw [List.map_cons, List.sum_cons, ← ih h.2]
    refine Eq.trans ?_ (congrArg (· + _) hone)
    rw [← List.sum_map_add]
    exact congrArg List.sum (List.map_congr_left fun o' _ => hcons o'.orderId)

/-- **With one maker** no more is traded than it was loaded with. -/
theorem MatchFacts.filled_le {os : List PassiveOrder} {r : MatchResult} (h : MatchFacts c os r)
    (hnodup : (os.map PassiveOrder.orderId).Nodup) {o : PassiveOrder} (ho : o ∈ os) :
    filledWith r.trades o.orderId ≤ o.qty := by
  have hle := h.filled o.orderId
  rwa [filter_id hnodup ho, List.map_singleton, List.sum_singleton] at hle

/-- **A taker that takes all the volume within its limit** uses up each maker there. -/
theorem MatchFacts.exhausted {os : List PassiveOrder} {r : MatchResult} (h : MatchFacts c os r)
    (hnodup : (os.map PassiveOrder.orderId).Nodup)
    (hall : volumeWithin c (os.map PassiveOrder.offer) ≤ c.quantity - r.remainingQty) :
    ∀ o ∈ os, c.outOfLimit o.price = false → filledWith r.trades o.orderId = o.qty := by
  let within := os.filter fun o => c.outOfLimit o.price = false
  have hsub : ∀ o ∈ within, o ∈ os := fun o ho => List.mem_of_mem_filter ho
  have hnodup' : (within.map PassiveOrder.orderId).Nodup :=
    hnodup.sublist (List.filter_sublist.map _)
  have hvolume : volumeWithin c (os.map PassiveOrder.offer) = (within.map PassiveOrder.qty).sum := by
    rw [volumeWithin, List.filter_map, List.map_map]
    rfl
  have hmakers : ∀ t ∈ r.trades, ∃ o ∈ within, o.orderId = t.makerOrderId := by
    intro t ht
    obtain ⟨o, ho, q, -, hout, rfl⟩ := h.trade t ht
    exact ⟨o, List.mem_filter.mpr ⟨ho, by simpa using hout⟩, rfl⟩
  have heq := eq_of_sum_le (f := fun o => filledWith r.trades o.orderId) (g := PassiveOrder.qty)
    (fun o ho => h.filled_le hnodup (hsub o ho)) (by
      rw [filledWith_sum hnodup' hmakers, h.total, ← hvolume]
      exact hall)
  exact fun o ho hout => heq o (List.mem_filter.mpr ⟨ho, by simpa using hout⟩)

end SpotExchange.Engine
