import SpotExchange.Engine.CancelSpec

namespace SpotExchange.Engine

open SpotExchange.Lib

/-!
# The walk along one level

The inner loop of `_match_internal` on a level that represents a queue of orders.

* `fillMaker` — what a taker does to one maker: one fill, or two when an iceberg's visible part
  is used up and refilled;
* `walkLevel` — the walk along a queue, by recursion on the queue;
* `LevelWalk.run_spec` — the loop computes `walkLevel`, keeping the level's pointer structure.
-/

variable {pool : ℕ → OrderNode}

/-! ### One maker -/

/-- The part of a maker that one fill can take. -/
def Resting.visibleAvail (o : Resting) : ℚ :=
  if o.isIceberg ∧ o.visibleQty < o.remainingQty then o.visibleQty else o.remainingQty

/-- What is left of a maker after a fill that its visible part covers. -/
def Resting.reduce (o : Resting) (q : ℚ) : Resting :=
  { o with remainingQty := o.remainingQty - q
           visibleQty := if o.isIceberg then o.visibleQty - q else o.visibleQty }

/-- An iceberg whose visible part is used up, refilled with all that was hidden. -/
def Resting.refill (o : Resting) : Resting :=
  { o with remainingQty := o.remainingQty - o.visibleQty
           visibleQty := o.remainingQty - o.visibleQty }

/-- What the fills of a taker with one maker leave: the quantities filled, the maker if something
    of it is left, and what is left of the taker. -/
structure MakerFill where
  fills : List ℚ
  maker : Option Resting
  remaining : ℚ

/-- Fill a maker that is not refilled. -/
def fillPlain (o : Resting) (r : ℚ) : MakerFill :=
  if r < o.remainingQty then { fills := [r], maker := some (o.reduce r), remaining := 0 }
  else { fills := [o.remainingQty], maker := none, remaining := r - o.remainingQty }

/-- Fill a maker with a taker of which `r` is left. -/
def fillMaker (o : Resting) (r : ℚ) : MakerFill :=
  if o.isIceberg ∧ o.visibleQty < o.remainingQty then
    if r < o.visibleQty then
      { fills := [r], maker := some (o.reduce r), remaining := 0 }
    else if r = o.visibleQty then
      { fills := [r], maker := some o.refill, remaining := 0 }
    else
      let rest := fillPlain o.refill (r - o.visibleQty)
      { rest with fills := o.visibleQty :: rest.fills }
  else fillPlain o r

/-! ### A queue of makers -/

/-- What a walk leaves: its trades, the makers that remain, and what is left of the taker. -/
structure Walked (β : Type) where
  trades : List TradeResult
  rest : β
  remaining : ℚ

/-- An execution of the taker `c` with a maker. -/
def COrder.trade (c : COrder) (price : ℚ) (makerId : OrderId) (q : ℚ) : TradeResult where
  takerOrderId := c.orderId
  makerOrderId := makerId
  price := price
  quantity := q
  takerSide := c.side

/-- Walk a taker of which `r` is left along a queue of makers. -/
def walkLevel (c : COrder) (price : ℚ) : ℚ → List Resting → Walked (List Resting)
  | r, [] => { trades := [], rest := [], remaining := r }
  | r, o :: os =>
      if r ≤ 0 then { trades := [], rest := o :: os, remaining := r }
      else
        let f := fillMaker o r
        let trades := f.fills.map (c.trade price o.orderId)
        match f.maker with
        | some o' => { trades := trades, rest := o' :: os, remaining := f.remaining }
        | none =>
            let w := walkLevel c price f.remaining os
            { w with trades := trades ++ w.trades }

theorem walkLevel_nonpos (c : COrder) (price : ℚ) {r : ℚ} (h : r ≤ 0) (os : List Resting) :
    walkLevel c price r os = { trades := [], rest := os, remaining := r } := by
  cases os with
  | nil => rfl
  | cons o os => rw [walkLevel, if_pos h]

/-- The walk once the fills `f` with the first maker are known. -/
def walkAfter (c : COrder) (price : ℚ) (makerId : OrderId) (os : List Resting) (f : MakerFill) :
    Walked (List Resting) :=
  let trades := f.fills.map (c.trade price makerId)
  match f.maker with
  | some o' => { trades := trades, rest := o' :: os, remaining := f.remaining }
  | none =>
      let w := walkLevel c price f.remaining os
      { w with trades := trades ++ w.trades }

theorem walkLevel_cons_pos (c : COrder) (price : ℚ) {r : ℚ} (h : 0 < r) (o : Resting)
    (os : List Resting) :
    walkLevel c price r (o :: os) = walkAfter c price o.orderId os (fillMaker o r) := by
  rw [walkLevel, if_neg (not_le.mpr h)]
  rfl

/-- One more trade in front of a walk. -/
def Walked.push {β : Type} (t : TradeResult) (w : Walked β) : Walked β :=
  { w with trades := t :: w.trades }

theorem walkAfter_push (c : COrder) (price : ℚ) (makerId : OrderId) (os : List Resting)
    (f : MakerFill) (q : ℚ) :
    walkAfter c price makerId os { f with fills := q :: f.fills } =
      (walkAfter c price makerId os f).push (c.trade price makerId q) := by
  unfold walkAfter
  cases f.maker <;> rfl

/-! ### Facts about one maker -/

section Maker

variable {o : Resting} {r : ℚ}

theorem Resting.refill_valid (hlt : o.visibleQty < o.remainingQty) :
    o.refill.Valid where
  remaining_pos := by simp only [Resting.refill]; linarith
  visible_pos := by simp only [Resting.refill]; linarith
  visible_le := fun _ => le_rfl

theorem Resting.Valid.live (h : o.Valid) : o.Live := ⟨h.remaining_pos, h.visible_pos⟩

/-- A fill inside the visible part leaves something, also of an order that is only sound. -/
theorem Resting.Sound.reduce (h : o.Sound) (hr : r < o.visibleAvail) : (o.reduce r).Live := by
  have hpos := h.visible_pos
  simp only [Resting.visibleAvail] at hr
  refine ⟨?_, ?_⟩ <;> simp only [Resting.reduce]
  · split_ifs at hr with hi <;> linarith
  · cases hi : o.isIceberg <;> simp only [hi, true_and, Bool.false_eq_true, if_true, if_false] at *
    · exact hpos trivial
    · split_ifs at hr with hlt
      · linarith
      · linarith [not_lt.mp hlt]

theorem Resting.Valid.reduce (h : o.Valid) (hr : r < o.visibleAvail) : (o.reduce r).Valid := by
  have hpos := h.visible_pos
  have hle := h.visible_le
  simp only [Resting.visibleAvail] at hr
  refine ⟨?_, ?_, ?_⟩ <;> simp only [Resting.reduce]
  · split_ifs at hr with hi <;> linarith
  · cases hi : o.isIceberg <;> simp only [hi, true_and, Bool.false_eq_true, if_true, if_false] at *
    · exact hpos
    · split_ifs at hr <;> linarith
  · intro hi
    rw [if_pos hi]
    linarith [hle hi]

end Maker

/-! ### One iteration -/

section Take

variable {n : OrderNode} {r : ℚ}

theorem takeFromMaker_next (n : OrderNode) (r : ℚ) : (takeFromMaker n r).1.next = n.next := by
  unfold takeFromMaker; split <;> rfl

theorem takeFromMaker_orderId (n : OrderNode) (r : ℚ) :
    (takeFromMaker n r).1.orderId = n.orderId := by
  unfold takeFromMaker; split <;> rfl

/-- What a fill takes from the maker it takes from the taker. -/
theorem takeFromMaker_remainingQty (n : OrderNode) (r : ℚ) :
    (takeFromMaker n r).1.remainingQty = n.remainingQty - (takeFromMaker n r).2.1 := by
  unfold takeFromMaker; split <;> rfl

/-- A fill inside the visible part. -/
theorem takeFromMaker_of_lt (h : r < n.resting.visibleAvail) :
    (takeFromMaker n r).1.resting = n.resting.reduce r ∧ (takeFromMaker n r).2 = (r, 0) := by
  have h' : ¬ r ≥ n.visibleAvail := not_le.mpr h
  simp only [takeFromMaker, if_neg h', and_true]
  rfl

/-- A fill that uses up the visible part of an iceberg. -/
theorem takeFromMaker_refill (hi : n.isIceberg = true ∧ n.visibleQty < n.remainingQty)
    (h : n.visibleQty ≤ r) :
    (takeFromMaker n r).1.resting = n.resting.refill ∧
      (takeFromMaker n r).2 = (n.visibleQty, r - n.visibleQty) := by
  have hav : n.visibleAvail = n.visibleQty := if_pos hi
  have hpos : n.remainingQty - n.visibleQty > 0 := by linarith [hi.2]
  simp only [takeFromMaker, hav, ge_iff_le, if_pos h, hi.1, if_true, if_pos hpos, and_true]
  simp [OrderNode.resting, Resting.refill, hi.1]

/-- A fill that uses up a maker with nothing hidden. -/
theorem takeFromMaker_all (hi : ¬ (n.isIceberg = true ∧ n.visibleQty < n.remainingQty))
    (h : n.remainingQty ≤ r) :
    (takeFromMaker n r).1.remainingQty = 0 ∧
      (takeFromMaker n r).2 = (n.remainingQty, r - n.remainingQty) := by
  have hav : n.visibleAvail = n.remainingQty := if_neg hi
  simp only [takeFromMaker, hav, ge_iff_le, if_pos h, sub_self, and_true]

end Take

/-- The trades emitted so far. -/
def LevelWalk.trades (w : LevelWalk) : List TradeResult := slice w.tradesBuf w.tradesCount

/-- One iteration of the walk: what is left of the maker, the rest of the taker, the trade
    emitted, and nothing else written. -/
structure LevelWalk.Took (c : COrder) (w : LevelWalk) (m : ℕ) (q r' : ℚ) (w' : LevelWalk) :
    Prop where
  grow : w'.poolGrowNeeded = false
  remaining : w'.remainingQty = r'
  price : w'.lvl.price = w.lvl.price
  frame : ∀ j ≠ m, w'.pool j = w.pool j
  count : w'.tradesCount = w.tradesCount + 1
  trades : w'.trades = w.trades ++ [c.trade w.lvl.price (w.pool m).orderId q]

/-- The volume of a level is that of its first order and of the others. -/
theorem LevelRep.volume_cons {lvl : PriceLevel} {m : ℕ} {ids : List ℕ}
    (h : LevelRep pool lvl (m :: ids)) :
    lvl.totalVolume = (pool m).remainingQty + (ids.map fun i => (pool i).remainingQty).sum := by
  rw [h.volume, List.map_cons, List.sum_cons]

/-- Rewriting the head order of a level, for `q` less. -/
theorem LevelRep.takeHead {lvl : PriceLevel} {m : ℕ} {ids : List ℕ}
    (h : LevelRep pool lvl (m :: ids)) (hm : m ∉ ids) {n : OrderNode} {q : ℚ}
    (hnext : n.next = (pool m).next) (hrem : n.remainingQty = (pool m).remainingQty - q)
    (hv : n.resting.Sound) :
    LevelRep (Function.update pool m n) { lvl with totalVolume := lvl.totalVolume - q }
      (m :: ids) where
  chain := by
    -- only quantities change, so the links are the same
    refine h.chain.congr fun i _ => ?_
    by_cases him : i = m
    · subst him; simp [nextOf, hnext]
    · simp [nextOf, Function.update_of_ne him]
  tail := h.tail
  count := h.count
  volume := by
    have hids : (ids.map fun i => (Function.update pool m n i).remainingQty) =
        ids.map fun i => (pool i).remainingQty :=
      List.map_congr_left fun i hi => by
        rw [Function.update_of_ne (by rintro rfl; exact hm hi)]
    rw [List.map_cons, List.sum_cons, hids, Function.update_self, hrem]
    simp only [h.volume_cons]
    ring
  sound := by
    intro i hi
    by_cases him : i = m
    · subst him; simpa using hv
    · rw [Function.update_of_ne him]; exact h.sound i hi

/-- Unlinking the head order of a level, all of it taken. -/
theorem LevelRep.dropHead {lvl : PriceLevel} {m : ℕ} {ids : List ℕ}
    (h : LevelRep pool lvl (m :: ids)) (hnd : (m :: ids).Nodup) {n : OrderNode}
    (hnext : n.next = (pool m).next) :
    LevelRep (Function.update pool m n)
      (PriceLevel.unlinkHead { lvl with totalVolume := lvl.totalVolume - (pool m).remainingQty } m
        n.next) ids := by
  have hframe : ∀ i ∈ ids, Function.update pool m n i = pool i := fun i hi =>
    Function.update_of_ne (by rintro rfl; exact (List.nodup_cons.mp hnd).1 hi) _ _
  refine LevelRep.congr ?_ hframe
  exact
    { chain := by rw [hnext]; exact h.chain.2
      tail := by
        simp only [PriceLevel.unlinkHead, h.tail]
        exact getLast?_unlink [] hnd
      count := by simp only [PriceLevel.unlinkHead, h.count, List.length_cons]; omega
      volume := by simp only [PriceLevel.unlinkHead, h.volume_cons]; ring
      sound := fun i hi => h.sound i (List.mem_cons_of_mem _ hi) }

/-- **One iteration, maker kept.** -/
theorem LevelWalk.step_keep {c : COrder} {cap : ℕ} {w : LevelWalk} {m : ℕ} {ids : List ℕ}
    (hrep : LevelRep w.pool w.lvl (m :: ids)) (hnd : (m :: ids).Nodup) (hmaker : w.maker = some m)
    (hgrow : w.poolGrowNeeded = false) (hfit : w.tradesCount < cap)
    (hv : (takeFromMaker (w.pool m) w.remainingQty).1.resting.Live) :
    ∃ w', LevelWalk.step c cap w = some w' ∧
      w.Took c m (takeFromMaker (w.pool m) w.remainingQty).2.1
        (takeFromMaker (w.pool m) w.remainingQty).2.2 w' ∧
      LevelRep w'.pool w'.lvl (m :: ids) ∧ w'.maker = some m ∧
      (w'.pool m).resting = (takeFromMaker (w.pool m) w.remainingQty).1.resting := by
  have hm : m ∉ ids := (List.nodup_cons.mp hnd).1
  -- the maker has quantity left and shows some of it: it stays at the head
  have hrem : ¬ (takeFromMaker (w.pool m) w.remainingQty).1.remainingQty ≤ 0 :=
    not_le.mpr hv.remaining_pos
  have hvis : ¬ (takeFromMaker (w.pool m) w.remainingQty).1.visibleQty ≤ 0 :=
    not_le.mpr hv.visible_pos
  refine ⟨_, by simp only [LevelWalk.step, hmaker, if_neg (not_le.mpr hfit), if_neg hrem,
    if_neg hvis]; rfl, ?_, ?_, rfl, by simp⟩
  · exact
      { grow := hgrow
        remaining := rfl
        price := rfl
        frame := fun j hj => Function.update_of_ne hj _ _
        count := rfl
        trades := by
          simp only [LevelWalk.trades, slice_update_succ]
          rw [takeFromMaker_orderId]
          rfl }
  · have hq := takeFromMaker_remainingQty (w.pool m) w.remainingQty
    exact hrep.takeHead hm (takeFromMaker_next _ _) hq hv.sound

/-- **One iteration, maker used up.** -/
theorem LevelWalk.step_drop {c : COrder} {cap : ℕ} {w : LevelWalk} {m : ℕ} {ids : List ℕ}
    (hrep : LevelRep w.pool w.lvl (m :: ids)) (hnd : (m :: ids).Nodup) (hmaker : w.maker = some m)
    (hgrow : w.poolGrowNeeded = false) (hfit : w.tradesCount < cap)
    (hzero : (takeFromMaker (w.pool m) w.remainingQty).1.remainingQty = 0) :
    ∃ w', LevelWalk.step c cap w = some w' ∧
      w.Took c m (takeFromMaker (w.pool m) w.remainingQty).2.1
        (takeFromMaker (w.pool m) w.remainingQty).2.2 w' ∧
      LevelRep w'.pool w'.lvl ids ∧ w'.maker = ids.head? := by
  have hm : m ∉ ids := (List.nodup_cons.mp hnd).1
  have hnext := takeFromMaker_next (w.pool m) w.remainingQty
  -- the fill is all that was left of the maker
  have hq : (takeFromMaker (w.pool m) w.remainingQty).2.1 = (w.pool m).remainingQty := by
    have := takeFromMaker_remainingQty (w.pool m) w.remainingQty
    linarith
  refine ⟨_, by simp only [LevelWalk.step, hmaker, if_neg (not_le.mpr hfit), if_pos hzero.le]; rfl,
    ?_, ?_, ?_⟩
  · exact
      { grow := hgrow
        remaining := rfl
        price := rfl
        frame := fun j hj => Function.update_of_ne hj _ _
        count := rfl
        trades := by
          simp only [LevelWalk.trades, slice_update_succ]
          rw [takeFromMaker_orderId]
          rfl }
  · simp only [hq]
    exact hrep.dropHead hnd hnext
  · simp only [PriceLevel.unlinkHead]
    rw [hnext]
    exact hrep.chain.2.head_eq

/-! ### The whole walk -/

/-- What the walk along the orders `ids` has to have done when it computes `res`. -/
structure LevelWalk.Ran (w : LevelWalk) (ids : List ℕ) (res : Walked (List Resting))
    (w' : LevelWalk) : Prop where
  grow : w'.poolGrowNeeded = false
  remaining : w'.remainingQty = res.remaining
  price : w'.lvl.price = w.lvl.price
  frame : ∀ j ∉ ids, w'.pool j = w.pool j
  trades : w'.trades = w.trades ++ res.trades
  rest : ∃ ids', ids' <:+ ids ∧ LevelRep w'.pool w'.lvl ids' ∧
    (ids'.map fun i => (w'.pool i).resting) = res.rest

/-- The walk leaves within `fuel` iterations and computes `res`. -/
def LevelWalk.Leaves (c : COrder) (cap fuel : ℕ) (w : LevelWalk) (ids : List ℕ)
    (res : Walked (List Resting)) : Prop :=
  ∃ w', whileFuel LevelWalk.running (LevelWalk.step c cap) fuel w = some w' ∧ w.Ran ids res w'

theorem LevelWalk.Leaves.mono {c : COrder} {cap fuel fuel' : ℕ} {w : LevelWalk} {ids : List ℕ}
    {res : Walked (List Resting)} (h : w.Leaves c cap fuel ids res) (hle : fuel ≤ fuel') :
    w.Leaves c cap fuel' ids res := by
  obtain ⟨w', hrun, hran⟩ := h
  exact ⟨w', whileFuel_mono hrun hle, hran⟩

/-- A walk that does not start. -/
theorem LevelWalk.leaves_of_not_running (c : COrder) (cap fuel : ℕ) {w : LevelWalk}
    {ids : List ℕ} (hrep : LevelRep w.pool w.lvl ids) (hgrow : w.poolGrowNeeded = false)
    (h : w.running = false) :
    w.Leaves c cap fuel ids
      { trades := [], rest := ids.map fun i => (w.pool i).resting, remaining := w.remainingQty } :=
  ⟨w, whileFuel_of_not h fuel, hgrow, rfl, rfl, fun _ _ => rfl, by simp,
    ids, List.suffix_rfl, hrep, rfl⟩

theorem LevelWalk.not_running_of_le {w : LevelWalk} (h : w.remainingQty ≤ 0) :
    w.running = false := by
  simp [LevelWalk.running, not_lt.mpr h]

theorem LevelWalk.running_of_lt {w : LevelWalk} {m : ℕ} (hmaker : w.maker = some m)
    (hgrow : w.poolGrowNeeded = false) (h : 0 < w.remainingQty) : w.running = true := by
  simp [LevelWalk.running, hmaker, hgrow, h]

/-- An iteration in front of a walk. -/
theorem LevelWalk.Took.leaves {c : COrder} {cap fuel : ℕ} {w w₁ : LevelWalk} {m : ℕ} {q r' : ℚ}
    (ht : w.Took c m q r' w₁) (hrun : w.running = true) (hstep : LevelWalk.step c cap w = some w₁)
    {ids ids₁ : List ℕ} {res : Walked (List Resting)} (hsuf : ids₁ <:+ m :: ids)
    (h : w₁.Leaves c cap fuel ids₁ res) :
    w.Leaves c cap (fuel + 1) (m :: ids)
      (res.push (c.trade w.lvl.price (w.pool m).orderId q)) := by
  obtain ⟨w', hw', hran⟩ := h
  refine ⟨w', by rw [whileFuel_succ hrun hstep]; exact hw', hran.grow, hran.remaining,
    hran.price.trans ht.price, fun j hj => ?_, ?_, ?_⟩
  · have hj₁ : j ∉ ids₁ := fun hmem => hj (hsuf.subset hmem)
    rw [hran.frame j hj₁, ht.frame j (List.ne_of_not_mem_cons hj)]
  · rw [hran.trades, ht.trades, List.append_assoc]
    rfl
  · obtain ⟨ids', hsuf', hrest⟩ := hran.rest
    exact ⟨ids', hsuf'.trans hsuf, hrest⟩

/-- The view of the orders behind the maker is not touched by an iteration. -/
theorem LevelWalk.Took.map_resting {c : COrder} {w w₁ : LevelWalk} {m : ℕ} {q r' : ℚ}
    (ht : w.Took c m q r' w₁) {ids : List ℕ} (hm : m ∉ ids) :
    (ids.map fun i => (w₁.pool i).resting) = ids.map fun i => (w.pool i).resting :=
  List.map_congr_left fun i hi => by rw [ht.frame i (by rintro rfl; exact hm hi)]

/-- A fill that leaves something of the maker and nothing of the taker ends the walk. -/
theorem LevelWalk.leaves_fill {c : COrder} {cap : ℕ} (fuel : ℕ) {w : LevelWalk} {m : ℕ}
    {ids : List ℕ} (hrep : LevelRep w.pool w.lvl (m :: ids)) (hnd : (m :: ids).Nodup)
    (hmaker : w.maker = some m) (hgrow : w.poolGrowNeeded = false) (hfit : w.tradesCount < cap)
    (hr : 0 < w.remainingQty) {o' : Resting} (hv : o'.Live) {q : ℚ}
    (htake : (takeFromMaker (w.pool m) w.remainingQty).1.resting = o' ∧
      (takeFromMaker (w.pool m) w.remainingQty).2 = (q, 0)) :
    w.Leaves c cap (fuel + 1) (m :: ids)
      (walkAfter c w.lvl.price (w.pool m).orderId (ids.map fun i => (w.pool i).resting)
        { fills := [q], maker := some o', remaining := 0 }) := by
  obtain ⟨w₁, hstep, ht, hrep₁, -, hres⟩ :=
    LevelWalk.step_keep (c := c) hrep hnd hmaker hgrow hfit (htake.1.symm ▸ hv)
  rw [htake.2] at ht
  have hleave := LevelWalk.leaves_of_not_running c cap fuel hrep₁ ht.grow
    (LevelWalk.not_running_of_le ht.remaining.le)
  have h := ht.leaves (LevelWalk.running_of_lt hmaker hgrow hr) hstep List.suffix_rfl hleave
  rw [List.map_cons, hres, htake.1, ht.map_resting (List.nodup_cons.mp hnd).1, ht.remaining] at h
  exact h

/-- The walk is right along the orders `ids`, wherever it comes from. -/
def LevelWalk.Correct (c : COrder) (cap : ℕ) (ids : List ℕ) : Prop :=
  ∀ w : LevelWalk, LevelRep w.pool w.lvl ids → w.maker = ids.head? → w.poolGrowNeeded = false →
    w.tradesCount + (walkLevel c w.lvl.price w.remainingQty
      (ids.map fun i => (w.pool i).resting)).trades.length ≤ cap →
    w.Leaves c cap (2 * ids.length) ids (walkLevel c w.lvl.price w.remainingQty
      (ids.map fun i => (w.pool i).resting))

variable {c : COrder} {cap : ℕ} {w : LevelWalk} {m : ℕ} {ids : List ℕ}

/-- A maker that is not refilled, in front of a walk. -/
theorem LevelWalk.Correct.leaves_plain (hc : LevelWalk.Correct c cap ids)
    (hrep : LevelRep w.pool w.lvl (m :: ids)) (hnd : (m :: ids).Nodup) (hmaker : w.maker = some m)
    (hgrow : w.poolGrowNeeded = false) (hr : 0 < w.remainingQty)
    (hplain : ¬ ((w.pool m).isIceberg = true ∧ (w.pool m).visibleQty < (w.pool m).remainingQty))
    (hfit : w.tradesCount + (walkAfter c w.lvl.price (w.pool m).orderId
      (ids.map fun i => (w.pool i).resting)
      (fillPlain (w.pool m).resting w.remainingQty)).trades.length ≤ cap) :
    w.Leaves c cap (2 * ids.length + 1) (m :: ids) (walkAfter c w.lvl.price (w.pool m).orderId
      (ids.map fun i => (w.pool i).resting) (fillPlain (w.pool m).resting w.remainingQty)) := by
  have hav : (w.pool m).resting.visibleAvail = (w.pool m).resting.remainingQty := if_neg hplain
  -- the taker ends inside the maker, or takes all of it and walks on
  by_cases hlt : w.remainingQty < (w.pool m).resting.remainingQty
  · rw [fillPlain, if_pos hlt] at hfit ⊢
    have hlen : w.tradesCount < cap := by
      simp only [walkAfter, List.map_singleton, List.length_singleton] at hfit; omega
    refine leaves_fill _ hrep hnd hmaker hgrow hlen hr ?_
      (takeFromMaker_of_lt (hav.symm ▸ hlt))
    exact (hrep.sound m List.mem_cons_self).reduce (hav.symm ▸ hlt)
  · rw [fillPlain, if_neg hlt] at hfit ⊢
    have htake := takeFromMaker_all hplain (not_lt.mp hlt)
    simp only [walkAfter, List.map_singleton, List.singleton_append, List.length_cons] at hfit
    have hlen : w.tradesCount < cap := by omega
    obtain ⟨w₁, hstep, ht, hrep₁, hmaker₁⟩ :=
      step_drop (c := c) hrep hnd hmaker hgrow hlen htake.1
    rw [htake.2] at ht
    have hmap := ht.map_resting (List.nodup_cons.mp hnd).1
    have hrest := hc w₁ hrep₁ hmaker₁ ht.grow
    rw [ht.price, ht.remaining, hmap, ht.count] at hrest
    rw [Nat.add_right_comm] at hrest
    exact ht.leaves (running_of_lt hmaker hgrow hr) hstep (List.suffix_cons m ids) (hrest hfit)

/-- An iceberg that is refilled, in front of a walk. -/
theorem LevelWalk.Correct.leaves_refill (hc : LevelWalk.Correct c cap ids)
    (hrep : LevelRep w.pool w.lvl (m :: ids)) (hnd : (m :: ids).Nodup) (hmaker : w.maker = some m)
    (hgrow : w.poolGrowNeeded = false)
    (hice : (w.pool m).isIceberg = true ∧ (w.pool m).visibleQty < (w.pool m).remainingQty)
    (hpos : 0 < w.remainingQty) (hr : (w.pool m).visibleQty < w.remainingQty)
    (hfit : w.tradesCount + 1 + (walkAfter c w.lvl.price (w.pool m).orderId
      (ids.map fun i => (w.pool i).resting) (fillPlain (w.pool m).resting.refill
        (w.remainingQty - (w.pool m).visibleQty))).trades.length ≤ cap) :
    w.Leaves c cap (2 * ids.length + 2) (m :: ids)
      ((walkAfter c w.lvl.price (w.pool m).orderId (ids.map fun i => (w.pool i).resting)
        (fillPlain (w.pool m).resting.refill (w.remainingQty - (w.pool m).visibleQty))).push
          (c.trade w.lvl.price (w.pool m).orderId (w.pool m).visibleQty)) := by
  have htake := takeFromMaker_refill hice hr.le
  -- the first pass takes the visible part and refills it, a second pass follows
  have hlive : (takeFromMaker (w.pool m) w.remainingQty).1.resting.Live :=
    htake.1.symm ▸ (Resting.refill_valid hice.2).live
  obtain ⟨w₁, hstep, ht, hrep₁, hmaker₁, hres₁⟩ :=
    step_keep (c := c) hrep hnd hmaker hgrow (by omega : w.tradesCount < cap) hlive
  rw [htake.2] at ht
  rw [htake.1] at hres₁
  have hid : (w₁.pool m).orderId = (w.pool m).orderId := congrArg Resting.orderId hres₁
  -- the refilled maker shows all it has
  have hplain : ¬ ((w₁.pool m).isIceberg = true ∧
      (w₁.pool m).visibleQty < (w₁.pool m).remainingQty) := by
    have h1 : (w₁.pool m).visibleQty = _ := congrArg Resting.visibleQty hres₁
    have h2 : (w₁.pool m).remainingQty = _ := congrArg Resting.remainingQty hres₁
    rw [h1, h2]
    exact fun h => lt_irrefl _ h.2
  have hr₁ : 0 < w₁.remainingQty := by rw [ht.remaining]; simp only; linarith
  have hmap := ht.map_resting (List.nodup_cons.mp hnd).1
  have hrest := hc.leaves_plain hrep₁ hnd hmaker₁ ht.grow hr₁ hplain
  rw [ht.price, ht.remaining, hmap, hid, hres₁, ht.count] at hrest
  exact ht.leaves (running_of_lt hmaker hgrow hpos) hstep List.suffix_rfl (hrest hfit)

/-- **The walk along a level.** It leaves, and computes `walkLevel`. -/
theorem LevelWalk.correct (c : COrder) (cap : ℕ) (hnd : ids.Nodup) : LevelWalk.Correct c cap ids := by
  induction ids with
  | nil =>
    intro w hrep hmaker hgrow _
    exact leaves_of_not_running c cap _ hrep hgrow (by simp [LevelWalk.running, hmaker])
  | cons m ids ih =>
    intro w hrep hmaker hgrow hfit
    have hc := ih (List.nodup_cons.mp hnd).2
    have hv := hrep.sound m List.mem_cons_self
    -- induction on the queue: the head is filled, and the rest is correct already
    rcases le_or_gt w.remainingQty 0 with hr | hr
    · rw [walkLevel_nonpos c _ hr]
      exact leaves_of_not_running c cap _ hrep hgrow (not_running_of_le hr)
    rw [List.map_cons, walkLevel_cons_pos c _ hr] at hfit ⊢
    by_cases hice : (w.pool m).resting.isIceberg = true ∧
        (w.pool m).resting.visibleQty < (w.pool m).resting.remainingQty
    · have hav : (w.pool m).resting.visibleAvail = (w.pool m).visibleQty := if_pos hice
      rw [fillMaker, if_pos hice] at hfit ⊢
      split_ifs at hfit ⊢ with h1 h2
      · -- inside the visible part
        refine (leaves_fill 0 hrep hnd hmaker hgrow
          (by simpa [walkAfter, Nat.succ_le_iff] using hfit) hr (hv.reduce (hav.symm ▸ h1)) (takeFromMaker_of_lt (hav.symm ▸ h1))).mono ?_
        simp only [List.length_cons]; omega
      · -- exactly the visible part
        refine (leaves_fill 0 hrep hnd hmaker hgrow
          (by simpa [walkAfter, Nat.succ_le_iff] using hfit) hr (Resting.refill_valid hice.2).live ?_).mono ?_
        · have h2' : (w.pool m).visibleQty = w.remainingQty := h2.symm
          have htake := takeFromMaker_refill hice h2'.le
          rw [h2', sub_self] at htake
          exact htake
        · simp only [List.length_cons]; omega
      · -- the visible part, and more
        have hlt : (w.pool m).visibleQty < w.remainingQty :=
          lt_of_le_of_ne (not_lt.mp h1) (Ne.symm h2)
        rw [walkAfter_push] at hfit ⊢
        simp only [Walked.push, List.length_cons] at hfit
        exact hc.leaves_refill hrep hnd hmaker hgrow hice hr hlt
          (by rw [Nat.add_right_comm]; exact hfit)
    · rw [fillMaker, if_neg hice] at hfit ⊢
      exact (hc.leaves_plain hrep hnd hmaker hgrow hr hice hfit).mono
        (by simp only [List.length_cons]; omega)

end SpotExchange.Engine
