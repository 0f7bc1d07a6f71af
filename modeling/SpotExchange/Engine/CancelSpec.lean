import SpotExchange.Engine.CallSpec
import Mathlib.Tactic.Ring

namespace SpotExchange.Engine

open SpotExchange.Lib

/-!
# `cancel_order`, on represented engines

* `LevelRep.unlink` — taking one order out of a level, at the head, in the middle or at the tail;
* `CancelWalk.run_spec` — the search along a level ends, with the first order of the id unlinked;
* `cancelOrder_spec` — `cancel_order` is `cancelResting` on the represented levels.
-/

variable {pool : ℕ → OrderNode} {side : OrderBookSide} {L : List GhostLevel}
variable {e : CMatchingEngine} {G : Ghost}

/-! ### Unlinking one order -/

/-- The tail after an unlink: the order before the one taken out if that was the last. -/
theorem getLast?_unlink (pre : List ℕ) {post : List ℕ} {c : ℕ} (hnd : (pre ++ c :: post).Nodup) :
    (if (pre ++ c :: post).getLast? = some c then pre.getLast? else (pre ++ c :: post).getLast?) =
      (pre ++ post).getLast? := by
  rcases List.eq_nil_or_concat post with rfl | ⟨l, t, rfl⟩
  · simp
  · rw [List.concat_eq_append] at *
    have hct : t ≠ c := by
      rintro rfl
      have := (List.nodup_cons.mp (List.nodup_append.mp hnd).2.1).1
      simp at this
    have h1 : (pre ++ c :: (l ++ [t])).getLast? = some t := by
      rw [show pre ++ c :: (l ++ [t]) = (pre ++ c :: l) ++ [t] by simp]
      exact List.getLast?_concat
    have h2 : (pre ++ (l ++ [t])).getLast? = some t := by
      rw [← List.append_assoc]
      exact List.getLast?_concat
    rw [h1, h2, if_neg (by simpa using hct)]

/-- Unlinking only rewrites the link of the order in front. -/
theorem CancelWalk.unlink_pool_resting (w : CancelWalk) (i j : ℕ) :
    ((w.unlink i).pool j).resting = (w.pool j).resting := by
  unfold unlink
  cases w.prev <;> simp

theorem CancelWalk.unlink_pool_of_ne (w : CancelWalk) (i : ℕ) {j : ℕ} (h : w.prev ≠ some j) :
    (w.unlink i).pool j = w.pool j := by
  unfold unlink
  cases hp : w.prev with
  | none => rfl
  | some p => exact setNext_of_ne (by rintro rfl; exact h hp) _

/-- **Unlink.** Taking the order in slot `c` out of a level leaves the level of the others. -/
theorem LevelRep.unlink {lvl : PriceLevel} {pre post : List ℕ} {c : ℕ}
    (h : LevelRep pool lvl (pre ++ c :: post)) (hnd : (pre ++ c :: post).Nodup)
    {w : CancelWalk} (hpool : w.pool = pool) (hlvl : w.lvl = lvl) (hprev : w.prev = pre.getLast?) :
    LevelRep (w.unlink c).pool (w.unlink c).lvl (pre ++ post) where
  chain := by
    -- at the front the head moves on, elsewhere the predecessor skips the order
    rcases List.eq_nil_or_concat pre with rfl | ⟨l, b, rfl⟩
    · simp only [CancelWalk.unlink, hprev, List.getLast?_nil, hpool]
      exact h.chain.2
    · rw [List.concat_eq_append] at *
      rw [List.getLast?_concat] at hprev
      simp only [CancelWalk.unlink, hprev, hpool, hlvl, nextOf_setNext]
      have hsplit : l ++ [b] ++ c :: post = l ++ b :: c :: post := by simp
      have hchain := h.chain
      rw [hsplit] at hchain hnd
      rw [show l ++ [b] ++ post = l ++ b :: post by simp]
      exact hchain.unlink hnd
  tail := by
    simp only [CancelWalk.unlink, hlvl, hprev, h.tail]
    exact getLast?_unlink pre hnd
  count := by
    simp only [CancelWalk.unlink, hlvl, h.count, List.length_append, List.length_cons]
    push_cast
    omega
  volume := by
    have hrem : ∀ i, ((w.unlink c).pool i).remainingQty = (pool i).remainingQty := fun i => by
      have := w.unlink_pool_resting c i
      rw [hpool] at this
      exact congrArg Resting.remainingQty this
    simp only [hrem]
    simp only [CancelWalk.unlink, hlvl, hpool, h.volume, List.map_append, List.map_cons,
      List.sum_append, List.sum_cons]
    ring
  sound := by
    intro i hi
    rw [w.unlink_pool_resting, hpool]
    refine h.sound i ?_
    simp only [List.mem_append, List.mem_cons] at hi ⊢
    tauto

/-! ### The search -/

/-- The search from behind `pre`, none of which is the order. -/
theorem CancelWalk.run_spec (orderId : OrderId) {lvl : PriceLevel} (pre : List ℕ) {ids : List ℕ}
    (h : LevelRep pool lvl (pre ++ ids)) (hnd : (pre ++ ids).Nodup) {fuel : ℕ}
    (hfuel : ids.length ≤ fuel) :
    ∃ w, whileFuel CancelWalk.running (CancelWalk.step orderId) fuel
        { pool := pool, lvl := lvl, prev := pre.getLast?, cur := ids.head?, found := false } =
          some w ∧
      w.found = ids.any (fun i => (pool i).orderId = orderId) ∧
      LevelRep w.pool w.lvl (pre ++ ids.eraseP fun i => (pool i).orderId = orderId) ∧
      w.lvl.price = lvl.price ∧
      (∀ j, (w.pool j).resting = (pool j).resting) ∧
      ∀ j ∉ pre ++ ids, w.pool j = pool j := by
  induction ids generalizing pre fuel with
  | nil =>
    refine ⟨_, whileFuel_of_not (by simp [CancelWalk.running]) fuel, ?_⟩
    simpa using h
  | cons c ids ih =>
    -- induction on the orders ahead; `pre` are those the search has passed
    obtain ⟨fuel, rfl⟩ : ∃ k, fuel = k + 1 := ⟨fuel - 1, by simp at hfuel; omega⟩
    by_cases hc : (pool c).orderId = orderId
    · -- found: the loop is left in the next test
      let w₀ : CancelWalk :=
        { pool := pool, lvl := lvl, prev := pre.getLast?, cur := some c, found := false }
      refine ⟨w₀.unlink c, ?_, ?_, ?_, ?_, ?_, ?_⟩
      · rw [whileFuel_succ (t := w₀.unlink c) (by simp [CancelWalk.running])
          (by simp [CancelWalk.step, hc, w₀])]
        exact whileFuel_of_not (by simp [CancelWalk.running, CancelWalk.unlink]) fuel
      · simp [CancelWalk.unlink, hc]
      · rw [List.eraseP_cons_of_pos (by simpa using hc)]
        exact h.unlink hnd rfl rfl rfl
      · rfl
      · exact w₀.unlink_pool_resting c
      · intro j hj
        refine w₀.unlink_pool_of_ne c fun hp => hj ?_
        exact List.mem_append_left _ (List.mem_of_getLast? hp)
    · -- not this one: it joins the orders behind the search
      have hassoc : pre ++ c :: ids = (pre ++ [c]) ++ ids := by simp
      rw [hassoc] at h hnd
      have hnext : (pool c).next = ids.head? := by
        have hchain := h.chain
        rw [← hassoc] at hchain
        exact hchain.tail_of_append.head_eq
      obtain ⟨w, hrun, hfound, hrep, hrest⟩ := ih _ h hnd (Nat.le_of_succ_le_succ hfuel)
      refine ⟨w, ?_, ?_, ?_, ?_⟩
      · rw [whileFuel_succ (by simp [CancelWalk.running])
          (by simp only [CancelWalk.step, List.head?_cons, if_neg hc]; rfl)]
        rw [List.getLast?_concat] at hrun
        rw [hnext]
        exact hrun
      · simp [hfound, hc]
      · rw [List.eraseP_cons_of_neg (by simpa using hc)]
        simpa using hrep
      · simpa using hrest

/-! ### On represented levels -/

/-- Take the first order of that id out of the level of that price; a level without orders goes. -/
def cancelResting (price : ℚ) (orderId : OrderId) : List Level → List Level
  | [] => []
  | l :: ls =>
      if l.price = price then
        let orders := l.orders.eraseP fun o => o.orderId = orderId
        if orders = [] then ls else { l with orders := orders } :: ls
      else l :: cancelResting price orderId ls

theorem forall_cancelResting {P : Resting → Prop} {price : ℚ} {orderId : OrderId}
    {ls : List Level} (h : ∀ l ∈ ls, ∀ o ∈ l.orders, P o) :
    ∀ l ∈ cancelResting price orderId ls, ∀ o ∈ l.orders, P o := by
  induction ls with
  | nil => exact h
  | cons l ls ih =>
    rw [List.forall_mem_cons] at h
    simp only [cancelResting]
    split_ifs
    · exact h.2
    · exact List.forall_mem_cons.mpr ⟨fun o ho => h.1 o (List.mem_of_mem_eraseP ho), h.2⟩
    · exact List.forall_mem_cons.mpr ⟨h.1, ih h.2⟩

/-- Some order of that id rests at that price. -/
def restsAt (price : ℚ) (orderId : OrderId) (ls : List Level) : Bool :=
  ls.any fun l => decide (l.price = price) && l.orders.any fun o => o.orderId = orderId

theorem cancelResting_of_not_mem {price : ℚ} (orderId : OrderId) {ls : List Level}
    (hno : ∀ l ∈ ls, l.price ≠ price) : cancelResting price orderId ls = ls := by
  induction ls with
  | nil => rfl
  | cons l ls ih =>
    rw [cancelResting, if_neg (hno l List.mem_cons_self),
      ih fun l' hl' => hno l' (List.mem_cons_of_mem _ hl')]

theorem restsAt_of_not_mem {price : ℚ} (orderId : OrderId) {ls : List Level}
    (hno : ∀ l ∈ ls, l.price ≠ price) : restsAt price orderId ls = false := by
  rw [restsAt, List.any_eq_false]
  intro l hl
  simp [hno l hl]

variable {d : Bool} {ls : List Level}

/-- Distinct levels of a sorted side have distinct prices. -/
theorem price_ne_of_sorted (hs : ls.Pairwise fun l l' => before d l.price l'.price)
    {i j : ℕ} (hi : i < ls.length) (hj : j < ls.length) (hij : i ≠ j) :
    ls[i].price ≠ ls[j].price := by
  intro heq
  rcases Nat.lt_or_gt_of_ne hij with hlt | hlt
  · exact before_irrefl d _ (heq ▸ List.pairwise_iff_getElem.mp hs i j hi hj hlt)
  · exact before_irrefl d _ (heq ▸ List.pairwise_iff_getElem.mp hs j i hj hi hlt)

theorem cancelResting_of_mem (hs : ls.Pairwise fun l l' => before d l.price l'.price)
    {i : ℕ} (hi : i < ls.length) (orderId : OrderId) :
    cancelResting ls[i].price orderId ls =
      if ls[i].orders.eraseP (fun o => o.orderId = orderId) = [] then ls.eraseIdx i
      else ls.set i { ls[i] with
        orders := ls[i].orders.eraseP fun o => o.orderId = orderId } := by
  induction ls generalizing i with
  | nil => simp at hi
  | cons l ls ih =>
    cases i with
    | zero => simp [cancelResting]
    | succ i =>
      have hi' : i < ls.length := by simpa using hi
      have hne : l.price ≠ ls[i].price :=
        price_ne_of_sorted hs (i := 0) (j := i + 1) (by simp) hi (by omega)
      simp only [List.getElem_cons_succ]
      rw [cancelResting, if_neg hne, ih (List.pairwise_cons.mp hs).2 hi']
      split_ifs <;> simp

theorem restsAt_of_mem (hs : ls.Pairwise fun l l' => before d l.price l'.price)
    {i : ℕ} (hi : i < ls.length) (orderId : OrderId) :
    restsAt ls[i].price orderId ls = ls[i].orders.any fun o => o.orderId = orderId := by
  rw [Bool.eq_iff_iff, restsAt, List.any_eq_true]
  constructor
  · rintro ⟨l, hl, h⟩
    obtain ⟨j, hj, rfl⟩ := List.getElem_of_mem hl
    rw [Bool.and_eq_true, decide_eq_true_eq] at h
    obtain rfl : j = i := by
      by_contra hne
      exact price_ne_of_sorted hs hj hi hne h.1
    exact h.2
  · intro h
    exact ⟨ls[i], List.getElem_mem hi, by simpa using h⟩

/-! ### On represented engines -/

theorem viewSide_eraseIdx {pool' : ℕ → OrderNode} (i : ℕ)
    (hframe : ∀ j ∈ cells (L.eraseIdx i), pool' j = pool j) :
    viewSide pool' (L.eraseIdx i) = (viewSide pool L).eraseIdx i := by
  rw [viewSide_congr hframe, viewSide, viewSide, List.eraseIdx_map]

/-- Exchange the level at `i` for one with the orders `ids'`; a level without orders goes. -/
def shrinkLevel (L : List GhostLevel) (i : ℕ) (lvl : PriceLevel) (ids' : List ℕ) :
    List GhostLevel :=
  if ids' = [] then L.eraseIdx i else L.set i (lvl, ids')

/-- The side that `cancel_order` leaves, with the level `lvl` at `i`. -/
def shrunkSide (side : OrderBookSide) (i : ℕ) (lvl : PriceLevel) (found : Bool) : OrderBookSide :=
  let side := { side with levels := Function.update side.levels i lvl }
  if found then maybeCompactLevel side i else side

@[simp] theorem shrunkSide_isDescending (side : OrderBookSide) (i : ℕ) (lvl : PriceLevel)
    (found : Bool) : (shrunkSide side i lvl found).isDescending = side.isDescending := by
  simp only [shrunkSide, maybeCompactLevel]
  split_ifs <;> rfl

theorem shrinkLevel_nonempty {i : ℕ} {lvl : PriceLevel} {ids' : List ℕ}
    (h : ∀ g ∈ L, g.2 ≠ []) : ∀ g ∈ shrinkLevel L i lvl ids', g.2 ≠ [] := by
  intro g hg
  rw [shrinkLevel] at hg
  split_ifs at hg with hnil
  · exact h g (List.mem_of_mem_eraseIdx hg)
  · rcases eq_or_mem_eraseIdx_of_mem_set hg with rfl | hg
    · exact hnil
    · exact h g (List.mem_of_mem_eraseIdx hg)

/-- `_maybe_compact_level` drops the level exactly when its last order went. -/
theorem SideRep.shrinkLevel (h : SideRep pool side L) {pool' : ℕ → OrderNode} {i : ℕ}
    (hi : i < L.length) {lvl : PriceLevel} {ids' : List ℕ} (hprice : lvl.price = L[i].1.price)
    (hrep : LevelRep pool' lvl ids') (hframe : ∀ j ∈ cells (L.eraseIdx i), pool' j = pool j)
    {found : Bool} (hempty : ids' = [] → found = true) :
    SideRep pool' (shrunkSide side i lvl found) (shrinkLevel L i lvl ids') := by
  have hset := h.set (g := (lvl, ids')) hi hprice hrep hframe
  have hcount : (Function.update side.levels i lvl i).orderCount = 0 ↔ ids' = [] := by
    rw [Function.update_self]
    exact hrep.count_eq_zero
  by_cases hnil : ids' = []
  · have hrm := hset.removeLevel (i := i) (by simpa using hi)
    rw [List.eraseIdx_set_eq] at hrm
    simpa only [shrunkSide, Engine.shrinkLevel, if_pos hnil, if_pos (hempty hnil),
      maybeCompactLevel, if_pos (hcount.mpr hnil)] using hrm
  · simpa only [shrunkSide, Engine.shrinkLevel, if_neg hnil, maybeCompactLevel,
      if_neg (mt hcount.mp hnil), ite_self] using hset

/-- Slots only leave. -/
theorem cells_shrinkLevel_sublist {i : ℕ} (hi : i < L.length) (lvl : PriceLevel) (ids' : List ℕ)
    (h : ids'.Sublist L[i].2) : (cells (shrinkLevel L i lvl ids')).Sublist (cells L) := by
  induction L generalizing i with
  | nil => simp at hi
  | cons g L ih =>
    cases i with
    | zero =>
      simp only [shrinkLevel, List.eraseIdx_cons_zero, List.set_cons_zero]
      split_ifs
      · exact List.sublist_append_right _ _
      · exact h.append_right _
    | succ i =>
      have := ih (i := i) (by simpa using hi) (by simpa using h)
      simp only [shrinkLevel, List.eraseIdx_cons_succ, List.set_cons_succ] at this ⊢
      split_ifs at this ⊢ <;> exact this.append_left _

/-- A side uses at most as many slots as the pool has in use. -/
theorem EngineShape.length_cells_le (h : EngineShape e G) (s : CSide) :
    (cells (G s)).length ≤ e.nodePoolSize := by
  have hsub : cells (G s) ⊆ List.range e.nodePoolSize :=
    fun i hi => List.mem_range.mpr (h.bound s i hi)
  simpa using (List.subperm_of_subset (h.cells_nodup s) hsub).length_le

/-- **`cancel_order`** takes the first order of the id out of the level of the price, and says
    whether there was one. -/
theorem cancelOrder_shape (h : EngineShape e G) (orderId : OrderId) (s : CSide) (price : ℚ) :
    ∃ e' G', cancelOrder e orderId s price = .ok (restsAt price orderId (view e G s), e') ∧
      EngineShape e' G' ∧
      view e' G' s = cancelResting price orderId (view e G s) ∧
      view e' G' s.opp = view e G s.opp ∧
      e'.nodePoolSize = e.nodePoolSize ∧ e'.nodePoolCap = e.nodePoolCap ∧
      e'.tradesCap = e.tradesCap := by
  have hview : view e G s = viewSide e.nodePool (G s) := rfl
  rcases (h.side s).findLevelIdx_spec price with ⟨i, hi, hp, hf⟩ | ⟨hno, hf⟩
  · have hi' : i < (view e G s).length := by simpa [hview, viewSide] using hi
    have hget : (view e G s)[i] = viewLevel e.nodePool (G s)[i] := by simp [hview, viewSide]
    have hprice : (view e G s)[i].price = price := by rw [hget]; exact hp
    have hsorted : (view e G s).Pairwise fun l l' =>
        before (e.bookSide s).isDescending l.price l'.price := viewSide_sorted (h.side s)
    have hlvl : (e.bookSide s).levels i = (G s)[i].1 := (h.side s).level_eq hi
    have hrep : LevelRep e.nodePool (G s)[i].1 (G s)[i].2 := (h.side s).rep _ (List.getElem_mem hi)
    have hperm := cells_perm hi
    have hnd : ((G s)[i].2 ++ cells ((G s).eraseIdx i)).Nodup :=
      hperm.nodup_iff.mp (h.cells_nodup s)
    have hlen : (G s)[i].2.length ≤ e.nodePoolSize := by
      have := h.length_cells_le s
      rw [hperm.length_eq, List.length_append] at this
      omega
    obtain ⟨w, hrun, hfound, hrep', hwprice, hres, hframe⟩ :=
      CancelWalk.run_spec orderId [] hrep (List.nodup_append.mp hnd).1 hlen
    set ids' := (G s)[i].2.eraseP fun k => (e.nodePool k).orderId = orderId with hids'
    rw [List.nil_append] at hrep' hframe
    -- only a level from which the order was taken can be empty
    have hempty : ids' = [] → w.found = true := by
      intro hnil
      rw [hfound]
      by_contra hany
      rw [hids', List.eraseP_of_forall_not (by simpa using hany)] at hnil
      exact h.nonempty s _ (List.getElem_mem hi) hnil
    have hframe_side : ∀ j ∈ cells ((G s).eraseIdx i), w.pool j = e.nodePool j := fun j hj =>
      hframe j fun hj' => (List.nodup_append.mp hnd).2.2 j hj' j hj rfl
    have hframe_opp : ∀ j ∈ cells (G s.opp), w.pool j = e.nodePool j := by
      intro j hj
      refine hframe j fun hj' => h.not_mem_opp (s := s) ?_ hj
      rw [hperm.mem_iff]
      exact List.mem_append_left _ hj'
    have hsub := cells_shrinkLevel_sublist hi w.lvl ids' List.eraseP_sublist
    let book' := shrunkSide (e.bookSide s) i w.lvl w.found
    let e' : CMatchingEngine := { e.setBookSide s book' with nodePool := w.pool }
    have hside' : e'.bookSide s = book' := CMatchingEngine.bookSide_set_self e s _
    have hsize' : e'.nodePoolSize = e.nodePoolSize := CMatchingEngine.set_nodePoolSize e s _
    refine ⟨e', Function.update G s (shrinkLevel (G s) i w.lvl ids'), ?_, ?_, ?_,
      view_update_opp s hframe_opp, hsize', CMatchingEngine.set_nodePoolCap e s _,
      CMatchingEngine.set_tradesCap e s _⟩
    · have hany : restsAt price orderId (view e G s) = w.found := by
        rw [← hprice, restsAt_of_mem hsorted hi', hfound, hget, viewLevel, List.any_map]
        rfl
      simp only [hany, cancelOrder, hf, hlvl, (hrep.chain.head_eq : (G s)[i].1.head = _)]
      rw [List.getLast?_nil] at hrun
      rw [hrun]
      rfl
    · have hside : SideRep w.pool book' (shrinkLevel (G s) i w.lvl ids') :=
        (h.side s).shrinkLevel hi hwprice hrep' hframe_side hempty
      refine h.setSide s (hside'.symm ▸ hside) (by rw [hside', shrunkSide_isDescending])
        (CMatchingEngine.bookSide_set_opp e s _) (shrinkLevel_nonempty (h.nonempty s))
        (hsub.nodup (h.cells_nodup s)) ?_ hsize'.ge hframe_opp
      intro j hj
      have hj' := hsub.subset hj
      exact ⟨h.not_mem_opp hj', hsize' ▸ h.bound s j hj'⟩
    · have horders : (view e G s)[i].orders.eraseP (fun o => decide (o.orderId = orderId)) =
          ids'.map fun k => (w.pool k).resting := by
        simp only [hget, viewLevel, hres, hids', List.eraseP_map]
        rfl
      rw [← hprice, cancelResting_of_mem hsorted hi', horders, view, Function.update_self,
        shrinkLevel]
      simp only [List.map_eq_nil_iff]
      split_ifs
      · exact viewSide_eraseIdx i hframe_side
      · rw [viewSide_set i _ hframe_side, hprice]
        simp only [viewLevel, hwprice, hp]
        rfl
  -- no level has the price, and nothing is done
  · have hno' : ∀ l ∈ view e G s, l.price ≠ price := by
      intro l hl
      obtain ⟨g, hg, rfl⟩ := List.mem_map.mp hl
      exact hno g hg
    refine ⟨e, G, ?_, h, (cancelResting_of_not_mem orderId hno').symm, rfl, rfl, rfl, rfl⟩
    simp only [cancelOrder, hf, restsAt_of_not_mem orderId hno']

/-- `cancel_order` keeps all orders valid. -/
theorem cancelOrder_spec (h : EngineRep e G) (orderId : OrderId) (s : CSide) (price : ℚ) :
    ∃ e' G', cancelOrder e orderId s price = .ok (restsAt price orderId (view e G s), e') ∧
      EngineRep e' G' ∧
      view e' G' s = cancelResting price orderId (view e G s) ∧
      view e' G' s.opp = view e G s.opp ∧
      e'.nodePoolSize = e.nodePoolSize ∧ e'.nodePoolCap = e.nodePoolCap ∧
      e'.tradesCap = e.tradesCap := by
  obtain ⟨e', G', hrun, hshape, hview, hopp, hrest⟩ :=
    cancelOrder_shape h.toEngineShape orderId s price
  refine ⟨e', G', hrun, hshape.rep fun t => ?_, hview, hopp, hrest⟩
  rcases eq_or_eq_opp s t with rfl | rfl
  · rw [hview]
    exact forall_cancelResting (h.orders_valid _)
  · rw [hopp]
    exact h.orders_valid _

end SpotExchange.Engine
