import SpotExchange.Engine.Rep

namespace SpotExchange.Engine

open SpotExchange.Lib

/-!
# Price level management, on represented sides

What the helpers of `Levels.lean` do to a side that represents `L`:

* `findLevelIdx_spec` — the binary search ends, and finds the level of a price if there is one;
* `SideRep.insertLevel` / `SideRep.removeLevel` — the shifting loops are an insertion at the
  sorted position and an erasure;
* `LevelRep.append` — linking a node behind the tail appends an order;
* `addResting` — the three together, on the represented levels.
-/

variable {pool : ℕ → OrderNode} {side : OrderBookSide} {L : List GhostLevel}

/-! ### The binary search -/

/-- The prices of a side are strictly sorted in the order of the side. -/
def OrderBookSide.Sorted (side : OrderBookSide) : Prop :=
  ∀ i j, i < j → j < side.size →
    before side.isDescending (side.levels i).price (side.levels j).price

theorem SideRep.side_sorted (h : SideRep pool side L) : side.Sorted := by
  intro i j hij hj
  rw [h.size_eq] at hj
  rw [h.level_eq hj, h.level_eq (lt_trans hij hj)]
  exact List.pairwise_iff_getElem.mp h.sorted i j _ _ hij

/-- What the search knows: everything below `lo` is ahead of the price, everything above `hi`
    behind it, and an answer is an index of that price. -/
structure LevelSearch.Ok (side : OrderBookSide) (price : ℚ) (s : LevelSearch) : Prop where
  lo_nonneg : 0 ≤ s.lo
  hi_lt : s.hi < side.size
  below : ∀ i < side.size, (i : ℤ) < s.lo →
    before side.isDescending (side.levels i).price price
  above : ∀ i < side.size, s.hi < (i : ℤ) →
    before side.isDescending price (side.levels i).price
  hit : ∀ i, s.result = some i → i < side.size ∧ (side.levels i).price = price

/-- What bounds the search: the width of the range, nothing once there is an answer. -/
def LevelSearch.width (s : LevelSearch) : ℕ :=
  if s.result.isSome then 0 else (s.hi - s.lo + 1).toNat

/-- One probe keeps what the search knows and narrows the range. -/
theorem LevelSearch.step_ok (hs : side.Sorted) {price : ℚ} {s : LevelSearch}
    (h : s.Ok side price) (hrun : s.running = true) :
    ∃ t, LevelSearch.step side price s = some t ∧ t.Ok side price ∧ t.width < s.width := by
  simp only [running, Bool.and_eq_true, Option.isNone_iff_eq_none, decide_eq_true_eq] at hrun
  obtain ⟨hnone, hle⟩ := hrun
  have hlo := h.lo_nonneg
  have hhi := h.hi_lt
  obtain ⟨m, hm⟩ : ∃ m : ℕ, (s.lo + s.hi) / 2 = m := ⟨((s.lo + s.hi) / 2).toNat, by omega⟩
  have hmlt : m < side.size := by omega
  simp only [step, hm, Int.toNat_natCast]
  by_cases heq : (side.levels m).price = price
  · refine ⟨_, if_pos heq, ⟨hlo, hhi, h.below, h.above, ?_⟩, ?_⟩
    · rintro i ⟨⟩
      exact ⟨hmlt, heq⟩
    · simp only [width, hnone, Option.isSome_some, Option.isSome_none, if_true, Bool.false_eq_true,
        if_false]
      omega
  rw [if_neg heq]
  by_cases hb : before side.isDescending (side.levels m).price price
  · -- the level probed is ahead of the price, and so is everything before it
    refine ⟨_, if_pos hb, ⟨by simp only; omega, hhi, ?_, h.above, h.hit⟩, ?_⟩
    · intro i hi hlt
      rcases Nat.lt_or_ge i m with him | him
      · exact before_trans (hs i m him hmlt) hb
      · obtain rfl : i = m := by simp only at hlt; omega
        exact hb
    · simp only [width, hnone, Option.isSome_none, Bool.false_eq_true, if_false]
      omega
  · -- it is behind the price, and so is everything after it
    have hb' : before side.isDescending price (side.levels m).price :=
      (before_or_before heq).resolve_left hb
    refine ⟨_, if_neg hb, ⟨hlo, by simp only; omega, h.below, ?_, h.hit⟩, ?_⟩
    · intro i hi hlt
      rcases Nat.lt_or_ge m i with him | him
      · exact before_trans hb' (hs m i him hi)
      · obtain rfl : i = m := by simp only at hlt; omega
        exact hb'
    · simp only [width, hnone, Option.isSome_none, Bool.false_eq_true, if_false]
      omega

/-- What the search knows before its first probe. -/
theorem LevelSearch.ok_init (side : OrderBookSide) (price : ℚ) :
    LevelSearch.Ok side price { lo := 0, hi := side.size - 1, result := none } where
  lo_nonneg := le_rfl
  hi_lt := by simp
  below := fun i _ hlt => by simp only at hlt; omega
  above := fun i hi hlt => by simp only at hlt; omega
  hit := fun i hi => absurd hi (by simp)

/-- **The search is correct.** It ends; on a price that is present it returns its index, and
    otherwise it reports that there is none. -/
theorem findLevelIdx_of_sorted (hs : side.Sorted) (price : ℚ) :
    (∃ i < side.size, (side.levels i).price = price ∧ findLevelIdx side price = .ok (some i)) ∨
      ((∀ i < side.size, (side.levels i).price ≠ price) ∧ findLevelIdx side price = .ok none) := by
  let s₀ : LevelSearch := { lo := 0, hi := side.size - 1, result := none }
  have hw : s₀.width ≤ side.size := by simp [s₀, LevelSearch.width]
  obtain ⟨t, ht, hok, hexit⟩ := whileFuel_total LevelSearch.width
    (fun s hs' hrun => LevelSearch.step_ok hs hs' hrun) (LevelSearch.ok_init side price) hw
  have hres : findLevelIdx side price = .ok t.result := by
    simp only [findLevelIdx] at ht ⊢
    rw [ht]
  cases hr : t.result with
  | some i =>
    obtain ⟨hi, hp⟩ := hok.hit i hr
    exact .inl ⟨i, hi, hp, by rw [hres, hr]⟩
  | none =>
    refine .inr ⟨fun i hi hp => ?_, by rw [hres, hr]⟩
    simp only [LevelSearch.running, hr, Option.isNone_none, Bool.true_and,
      decide_eq_false_iff_not, not_le] at hexit
    rcases lt_or_ge (i : ℤ) t.lo with hlt | hge
    · exact before_irrefl _ _ (hp ▸ hok.below i hi hlt)
    · exact before_irrefl _ _ (hp ▸ hok.above i hi (by omega))

/-- The search on a represented side. -/
theorem SideRep.findLevelIdx_spec (h : SideRep pool side L) (price : ℚ) :
    (∃ i, ∃ hi : i < L.length, L[i].1.price = price ∧ findLevelIdx side price = .ok (some i)) ∨
      ((∀ g ∈ L, g.1.price ≠ price) ∧ findLevelIdx side price = .ok none) := by
  rcases findLevelIdx_of_sorted h.side_sorted price with ⟨i, hi, hp, hf⟩ | ⟨hno, hf⟩
  · have hi' : i < L.length := h.size_eq ▸ hi
    exact .inl ⟨i, hi', by rw [← h.level_eq hi']; exact hp, hf⟩
  · refine .inr ⟨fun g hg => ?_, hf⟩
    obtain ⟨i, hi, rfl⟩ := List.getElem_of_mem hg
    rw [← h.level_eq hi]
    exact hno i (h.size_eq ▸ hi)

/-! ### Linking an order behind the tail -/

@[simp] theorem setNext_resting (i j : ℕ) (p : Option ℕ) :
    (setNext pool i p j).resting = (pool j).resting := by
  by_cases h : j = i
  · subst h; simp [setNext, OrderNode.resting]
  · simp [setNext, Function.update_of_ne h]

@[simp] theorem setNext_remainingQty (i j : ℕ) (p : Option ℕ) :
    (setNext pool i p j).remainingQty = (pool j).remainingQty :=
  congrArg Resting.remainingQty (setNext_resting i j p)

theorem setNext_of_ne {i j : ℕ} (h : j ≠ i) (p : Option ℕ) : setNext pool i p j = pool j :=
  Function.update_of_ne h _ _

theorem nextOf_setNext (i : ℕ) (p : Option ℕ) :
    nextOf (setNext pool i p) = Function.update (nextOf pool) i p := by
  funext j
  by_cases h : j = i
  · subst h; simp [nextOf, setNext]
  · simp [nextOf, setNext, Function.update_of_ne h]

/-- **Append.** Linking a node that is not in the level yet makes it the level's last
    order. -/
theorem LevelRep.append {lvl : PriceLevel} {ids : List ℕ} (h : LevelRep pool lvl ids) {n : ℕ}
    (hnd : (ids ++ [n]).Nodup) (hv : (pool n).resting.Sound) :
    LevelRep (appendOrderToLevel pool lvl n).1 (appendOrderToLevel pool lvl n).2 (ids ++ [n]) := by
  have hsound : ∀ i ∈ ids ++ [n], (pool i).resting.Sound := by
    intro i hi
    rcases List.mem_append.mp hi with hi | hi
    · exact h.sound i hi
    · rwa [List.mem_singleton.mp hi]
  rcases List.eq_nil_or_concat ids with rfl | ⟨l, t, rfl⟩
  -- an empty level: the order is its head, too
  · have ht : lvl.tail = none := h.tail
    simp only [appendOrderToLevel, ht, List.nil_append]
    exact
      { chain := ⟨rfl, by simp [nextOf_setNext]⟩
        tail := rfl
        count := by simp [h.count]
        volume := by simp [h.volume]
        sound := by simpa using hsound }
  · rw [List.concat_eq_append] at *
    have ht : lvl.tail = some t := by rw [h.tail]; simp
    -- the old tail gets a successor, and the order none
    have hn : n ∉ l ++ [t] := fun hn => (List.nodup_append.mp hnd).2.2 n hn n (by simp) rfl
    have htl : t ∉ l := fun htl =>
      (List.nodup_append.mp (List.nodup_append.mp hnd).1).2.2 t htl t (by simp) rfl
    simp only [appendOrderToLevel, ht]
    exact
      { chain := by
          rw [nextOf_setNext, nextOf_setNext]
          exact h.chain.snoc htl hn
        tail := by simp
        count := by simp only [h.count, List.length_append]; push_cast; rfl
        volume := by simp only [h.volume, setNext_remainingQty]; simp [add_assoc]
        sound := by simpa using hsound }

/-- Appending only rewrites links, of the level's own orders and of the new node. -/
theorem appendOrderToLevel_of_ne {lvl : PriceLevel} {ids : List ℕ} (h : LevelRep pool lvl ids)
    {n i : ℕ} (hi : i ∉ ids) (hn : i ≠ n) : (appendOrderToLevel pool lvl n).1 i = pool i := by
  unfold appendOrderToLevel
  cases ht : lvl.tail with
  | none => exact setNext_of_ne hn _
  | some t =>
    have hmem : t ∈ ids := List.mem_of_getLast? (h.tail ▸ ht)
    simp only
    rw [setNext_of_ne hn, setNext_of_ne (by rintro rfl; exact hi hmem)]

@[simp] theorem appendOrderToLevel_resting (lvl : PriceLevel) (n i : ℕ) :
    ((appendOrderToLevel pool lvl n).1 i).resting = (pool i).resting := by
  unfold appendOrderToLevel
  cases lvl.tail <;> simp

@[simp] theorem appendOrderToLevel_price (lvl : PriceLevel) (n : ℕ) :
    (appendOrderToLevel pool lvl n).2.price = lvl.price := by
  unfold appendOrderToLevel
  cases lvl.tail <;> rfl

/-! ### Opening, filling and removing a level -/

theorem insertPos_le (side : OrderBookSide) (price : ℚ) : side.insertPos price ≤ side.size := by
  unfold OrderBookSide.insertPos
  have hle : ((slice side.levels side.size).findIdx fun lvl =>
      decide (before side.isDescending price lvl.price)) ≤ (slice side.levels side.size).length :=
    List.findIdx_le_length
  rwa [slice_length] at hle

/-- The level that `_insert_level` opens. -/
def PriceLevel.empty (price : ℚ) : PriceLevel :=
  { price := price, head := none, tail := none, totalVolume := 0, orderCount := 0 }

/-- `_insert_level` inserts an empty level at the sorted position. -/
theorem slice_insertLevel (side : OrderBookSide) (price : ℚ) :
    slice (insertLevel side price).2.levels (insertLevel side price).2.size =
      (slice side.levels side.size).insertIdx (side.insertPos price) (PriceLevel.empty price) :=
  slice_shiftRight side.levels (insertPos_le side price) _

@[simp] theorem insertLevel_isDescending (side : OrderBookSide) (price : ℚ) :
    (insertLevel side price).2.isDescending = side.isDescending := by
  simp only [insertLevel, OrderBookSide.grown]; split <;> rfl

/-- `_remove_level` erases the level. -/
theorem slice_removeLevel (side : OrderBookSide) {idx : ℕ} (h : idx < side.size) :
    slice (removeLevel side idx).levels (removeLevel side idx).size =
      (slice side.levels side.size).eraseIdx idx := by
  rw [← slice_shiftLeft side.levels h]
  exact slice_update_of_le le_rfl _

/-- Replace the descriptor at `i`. -/
theorem slice_set_level (side : OrderBookSide) (i : ℕ) (lvl : PriceLevel) :
    slice (Function.update side.levels i lvl) side.size =
      (slice side.levels side.size).set i lvl := slice_update _ _ _ _

/-- The insertion of an order on the represented levels: behind the orders of its price, or in a
    new level at the sorted position. -/
def addResting (d : Bool) (price : ℚ) (o : Resting) : List Level → List Level
  | [] => [{ price := price, orders := [o] }]
  | l :: ls =>
      if l.price = price then { l with orders := l.orders ++ [o] } :: ls
      else if before d price l.price then { price := price, orders := [o] } :: l :: ls
      else l :: addResting d price o ls

/-- `addResting` at a price that has a level. -/
theorem addResting_of_mem {d : Bool} {price : ℚ} (o : Resting) {ls : List Level}
    (hs : ls.Pairwise fun l l' => before d l.price l'.price) {i : ℕ} (hi : i < ls.length)
    (hp : ls[i].price = price) :
    addResting d price o ls = ls.set i { ls[i] with orders := ls[i].orders ++ [o] } := by
  induction ls generalizing i with
  | nil => simp at hi
  | cons l ls ih =>
    rw [List.pairwise_cons] at hs
    cases i with
    | zero => simp only [List.getElem_cons_zero] at hp ⊢; simp [addResting, hp]
    | succ i =>
      simp only [List.getElem_cons_succ] at hp ⊢
      have hlt : before d l.price price := hp ▸ hs.1 _ (List.getElem_mem _)
      have hne : l.price ≠ price := fun e => before_irrefl d _ (e ▸ hlt)
      rw [addResting, if_neg hne, if_neg (before_asymm hlt), ih hs.2 (by simpa using hi) hp]
      rfl

/-- `addResting` at a new price. -/
theorem addResting_of_not_mem {d : Bool} {price : ℚ} (o : Resting) {ls : List Level}
    (hno : ∀ l ∈ ls, l.price ≠ price) :
    addResting d price o ls =
      ls.insertIdx (ls.findIdx fun l => before d price l.price)
        { price := price, orders := [o] } := by
  induction ls with
  | nil => rfl
  | cons l ls ih =>
    rw [List.findIdx_cons, addResting, if_neg (hno l List.mem_cons_self)]
    by_cases hb : before d price l.price
    · simp [hb]
    · simp only [hb, if_false, decide_false, cond_false, List.insertIdx_succ_cons]
      rw [ih fun l' hl' => hno l' (List.mem_cons_of_mem _ hl')]

/-- What holds of the resting orders and of the new one. -/
theorem forall_addResting {P : Resting → Prop} {d : Bool} {price : ℚ} {o : Resting}
    {ls : List Level} (h : ∀ l ∈ ls, ∀ o ∈ l.orders, P o) (ho : P o) :
    ∀ l ∈ addResting d price o ls, ∀ o ∈ l.orders, P o := by
  induction ls with
  | nil => simpa [addResting] using ho
  | cons l ls ih =>
    rw [List.forall_mem_cons] at h
    rw [addResting]
    split_ifs
    · refine List.forall_mem_cons.mpr ⟨fun o' ho' => ?_, h.2⟩
      rcases List.mem_append.mp ho' with ho' | ho'
      · exact h.1 o' ho'
      · exact List.mem_singleton.mp ho' ▸ ho
    · exact List.forall_mem_cons.mpr ⟨by simpa using ho, List.forall_mem_cons.mpr h⟩
    · exact List.forall_mem_cons.mpr ⟨h.1, ih h.2⟩

/-! ### On represented sides -/

/-- Splitting off the slots of the level at `i`. -/
theorem cells_set_perm {i : ℕ} (hi : i < L.length) (g : GhostLevel) :
    (cells (L.set i g)).Perm (g.2 ++ cells (L.eraseIdx i)) := by
  induction L generalizing i with
  | nil => simp at hi
  | cons g' L ih =>
    cases i with
    | zero => simp
    | succ i =>
      simp only [List.set_cons_succ, List.eraseIdx_cons_succ, cells_cons]
      refine ((ih (by simpa using hi)).append_left g'.2).trans ?_
      rw [← List.append_assoc, ← List.append_assoc]
      exact List.perm_append_comm.append_right _

theorem cells_perm {i : ℕ} (hi : i < L.length) :
    (cells L).Perm (L[i].2 ++ cells (L.eraseIdx i)) := by
  have h := cells_set_perm hi L[i]
  rwa [List.set_getElem_self] at h

/-- Exchange the level at `i` for one of the same price, over a pool that agrees on the slots of
    the other levels. -/
theorem SideRep.set (h : SideRep pool side L) {pool' : ℕ → OrderNode} {i : ℕ} (hi : i < L.length)
    {g : GhostLevel} (hprice : g.1.price = L[i].1.price) (hrep : LevelRep pool' g.1 g.2)
    (hframe : ∀ j ∈ cells (L.eraseIdx i), pool' j = pool j) :
    SideRep pool' { side with levels := Function.update side.levels i g.1 } (L.set i g) where
  levels := by
    simp only [slice_set_level, h.levels, List.map_set]
  rep := by
    intro g' hg'
    obtain ⟨k, hk, rfl⟩ := List.getElem_of_mem hg'
    rw [List.length_set] at hk
    by_cases hki : i = k
    · subst hki; simpa using hrep
    · rw [List.getElem_set_ne hki]
      refine (h.rep _ (List.getElem_mem hk)).congr fun j hj => hframe j ?_
      exact mem_cells.mpr ⟨L[k], List.mem_eraseIdx_iff_getElem.mpr ⟨k, hk, Ne.symm hki, rfl⟩, hj⟩
  sorted := by
    rw [List.pairwise_iff_getElem]
    intro a b ha hb hab
    -- the price at each index is what it was, so the order is, too
    have hprices : ∀ k (hk : k < (L.set i g).length) (hk' : k < L.length),
        (L.set i g)[k].1.price = L[k].1.price := by
      intro k hk hk'
      rw [List.getElem_set]
      split_ifs with hik
      · subst hik; exact hprice
      · rfl
    have ha' : a < L.length := by rwa [List.length_set] at ha
    have hb' : b < L.length := by rwa [List.length_set] at hb
    rw [hprices a ha ha', hprices b hb hb']
    exact List.pairwise_iff_getElem.mp h.sorted a b ha' hb' hab

/-- A strictly sorted list stays so when a new key goes in front of the first worse one. -/
theorem sorted_insertIdx {α : Type*} {f : α → ℚ} {l : List α} {x : α} {d : Bool} {price : ℚ}
    (hx : f x = price) (hs : l.Pairwise fun a b => before d (f a) (f b))
    (hno : ∀ a ∈ l, f a ≠ price) :
    (l.insertIdx (l.findIdx fun a => before d price (f a)) x).Pairwise
      fun a b => before d (f a) (f b) := by
  induction l with
  | nil => simp
  | cons a l ih =>
    rw [List.pairwise_cons] at hs
    rw [List.findIdx_cons]
    by_cases hb : before d price (f a)
    · simp only [hb, decide_true, cond_true, List.insertIdx_zero]
      refine List.Pairwise.cons ?_ (List.Pairwise.cons hs.1 hs.2)
      intro b hmem
      rw [hx]
      rcases List.mem_cons.mp hmem with rfl | hmem
      · exact hb
      · exact before_trans hb (hs.1 b hmem)
    -- no level has the price, so what is not behind it is ahead of it
    · have hlt : before d (f a) price :=
        (before_or_before (hno a List.mem_cons_self)).resolve_right hb
      simp only [hb, decide_false, cond_false, List.insertIdx_succ_cons]
      refine List.Pairwise.cons ?_ (ih hs.2 fun b hmem => hno b (List.mem_cons_of_mem _ hmem))
      intro b hmem
      rcases List.eq_or_mem_of_mem_insertIdx hmem with rfl | hmem
      · rw [hx]; exact hlt
      · exact hs.1 b hmem

theorem SideRep.insertPos_eq (h : SideRep pool side L) (price : ℚ) :
    side.insertPos price = L.findIdx fun g => before side.isDescending price g.1.price := by
  rw [OrderBookSide.insertPos, h.levels, List.findIdx_map]
  rfl

/-- **Opening a level.** `_insert_level` at a new price inserts an empty level and keeps the side
    sorted. -/
theorem SideRep.insertLevel (h : SideRep pool side L) {price : ℚ}
    (hno : ∀ g ∈ L, g.1.price ≠ price) :
    SideRep pool (insertLevel side price).2
      (L.insertIdx (side.insertPos price) (PriceLevel.empty price, [])) where
  levels := by
    rw [slice_insertLevel, h.levels, List.map_insertIdx]
  rep := by
    intro g hg
    rcases List.eq_or_mem_of_mem_insertIdx hg with rfl | hmem
    · exact LevelRep.nil_of_cleared pool rfl
    · exact h.rep g hmem
  sorted := by
    rw [insertLevel_isDescending, h.insertPos_eq]
    exact sorted_insertIdx rfl h.sorted hno

/-- **Removing a level.** -/
theorem SideRep.removeLevel (h : SideRep pool side L) {i : ℕ} (hi : i < L.length) :
    SideRep pool (removeLevel side i) (L.eraseIdx i) where
  levels := by
    rw [slice_removeLevel side (h.size_eq ▸ hi), h.levels, List.eraseIdx_map]
  rep := fun g hg => h.rep g (List.mem_of_mem_eraseIdx hg)
  sorted := h.sorted.sublist (List.eraseIdx_sublist L i)

theorem cells_insertIdx_nil (i : ℕ) (lvl : PriceLevel) :
    cells (L.insertIdx i (lvl, [])) = cells L := by
  induction L generalizing i with
  | nil => cases i <;> simp
  | cons g L ih =>
    cases i with
    | zero => simp
    | succ i => simp [ih]

end SpotExchange.Engine
