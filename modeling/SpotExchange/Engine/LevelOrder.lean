import SpotExchange.Engine.LevelSpec

namespace SpotExchange.Engine

open SpotExchange.Lib

/-!
# Looking up and opening a level

What `_find_level_idx` and `_insert_level` do to any strictly sorted side, whatever its levels hold.

* `OrderBookSide.probes` — the cells that the binary search reads;
* `OrderBookSide.scan` — the loop that looks for the sorted position, `scan_eq` — it ends there;
* `Opened` — an empty level has been opened, `opened_insertLevel` — at a new price `insertLevel` does so;
* `level_lookup_insertion` — the lookup and the insertion together.
-/

/-- The cells that the binary search reads, one for each iteration. -/
def OrderBookSide.probes (side : OrderBookSide) (price : ℚ) : List ℤ :=
  (loopTrace LevelSearch.running (LevelSearch.step side price) side.size
    { lo := 0, hi := side.size - 1, result := none }).map fun s => (s.lo + s.hi) / 2

/-- The first loop of `_insert_level`: `i` goes up to the first level that is worse than `price`. -/
def OrderBookSide.scan (side : OrderBookSide) (price : ℚ) : Option ℕ :=
  whileFuel (fun i => decide (i < side.size ∧ ¬ before side.isDescending price (side.levels i).price))
    (fun i => some (i + 1)) side.size 0

/-- **An empty level of a price has been opened** at an index: the other levels are those of `side` in
    their order, with their orders, and the side is strictly sorted.  The array has room for them. -/
structure Opened (side : OrderBookSide) (price : ℚ) (i : ℕ) (t : OrderBookSide) : Prop where
  index : i < t.size
  level : t.levels i = .empty price
  others : (slice t.levels t.size).eraseIdx i = slice side.levels side.size
  size : t.size = side.size + 1
  isDescending : t.isDescending = side.isDescending
  sorted : t.Sorted
  room : side.size ≤ side.capacity → 0 < side.capacity → t.size ≤ t.capacity

section

variable {side : OrderBookSide} {price : ℚ}

theorem sorted_iff_pairwise : side.Sorted ↔ (slice side.levels side.size).Pairwise
    fun l l' => before side.isDescending l.price l'.price := by
  rw [List.pairwise_iff_getElem]
  constructor
  · intro h i j hi hj hij
    rw [getElem_slice, getElem_slice]
    exact h i j hij (by simpa using hj)
  · intro h i j hij hj
    have hlt := h i j (by simpa using hij.trans hj) (by simpa using hj) hij
    rwa [getElem_slice, getElem_slice] at hlt

/-- A strictly sorted side has one level of a price. -/
theorem OrderBookSide.Sorted.unique (hs : side.Sorted) {i j : ℕ} (hi : i < side.size) (hj : j < side.size)
    (h : (side.levels i).price = (side.levels j).price) : i = j := by
  rcases Nat.lt_trichotomy i j with hij | rfl | hij
  · exact absurd (h ▸ hs i j hij hj) (before_irrefl _ _)
  · rfl
  · exact absurd (h ▸ hs j i hij hi) (before_irrefl _ _)

/-! ### Lookup -/

/-- **The search stays inside the array.** -/
theorem mem_probes (hs : side.Sorted) {mid : ℤ} (h : mid ∈ side.probes price) :
    0 ≤ mid ∧ mid < side.size := by
  obtain ⟨s, hmem, rfl⟩ := List.mem_map.mp h
  have hok : s.Ok side price := by
    refine loopTrace_inv (fun s t hok hrun hstep => ?_) (LevelSearch.ok_init side price) hmem
    obtain ⟨t', hstep', hok', -⟩ := LevelSearch.step_ok hs hok hrun
    rw [hstep] at hstep'
    exact Option.some.inj hstep' ▸ hok'
  have hrun := loopTrace_cond hmem
  simp only [LevelSearch.running, Bool.and_eq_true, decide_eq_true_eq] at hrun
  have hlo := hok.lo_nonneg
  have hhi := hok.hi_lt
  omega

/-! ### Insertion -/

/-- **The scan ends at the sorted position.** -/
theorem scan_eq (side : OrderBookSide) (price : ℚ) : side.scan price = some (side.insertPos price) := by
  let worse : PriceLevel → Bool := fun lvl => before side.isDescending price lvl.price
  have hpos : side.insertPos price = (slice side.levels side.size).findIdx worse := rfl
  -- no level in front of `i` is worse, so the first worse one is not passed
  have hstep : ∀ i, i ≤ side.insertPos price →
      decide (i < side.size ∧ ¬ before side.isDescending price (side.levels i).price) = true →
      ∃ j, some (i + 1) = some j ∧ j ≤ side.insertPos price ∧ side.size - j < side.size - i := by
    intro i hi hrun
    obtain ⟨hlt, hnot⟩ := of_decide_eq_true hrun
    refine ⟨i + 1, rfl, ?_, by omega⟩
    refine Nat.succ_le_of_lt (lt_of_le_of_ne hi fun heq => hnot ?_)
    have hin : (slice side.levels side.size).findIdx worse < (slice side.levels side.size).length := by
      rw [← hpos, ← heq]
      simpa using hlt
    have hworse := List.findIdx_getElem (w := hin)
    rw [getElem_slice, ← hpos, ← heq] at hworse
    exact of_decide_eq_true hworse
  obtain ⟨t, ht, hle, hexit⟩ := whileFuel_total (fun i => side.size - i) hstep (Nat.zero_le _)
    (n := side.size) (Nat.sub_le _ _)
  have hsize := insertPos_le side price
  rw [OrderBookSide.scan, ht, Option.some.injEq]
  refine le_antisymm hle ?_
  by_contra hlt
  rw [not_le, hpos] at hlt
  have hnot := List.not_of_lt_findIdx hlt
  rw [getElem_slice] at hnot
  exact of_decide_eq_false hexit ⟨by omega, fun hb => Bool.false_ne_true (hnot.symm.trans (decide_eq_true hb))⟩

/-- **Opening a level.** -/
theorem opened_insertLevel (hs : side.Sorted) (hno : ∀ i < side.size, (side.levels i).price ≠ price) :
    Opened side price (insertLevel side price).1 (insertLevel side price).2 := by
  have hle := insertPos_le side price
  have hlen : side.insertPos price ≤ (slice side.levels side.size).length := by simpa using hle
  have hslice := slice_insertLevel side price
  refine ⟨Nat.lt_succ_of_le hle, Function.update_self .., ?_, rfl, insertLevel_isDescending side price, ?_, ?_⟩
  · rw [hslice]
    exact List.eraseIdx_insertIdx_self ..
  · rw [sorted_iff_pairwise, hslice, insertLevel_isDescending]
    refine sorted_insertIdx (f := PriceLevel.price) rfl (sorted_iff_pairwise.mp hs) fun lvl hlvl => ?_
    obtain ⟨i, hi, rfl⟩ := List.getElem_of_mem hlvl
    rw [getElem_slice]
    exact hno i (by simpa using hi)
  · intro hcap hpos
    show side.size + 1 ≤ side.grown.capacity
    unfold OrderBookSide.grown growthFactor
    split_ifs with hfull
    · show side.size + 1 ≤ side.capacity * 2
      omega
    · omega

/-! ### Both -/

/-- **Level lookup and insertion.**  On a strictly sorted side the binary search ends and reads no cell
    outside the array; it returns the one index of the price, or that there is none, and then the
    insertion opens an empty level of the price. -/
theorem level_lookup_insertion (hs : side.Sorted) (price : ℚ) :
    (∀ mid ∈ side.probes price, 0 ≤ mid ∧ mid < side.size) ∧
    ((∃ i < side.size, (side.levels i).price = price ∧
        (∀ j < side.size, (side.levels j).price = price → j = i) ∧
        findLevelIdx side price = .ok (some i)) ∨
      (∀ i < side.size, (side.levels i).price ≠ price) ∧ findLevelIdx side price = .ok none) ∧
    (findLevelIdx side price = .ok none →
      side.scan price = some (insertLevel side price).1 ∧
        Opened side price (insertLevel side price).1 (insertLevel side price).2) := by
  refine ⟨fun mid => mem_probes hs, ?_, fun hnone => ⟨scan_eq side price, ?_⟩⟩
  · rcases findLevelIdx_of_sorted hs price with ⟨i, hi, hp, hfind⟩ | hnone
    · exact .inl ⟨i, hi, hp, fun j hj hp' => hs.unique hj hi (hp'.trans hp.symm), hfind⟩
    · exact .inr hnone
  · rcases findLevelIdx_of_sorted hs price with ⟨i, hi, hp, hfind⟩ | ⟨hno, -⟩
    · exact absurd (hfind.symm.trans hnone) (by simp)
    · exact opened_insertLevel hs hno

end

/-- Two bids, in an array that is full. -/
def twoBids : OrderBookSide where
  levels := fun i => .empty (if i = 0 then 10 else 5)
  size := 2
  capacity := 2
  isDescending := true

theorem level_lookup_insertion_twoBids :
    twoBids.Sorted ∧ findLevelIdx twoBids 7 = .ok none ∧
      (insertLevel twoBids 7).1 = 1 ∧ (insertLevel twoBids 7).2.capacity = 4 ∧
      Opened twoBids 7 (insertLevel twoBids 7).1 (insertLevel twoBids 7).2 := by
  have hsorted : twoBids.Sorted := by
    intro i j hij hj
    have hj : j < 2 := hj
    obtain ⟨rfl, rfl⟩ : i = 0 ∧ j = 1 := by omega
    decide +kernel
  have hnone : findLevelIdx twoBids 7 = .ok none := by decide +kernel
  exact ⟨hsorted, hnone, by decide +kernel, by decide +kernel,
    ((level_lookup_insertion hsorted 7).2.2 hnone).2⟩

end SpotExchange.Engine
