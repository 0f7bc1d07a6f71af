import SpotExchange.Engine.Types
import SpotExchange.Lib.While

namespace SpotExchange.Engine

open SpotExchange.Lib

/-!
# Price level management

The helpers of `engine.pyx` that keep one side of the book: `findLevelIdx` (the binary
search), `insertLevel` and `removeLevel` (the two shifting loops), `appendOrderToLevel` and
`maybeCompactLevel`.  An index `-1` is `none`, and allocations succeed.
-/

/-- Price `p` comes strictly before price `q` on a side: higher first on the descending bids,
    lower first on the ascending asks. -/
def before (isDescending : Bool) (p q : ℚ) : Prop := if isDescending then p > q else p < q

instance (d : Bool) (p q : ℚ) : Decidable (before d p q) := by
  unfold before; infer_instance

theorem before_irrefl (d : Bool) (p : ℚ) : ¬ before d p p := by
  cases d <;> simp [before]

theorem before_trans {d : Bool} {p q r : ℚ} (h₁ : before d p q) (h₂ : before d q r) :
    before d p r := by
  cases d <;> simp only [before, Bool.false_eq_true, if_true, if_false] at *
  · exact lt_trans h₁ h₂
  · exact lt_trans h₂ h₁

theorem before_asymm {d : Bool} {p q : ℚ} (h : before d p q) : ¬ before d q p :=
  fun h' => before_irrefl d p (before_trans h h')

theorem before_or_before {d : Bool} {p q : ℚ} (h : p ≠ q) : before d p q ∨ before d q p := by
  cases d <;> simp only [before, Bool.false_eq_true, if_true, if_false]
  · exact lt_or_gt_of_ne h
  · exact (lt_or_gt_of_ne h).symm

/-! ### Binary search -/

/-- The locals of `_find_level_idx`; `result` is what `return mid` returns. -/
structure LevelSearch where
  lo : ℤ
  hi : ℤ
  result : Option ℕ

/-- `while lo <= hi`. -/
def LevelSearch.running (s : LevelSearch) : Bool := s.result.isNone && decide (s.lo ≤ s.hi)

/-- The body of the search loop. -/
def LevelSearch.step (side : OrderBookSide) (price : ℚ) (s : LevelSearch) : Option LevelSearch :=
  let mid := (s.lo + s.hi) / 2
  if (side.levels mid.toNat).price = price then
    some { s with result := some mid.toNat }
  else if before side.isDescending (side.levels mid.toNat).price price then
    some { s with lo := mid + 1 }
  else
    some { s with hi := mid - 1 }

/-- `_find_level_idx`: the index of the level of `price`, `none` for `-1`.  An iteration
    shrinks the range `[lo, hi]`, so `size` iterations are enough. -/
def findLevelIdx (side : OrderBookSide) (price : ℚ) : Except EngineError (Option ℕ) :=
  match whileFuel LevelSearch.running (LevelSearch.step side price) side.size
      { lo := 0, hi := side.size - 1, result := none } with
  | some s => .ok s.result
  | none => .error .diverged

/-! ### Insertion and removal of a level -/

/-- A level at the end of its life or before its first order. -/
def PriceLevel.cleared (lvl : PriceLevel) : PriceLevel :=
  { lvl with head := none, tail := none, totalVolume := 0, orderCount := 0 }

/-- The side's levels after the growth test of `_insert_level`. -/
def OrderBookSide.grown (side : OrderBookSide) : OrderBookSide :=
  if side.size ≥ side.capacity then { side with capacity := side.capacity * growthFactor } else side

/-- The sorted position of a new level: the first index whose level is worse, else `size`. -/
def OrderBookSide.insertPos (side : OrderBookSide) (price : ℚ) : ℕ :=
  (slice side.levels side.size).findIdx fun lvl => before side.isDescending price lvl.price

/-- `_insert_level`: shift the worse levels right and open an empty level of `price`. -/
def insertLevel (side : OrderBookSide) (price : ℚ) : ℕ × OrderBookSide :=
  let i := side.insertPos price
  let lvl : PriceLevel :=
    { price := price, head := none, tail := none, totalVolume := 0, orderCount := 0 }
  (i, { side.grown with
        levels := Function.update (shiftRight i (side.size - i) side.levels) i lvl
        size := side.size + 1 })

/-- `_remove_level`: shift the levels behind `idx` left and clear the slot that falls free. -/
def removeLevel (side : OrderBookSide) (idx : ℕ) : OrderBookSide :=
  let levels := shiftLeft idx (side.size - 1 - idx) side.levels
  { side with
    levels := Function.update levels (side.size - 1) (levels (side.size - 1)).cleared
    size := side.size - 1 }

/-- `_maybe_compact_level`. -/
def maybeCompactLevel (side : OrderBookSide) (idx : ℕ) : OrderBookSide :=
  if (side.levels idx).orderCount = 0 then removeLevel side idx else side

/-! ### Appending an order -/

/-- Write the `next` pointer of a node. -/
def setNext (pool : ℕ → OrderNode) (i : ℕ) (p : Option ℕ) : ℕ → OrderNode :=
  Function.update pool i { pool i with next := p }

/-- `_append_order_to_level`: link `node` behind the tail. -/
def appendOrderToLevel (pool : ℕ → OrderNode) (lvl : PriceLevel) (node : ℕ) :
    (ℕ → OrderNode) × PriceLevel :=
  let (pool, head) := match lvl.tail with
    | none => (pool, some node)
    | some t => (setNext pool t (some node), lvl.head)
  (setNext pool node none,
   { lvl with head := head, tail := some node,
              totalVolume := lvl.totalVolume + (pool node).remainingQty,
              orderCount := lvl.orderCount + 1 })

end SpotExchange.Engine
