import SpotExchange.Exchange.RedisClient
import Mathlib.Data.List.Sort

namespace SpotExchange.Exchange

open SpotExchange.Lib
open SpotExchange.Engine (OrderId)

/-!
# What is shown of a book

* `getBookSnapshot` — the volume at each price, the best price first;
* `Redis.shownOf` — the volume that a snapshot attributes to an order;
* `volumeAt_aggregate` — the volume at a price is the sum of what its orders show.
-/

/-- The volume of an order: what it shows of an iceberg, else what is left of it. -/
def OrderHash.shownQuantity (h : OrderHash) : ℚ := (h.visibleQuantity.or h.quantity).getD 0

/-- An order without a HASH is passed over. -/
def Redis.shownOf (r : Redis) (id : OrderId) : ℚ := ((r.orderHash id).map OrderHash.shownQuantity).getD 0

/-- `levels[price] = levels.get(price, 0.0) + qty`; a new price comes last. -/
def addLevel (price qty : ℚ) : List (ℚ × ℚ) → List (ℚ × ℚ)
  | [] => [(price, qty)]
  | l :: ls => if l.1 = price then (price, l.2 + qty) :: ls else l :: addLevel price qty ls

/-- `levels` of `_aggregate`. -/
def levelsOf (r : Redis) (raw : List (ℚ × OrderId)) : List (ℚ × ℚ) :=
  raw.foldl (fun levels x =>
    match r.orderHash x.2 with
    | none => levels
    | some h => addLevel (decodeScore x.1).1 h.shownQuantity levels) []

/-- `_aggregate`. -/
def aggregate (r : Redis) (bidsRaw raw : List (ℚ × OrderId)) : List (ℚ × ℚ) :=
  if raw = bidsRaw then (levelsOf r raw).insertionSort fun a b => b.1 ≤ a.1
  else (levelsOf r raw).insertionSort fun a b => a.1 ≤ b.1

/-- The result of `get_book_snapshot`. -/
structure BookSnapshot where
  bids : List (ℚ × ℚ)
  asks : List (ℚ × ℚ)
  deriving DecidableEq, Repr

/-- **`get_book_snapshot`.** -/
def getBookSnapshot (r : Redis) (symbol : Symbol) (depth : ℕ) : BookSnapshot :=
  let bidsRaw := (r.book symbol .buy).reverse.take depth
  let asksRaw := (r.book symbol .sell).take depth
  { bids := aggregate r bidsRaw bidsRaw, asks := aggregate r bidsRaw asksRaw }

/-- The volume at a price. -/
def volumeAt (price : ℚ) (levels : List (ℚ × ℚ)) : ℚ :=
  ((levels.filter fun l => l.1 = price).map Prod.snd).sum

theorem volumeAt_cons (price : ℚ) (l : ℚ × ℚ) (ls : List (ℚ × ℚ)) :
    volumeAt price (l :: ls) = (if l.1 = price then l.2 else 0) + volumeAt price ls := by
  unfold volumeAt
  by_cases hl : l.1 = price <;> simp [hl]

theorem volumeAt_addLevel (price p qty : ℚ) (levels : List (ℚ × ℚ)) :
    volumeAt price (addLevel p qty levels) =
      volumeAt price levels + if p = price then qty else 0 := by
  induction levels with
  | nil =>
    rw [addLevel, volumeAt_cons]
    exact add_comm _ _
  | cons l ls ih =>
    rw [addLevel]
    by_cases hl : l.1 = p
    · subst hl
      rw [if_pos rfl, volumeAt_cons, volumeAt_cons]
      show (if l.1 = price then l.2 + qty else 0) + _ = _
      split_ifs <;> ring
    · rw [if_neg hl, volumeAt_cons, volumeAt_cons, ih]
      ring

/-- The volume at a price, before the levels are sorted. -/
theorem volumeAt_levelsOf (r : Redis) (price : ℚ) (raw : List (ℚ × OrderId)) :
    volumeAt price (levelsOf r raw) =
      ((raw.filter fun x => (decodeScore x.1).1 = price).map fun x => r.shownOf x.2).sum := by
  -- by induction on what is still to be added, for all levels so far
  have hfold : ∀ levels, volumeAt price (raw.foldl (fun levels x =>
      match r.orderHash x.2 with
      | none => levels
      | some h => addLevel (decodeScore x.1).1 h.shownQuantity levels) levels) = volumeAt price levels +
        ((raw.filter fun x => (decodeScore x.1).1 = price).map fun x => r.shownOf x.2).sum := by
    induction raw with
    | nil => exact fun levels => (add_zero _).symm
    | cons x raw ih =>
      intro levels
      rw [List.foldl_cons, ih, List.filter_cons]
      cases hx : r.orderHash x.2 with
      | none =>
        have hshown : r.shownOf x.2 = 0 := by simp [Redis.shownOf, hx]
        split_ifs
        · rw [List.map_cons, List.sum_cons, hshown, zero_add]
        · rfl
      | some h =>
        have hshown : r.shownOf x.2 = h.shownQuantity := by simp [Redis.shownOf, hx]
        show volumeAt price (addLevel _ h.shownQuantity levels) + _ = _
        rw [volumeAt_addLevel]
        by_cases hprice : (decodeScore x.1).1 = price
        · rw [if_pos hprice, if_pos (by simpa using hprice), List.map_cons, List.sum_cons, hshown]
          ring
        · rw [if_neg hprice, if_neg (by simpa using hprice), add_zero]
  have hall := hfold []
  rwa [show volumeAt price [] = 0 from rfl, zero_add] at hall

/-- **A level shows the sum of what its orders show.** -/
theorem volumeAt_aggregate (r : Redis) (price : ℚ) (bidsRaw raw : List (ℚ × OrderId)) :
    volumeAt price (aggregate r bidsRaw raw) =
      ((raw.filter fun x => (decodeScore x.1).1 = price).map fun x => r.shownOf x.2).sum := by
  rw [← volumeAt_levelsOf]
  unfold aggregate volumeAt
  split_ifs <;> exact (((List.perm_insertionSort _ _).filter _).map _).sum_eq

end SpotExchange.Exchange
