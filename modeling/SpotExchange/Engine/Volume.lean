import SpotExchange.Engine.Amounts
import SpotExchange.Engine.Overflow

namespace SpotExchange.Engine

open SpotExchange.Lib

/-!
# The book as an observer reads it, and the room a match needs

* `bookOrders` — the orders of a side, read off the engine's memory by following its pointers;
* `Resting.chunks` — the fills that an order takes when a taker uses it up;
* `FillsFit` — the trade buffer has room for a match, in terms of the book before it;
* `fillsFit_iff` — this is what the run itself needs.
-/

variable {c : COrder} {e : CMatchingEngine} {G : Ghost}

/-! ### Reading the book -/

/-- The orders resting on a side with their prices: level after level, each from its head. -/
def bookOrders (e : CMatchingEngine) (s : CSide) : List Placed :=
  (slice (e.bookSide s).levels (e.bookSide s).size).flatMap fun lvl =>
    (nodesFrom e.nodePool lvl.orderCount.toNat lvl.head).map fun i =>
      (lvl.price, (e.nodePool i).resting)

/-- The orders that an observer reads are those that the engine represents. -/
theorem EngineShape.bookOrders_eq (h : EngineShape e G) (s : CSide) :
    bookOrders e s = flat (view e G s) := by
  rw [bookOrders, (h.side s).levels, view, viewSide, flat, List.flatMap_map, List.flatMap_map]
  refine List.flatMap_congr fun g hg => ?_
  have hrep := (h.side s).rep g hg
  have hcount : g.1.orderCount.toNat = g.2.length := by rw [hrep.count, Int.toNat_natCast]
  rw [hcount, nodesFrom_of_chain hrep.chain]
  simp only [viewLevel, List.map_map]
  rfl

theorem EngineShape.flat_sound (h : EngineShape e G) (s : CSide) :
    ∀ x ∈ flat (view e G s), x.2.Sound := by
  intro x hx
  obtain ⟨l, hl, -, hx⟩ := mem_flat.mp hx
  exact h.orders_sound s l hl x.2 hx

/-! ### The fills that a taker needs -/

/-- The fills that use an order up: what shows, then what was hidden. -/
def Resting.chunks (o : Resting) : List ℚ :=
  if o.isIceberg ∧ o.visibleQty < o.remainingQty then
    [o.visibleQty, o.remainingQty - o.visibleQty]
  else [o.remainingQty]

/-- The chunks of the orders within the taker's limit, best first. -/
def chunksWithin (c : COrder) (xs : List Placed) : List ℚ :=
  (xs.filter fun x => c.outOfLimit x.1 = false).flatMap fun x => x.2.chunks

/-- How many chunks it takes to fill `r`. -/
def chunksFor : ℚ → List ℚ → ℕ
  | _, [] => 0
  | r, q :: qs => if r ≤ 0 then 0 else chunksFor (r - q) qs + 1

theorem chunksFor_nonpos {r : ℚ} (h : r ≤ 0) (qs : List ℚ) : chunksFor r qs = 0 := by
  cases qs with
  | nil => rfl
  | cons q qs => rw [chunksFor, if_pos h]

/-- At most `n` chunks: some number of them up to `n` is all there are, or fills `r`. -/
theorem chunksFor_le_iff (r : ℚ) (qs : List ℚ) (n : ℕ) :
    chunksFor r qs ≤ n ↔ ∃ k ≤ n, k = qs.length ∨ r ≤ (qs.take k).sum := by
  induction qs generalizing r n with
  | nil => exact iff_of_true (Nat.zero_le n) ⟨0, Nat.zero_le n, .inl rfl⟩
  | cons q qs ih =>
    rcases le_or_gt r 0 with hr | hr
    · rw [chunksFor_nonpos hr]
      exact iff_of_true (Nat.zero_le n) ⟨0, Nat.zero_le n, .inr (by simpa using hr)⟩
    rw [chunksFor, if_neg (not_le.mpr hr)]
    cases n with
    | zero =>
      refine iff_of_false (by simp) ?_
      rintro ⟨k, hk, h⟩
      obtain rfl : k = 0 := Nat.le_zero.mp hk
      rcases h with h | h
      · simp at h
      · exact absurd h (by simpa using hr)
    | succ n =>
      rw [Nat.add_le_add_iff_right, ih]
      constructor
      · rintro ⟨k, hk, h⟩
        refine ⟨k + 1, Nat.succ_le_succ hk, h.imp (fun h => by rw [h]; rfl) fun h => ?_⟩
        rw [List.take_succ_cons, List.sum_cons]
        linarith
      · rintro ⟨k, hk, h⟩
        cases k with
        | zero =>
          rcases h with h | h
          · simp at h
          · exact absurd h (by simpa using hr)
        | succ k =>
          refine ⟨k, Nat.le_of_succ_le_succ hk, h.imp (fun h => Nat.succ.inj h) fun h => ?_⟩
          rw [List.take_succ_cons, List.sum_cons] at h
          linarith

theorem fillPlain_length (o : Resting) (r : ℚ) : (fillPlain o r).fills.length = 1 := by
  unfold fillPlain
  split_ifs <;> rfl

/-- The fills with one maker, and the chunks for what they leave. -/
theorem chunksFor_maker (o : Resting) {r : ℚ} (hr : 0 < r) (qs : List ℚ) :
    chunksFor r (o.chunks ++ qs) =
      (fillMaker o r).fills.length + chunksFor (r - min r o.remainingQty) qs := by
  have hplain : ∀ (o : Resting) (r : ℚ), 0 < r → chunksFor r (o.remainingQty :: qs) =
      (fillPlain o r).fills.length + chunksFor (r - min r o.remainingQty) qs := by
    intro o r hr
    rw [chunksFor, if_neg (not_le.mpr hr), fillPlain_length, Nat.add_comm]
    rcases le_total r o.remainingQty with hle | hle
    · rw [min_eq_left hle, chunksFor_nonpos (by linarith), chunksFor_nonpos (sub_self r).le]
    · rw [min_eq_right hle]
  unfold Resting.chunks fillMaker
  split_ifs with hice h1 h2
  · have hle : r ≤ o.remainingQty := (h1.trans hice.2).le
    rw [List.cons_append, chunksFor, if_neg (not_le.mpr hr), chunksFor_nonpos (by linarith),
      min_eq_left hle, chunksFor_nonpos (sub_self r).le]
    rfl
  · have hle : r ≤ o.remainingQty := (h2.trans_lt hice.2).le
    rw [List.cons_append, chunksFor, if_neg (not_le.mpr hr), chunksFor_nonpos (by linarith),
      min_eq_left hle, chunksFor_nonpos (sub_self r).le]
    rfl
  · have hlt : 0 < r - o.visibleQty := sub_pos.mpr (lt_of_le_of_ne (not_lt.mp h1) (Ne.symm h2))
    have hmin : r - o.visibleQty - min (r - o.visibleQty) o.refill.remainingQty =
        r - min r o.remainingQty := by
      simp only [Resting.refill]
      rw [min_sub_sub_right]
      ring
    have h := hplain o.refill (r - o.visibleQty) hlt
    rw [hmin] at h
    rw [List.cons_append, List.singleton_append, chunksFor, if_neg (not_le.mpr hr)]
    show chunksFor (r - o.visibleQty) (o.refill.remainingQty :: qs) + 1 = _
    rw [h, List.length_cons]
    omega
  · exact hplain o r hr

/-- **The fills of a walk** are the chunks that it takes to fill the taker. -/
theorem walkFlat_length {xs : List Placed} (hs : PriceSorted c.side.opp.descending xs) (r : ℚ) :
    (walkFlat c r xs).trades.length = chunksFor r (chunksWithin c xs) := by
  induction xs generalizing r with
  | nil => rfl
  | cons x xs ih =>
    rw [PriceSorted, List.pairwise_cons] at hs
    rcases le_or_gt r 0 with hr | hr
    · rw [walkFlat_nonpos c hr, chunksFor_nonpos hr]
      rfl
    by_cases hout : c.outOfLimit x.1 = true
    · -- everything behind is out of the limit, too
      have hall : chunksWithin c (x :: xs) = [] := by
        rw [chunksWithin, List.filter_eq_nil_iff.mpr]
        · rfl
        · intro y hy
          rcases List.mem_cons.mp hy with rfl | hy
          · simp [hout]
          · simp [outOfLimit_mono hout (hs.1 y hy)]
      rw [(walkFlat_stop xs (.inr hout)).1, hall]
      rfl
    · have hcons : chunksWithin c (x :: xs) = x.2.chunks ++ chunksWithin c xs := by
        rw [chunksWithin, List.filter_cons_of_pos (by simpa using hout)]
        rfl
      rw [(walkFlat_cons xs hr hout).1, List.length_append, List.length_map, hcons,
        chunksFor_maker x.2 hr, ih hs.2]

/-- **The trade buffer has room for the match**: there is nothing to match, or a number of chunks
    that fits the buffer fills the taker, or is all there is within its limit. -/
def FillsFit (e : CMatchingEngine) (c : COrder) : Prop :=
  c.type = .postOnly ∨ c.type = .fok ∧ precheckFok e c = false ∨
    ∃ k ≤ e.tradesCap, k = (chunksWithin c (bookOrders e c.side.opp)).length ∨
      c.remainingQty ≤ ((chunksWithin c (bookOrders e c.side.opp)).take k).sum

/-- The condition on the book is the one on the run. -/
theorem fillsFit_iff (h : EngineShape e G) (c : COrder) :
    FillsFit e c ↔ fillsNeeded e c ≤ e.tradesCap := by
  rw [fillsNeeded_eq h, FillsFit, precheckFok_eq h, h.bookOrders_eq, matchLevels]
  by_cases hpost : c.type = .postOnly
  · rw [if_pos hpost]
    exact iff_of_true (.inl hpost) (Nat.zero_le _)
  rw [if_neg hpost]
  by_cases hrej : c.type = .fok ∧ coversWithin c 0 (view e G c.side.opp) = false
  · rw [if_pos hrej]
    exact iff_of_true (.inr (.inl hrej)) (Nat.zero_le _)
  rw [if_neg hrej, or_iff_right hpost, or_iff_right hrej, ← chunksFor_le_iff,
    ← walkFlat_length (flat_sorted (h.view_sorted _)), walkSide_flat c _ (h.view_nonempty _)]

end SpotExchange.Engine
