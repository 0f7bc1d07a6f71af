import Mathlib.Algebra.Order.Field.Basic
import Mathlib.Algebra.Order.BigOperators.Group.List
import Mathlib.Data.List.Sort
import Mathlib.Tactic.Linarith
import Mathlib.Tactic.Ring

namespace SpotExchange.Lib

/-!
# Buying from a list of offers

An offer is a price with a quantity.  Units are bought from the offers of a list in turn.

* `Offers.cost` — what they cost;
* `Offers.bound_le_cost` — a lower bound for each marginal price, whatever the order of the offers;
* `Offers.exists_cost_eq_bound` — best price first, one of the bounds is met;
* `Offers.cost_sorted_le` — so no other order is cheaper, and all sorted orders cost the same.
-/

namespace Offers

variable {K : Type*} [Field K] {xs ys : List (K × K)} {r : K}

/-- What is offered. -/
def volume (xs : List (K × K)) : K := (xs.map Prod.snd).sum

@[simp] theorem volume_cons (x : K × K) (xs : List (K × K)) : volume (x :: xs) = x.2 + volume xs := by
  simp [volume]

theorem volume_perm (h : xs.Perm ys) : volume xs = volume ys := (h.map _).sum_eq

variable [LinearOrder K]

/-- What `r` units cost that are bought from the offers in turn. -/
def cost : K → List (K × K) → K
  | _, [] => 0
  | r, x :: xs => if r ≤ 0 then 0 else x.1 * min r x.2 + cost (r - min r x.2) xs

/-- What the offers below a price ask less than it. -/
def surplus (p : K) (xs : List (K × K)) : K := (xs.map fun x => max 0 (p - x.1) * x.2).sum

/-- Best price first. -/
def Sorted (xs : List (K × K)) : Prop := xs.Pairwise fun x y => x.1 ≤ y.1

@[simp] theorem cost_nil (r : K) : cost r [] = 0 := rfl

theorem cost_nonpos {r : K} (h : r ≤ 0) (xs : List (K × K)) : cost r xs = 0 := by
  cases xs with
  | nil => rfl
  | cons x xs => rw [cost, if_pos h]

theorem cost_cons {r : K} (h : 0 < r) (x : K × K) (xs : List (K × K)) :
    cost r (x :: xs) = x.1 * min r x.2 + cost (r - min r x.2) xs := by
  rw [cost, if_neg (not_le.mpr h)]

@[simp] theorem surplus_cons (p : K) (x : K × K) (xs : List (K × K)) :
    surplus p (x :: xs) = max 0 (p - x.1) * x.2 + surplus p xs := by simp [surplus]

theorem surplus_perm (h : xs.Perm ys) (p : K) : surplus p xs = surplus p ys := (h.map _).sum_eq

variable [IsStrictOrderedRing K]

theorem volume_nonneg (hq : ∀ x ∈ xs, 0 ≤ x.2) : 0 ≤ volume xs := by
  refine List.sum_nonneg fun q hmem => ?_
  obtain ⟨x, hx, rfl⟩ := List.mem_map.mp hmem
  exact hq x hx

theorem surplus_nonneg (hq : ∀ x ∈ xs, 0 ≤ x.2) (p : K) : 0 ≤ surplus p xs := by
  refine List.sum_nonneg fun q hmem => ?_
  obtain ⟨x, hx, rfl⟩ := List.mem_map.mp hmem
  exact mul_nonneg (le_max_left _ _) (hq x hx)

/-- What is bought of an offer and of the others. -/
theorem min_volume_cons {q V : K} (hV : 0 ≤ V) : min r (q + V) = min r q + min (r - min r q) V := by
  rcases le_total r q with h | h
  · rw [min_eq_left h, sub_self, min_eq_left hV, add_zero, min_eq_left (by linarith)]
  · rw [min_eq_right h, ← min_add_add_left, add_sub_cancel]

/-- **A lower bound**, for each price `p`. -/
theorem bound_le_cost (hq : ∀ x ∈ xs, 0 ≤ x.2) (hr : 0 ≤ r) (p : K) :
    p * min r (volume xs) - surplus p xs ≤ cost r xs := by
  induction xs generalizing r with
  | nil => simp [volume, surplus, hr]
  | cons x xs ih =>
    rw [List.forall_mem_cons] at hq
    rcases hr.eq_or_lt with rfl | hpos
    · have hall : ∀ y ∈ x :: xs, 0 ≤ y.2 := List.forall_mem_cons.mpr hq
      rw [cost_nonpos le_rfl, min_eq_left (volume_nonneg hall), mul_zero, zero_sub, neg_nonpos]
      exact surplus_nonneg hall p
    · have hrest := ih hq.2 (sub_nonneg.mpr (min_le_left r x.2))
      -- what this offer asks less than `p` is at most its surplus
      have hone : (p - x.1) * min r x.2 ≤ max 0 (p - x.1) * x.2 :=
        (mul_le_mul_of_nonneg_right (le_max_right _ _) (le_min hr hq.1)).trans
          (mul_le_mul_of_nonneg_left (min_le_right _ _) (le_max_left _ _))
      rw [cost_cons hpos, volume_cons, surplus_cons, min_volume_cons (volume_nonneg hq.2)]
      linarith

/-- **Best price first**, the bound is met at the price of the last unit. -/
theorem exists_cost_eq_bound (hq : ∀ x ∈ xs, 0 ≤ x.2) (hs : Sorted xs) (hr : 0 ≤ r) {l : K}
    (hl : ∀ x ∈ xs, l ≤ x.1) : ∃ p, l ≤ p ∧ cost r xs = p * min r (volume xs) - surplus p xs := by
  induction xs generalizing r l with
  | nil => exact ⟨l, le_rfl, by simp [volume, surplus, hr]⟩
  | cons x xs ih =>
    rw [List.forall_mem_cons] at hq hl
    obtain ⟨hfirst, hrest⟩ := List.pairwise_cons.mp hs
    have hV := volume_nonneg hq.2
    rcases le_or_gt r x.2 with hle | hlt
    · -- the first offer is enough, and the others are no cheaper
      have hzero : surplus x.1 (x :: xs) = 0 := by
        have hall : ∀ ys : List (K × K), (∀ y ∈ ys, x.1 ≤ y.1) → surplus x.1 ys = 0 := by
          intro ys hys
          refine List.sum_eq_zero fun q hmem => ?_
          obtain ⟨y, hy, rfl⟩ := List.mem_map.mp hmem
          rw [max_eq_left (sub_nonpos.mpr (hys y hy)), zero_mul]
        exact hall _ (List.forall_mem_cons.mpr ⟨le_rfl, hfirst⟩)
      refine ⟨x.1, hl.1, ?_⟩
      rw [hzero, sub_zero, volume_cons, min_eq_left (hle.trans (le_add_of_nonneg_right hV))]
      rcases hr.eq_or_lt with rfl | hpos
      · rw [cost_nonpos le_rfl, mul_zero]
      · rw [cost_cons hpos, min_eq_left hle, sub_self, cost_nonpos le_rfl, add_zero]
    · obtain ⟨p, hp, hcost⟩ := ih hq.2 hrest (sub_nonneg.mpr hlt.le) hfirst
      refine ⟨p, hl.1.trans hp, ?_⟩
      rw [cost_cons (hq.1.trans_lt hlt), min_eq_right hlt.le, hcost, volume_cons, surplus_cons,
        max_eq_right (sub_nonneg.mpr hp), min_volume_cons hV, min_eq_right hlt.le]
      ring

/-- **No order is cheaper than best price first.** -/
theorem cost_sorted_le (hq : ∀ x ∈ xs, 0 ≤ x.2) (hs : Sorted xs) (h : xs.Perm ys) (r : K) :
    cost r xs ≤ cost r ys := by
  rcases le_total r 0 with hr | hr
  · rw [cost_nonpos hr, cost_nonpos hr]
  cases xs with
  | nil => rw [List.nil_perm.mp h]
  | cons x xs =>
    have hl : ∀ y ∈ x :: xs, x.1 ≤ y.1 :=
      List.forall_mem_cons.mpr ⟨le_rfl, (List.pairwise_cons.mp hs).1⟩
    obtain ⟨p, -, hcost⟩ := exists_cost_eq_bound hq hs hr hl
    rw [hcost, volume_perm h, surplus_perm h]
    exact bound_le_cost (fun y hy => hq y (h.mem_iff.mpr hy)) hr p

/-- Sorted lists of the same offers cost the same. -/
theorem cost_sorted_eq (hq : ∀ x ∈ xs, 0 ≤ x.2) (hs : Sorted xs) (hs' : Sorted ys) (h : xs.Perm ys)
    (r : K) : cost r xs = cost r ys :=
  le_antisymm (cost_sorted_le hq hs h r)
    (cost_sorted_le (fun y hy => hq y (h.mem_iff.mpr hy)) hs' h.symm r)

end Offers

end SpotExchange.Lib
