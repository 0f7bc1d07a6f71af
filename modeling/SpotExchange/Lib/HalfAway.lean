import Mathlib.Algebra.Order.Floor.Ring
import Mathlib.Data.Rat.Floor
import Mathlib.Tactic.Linarith

namespace SpotExchange.Lib

/-!
# Rounding to whole numbers

* `truncate` — the fraction is dropped, which keeps the order;
* `roundAway` — to the nearest whole number, halves away from zero;
* `roundAway_move` — an amount moved from one whole number to another, both rounded on their own: their
  sum is kept unless the amount lies halfway.
-/

/-- To the nearest whole number, halves away from zero. -/
def roundAway (x : ℚ) : ℤ := if 0 ≤ x then ⌊x + 1 / 2⌋ else -⌊-x + 1 / 2⌋

/-- The whole part of a number: its fraction is dropped. -/
def truncate (x : ℚ) : ℤ := if 0 ≤ x then ⌊x⌋ else ⌈x⌉

/-- Halfway between two whole numbers. -/
def Halfway (x : ℚ) : Prop := Int.fract x = 1 / 2

instance (x : ℚ) : Decidable (Halfway x) := inferInstanceAs (Decidable (Int.fract x = 1 / 2))

section

variable {x : ℚ} {a b : ℤ}

@[simp] theorem roundAway_intCast (a : ℤ) : roundAway a = a := by
  have hhalf : ∀ b : ℤ, ⌊(b : ℚ) + 1 / 2⌋ = b := by
    intro b
    rw [Int.floor_eq_iff]
    constructor <;> linarith
  unfold roundAway
  split_ifs
  · exact hhalf a
  · rw [← Int.cast_neg, hhalf, neg_neg]

@[simp] theorem halfway_intCast (a : ℤ) : ¬ Halfway a := by
  unfold Halfway
  rw [Int.fract_intCast]
  norm_num

/-- Above zero, whole numbers pass through. -/
theorem roundAway_add (h : 0 ≤ a + x) : roundAway (a + x) = a + ⌊x + 1 / 2⌋ := by
  rw [roundAway, if_pos h, add_assoc, Int.floor_intCast_add]

/-- What is added on one side and taken on the other. -/
theorem floor_add_floor_neg (n : ℤ) {f : ℚ} (hlow : 0 ≤ f) (hhigh : f < 1) :
    ⌊(n : ℚ) + f + 1 / 2⌋ + ⌊-((n : ℚ) + f) + 1 / 2⌋ = if f = 1 / 2 then 1 else 0 := by
  rcases lt_trichotomy f (1 / 2) with hlt | rfl | hgt
  · have hup : ⌊(n : ℚ) + f + 1 / 2⌋ = n := Int.floor_eq_iff.mpr ⟨by linarith, by linarith⟩
    have hdown : ⌊-((n : ℚ) + f) + 1 / 2⌋ = -n :=
      Int.floor_eq_iff.mpr ⟨by push_cast; linarith, by push_cast; linarith⟩
    rw [hup, hdown, if_neg hlt.ne, add_neg_cancel]
  · have hup : ⌊(n : ℚ) + 1 / 2 + 1 / 2⌋ = n + 1 :=
      Int.floor_eq_iff.mpr ⟨by push_cast; linarith, by push_cast; linarith⟩
    have hdown : ⌊-((n : ℚ) + 1 / 2) + 1 / 2⌋ = -n :=
      Int.floor_eq_iff.mpr ⟨by push_cast; linarith, by push_cast; linarith⟩
    rw [hup, hdown, if_pos rfl]
    omega
  · have hup : ⌊(n : ℚ) + f + 1 / 2⌋ = n + 1 :=
      Int.floor_eq_iff.mpr ⟨by push_cast; linarith, by push_cast; linarith⟩
    have hdown : ⌊-((n : ℚ) + f) + 1 / 2⌋ = -n - 1 :=
      Int.floor_eq_iff.mpr ⟨by push_cast; linarith, by push_cast; linarith⟩
    rw [hup, hdown, if_neg hgt.ne']
    omega

/-- **An amount moved between two rounded numbers**, neither of which becomes negative. -/
theorem roundAway_move (ha : 0 ≤ a + x) (hb : 0 ≤ b - x) :
    roundAway (a + x) + roundAway (b - x) = a + b + if Halfway x then 1 else 0 := by
  rw [sub_eq_add_neg] at hb ⊢
  have hfloors := floor_add_floor_neg ⌊x⌋ (Int.fract_nonneg x) (Int.fract_lt_one x)
  rw [Int.floor_add_fract] at hfloors
  rw [roundAway_add ha, roundAway_add hb]
  show _ = a + b + if Int.fract x = 1 / 2 then 1 else 0
  omega

/-! ### Dropping the fraction -/

theorem truncate_of_nonneg (h : 0 ≤ x) : truncate x = ⌊x⌋ := if_pos h

theorem lt_truncate_add_one (x : ℚ) : x < truncate x + 1 := by
  unfold truncate
  split_ifs
  · exact Int.lt_floor_add_one x
  · exact (Int.le_ceil x).trans_lt (lt_add_one _)

theorem truncate_mono {y : ℚ} (h : x ≤ y) : truncate x ≤ truncate y := by
  unfold truncate
  split_ifs with hx hy hy
  · exact Int.floor_le_floor h
  · exact absurd (hx.trans h) hy
  · -- a negative number is cut to zero at most
    have hceil : ⌈x⌉ ≤ 0 := Int.ceil_le.mpr (by push_cast; linarith)
    exact hceil.trans (Int.floor_nonneg.mpr hy)
  · exact Int.ceil_le_ceil h

end

end SpotExchange.Lib
