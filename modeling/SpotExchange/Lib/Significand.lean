import Mathlib.Data.Nat.Log
import Mathlib.Tactic.Ring

namespace SpotExchange.Lib

/-!
# Rounding to a number of significant bits

A binary floating-point number with a significand of `p` bits is a whole number below `2 ^ p`, scaled by
a power of two.  Whole numbers are rounded to the nearest one, ties to the even significand.

* `roundTo u n` — the nearest multiple of `u`;
* `roundBits p n` — rounding to `p` significant bits;
* `roundBits_eq_self_iff` — what has that many bits is kept, and nothing else;
* `roundBits_mono` — rounding does not change the order.
-/

/-- The multiple of `u` that is nearest to `n`; of two, the even one. -/
def roundTo (u n : ℕ) : ℕ :=
  (if 2 * (n % u) < u then n / u
    else if u < 2 * (n % u) then n / u + 1
    else n / u + n / u % 2) * u

/-- The unit in the last of `p` significant bits of `n`. -/
def lastBit (p n : ℕ) : ℕ := 2 ^ (n.log2 + 1 - p)

/-- `n` rounded to `p` significant bits. -/
def roundBits (p n : ℕ) : ℕ := roundTo (lastBit p n) n

/-- `n` has at most `p` significant bits. -/
def HasBits (p n : ℕ) : Prop := ∃ m e, m < 2 ^ p ∧ n = m * 2 ^ e

section

variable {p u n m k : ℕ}

/-! ### Multiples -/

theorem dvd_roundTo : u ∣ roundTo u n := Dvd.intro_left _ rfl

theorem roundTo_of_dvd (hu : 0 < u) (h : u ∣ n) : roundTo u n = n := by
  have hmod : n % u = 0 := Nat.mod_eq_zero_of_dvd h
  unfold roundTo
  rw [hmod, if_pos (by omega)]
  exact Nat.div_mul_cancel h

/-- The quotient is rounded down or up. -/
theorem roundTo_bounds : n / u * u ≤ roundTo u n ∧ roundTo u n ≤ (n / u + 1) * u := by
  unfold roundTo
  constructor <;> apply Nat.mul_le_mul_right <;> split_ifs <;> omega

theorem roundTo_mono (h : n ≤ m) : roundTo u n ≤ roundTo u m := by
  rcases (Nat.div_le_div_right h : n / u ≤ m / u).lt_or_eq with hlt | heq
  · calc roundTo u n ≤ (n / u + 1) * u := roundTo_bounds.2
      _ ≤ m / u * u := Nat.mul_le_mul_right u hlt
      _ ≤ roundTo u m := roundTo_bounds.1
  · -- the same quotient: the remainders compare
    have hmod : n % u ≤ m % u := by
      have hn := Nat.div_add_mod n u
      have hm := Nat.div_add_mod m u
      rw [heq] at hn
      omega
    unfold roundTo
    rw [heq]
    apply Nat.mul_le_mul_right
    split_ifs <;> omega

/-! ### Significant bits -/

theorem lastBit_pos : 0 < lastBit p n := Nat.two_pow_pos _

theorem lt_lastBit : n < 2 ^ p * lastBit p n := by
  calc n < 2 ^ (n.log2 + 1) := Nat.lt_log2_self
    _ ≤ 2 ^ (p + (n.log2 + 1 - p)) := Nat.pow_le_pow_right (by decide) (by omega)
    _ = 2 ^ p * lastBit p n := pow_add _ _ _

theorem hasBits_iff : HasBits p n ↔ lastBit p n ∣ n := by
  constructor
  · rintro ⟨m, e, hm, rfl⟩
    by_cases hzero : m * 2 ^ e = 0
    · rw [hzero]
      exact dvd_zero _
    have hlt : m * 2 ^ e < 2 ^ (p + e) := by
      rw [pow_add]
      exact Nat.mul_lt_mul_of_pos_right hm (Nat.two_pow_pos e)
    have hlog : (m * 2 ^ e).log2 < p + e := (Nat.log2_lt hzero).mpr hlt
    exact (pow_dvd_pow 2 (by omega)).trans (Dvd.intro_left m rfl)
  · rintro ⟨m, hm⟩
    refine ⟨m, n.log2 + 1 - p, ?_, hm.trans (mul_comm _ _)⟩
    have hlt : lastBit p n * m < lastBit p n * 2 ^ p :=
      hm ▸ (lt_lastBit (p := p) (n := n)).trans_eq (mul_comm _ _)
    exact Nat.lt_of_mul_lt_mul_left hlt

/-- **What has `p` significant bits** is kept by rounding, and nothing else. -/
theorem roundBits_eq_self_iff : roundBits p n = n ↔ HasBits p n := by
  rw [hasBits_iff]
  constructor
  · intro h
    have hdvd : lastBit p n ∣ roundBits p n := dvd_roundTo
    rwa [h] at hdvd
  · exact roundTo_of_dvd lastBit_pos

theorem hasBits_of_lt (h : n < 2 ^ p) : HasBits p n := ⟨n, 0, h, by simp⟩

/-- **Rounding does not change the order.** -/
theorem roundBits_mono (hp : 0 < p) (h : n ≤ m) : roundBits p n ≤ roundBits p m := by
  have hlog : n.log2 ≤ m.log2 := by
    rw [Nat.log2_eq_log_two, Nat.log2_eq_log_two]
    exact Nat.log_mono_right h
  rcases hlog.lt_or_eq with hlt | heq
  swap
  · unfold roundBits lastBit
    rw [heq]
    exact roundTo_mono h
  -- a power of two lies between them, and is kept
  have hne : m ≠ 0 := by
    rintro rfl
    simp at hlt
  have hbelow : lastBit p n ∣ 2 ^ m.log2 := pow_dvd_pow 2 (by omega)
  have habove : lastBit p m ∣ 2 ^ m.log2 := pow_dvd_pow 2 (by omega)
  have hn : n ≤ 2 ^ m.log2 := Nat.lt_log2_self.le.trans (Nat.pow_le_pow_right (by decide) hlt)
  calc roundBits p n ≤ roundTo (lastBit p n) (2 ^ m.log2) := roundTo_mono hn
    _ = 2 ^ m.log2 := roundTo_of_dvd lastBit_pos hbelow
    _ = roundTo (lastBit p m) (2 ^ m.log2) := (roundTo_of_dvd lastBit_pos habove).symm
    _ ≤ roundBits p m := roundTo_mono (Nat.log2_self_le hne)

end

end SpotExchange.Lib
