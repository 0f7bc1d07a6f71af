import SpotExchange.Exchange.Scores
import SpotExchange.Lib.Significand
import Mathlib.Data.Prod.Lex

namespace SpotExchange.Exchange

open SpotExchange.Lib

/-!
# Scores as doubles

`encode_score` packs a price in ticks and a sequence number into one whole number, and `float` rounds it
to the 53 significant bits of a double.

* `encodeFloatScore` — `encode_score` with that rounding;
* `FitsDouble` — the packed number has no more bits than a double keeps;
* `floatScore_mono` — the order of prices and sequence numbers is never inverted;
* `floatScore_faithful_iff` — two scores decode to what was encoded, and compare strictly, exactly when
  both packed numbers fit.
-/

/-- `float` of a whole number: the nearest one with a significand of 53 bits, ties to even. -/
def float (n : ℤ) : ℤ := n.sign * roundBits 53 n.natAbs

/-- `encode_score`, with the rounding of its result. -/
def encodeFloatScore (price : ℚ) (seq : ℕ) : Except PyError ℚ :=
  if price < 0 then .error (.scorePriceNegative price)
  else if price > 9200000000 then .error (.scorePriceTooLarge price)
  else if ¬ seq < scoreMultiplier then .error (.scoreSeqOutOfRange seq)
  else .ok (float (roundHalfEven (price * priceScale) * scoreMultiplier + seq))

/-- **Price and sequence number** fit together into the 53 bits of a double. -/
def FitsDouble (price : ℚ) (seq : ℕ) : Prop :=
  ∃ m e : ℕ, m < 2 ^ 53 ∧ price * priceScale * scoreMultiplier + seq = m * 2 ^ e

section

variable {price price' score score' : ℚ} {seq seq' t t' : ℕ}

/-! ### Encoding -/

theorem float_natCast (n : ℕ) : float n = roundBits 53 n := by
  unfold float
  rcases Nat.eq_zero_or_pos n with rfl | hpos
  · rfl
  · rw [Int.sign_eq_one_of_pos (by exact_mod_cast hpos), one_mul, Int.natAbs_natCast]

/-- **What is encoded**: a whole number of ticks and a sequence number. -/
theorem encodeFloatScore_eq_ok (hgrid : ∃ k : ℤ, price * priceScale = k)
    (h : encodeFloatScore price seq = .ok score) :
    ∃ t : ℕ, price * priceScale = t ∧ seq < scoreMultiplier ∧
      score = roundBits 53 (t * scoreMultiplier + seq) := by
  obtain ⟨k, hk⟩ := hgrid
  unfold encodeFloatScore at h
  split_ifs at h with hneg hbig hseq
  have hk0 : 0 ≤ k := by
    have : (0 : ℚ) ≤ k := hk ▸ mul_nonneg (not_lt.mp hneg) (Nat.cast_nonneg _)
    exact_mod_cast this
  obtain ⟨t, rfl⟩ := Int.eq_ofNat_of_zero_le hk0
  refine ⟨t, by exact_mod_cast hk, hseq, ?_⟩
  have hround : roundHalfEven (price * priceScale) = t := tick_of_multiple hk
  have hpacked : (t * scoreMultiplier + seq : ℤ) = ((t * scoreMultiplier + seq : ℕ) : ℤ) := by push_cast; rfl
  rw [← Except.ok.inj h, hround, hpacked, float_natCast]
  rfl

/-- Decoding a whole number. -/
theorem decodeScore_natCast (n : ℕ) :
    decodeScore n = (((n / scoreMultiplier : ℕ) : ℚ) / priceScale, ((n % scoreMultiplier : ℕ) : ℤ)) := by
  have hint : (n : ℚ) = ((n : ℤ) : ℚ) := (Int.cast_natCast n).symm
  rw [decodeScore, hint, roundHalfEven_intCast]
  have hmod : (n : ℤ) - n / scoreMultiplier * scoreMultiplier = ((n % scoreMultiplier : ℕ) : ℤ) := by
    have hdiv := Int.mul_ediv_add_emod n scoreMultiplier
    rw [mul_comm] at hdiv
    push_cast
    linarith
  refine Prod.ext ?_ hmod
  show (((n : ℤ) / (scoreMultiplier : ℤ) : ℤ) : ℚ) / priceScale = ((n / scoreMultiplier : ℕ) : ℚ) / priceScale
  rw [← Int.natCast_div, Int.cast_natCast]

/-! ### One score -/

theorem fitsDouble_iff (hprice : price * priceScale = t) :
    FitsDouble price seq ↔ HasBits 53 (t * scoreMultiplier + seq) := by
  unfold FitsDouble HasBits
  rw [hprice]
  norm_cast

/-- **A score decodes to what was encoded** exactly when the packed number is kept. -/
theorem decode_iff (hprice : price * priceScale = t) (hseq : seq < scoreMultiplier) :
    decodeScore (roundBits 53 (t * scoreMultiplier + seq) : ℕ) = (price, (seq : ℤ)) ↔
      FitsDouble price seq := by
  have hscale : (priceScale : ℚ) ≠ 0 := by norm_num [priceScale]
  have hpos : 0 < scoreMultiplier := by norm_num [scoreMultiplier]
  rw [fitsDouble_iff hprice, ← roundBits_eq_self_iff, decodeScore_natCast]
  generalize roundBits 53 (t * scoreMultiplier + seq) = n
  constructor
  · intro h
    obtain ⟨hfst, hsnd⟩ := Prod.mk.inj h
    have ht : n / scoreMultiplier = t := by
      have hcast : ((n / scoreMultiplier : ℕ) : ℚ) = t := hprice ▸ (div_eq_iff hscale).mp hfst
      exact_mod_cast hcast
    have hmod : n % scoreMultiplier = seq := by exact_mod_cast hsnd
    rw [← Nat.div_add_mod n scoreMultiplier, ht, hmod, mul_comm]
  · rintro rfl
    have hdiv : (t * scoreMultiplier + seq) / scoreMultiplier = t := by
      rw [mul_comm, Nat.mul_add_div hpos, Nat.div_eq_of_lt hseq, add_zero]
    have hmod : (t * scoreMultiplier + seq) % scoreMultiplier = seq := by
      rw [mul_comm, Nat.mul_add_mod, Nat.mod_eq_of_lt hseq]
    rw [hdiv, hmod, ← hprice, mul_div_assoc, div_self hscale, mul_one]

/-! ### Two scores -/

/-- The lexicographic order is the order of the packed numbers. -/
theorem packed_lt_iff (hprice : price * priceScale = t) (hprice' : price' * priceScale = t')
    (hseq : seq < scoreMultiplier) (hseq' : seq' < scoreMultiplier) :
    toLex (price, seq) < toLex (price', seq') ↔
      t * scoreMultiplier + seq < t' * scoreMultiplier + seq' := by
  have hscale : (0 : ℚ) < priceScale := by norm_num [priceScale]
  have hlt : price < price' ↔ t < t' := by
    rw [← mul_lt_mul_iff_left₀ hscale, hprice, hprice', Nat.cast_lt]
  have heq : price = price' ↔ t = t' := by
    rw [← mul_left_inj' hscale.ne', hprice, hprice', Nat.cast_inj]
  rw [Prod.Lex.toLex_lt_toLex, hlt, heq]
  simp only [scoreMultiplier] at hseq hseq' ⊢
  omega

/-- **The order is never inverted**, whatever is lost. -/
theorem floatScore_mono (hgrid : ∃ k : ℤ, price * priceScale = k)
    (hgrid' : ∃ k : ℤ, price' * priceScale = k) (h : encodeFloatScore price seq = .ok score)
    (h' : encodeFloatScore price' seq' = .ok score') (hlt : toLex (price, seq) < toLex (price', seq')) :
    score ≤ score' := by
  obtain ⟨t, hprice, hseq, rfl⟩ := encodeFloatScore_eq_ok hgrid h
  obtain ⟨t', hprice', hseq', rfl⟩ := encodeFloatScore_eq_ok hgrid' h'
  exact_mod_cast roundBits_mono (by norm_num) ((packed_lt_iff hprice hprice' hseq hseq').mp hlt).le

/-- **Two scores are faithful** exactly when both packed numbers fit into a double. -/
theorem floatScore_faithful_iff (hgrid : ∃ k : ℤ, price * priceScale = k)
    (hgrid' : ∃ k : ℤ, price' * priceScale = k) (h : encodeFloatScore price seq = .ok score)
    (h' : encodeFloatScore price' seq' = .ok score') :
    (decodeScore score = (price, (seq : ℤ)) ∧ decodeScore score' = (price', (seq' : ℤ)) ∧
      (score < score' ↔ toLex (price, seq) < toLex (price', seq')) ∧
      (score = score' ↔ (price, seq) = (price', seq'))) ↔
    FitsDouble price seq ∧ FitsDouble price' seq' := by
  obtain ⟨t, hprice, hseq, rfl⟩ := encodeFloatScore_eq_ok hgrid h
  obtain ⟨t', hprice', hseq', rfl⟩ := encodeFloatScore_eq_ok hgrid' h'
  rw [decode_iff hprice hseq, decode_iff hprice' hseq', ← and_assoc, and_iff_left_iff_imp]
  rintro ⟨hfits, hfits'⟩
  -- both numbers are kept, so that the scores compare as they do
  have hkept := roundBits_eq_self_iff.mpr ((fitsDouble_iff hprice).mp hfits)
  have hkept' := roundBits_eq_self_iff.mpr ((fitsDouble_iff hprice').mp hfits')
  have hless := packed_lt_iff hprice hprice' hseq hseq'
  have hmore := packed_lt_iff hprice' hprice hseq' hseq
  rw [hkept, hkept', Nat.cast_lt, Nat.cast_inj]
  refine ⟨hless.symm, fun heq => ?_, fun heq => ?_⟩
  · have hle : ¬ toLex (price, seq) < toLex (price', seq') := fun hlt => (hless.mp hlt).ne heq
    have hge : ¬ toLex (price', seq') < toLex (price, seq) := fun hlt => (hmore.mp hlt).ne heq.symm
    exact toLex.injective (le_antisymm (not_lt.mp hge) (not_lt.mp hle))
  · obtain ⟨rfl, rfl⟩ := Prod.mk.inj heq
    rw [hprice] at hprice'
    rw [Nat.cast_inj.mp hprice']

/-- Below `2 ^ 53` units of the packed number everything fits. -/
theorem fitsDouble_of_le (hgrid : ∃ t : ℕ, price * priceScale = t) (hle : price ≤ 900719)
    (hseq : seq < scoreMultiplier) : FitsDouble price seq := by
  obtain ⟨t, hprice⟩ := hgrid
  have ht : t ≤ 9007190000 := by
    have : (t : ℚ) ≤ 9007190000 := by
      rw [← hprice]
      simp only [priceScale]
      push_cast
      linarith
    exact_mod_cast this
  refine (fitsDouble_iff hprice).mpr (hasBits_of_lt ?_)
  simp only [scoreMultiplier] at hseq ⊢
  omega

end

/-! ### Prices of a few thousands, and of a million -/

theorem floatScore_faithful_iff_thousands :
    decodeScore 421505000012345 = (42150.5, 12345) ∧ decodeScore 421505000012346 = (42150.5, 12346) ∧
      ((421505000012345 : ℚ) < 421505000012346 ↔
        toLex ((42150.5 : ℚ), 12345) < toLex ((42150.5 : ℚ), 12346)) ∧
      ((421505000012345 : ℚ) = 421505000012346 ↔ ((42150.5 : ℚ), 12345) = ((42150.5 : ℚ), 12346)) := by
  have hgrid : ∃ t : ℕ, (42150.5 : ℚ) * priceScale = t := ⟨421505000, by norm_num [priceScale]⟩
  have hgrid' : ∃ k : ℤ, (42150.5 : ℚ) * priceScale = k := ⟨421505000, by norm_num [priceScale]⟩
  have hfits : ∀ seq < scoreMultiplier, FitsDouble 42150.5 seq := fun seq hseq =>
    fitsDouble_of_le hgrid (by norm_num) hseq
  have h : encodeFloatScore 42150.5 12345 = .ok 421505000012345 := by decide +kernel
  have h' : encodeFloatScore 42150.5 12346 = .ok 421505000012346 := by decide +kernel
  exact (floatScore_faithful_iff hgrid' hgrid' h h').mpr ⟨hfits 12345 (by decide), hfits 12346 (by decide)⟩

/-- **A price of a million** with the last sequence number has the score of the next price with the
    first, and decodes to that. -/
theorem million_collides :
    encodeFloatScore 1000000 999999 = .ok 10000000001000000 ∧
      encodeFloatScore (10000000001 / 10000) 0 = .ok 10000000001000000 ∧
      decodeScore 10000000001000000 = (10000000001 / 10000, 0) := by
  decide +kernel

end SpotExchange.Exchange
