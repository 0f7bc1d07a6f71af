import Mathlib.Logic.Function.Basic
import Mathlib.Data.List.InsertIdx
import Mathlib.Tactic.Common

namespace SpotExchange.Lib

/-!
# C arrays

A block of memory is a total function `ℕ → α`; the array it holds is its first `n` cells,
`slice a n`, and what lies behind is whatever an earlier use left there.  The two loops that
shift a tail by one cell are `shiftRight` and `shiftLeft`; on slices they are
`List.insertIdx` (once the free cell is written) and `List.eraseIdx`.
-/

variable {α : Type*}

/-- The first `n` cells of `a`. -/
def slice (a : ℕ → α) (n : ℕ) : List α := (List.range n).map a

@[simp] theorem slice_length (a : ℕ → α) (n : ℕ) : (slice a n).length = n := by
  simp [slice]

@[simp] theorem getElem_slice (a : ℕ → α) (n i : ℕ) (h : i < (slice a n).length) :
    (slice a n)[i] = a i := by
  simp [slice]

theorem slice_zero (a : ℕ → α) : slice a 0 = [] := rfl

theorem slice_succ (a : ℕ → α) (n : ℕ) : slice a (n + 1) = slice a n ++ [a n] := by
  simp [slice, List.range_succ]

/-- Slices only depend on the cells they contain. -/
theorem slice_congr {a b : ℕ → α} {n : ℕ} (h : ∀ i < n, a i = b i) : slice a n = slice b n :=
  List.map_congr_left fun i hi => h i (List.mem_range.mp hi)

/-- Writing a cell inside the array. -/
theorem slice_update (a : ℕ → α) (n i : ℕ) (x : α) :
    slice (Function.update a i x) n = (slice a n).set i x := by
  apply List.ext_getElem
  · simp
  · intro j hj _
    simp only [slice_length] at hj
    rw [getElem_slice, List.getElem_set]
    by_cases h : i = j
    · subst h; simp
    · rw [if_neg h, Function.update_of_ne (Ne.symm h), getElem_slice]

/-- Writing a cell outside the array does not show. -/
theorem slice_update_of_le {a : ℕ → α} {n i : ℕ} (h : n ≤ i) (x : α) :
    slice (Function.update a i x) n = slice a n :=
  slice_congr fun j hj => Function.update_of_ne (by omega) _ _

/-- Appending behind the array. -/
theorem slice_update_succ (a : ℕ → α) (n : ℕ) (x : α) :
    slice (Function.update a n x) (n + 1) = slice a n ++ [x] := by
  rw [slice_succ, slice_update_of_le (Nat.le_refl n), Function.update_self]

/-! ### Shifting -/

/-- `for j in range(i + k, i, -1): a[j] = a[j - 1]` -/
def shiftRight (i : ℕ) : ℕ → (ℕ → α) → ℕ → α
  | 0, a => a
  | k + 1, a => shiftRight i k (Function.update a (i + k + 1) (a (i + k)))

/-- `for j in range(i, i + k): a[j] = a[j + 1]` -/
def shiftLeft : ℕ → ℕ → (ℕ → α) → ℕ → α
  | _, 0, a => a
  | i, k + 1, a => shiftLeft (i + 1) k (Function.update a i (a (i + 1)))

/-- After `shiftRight`, the cells `i + 1 … i + k` hold what their left neighbours held. -/
theorem shiftRight_apply (i k : ℕ) (a : ℕ → α) (j : ℕ) :
    shiftRight i k a j = if i < j ∧ j ≤ i + k then a (j - 1) else a j := by
  induction k generalizing a with
  | zero =>
    rw [if_neg (by omega)]; rfl
  | succ k ih =>
    rw [shiftRight, ih]
    by_cases h1 : i < j ∧ j ≤ i + k
    · rw [if_pos h1, if_pos ⟨h1.1, by omega⟩, Function.update_of_ne (by omega)]
    · rw [if_neg h1]
      by_cases h2 : j = i + k + 1
      · subst h2
        rw [Function.update_self, if_pos ⟨by omega, by omega⟩]
        rfl
      · rw [Function.update_of_ne h2, if_neg (by omega)]

/-- After `shiftLeft`, the cells `i … i + k - 1` hold what their right neighbours held. -/
theorem shiftLeft_apply (i k : ℕ) (a : ℕ → α) (j : ℕ) :
    shiftLeft i k a j = if i ≤ j ∧ j < i + k then a (j + 1) else a j := by
  induction k generalizing i a with
  | zero =>
    rw [if_neg (by omega)]; rfl
  | succ k ih =>
    rw [shiftLeft, ih]
    by_cases h1 : i + 1 ≤ j ∧ j < i + 1 + k
    · rw [if_pos h1, if_pos ⟨by omega, by omega⟩, Function.update_of_ne (by omega)]
    · rw [if_neg h1]
      by_cases h2 : j = i
      · subst h2
        rw [Function.update_self, if_pos ⟨Nat.le_refl j, by omega⟩]
      · rw [Function.update_of_ne h2, if_neg (by omega)]

/-- Shift the tail right and write the free cell: an insertion at index `i`. -/
theorem slice_shiftRight (a : ℕ → α) {n i : ℕ} (hi : i ≤ n) (x : α) :
    slice (Function.update (shiftRight i (n - i) a) i x) (n + 1) = (slice a n).insertIdx i x := by
  have hlen : i ≤ (slice a n).length := by simpa using hi
  apply List.ext_getElem
  · rw [slice_length, List.length_insertIdx_of_le_length hlen, slice_length]
  · intro j hj hj'
    simp only [slice_length] at hj
    rw [getElem_slice, List.getElem_insertIdx]
    split_ifs with h1 h2
    · rw [Function.update_of_ne (by omega), shiftRight_apply, if_neg (by omega), getElem_slice]
    · subst h2; simp
    · rw [Function.update_of_ne h2, shiftRight_apply, if_pos ⟨by omega, by omega⟩, getElem_slice]

/-- Shift the tail left over cell `i`: an erasure at index `i`. -/
theorem slice_shiftLeft (a : ℕ → α) {n i : ℕ} (hi : i < n) :
    slice (shiftLeft i (n - 1 - i) a) (n - 1) = (slice a n).eraseIdx i := by
  have hlen : i < (slice a n).length := by simpa using hi
  apply List.ext_getElem
  · rw [slice_length, List.length_eraseIdx_of_lt hlen, slice_length]
  · intro j hj hj'
    simp only [slice_length] at hj
    rw [getElem_slice, List.getElem_eraseIdx]
    split_ifs with h1
    · rw [shiftLeft_apply, if_neg (by omega), getElem_slice]
    · rw [shiftLeft_apply, if_pos ⟨by omega, by omega⟩, getElem_slice]

end SpotExchange.Lib
