import Mathlib.Algebra.Group.Pi.Basic
import Mathlib.Data.Option.Basic
import Mathlib.Logic.Function.Basic
import Mathlib.Tactic.Common

namespace SpotExchange.Lib

/-!
# Tables whose rows accumulate

A table maps keys to rows that may be missing.  With a value in a commutative monoid for each row,
`Moved value d t t'` says that `t'` has the same rows as `t` and that the value of each row has
moved by what `d` says for its key.  What `d` says for a missing row does not matter.
-/

variable {K V M : Type*} [AddCommMonoid M] {value : V → M} {d d' : K → M} {t t' t'' : K → Option V}

/-- The rows are the same, and their values have moved by `d`. -/
def Moved (value : V → M) (d : K → M) (t t' : K → Option V) : Prop :=
  ∀ k, (t' k).map value = (t k).map fun v => value v + d k

namespace Moved

theorem refl (t : K → Option V) : Moved value 0 t t := fun k => by simp

theorem trans (h : Moved value d t t') (h' : Moved value d' t' t'') : Moved value (d + d') t t'' := by
  intro k
  have hmap : (t' k).map (fun v => value v + d' k) = ((t' k).map value).map fun m => m + d' k := by
    rw [Option.map_map]
    rfl
  rw [h' k, hmap, h k, Option.map_map]
  exact congrArg (fun f => (t k).map f) (funext fun v => add_assoc _ _ _)

/-- Only what `d` says for the rows that are there matters. -/
theorem congr (h : Moved value d t t') (hd : ∀ k, t k ≠ none → d' k = d k) :
    Moved value d' t t' := by
  intro k
  rw [h k]
  cases ht : t k with
  | none => rfl
  | some v => rw [hd k (by rw [ht]; simp)]

theorem none_iff (h : Moved value d t t') (k : K) : t' k = none ↔ t k = none := by
  have hk := h k
  constructor <;> intro hn <;> rw [hn] at hk
  · exact Option.map_eq_none_iff.mp hk.symm
  · exact Option.map_eq_none_iff.mp hk

/-- What has become of a row. -/
theorem row (h : Moved value d t t') {k : K} {v : V} (hv : t k = some v) :
    ∃ v', t' k = some v' ∧ value v' = value v + d k := by
  have hk := h k
  rw [hv, Option.map_some] at hk
  exact Option.map_eq_some_iff.mp hk

variable [DecidableEq K]

/-- `m` at one key, nothing elsewhere. -/
def single (k : K) (m : M) : K → M := fun k' => if k' = k then m else 0

@[simp] theorem single_apply (k k' : K) (m : M) :
    single k m k' = if k' = k then m else 0 := rfl

theorem single_add (k : K) (m m' : M) : single k (m + m') = single k m + single k m' := by
  funext k'
  by_cases hk : k' = k <;> simp [hk]

theorem single_zero (k : K) : single k (0 : M) = 0 := by
  funext k'
  simp

/-- One row is written. -/
theorem update {k : K} {v v' : V} {m : M} (hv : t k = some v) (hm : value v' = value v + m) :
    Moved value (single k m) t (Function.update t k (some v')) := by
  intro k'
  by_cases hk : k' = k
  · subst hk
    simp [hv, hm]
  · simp [hk]

end Moved

end SpotExchange.Lib
