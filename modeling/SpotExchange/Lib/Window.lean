import Mathlib.Algebra.Order.Group.Defs
import Mathlib.Data.List.Count
import Mathlib.Tactic.Abel
import Mathlib.Tactic.Common

namespace SpotExchange.Lib

/-!
# Sliding windows

A log of times, the earliest first, and windows of a fixed width over it.

* `recent w t log` — what lies in the window of width `w` that ends at `t`;
* `Throttled w limit log` — each time found fewer than `limit` recent ones before it;
* `Throttled.countP_le` — then no window holds more than `limit`.
-/

variable {T : Type*} [AddCommGroup T] [LinearOrder T]

/-- What lies in the window of width `w` that ends at `t`, of a log that goes no further than `t`. -/
def recent (w t : T) (log : List T) : List T := log.filter fun x => t - w < x

/-- **Each entry of the log found fewer than `limit` recent ones before it.** -/
inductive Throttled (w : T) (limit : ℕ) : List T → Prop
  | nil : Throttled w limit []
  | snoc {log : List T} {t : T} : Throttled w limit log → (recent w t log).length < limit →
      Throttled w limit (log ++ [t])

variable {w t u : T} {limit : ℕ} {log : List T}

theorem recent_append {log' : List T} :
    recent w t (log ++ log') = recent w t log ++ recent w t log' := List.filter_append ..

/-- A window that is narrow enough for its last entry to have seen all the others in it. -/
theorem Throttled.countP_le (h : Throttled w limit log) (p : T → Bool)
    (hp : ∀ x t, p x = true → p t = true → t - w < x) : log.countP p ≤ limit := by
  induction h with
  | nil => simp
  | @snoc log t _ hfew ih =>
    rw [List.countP_append]
    by_cases ht : p t = true
    · -- what the window holds before `t` is recent for `t`
      have hseen : log.countP p ≤ (recent w t log).length := by
        rw [recent, ← List.countP_eq_length_filter]
        apply List.countP_mono_left
        intro x _ hx
        simpa using hp x t hx ht
      simp only [List.countP_cons, List.countP_nil, ht, if_true]
      omega
    · simp only [List.countP_cons, List.countP_nil, ht]
      simpa using ih

section

variable [IsOrderedAddMonoid T]

/-- What is recent later was recent before. -/
theorem recent_recent (h : t ≤ u) : recent w u (recent w t log) = recent w u log := by
  unfold recent
  rw [List.filter_filter]
  apply List.filter_congr
  intro x _
  have hcut : t - w ≤ u - w := sub_le_sub_right h w
  by_cases hx : u - w < x
  · simp [hx, hcut.trans_lt hx]
  · simp [hx]

/-- Nothing is recent once a whole window has passed. -/
theorem recent_eq_nil (h : ∀ x ∈ log, x + w ≤ t) : recent w t log = [] := by
  apply List.filter_eq_nil_iff.mpr
  intro x hx
  have : x ≤ t - w := le_sub_iff_add_le.mpr (h x hx)
  simpa using this

/-- No window `[a, a + w)` holds more than the limit. -/
theorem Throttled.countP_Ico_le (h : Throttled w limit log) (a : T) :
    log.countP (fun x => a ≤ x ∧ x < a + w) ≤ limit := by
  apply h.countP_le
  intro x t hx ht
  simp only [decide_eq_true_eq] at hx ht
  have : t - w < a := sub_lt_iff_lt_add.mpr ht.2
  exact this.trans_le hx.1

/-- No window `(a, a + w]` holds more than the limit. -/
theorem Throttled.countP_Ioc_le (h : Throttled w limit log) (a : T) :
    log.countP (fun x => a < x ∧ x ≤ a + w) ≤ limit := by
  apply h.countP_le
  intro x t hx ht
  simp only [decide_eq_true_eq] at hx ht
  have : t - w ≤ a := sub_le_iff_le_add.mpr ht.2
  exact this.trans_lt hx.1

end

end SpotExchange.Lib
