import Mathlib.Data.List.Perm.Basic
import Mathlib.Tactic.Common

namespace SpotExchange.Lib

/-!
# Mail kept in one list

Messages with their recipients, the oldest first; a recipient takes its own in this order.

* `takeMail` — the oldest message for a recipient, and the mail without it;
* `takeMail_perm` — nothing else is lost, and nothing comes twice.
-/

variable {K V : Type*} [DecidableEq K] {k : K} {v : V} {mail mail' : List (K × V)}

/-- The oldest message for `k`, and the mail without it. -/
def takeMail (k : K) : List (K × V) → Option (V × List (K × V))
  | [] => none
  | x :: mail =>
      if x.1 = k then some (x.2, mail)
      else (takeMail k mail).map fun taken => (taken.1, x :: taken.2)

theorem takeMail_perm (h : takeMail k mail = some (v, mail')) : mail.Perm ((k, v) :: mail') := by
  induction mail generalizing mail' with
  | nil => exact absurd h (by simp [takeMail])
  | cons x mail ih =>
    rw [takeMail] at h
    split_ifs at h with hx
    · obtain ⟨rfl, rfl⟩ := Prod.mk.inj (Option.some.inj h)
      rw [← hx]
    · obtain ⟨⟨v', rest⟩, hrest, hpair⟩ := Option.map_eq_some_iff.mp h
      obtain ⟨rfl, rfl⟩ := Prod.mk.inj hpair
      exact ((ih hrest).cons x).trans (List.Perm.swap _ _ _)

/-- **What is counted before is counted after**, apart from what has been taken. -/
theorem takeMail_countP (h : takeMail k mail = some (v, mail')) (p : K × V → Bool) :
    mail.countP p = mail'.countP p + if p (k, v) then 1 else 0 := by
  rw [(takeMail_perm h).countP_eq p, List.countP_cons]

theorem takeMail_mem (h : takeMail k mail = some (v, mail')) :
    (k, v) ∈ mail ∧ ∀ x ∈ mail', x ∈ mail := by
  have hperm := takeMail_perm h
  exact ⟨hperm.mem_iff.mpr List.mem_cons_self, fun x hx => hperm.mem_iff.mpr (List.mem_cons_of_mem _ hx)⟩

end SpotExchange.Lib
