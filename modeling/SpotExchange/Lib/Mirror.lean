import Mathlib.Data.Finset.Insert
import Mathlib.Data.Finset.Erase
import Mathlib.Data.Finset.Option
import Mathlib.Logic.Function.Basic
import Mathlib.Tactic.Common

namespace SpotExchange.Lib

/-!
# An index over tagged items

Each item has a tag or none.  The index keeps a set of items for each tag, and mirrors the tags as long
as every change of a tag is followed in it.
-/

variable {ι κ : Type*}

/-- The set of each tag holds just the items with that tag. -/
def Mirrors (idx : κ → Finset ι) (tag : ι → Option κ) : Prop := ∀ k i, i ∈ idx k ↔ tag i = some k

namespace Mirrors

variable {idx : κ → Finset ι} {tag : ι → Option κ} {i : ι} {k : κ}

theorem empty : Mirrors (fun _ : κ => (∅ : Finset ι)) fun _ => none := by
  intro k i
  simp

variable [DecidableEq ι] [DecidableEq κ]

/-- An item that had no other tag is tagged, and goes into the set of its tag. -/
theorem insert (h : Mirrors idx tag) (hi : tag i = none ∨ tag i = some k) :
    Mirrors (Function.update idx k (Insert.insert i (idx k))) (Function.update tag i (some k)) := by
  intro k' i'
  by_cases hi' : i' = i
  · subst hi'
    rw [Function.update_self]
    by_cases hk : k' = k
    · subst hk
      simp
    · -- it is in no other set
      rw [Function.update_of_ne hk, h]
      rcases hi with hi | hi <;> simp [hi, Ne.symm hk]
  · rw [Function.update_of_ne hi', ← h]
    by_cases hk : k' = k
    · subst hk
      simp [hi']
    · rw [Function.update_of_ne hk]

/-- An item loses its tag, and goes out of the set of its tag. -/
theorem erase (h : Mirrors idx tag) (hi : tag i = none ∨ tag i = some k) :
    Mirrors (Function.update idx k ((idx k).erase i)) (Function.update tag i none) := by
  intro k' i'
  by_cases hi' : i' = i
  · subst hi'
    rw [Function.update_self]
    by_cases hk : k' = k
    · subst hk
      simp
    · rw [Function.update_of_ne hk, h]
      rcases hi with hi | hi <;> simp [hi, Ne.symm hk]
  · rw [Function.update_of_ne hi', ← h]
    by_cases hk : k' = k
    · subst hk
      simp [hi']
    · rw [Function.update_of_ne hk]

end Mirrors

end SpotExchange.Lib
