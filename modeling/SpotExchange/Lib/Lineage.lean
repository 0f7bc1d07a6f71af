import Mathlib.Logic.Relation
import Mathlib.Order.WellFounded

namespace SpotExchange.Lib

/-!
# Lineages

`r b a` reads: `b` succeeds `a`.  Nothing succeeds two things, and nothing is succeeded by two, so that
what is linked forms chains.

* `Lineage` — such a relation, in which successors are later;
* `Lineage.linear` — of two things in one chain, one descends from the other;
* `Lineage.of_last` — all of a chain precedes what is not succeeded;
* `Lineage.acyclic`, `Lineage.rooted` — there are no cycles, and each chain has a beginning.
-/

open Relation

universe u

variable {α : Type u} [Preorder α]

/-- **Chains of successors.** -/
structure Lineage (r : α → α → Prop) : Prop where
  one_predecessor : ∀ {b a a'}, r b a → r b a' → a = a'
  one_successor : ∀ {b b' a}, r b a → r b' a → b = b'
  later : ∀ {b a}, r b a → a < b

section

variable {r : α → α → Prop} {a b : α}

/-- **Of two things in one chain**, one descends from the other. -/
theorem Lineage.linear (h : Lineage r) (hab : EqvGen r a b) : ReflTransGen r a b ∨ ReflTransGen r b a := by
  induction hab with
  | rel a b hab => exact .inl (.single hab)
  | refl a => exact .inl .refl
  | symm a b _ ih => exact ih.symm
  | trans a b c _ _ hab hbc =>
    rcases hab with hab | hba <;> rcases hbc with hbc | hcb
    · exact .inl (hab.trans hbc)
    · -- both descend to `b`, along links that are unique backwards
      have hswap := ReflTransGen.total_of_right_unique (r := Function.swap r)
        (fun _ _ _ hx hy => h.one_successor hx hy) (reflTransGen_swap.mpr hab) (reflTransGen_swap.mpr hcb)
      exact hswap.symm.imp (fun hac => reflTransGen_swap.mp hac) fun hca => reflTransGen_swap.mp hca
    · exact ReflTransGen.total_of_right_unique (fun _ _ _ hx hy => h.one_predecessor hx hy) hba hbc
    · exact .inr (hcb.trans hba)

/-- **All of a chain** precedes what is not succeeded. -/
theorem Lineage.of_last (h : Lineage r) (hlast : ∀ b, ¬ r b a) (hab : EqvGen r a b) :
    ReflTransGen r a b := by
  rcases h.linear hab with hab | hba
  · exact hab
  · rcases ReflTransGen.cases_tail hba with rfl | ⟨c, -, hca⟩
    · exact .refl
    · exact absurd hca (hlast c)

theorem Lineage.descends_lt (h : Lineage r) (hba : TransGen r b a) : a < b := by
  induction hba with
  | single hba => exact h.later hba
  | tail _ hca ih => exact (h.later hca).trans ih

/-- **No cycles.** -/
theorem Lineage.acyclic (h : Lineage r) (a : α) : ¬ TransGen r a a :=
  fun ha => lt_irrefl a (h.descends_lt ha)

/-- What succeeds nothing begins its chain. -/
theorem Lineage.rooted [WellFoundedLT α] (h : Lineage r) (a : α) :
    ∃ b, ReflTransGen r a b ∧ ∀ c, ¬ r b c := by
  induction a using WellFoundedLT.induction with
  | ind a ih =>
    by_cases hpred : ∃ b, r a b
    · obtain ⟨b, hab⟩ := hpred
      obtain ⟨c, hbc, hroot⟩ := ih b (h.later hab)
      exact ⟨c, .head hab hbc, hroot⟩
    · exact ⟨a, .refl, not_exists.mp hpred⟩

end

end SpotExchange.Lib
