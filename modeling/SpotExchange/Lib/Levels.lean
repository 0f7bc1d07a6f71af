import Mathlib.Algebra.BigOperators.Group.List.Basic
import Mathlib.Algebra.Group.Basic
import Mathlib.Data.List.Dedup
import Mathlib.Data.List.Sort

namespace SpotExchange.Lib

/-!
# The levels of a sorted list

A list of entries with a key and an amount each, sorted by key.  The entries of one key make a level.

* `totalAt`, `levels` — what the entries of a key add up to; the keys in order, each with its total;
* `keysOf_append` — the keys of an initial part are an initial part of the keys;
* `levels_take_iff` — exactly when the levels of the first entries are the first levels.
-/

section

variable {α κ V : Type*} [DecidableEq κ] (key : α → κ) (amount : α → V)

/-- What the entries of a key add up to. -/
def totalAt [AddMonoid V] (k : κ) (xs : List α) : V := ((xs.filter fun x => key x = k).map amount).sum

variable (r : κ → κ → Prop) [DecidableRel r]

/-- The keys that occur, each once, in order. -/
def keysOf (ks : List κ) : List κ := ks.dedup.insertionSort r

/-- The keys of a list of entries in order, each with its total. -/
def levels [AddMonoid V] (xs : List α) : List (κ × V) :=
  (keysOf r (xs.map key)).map fun k => (k, totalAt key amount k xs)

end

section

variable {α κ V : Type*} [DecidableEq κ] {key : α → κ} {amount : α → V} {r : κ → κ → Prop}
  [DecidableRel r] {ks ks' : List κ} {k : κ} {n : ℕ} {xs : List α}

theorem keysOf_perm (ks : List κ) : (keysOf r ks).Perm ks.dedup := List.perm_insertionSort _ _

@[simp] theorem mem_keysOf : k ∈ keysOf r ks ↔ k ∈ ks := by
  rw [(keysOf_perm ks).mem_iff, List.mem_dedup]

theorem keysOf_nodup (ks : List κ) : (keysOf r ks).Nodup :=
  (keysOf_perm ks).nodup_iff.mpr (List.nodup_dedup ks)

theorem length_keysOf (ks : List κ) : (keysOf r ks).length = ks.dedup.length :=
  (keysOf_perm ks).length_eq

variable [Std.Total r] [IsTrans κ r]

theorem keysOf_sorted (ks : List κ) : (keysOf r ks).Pairwise r := List.pairwise_insertionSort _ _

variable [Std.Antisymm r]

/-- The keys of a list are what is sorted, occurs once and occurs. -/
theorem keysOf_unique (hsorted : ks'.Pairwise r) (hnodup : ks'.Nodup) (hmem : ∀ k, k ∈ ks' ↔ k ∈ ks) :
    ks' = keysOf r ks := by
  have hperm : ks'.Perm (keysOf r ks) := by
    apply (List.perm_ext_iff_of_nodup hnodup (keysOf_nodup ks)).mpr
    intro k
    rw [hmem, mem_keysOf]
  apply hperm.eq_of_pairwise _ hsorted (keysOf_sorted ks)
  rintro a b - - hab hba
  exact antisymm_of r hab hba

/-- **An initial part**: the keys that occur in it come first. -/
theorem keysOf_append (h : ∀ k ∈ ks, ∀ k' ∈ ks', r k k') :
    keysOf r (ks ++ ks') = keysOf r ks ++ keysOf r (ks'.filter fun k => k ∉ ks) := by
  symm
  apply keysOf_unique
  · rw [List.pairwise_append]
    refine ⟨keysOf_sorted ks, keysOf_sorted _, fun k hk k' hk' => ?_⟩
    rw [mem_keysOf] at hk hk'
    exact h k hk k' (List.mem_of_mem_filter hk')
  · rw [List.nodup_append]
    refine ⟨keysOf_nodup ks, keysOf_nodup _, fun k hk k' hk' heq => ?_⟩
    rw [mem_keysOf] at hk hk'
    have hout : k' ∉ ks := by simpa using (List.mem_filter.mp hk').2
    exact hout (heq ▸ hk)
  · intro k
    simp only [List.mem_append, mem_keysOf, List.mem_filter]
    by_cases hk : k ∈ ks <;> simp [hk]

/-- **The keys of an initial part** are the first keys just when none is missing. -/
theorem keysOf_eq_take_iff (h : ∀ k ∈ ks, ∀ k' ∈ ks', r k k') (hlen : ks.length ≤ n) :
    keysOf r ks = (keysOf r (ks ++ ks')).take n ↔ ks.dedup.length = n ∨ ∀ k ∈ ks', k ∈ ks := by
  have hfew : (keysOf r ks).length ≤ n := by
    rw [length_keysOf]
    exact (List.dedup_sublist ks).length_le.trans hlen
  have hnone : keysOf r (ks'.filter fun k => k ∉ ks) = [] ↔ ∀ k ∈ ks', k ∈ ks := by
    rw [← List.length_eq_zero_iff, length_keysOf, List.length_eq_zero_iff, List.dedup_eq_nil,
      List.filter_eq_nil_iff]
    simp only [decide_eq_true_eq, not_not]
  rw [keysOf_append h, List.take_append, List.take_of_length_le hfew, List.self_eq_append_right,
    List.take_eq_nil_iff, hnone, ← length_keysOf (r := r)]
  apply or_congr_left
  omega

variable [AddGroup V]

/-- A total is that of the first entries and of the others. -/
theorem totalAt_take_iff (n : ℕ) (xs : List α) (k : κ) :
    totalAt key amount k (xs.take n) = totalAt key amount k xs ↔
      totalAt key amount k (xs.drop n) = 0 := by
  have htotal : totalAt key amount k xs
      = totalAt key amount k (xs.take n) + totalAt key amount k (xs.drop n) := by
    unfold totalAt
    rw [← List.sum_append, ← List.map_append, ← List.filter_append, List.take_append_drop]
  rw [htotal, eq_comm, add_eq_left]

/-- **The levels of the first entries are the first levels** just when they are as many as there are
    entries or all keys, and what is cut off adds nothing to them. -/
theorem levels_take_iff (hsorted : (xs.map key).Pairwise r) (n : ℕ) :
    levels key amount r (xs.take n) = (levels key amount r xs).take n ↔
      ((((xs.take n).map key).dedup.length = n ∨ ∀ x ∈ xs.drop n, key x ∈ (xs.take n).map key) ∧
        ∀ k ∈ (xs.take n).map key, totalAt key amount k (xs.drop n) = 0) := by
  have hall : xs.map key = (xs.take n).map key ++ (xs.drop n).map key := by
    rw [← List.map_append, List.take_append_drop]
  have hbefore : ∀ k ∈ (xs.take n).map key, ∀ k' ∈ (xs.drop n).map key, r k k' := by
    rw [hall, List.pairwise_append] at hsorted
    exact hsorted.2.2
  have hlen : ((xs.take n).map key).length ≤ n := by
    rw [List.length_map]
    exact List.length_take_le _ _
  have hkeysIff := keysOf_eq_take_iff hbefore hlen
  rw [← hall, List.forall_mem_map] at hkeysIff
  unfold levels
  rw [← List.map_take]
  constructor
  · intro heq
    have hkeysEq : keysOf r ((xs.take n).map key) = (keysOf r (xs.map key)).take n := by
      have hfst := congrArg (List.map Prod.fst) heq
      simpa only [List.map_map, Function.comp_def, List.map_id'] using hfst
    refine ⟨hkeysIff.mp hkeysEq, fun k hk => ?_⟩
    rw [← hkeysEq, List.map_inj_left] at heq
    exact (totalAt_take_iff n xs k).mp (congrArg Prod.snd (heq k (mem_keysOf.mpr hk)))
  · rintro ⟨hcut, hzero⟩
    rw [← hkeysIff.mpr hcut, List.map_inj_left]
    intro k hk
    rw [(totalAt_take_iff n xs k).mpr (hzero k (mem_keysOf.mp hk))]

end

end SpotExchange.Lib
