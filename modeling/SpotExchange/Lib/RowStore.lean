import Mathlib.Algebra.BigOperators.Group.List.Basic
import Mathlib.Algebra.Group.Basic
import Mathlib.Logic.Function.Basic
import Mathlib.Tactic.Common

namespace SpotExchange.Lib

/-!
# Rows under row locks

A store of rows shared by transactions.  A transaction works on its own copies of the rows it
has written (`pending`), and may only write a row whose lock it holds (`owner`); the lock is
held until the transaction commits, which publishes the copies, or rolls back, which drops them.

* `RowStore.visible` — the row as a transaction sees it: its own copy, else the committed one;
* `RowStore.Guarded` — copies only exist under the lock, so no row has two of them;
* `RowStore.Balanced` — the accounting invariant.  Every row has a value in a commutative group;
  what a transaction sees is the committed value plus what the transaction has moved, and what
  is committed is the initial value plus what committed transactions have moved.

`Balanced` is kept by a write that moves the value by what is booked for it (`Balanced.write`),
by locks, commits and rollbacks: under row locks no update is lost or doubled.
-/

variable {T K V M : Type*}

/-- Committed rows, row locks, and the uncommitted copies of each transaction. -/
structure RowStore (T K V : Type*) where
  committed : K → Option V
  owner : K → Option T
  pending : T → K → Option V

namespace RowStore

section

variable (s : RowStore T K V) (t : T) (k : K)

/-- Nothing locked, nothing pending. -/
def init (rows : K → Option V) : RowStore T K V where
  committed := rows
  owner := fun _ => none
  pending := fun _ _ => none

/-- The row as `t` sees it. -/
def visible : Option V := (s.pending t k).or (s.committed k)

/-- Whoever has a copy of a row holds its lock. -/
def Guarded : Prop := ∀ t k, s.pending t k ≠ none → s.owner k = some t

variable [DecidableEq T]

/-- `t` may lock the row: nobody else has. -/
def available : Bool := s.owner k = none || s.owner k = some t

/-- Give the locks of `t` back. -/
def release : K → Option T := fun k => if s.owner k = some t then none else s.owner k

/-- Publish the copies and release the locks. -/
def commit : RowStore T K V where
  committed := s.visible t
  owner := s.release t
  pending := Function.update s.pending t fun _ => none

/-- Drop the copies and release the locks. -/
def rollback : RowStore T K V where
  committed := s.committed
  owner := s.release t
  pending := Function.update s.pending t fun _ => none

variable [DecidableEq K]

/-- Take the lock. -/
def lock : RowStore T K V := { s with owner := Function.update s.owner k (some t) }

/-- Write a copy, under the lock. -/
def write (v : V) : RowStore T K V :=
  { s with owner := Function.update s.owner k (some t)
           pending := Function.update s.pending t (Function.update (s.pending t) k (some v)) }

end

variable {s : RowStore T K V} {t : T} {k : K}

/-- A row without a copy is seen as it is committed. -/
theorem visible_of_not_pending (h : s.pending t k = none) : s.visible t k = s.committed k := by
  simp [visible, h]

theorem guarded_init (rows : K → Option V) : (init rows : RowStore T K V).Guarded :=
  fun _ _ h => absurd rfl h

/-! ### The end of a transaction -/

variable [DecidableEq T]

@[simp] theorem visible_commit_self : (s.commit t).visible t k = s.visible t k := by
  simp [visible, commit]

theorem pending_commit_of_ne {t' : T} (h : t' ≠ t) : (s.commit t).pending t' = s.pending t' := by
  simp [commit, h]

@[simp] theorem visible_rollback_self : (s.rollback t).visible t k = s.committed k := by
  simp [visible, rollback]

theorem visible_rollback_of_ne {t' : T} (h : t' ≠ t) :
    (s.rollback t).visible t' k = s.visible t' k := by
  simp [visible, rollback, h]

omit [DecidableEq T] in
/-- Nobody else has a copy of a row that `t` has locked. -/
theorem Guarded.not_pending_of_owner (h : s.Guarded) (ho : s.owner k = some t) {t' : T}
    (ht : t' ≠ t) : s.pending t' k = none := by
  by_contra hp
  exact ht (Option.some.inj ((h t' k hp).symm.trans ho))

/-- Nobody else has a copy of a row that `t` may lock. -/
theorem Guarded.not_pending (h : s.Guarded) (ha : s.available t k = true) {t' : T} (ht : t' ≠ t) :
    s.pending t' k = none := by
  by_contra hp
  have ho := h t' k hp
  simp only [available, ho, Bool.or_eq_true, decide_eq_true_eq, Option.some.injEq] at ha
  rcases ha with ha | ha
  · exact absurd ha (by simp)
  · exact ht ha

/-- What ends a transaction keeps the others' locks. -/
private theorem guarded_release (h : s.Guarded) {s' : RowStore T K V}
    (howner : s'.owner = s.release t)
    (hpending : s'.pending = Function.update s.pending t fun _ => none) : s'.Guarded := by
  intro t' k' hp
  rw [hpending] at hp
  have ht : t' ≠ t := by rintro rfl; simp at hp
  rw [Function.update_of_ne ht] at hp
  have ho := h t' k' hp
  rw [howner, release, ho, if_neg (by simpa using ht)]

theorem Guarded.commit (h : s.Guarded) : (s.commit t).Guarded := guarded_release h rfl rfl

theorem Guarded.rollback (h : s.Guarded) : (s.rollback t).Guarded := guarded_release h rfl rfl

/-! ### Locks and writes -/

variable [DecidableEq K]

theorem Guarded.lock (h : s.Guarded) (ha : s.available t k = true) : (s.lock t k).Guarded := by
  intro t' k' hp
  by_cases hk : k' = k
  · subst hk
    have ht : t' = t := by_contra fun ht => hp (h.not_pending ha ht)
    simp [RowStore.lock, ht]
  · simpa [RowStore.lock, hk] using h t' k' hp

@[simp] theorem visible_write_self (v : V) : (s.write t k v).visible t k = some v := by
  simp [visible, write]

theorem visible_write_of_ne_key {k' : K} (h : k' ≠ k) (t' : T) (v : V) :
    (s.write t k v).visible t' k' = s.visible t' k' := by
  by_cases ht : t' = t
  · subst ht; simp [visible, write, h]
  · simp [visible, write, ht]

theorem visible_write_of_ne {t' : T} (h : t' ≠ t) (k' : K) (v : V) :
    (s.write t k v).visible t' k' = s.visible t' k' := by
  simp [visible, write, h]

theorem Guarded.write (h : s.Guarded) (ha : s.available t k = true) (v : V) :
    (s.write t k v).Guarded := by
  intro t' k' hp
  by_cases hk : k' = k
  · subst hk
    have ht : t' = t := by
      by_contra ht
      simp [RowStore.write, ht, h.not_pending ha ht] at hp
    simp [RowStore.write, ht]
  · have hp' : s.pending t' k' ≠ none := by
      by_cases ht : t' = t
      · subst ht; simpa [RowStore.write, hk] using hp
      · simpa [RowStore.write, ht] using hp
    simpa [RowStore.write, hk] using h t' k' hp'

/-! ### Rows that a transaction has locked and read -/

/-- `t` holds the lock of the row and has read `v` there. -/
structure Held (s : RowStore T K V) (t : T) (k : K) (v : V) : Prop where
  owner : s.owner k = some t
  visible : s.visible t k = some v

section

variable {t' : T} {k' : K} {v : V}

omit [DecidableEq T] in
theorem held_lock (hv : s.visible t k = some v) : (s.lock t k).Held t k v :=
  ⟨by simp [lock], hv⟩

theorem held_write : (s.write t k v).Held t k v :=
  ⟨by simp [write], visible_write_self v⟩

omit [DecidableEq K] in
/-- Nobody else may lock a row that is held. -/
theorem Held.ne (h : s.Held t k v) (ht : t' ≠ t) (ha : s.available t' k' = true) : k ≠ k' := by
  rintro rfl
  simp only [available, h.owner, Bool.or_eq_true, decide_eq_true_eq, Option.some.injEq] at ha
  rcases ha with ha | ha
  · exact absurd ha (by simp)
  · exact ht ha.symm

omit [DecidableEq K] in
theorem Held.available (h : s.Held t k v) : s.available t k = true := by
  simp [RowStore.available, h.owner]

theorem Held.lock (h : s.Held t k v) (ha : s.available t' k' = true) :
    (s.lock t' k').Held t k v := by
  refine ⟨?_, h.visible⟩
  by_cases ht : t' = t
  · subst ht
    by_cases hk : k = k'
    · subst hk; simp [RowStore.lock]
    · simpa [RowStore.lock, hk] using h.owner
  · simpa [RowStore.lock, h.ne ht ha] using h.owner

theorem Held.write (h : s.Held t k v) (v' : V) (ht : t' ≠ t) (ha : s.available t' k' = true) :
    (s.write t' k' v').Held t k v where
  owner := by simpa [RowStore.write, h.ne ht ha] using h.owner
  visible := by rw [visible_write_of_ne ht.symm]; exact h.visible

/-- A write to another row. -/
theorem Held.write_of_ne (h : s.Held t k v) (v' : V) (hk : k ≠ k') : (s.write t k' v').Held t k v where
  owner := by simpa [RowStore.write, hk] using h.owner
  visible := by rw [visible_write_of_ne_key hk]; exact h.visible

omit [DecidableEq K] in
theorem Held.commit (h : s.Held t k v) (hs : s.Guarded) (ht : t' ≠ t) :
    (s.commit t').Held t k v where
  owner := by
    show s.release t' k = some t
    rw [release, h.owner, if_neg (by simpa using ht.symm)]
  visible := by
    have hcommitted : (s.commit t').committed k = s.committed k :=
      visible_of_not_pending (hs.not_pending_of_owner h.owner ht)
    have hv := h.visible
    rw [RowStore.visible] at hv ⊢
    rwa [pending_commit_of_ne ht.symm, hcommitted]

omit [DecidableEq K] in
theorem Held.rollback (h : s.Held t k v) (ht : t' ≠ t) : (s.rollback t').Held t k v where
  owner := by
    show s.release t' k = some t
    rw [release, h.owner, if_neg (by simpa using ht.symm)]
  visible := by rw [visible_rollback_of_ne ht.symm]; exact h.visible

end

/-! ### What holds of every row -/

/-- Every row and every copy satisfies `P`. -/
structure Forall (P : V → Prop) (s : RowStore T K V) : Prop where
  committed : ∀ k v, s.committed k = some v → P v
  pending : ∀ t k v, s.pending t k = some v → P v

section

variable {P : V → Prop}

omit [DecidableEq T] [DecidableEq K] in
theorem Forall.visible (h : s.Forall P) {v : V} (hv : s.visible t k = some v) : P v := by
  rw [RowStore.visible, Option.or_eq_some_iff] at hv
  rcases hv with hv | ⟨-, hv⟩
  · exact h.pending t k v hv
  · exact h.committed k v hv

omit [DecidableEq T] in
theorem Forall.lock (h : s.Forall P) : (s.lock t k).Forall P := ⟨h.committed, h.pending⟩

theorem Forall.write (h : s.Forall P) {v : V} (hv : P v) : (s.write t k v).Forall P where
  committed := h.committed
  pending := by
    intro t' k' v' hv'
    by_cases ht : t' = t
    · subst ht
      by_cases hk : k' = k
      · subst hk
        obtain rfl : v = v' := by simpa [RowStore.write] using hv'
        exact hv
      · exact h.pending t' k' v' (by simpa [RowStore.write, hk] using hv')
    · exact h.pending t' k' v' (by simpa [RowStore.write, ht] using hv')

omit [DecidableEq K] in
theorem Forall.commit (h : s.Forall P) : (s.commit t).Forall P where
  committed := fun _ _ hv => h.visible hv
  pending := by
    intro t' k' v' hv'
    by_cases ht : t' = t
    · subst ht; simp [RowStore.commit] at hv'
    · exact h.pending t' k' v' (by simpa [RowStore.commit, ht] using hv')

omit [DecidableEq K] in
theorem Forall.rollback (h : s.Forall P) : (s.rollback t).Forall P where
  committed := h.committed
  pending := by
    intro t' k' v' hv'
    by_cases ht : t' = t
    · subst ht; simp [RowStore.rollback] at hv'
    · exact h.pending t' k' v' (by simpa [RowStore.rollback, ht] using hv')

end

/-! ### Accounting -/

variable [AddCommGroup M]

/-- **The accounting invariant.** With `value` the value of a row (present or not), `moved t` what
    `t` has moved so far and `booked` what committed transactions have moved. -/
structure Balanced (value : Option V → M) (start : K → M) (booked : K → M) (moved : T → K → M)
    (s : RowStore T K V) : Prop where
  guarded : s.Guarded
  visible : ∀ t k, value (s.visible t k) = value (s.committed k) + moved t k
  committed : ∀ k, value (s.committed k) = start k + booked k

variable {value : Option V → M} {start booked : K → M} {moved : T → K → M}

omit [DecidableEq T] [DecidableEq K] in
theorem balanced_init (rows : K → Option V) :
    Balanced value (fun k => value (rows k)) 0 0 (init rows : RowStore T K V) where
  guarded := guarded_init rows
  visible := fun t k => by simp [RowStore.visible, init]
  committed := fun k => by simp [init]

omit [DecidableEq T] [DecidableEq K] in
/-- Only the values of what has been moved matter. -/
theorem Balanced.congr (h : Balanced value start booked moved s) {moved' : T → K → M}
    (heq : ∀ t k, moved' t k = moved t k) : Balanced value start booked moved' s := by
  rwa [show moved' = moved from funext₂ heq]

omit [DecidableEq T] [DecidableEq K] in
/-- A transaction that has no copy of a row has moved nothing in it. -/
theorem Balanced.moved_eq_zero (h : Balanced value start booked moved s)
    (hp : s.pending t k = none) : moved t k = 0 := by
  have hv := h.visible t k
  rwa [visible_of_not_pending hp, left_eq_add] at hv

theorem Balanced.lock (h : Balanced value start booked moved s) (ha : s.available t k = true) :
    Balanced value start booked moved (s.lock t k) where
  guarded := h.guarded.lock ha
  visible := h.visible
  committed := h.committed

/-- **A write** that moves what the transaction sees by `d`. -/
theorem Balanced.write (h : Balanced value start booked moved s) (ha : s.available t k = true)
    {v : V} {d : M} (hv : value (some v) = value (s.visible t k) + d) :
    Balanced value start booked
      (Function.update moved t (Function.update (moved t) k (moved t k + d))) (s.write t k v) where
  guarded := h.guarded.write ha v
  visible := by
    intro t' k'
    by_cases ht : t' = t
    · subst ht
      by_cases hk : k' = k
      · subst hk
        rw [visible_write_self, hv, h.visible, Function.update_self, Function.update_self,
          add_assoc]
        rfl
      · rw [visible_write_of_ne_key hk, Function.update_self, Function.update_of_ne hk]
        exact h.visible t' k'
    · rw [visible_write_of_ne ht, Function.update_of_ne ht]
      exact h.visible t' k'
  committed := h.committed

omit [DecidableEq K] in
/-- **Commit** books what the transaction has moved. -/
theorem Balanced.commit (h : Balanced value start booked moved s) :
    Balanced value start (booked + moved t) (Function.update moved t 0) (s.commit t) where
  guarded := h.guarded.commit
  visible := by
    intro t' k'
    by_cases ht : t' = t
    · subst ht
      rw [visible_commit_self, Function.update_self, Pi.zero_apply, add_zero]
      rfl
    · rw [Function.update_of_ne ht]
      by_cases hp : s.pending t' k' = none
      · have hp' : (s.commit t).pending t' k' = none := by rwa [pending_commit_of_ne ht]
        rw [h.moved_eq_zero hp, add_zero, visible_of_not_pending hp']
      · -- the lock of the row is with `t'`, so `t` has not touched it
        have hp' : s.pending t k' = none :=
          h.guarded.not_pending_of_owner (h.guarded t' k' hp) (Ne.symm ht)
        have hcommitted : (s.commit t).committed k' = s.committed k' := visible_of_not_pending hp'
        have hvisible : (s.commit t).visible t' k' = s.visible t' k' := by
          rw [RowStore.visible, RowStore.visible, pending_commit_of_ne ht, hcommitted]
        rw [hvisible, hcommitted]
        exact h.visible t' k'
  committed := by
    intro k'
    rw [Pi.add_apply, ← add_assoc, ← h.committed, ← h.visible]
    rfl

omit [DecidableEq K] in
/-- **Rollback** forgets what the transaction has moved. -/
theorem Balanced.rollback (h : Balanced value start booked moved s) :
    Balanced value start booked (Function.update moved t 0) (s.rollback t) where
  guarded := h.guarded.rollback
  visible := by
    intro t' k'
    by_cases ht : t' = t
    · subst ht
      rw [visible_rollback_self, Function.update_self, Pi.zero_apply, add_zero]
      rfl
    · rw [visible_rollback_of_ne ht, Function.update_of_ne ht]
      exact h.visible t' k'
  committed := h.committed

end RowStore

end SpotExchange.Lib
