import Mathlib.Data.List.Basic
import Mathlib.Logic.Relation

namespace SpotExchange.Lib

/-!
# Two transactions that take locks

Each of two transactions takes locks in an order of its own, keeps what it has taken until it
commits or rolls back, and waits for a lock that the other one holds.  A lock it holds itself is
no obstacle.

* `Locker.Step`, `Locker.Interleaves` — one step, and the steps of two transactions;
* `DeadlockFree xs ys` — no interleaving leaves each waiting for the other;
* `firstShared xs ys` — the first of the locks `xs` that is among `ys`;
* `deadlockFree_iff` — they are free of deadlocks exactly when both start with the same shared lock;
* `deadlockFree_of_unique`, `deadlockFree_of_sorted` — as they do if they share no other lock, and if
  both are sorted.
-/

universe u

variable {K : Type u}

/-- A transaction: the locks it holds, and those it will take, in order. -/
structure Locker (K : Type u) where
  held : List K
  todo : List K

/-- A step while another transaction holds `other`: take the next lock if it is free, or end and
    release everything. -/
inductive Locker.Step (other : List K) : Locker K → Locker K → Prop
  | take {held todo : List K} {k : K} (free : k ∉ other) :
      Locker.Step other ⟨held, k :: todo⟩ ⟨k :: held, todo⟩
  | finish {held todo : List K} : Locker.Step other ⟨held, todo⟩ ⟨[], []⟩

/-- A step of one of two transactions. -/
inductive Locker.Interleaves : Locker K × Locker K → Locker K × Locker K → Prop
  | first {a a' b : Locker K} (step : Locker.Step b.held a a') : Locker.Interleaves (a, b) (a', b)
  | second {a b b' : Locker K} (step : Locker.Step a.held b b') : Locker.Interleaves (a, b) (a, b')

/-- The next lock is held by the other. -/
def Locker.WaitsFor (a b : Locker K) : Prop := ∃ k ∈ b.held, ∃ todo, a.todo = k :: todo

/-- Each waits for the other. -/
def Deadlocked (s : Locker K × Locker K) : Prop := s.1.WaitsFor s.2 ∧ s.2.WaitsFor s.1

/-- Some interleaving of two transactions reaches this state. -/
def ReachableFrom (xs ys : List K) : Locker K × Locker K → Prop :=
  Relation.ReflTransGen Locker.Interleaves (⟨[], xs⟩, ⟨[], ys⟩)

/-- **No interleaving ends in a deadlock.** -/
def DeadlockFree (xs ys : List K) : Prop := ∀ s, ReachableFrom xs ys s → ¬ Deadlocked s

/-- The first of the locks `xs` that is among `ys`. -/
def firstShared [DecidableEq K] (xs ys : List K) : Option K := xs.find? (· ∈ ys)

/-! ### Safety -/

/-- What a transaction that will take `xs` may hold. -/
def Locker.Follows (a : Locker K) (xs : List K) : Prop :=
  a.todo = [] ∨ xs = a.held.reverse ++ a.todo

/-- What holds in every reachable state. -/
structure Locker.Exclusive (xs ys : List K) (s : Locker K × Locker K) : Prop where
  first : s.1.Follows xs
  second : s.2.Follows ys
  disjoint : ∀ k ∈ s.1.held, k ∉ s.2.held

private theorem follows_step {other xs : List K} {a a' : Locker K} (h : a.Follows xs)
    (hstep : Locker.Step other a a') : a'.Follows xs := by
  cases hstep with
  | take free =>
    rcases h with h | h
    · exact absurd h (by simp)
    · exact .inr (by simpa using h)
  | finish => exact .inl rfl

private theorem disjoint_step {other : List K} {a a' : Locker K} (h : ∀ k ∈ a.held, k ∉ other)
    (hstep : Locker.Step other a a') : ∀ k ∈ a'.held, k ∉ other := by
  cases hstep with
  | take free =>
    intro k hk
    rcases List.mem_cons.mp hk with rfl | hk
    · exact free
    · exact h k hk
  | finish => exact fun k hk => absurd hk List.not_mem_nil

theorem Locker.Exclusive.of_reachable {xs ys : List K} {s : Locker K × Locker K}
    (h : ReachableFrom xs ys s) : Locker.Exclusive xs ys s := by
  induction h with
  | refl => exact ⟨.inr rfl, .inr rfl, fun k hk => absurd hk List.not_mem_nil⟩
  | tail _ hstep ih =>
    cases hstep with
    | first step => exact ⟨follows_step ih.first step, ih.second, disjoint_step ih.disjoint step⟩
    | second step =>
      refine ⟨ih.first, follows_step ih.second step, ?_⟩
      have hsymm := disjoint_step (fun k hk hk' => ih.disjoint k hk' hk) step
      exact fun k hk hk' => hsymm k hk' hk

/-- What a waiting transaction waits for and holds is among its locks. -/
theorem Locker.Follows.mem {a : Locker K} {xs : List K} {k : K} {todo : List K} (h : a.Follows xs)
    (htodo : a.todo = k :: todo) : k ∈ xs ∧ ∀ k' ∈ a.held, k' ∈ xs := by
  rcases h with h | rfl
  · exact absurd (h.symm.trans htodo) (by simp)
  · rw [htodo]
    exact ⟨by simp, fun k' hk' => by simp [hk']⟩

section

variable [DecidableEq K] {xs ys : List K}

/-- A transaction that holds a shared lock and waits for one holds the first one. -/
private theorem firstShared_held {a : Locker K} {k k' : K} {todo : List K} (h : a.Follows xs)
    (htodo : a.todo = k :: todo) (hk' : k' ∈ a.held) (hys : k' ∈ ys) :
    ∃ c ∈ a.held, firstShared xs ys = some c := by
  have hxs : xs = a.held.reverse ++ a.todo := by
    rcases h with h | h
    · exact absurd (h.symm.trans htodo) (by simp)
    · exact h
  obtain ⟨c, hc⟩ : ∃ c, a.held.reverse.find? (· ∈ ys) = some c := by
    rw [← Option.isSome_iff_exists, List.find?_isSome]
    exact ⟨k', List.mem_reverse.mpr hk', by simpa using hys⟩
  refine ⟨c, List.mem_reverse.mp (List.mem_of_find?_eq_some hc), ?_⟩
  rw [firstShared, hxs, List.find?_append, hc]
  rfl

private theorem deadlockFree_of_firstShared (h : firstShared xs ys = firstShared ys xs) :
    DeadlockFree xs ys := by
  rintro s hs ⟨⟨k, hk, todo, htodo⟩, k', hk', todo', htodo'⟩
  have hex := Locker.Exclusive.of_reachable hs
  have hx := hex.first.mem htodo
  have hy := hex.second.mem htodo'
  obtain ⟨c, hc, hfirst⟩ := firstShared_held hex.first htodo hk' hy.1
  obtain ⟨c', hc', hfirst'⟩ := firstShared_held hex.second htodo' hk hx.1
  obtain rfl : c = c' := Option.some.inj (hfirst.symm.trans (h.trans hfirst'))
  exact hex.disjoint c hc hc'

/-! ### Deadlocks -/

omit [DecidableEq K] in
/-- A transaction takes locks that are free. -/
private theorem takes (zs other : List K) (h : ∀ k ∈ zs, k ∉ other) (held todo : List K) :
    Relation.ReflTransGen (Locker.Step other) ⟨held, zs ++ todo⟩ ⟨zs.reverse ++ held, todo⟩ := by
  induction zs generalizing held with
  | nil => exact .refl
  | cons z zs ih =>
    rw [List.forall_mem_cons] at h
    have hrest := ih h.2 (z :: held)
    rw [List.reverse_cons, List.append_assoc]
    exact .head (.take h.1) hrest

private theorem exists_deadlock {p q r t : List K} {x y : K} (hne : x ≠ y)
    (hp : ∀ k ∈ p, k ∉ q ++ y :: t) (hq : ∀ k ∈ q, k ∉ p ++ x :: r) (hx : x ∈ t) (hy : y ∈ r) :
    ∃ s, ReachableFrom (p ++ x :: r) (q ++ y :: t) s ∧ Deadlocked s := by
  have first : ∀ {a a' b : Locker K}, Relation.ReflTransGen (Locker.Step b.held) a a' →
      Relation.ReflTransGen Locker.Interleaves (a, b) (a', b) := fun h =>
    h.lift (fun a => (a, _)) fun _ _ => .first
  have second : ∀ {a b b' : Locker K}, Relation.ReflTransGen (Locker.Step a.held) b b' →
      Relation.ReflTransGen Locker.Interleaves (a, b) (a, b') := fun h =>
    h.lift (fun b => (_, b)) fun _ _ => .second
  obtain ⟨r₁, r₂, rfl, hr₁⟩ := List.eq_append_cons_of_mem hy
  -- the first transaction takes its locks up to `x`, the second one up to `y`
  have h₁ := first (b := ⟨[], q ++ y :: t⟩)
    (takes (p ++ [x]) [] (by simp) [] (r₁ ++ y :: r₂))
  have h₂ := second (a := ⟨(p ++ [x]).reverse ++ [], r₁ ++ y :: r₂⟩)
    (takes (q ++ [y]) ((p ++ [x]).reverse ++ []) ?_ [] t)
  swap
  · intro k hk
    rcases List.mem_append.mp hk with hk | hk
    · have := hq k hk
      simp only [List.mem_append, List.mem_cons, List.mem_reverse, List.not_mem_nil, or_false] at this ⊢
      exact fun h => this (h.imp_right .inl)
    · obtain rfl := List.mem_singleton.mp hk
      have : k ∉ p := fun h => hp k h (by simp)
      simpa using ⟨hne.symm, this⟩
  -- then the first one goes on until it needs `y`
  have h₃ := first (b := ⟨(q ++ [y]).reverse ++ [], t⟩)
    (takes r₁ ((q ++ [y]).reverse ++ []) ?_ ((p ++ [x]).reverse ++ []) (y :: r₂))
  swap
  · intro k hk
    have hkq : k ∉ q := fun h => hq k h (by simp [hk])
    have hky : k ≠ y := by
      rintro rfl
      exact hr₁ hk
    simpa using ⟨hky, hkq⟩
  -- and the second one until it needs something that the first one holds
  obtain ⟨c, hc⟩ : ∃ c, t.find? (· ∈ r₁.reverse ++ ((p ++ [x]).reverse ++ [])) = some c := by
    rw [← Option.isSome_iff_exists, List.find?_isSome]
    exact ⟨x, hx, by simp⟩
  obtain ⟨hheld, t₁, t₂, rfl, ht₁⟩ := List.find?_eq_some_iff_append.mp hc
  have h₄ := second (a := ⟨r₁.reverse ++ ((p ++ [x]).reverse ++ []), y :: r₂⟩)
    (takes t₁ (r₁.reverse ++ ((p ++ [x]).reverse ++ []))
      (fun k hk => by simpa using ht₁ k hk) ((q ++ [y]).reverse ++ []) (c :: t₂))
  refine ⟨(⟨r₁.reverse ++ ((p ++ [x]).reverse ++ []), y :: r₂⟩,
    ⟨t₁.reverse ++ ((q ++ [y]).reverse ++ []), c :: t₂⟩), ?_, ⟨y, ?_, r₂, rfl⟩, c, ?_, t₂, rfl⟩
  · have hrun := ((h₁.trans ?_).trans h₃).trans h₄
    · simpa [ReachableFrom] using hrun
    · simpa using h₂
  · simp
  · simpa using hheld

/-- **Two transactions are free of deadlocks exactly when they start with the same shared lock**, or
    share none. -/
theorem deadlockFree_iff : DeadlockFree xs ys ↔ firstShared xs ys = firstShared ys xs := by
  refine ⟨fun h => ?_, deadlockFree_of_firstShared⟩
  by_contra hne
  -- if one of them finds a shared lock, so does the other
  have hsome : ∀ {xs ys : List K} {x : K}, firstShared xs ys = some x → ∃ y, firstShared ys xs = some y := by
    intro xs ys x hx
    rw [← Option.isSome_iff_exists, firstShared, List.find?_isSome]
    exact ⟨x, by simpa using List.find?_some hx, by simpa using List.mem_of_find?_eq_some hx⟩
  obtain ⟨x, y, hx, hy⟩ : ∃ x y, firstShared xs ys = some x ∧ firstShared ys xs = some y := by
    cases hx : firstShared xs ys with
    | some x =>
      obtain ⟨y, hy⟩ := hsome hx
      exact ⟨x, y, rfl, hy⟩
    | none =>
      cases hy : firstShared ys xs with
      | none => exact absurd (hx.trans hy.symm) hne
      | some y =>
        obtain ⟨x, hx'⟩ := hsome hy
        exact absurd (hx.symm.trans hx') (by simp)
  have hxy : x ≠ y := fun h => hne (by rw [hx, hy, h])
  obtain ⟨hxys, p, r, rfl, hp⟩ := List.find?_eq_some_iff_append.mp hx
  obtain ⟨hyxs, q, t, rfl, hq⟩ := List.find?_eq_some_iff_append.mp hy
  have hp : ∀ k ∈ p, k ∉ q ++ y :: t := fun k hk => by simpa using hp k hk
  have hq : ∀ k ∈ q, k ∉ p ++ x :: r := fun k hk => by simpa using hq k hk
  have hxt : x ∈ t := by
    have hmem : x ∈ q ++ y :: t := by simpa using hxys
    rcases List.mem_append.mp hmem with hmem | hmem
    · exact absurd (by simp) (hq x hmem)
    · exact (List.mem_cons.mp hmem).resolve_left hxy
  have hyr : y ∈ r := by
    have hmem : y ∈ p ++ x :: r := by simpa using hyxs
    rcases List.mem_append.mp hmem with hmem | hmem
    · exact absurd (by simp) (hp y hmem)
    · exact (List.mem_cons.mp hmem).resolve_left hxy.symm
  obtain ⟨s, hs, hdead⟩ := exists_deadlock hxy hp hq hxt hyr
  exact h s hs hdead

omit [DecidableEq K] in
/-- **Two transactions that share at most one lock are free of deadlocks.** -/
theorem deadlockFree_of_unique (h : ∀ x ∈ xs, x ∈ ys → ∀ y ∈ xs, y ∈ ys → x = y) :
    DeadlockFree xs ys := by
  rintro s hs ⟨⟨k, hk, todo, htodo⟩, k', hk', todo', htodo'⟩
  have hex := Locker.Exclusive.of_reachable hs
  have hx := hex.first.mem htodo
  have hy := hex.second.mem htodo'
  -- the lock that each waits for is shared, and held by the other one
  obtain rfl := h k hx.1 (hy.2 k hk) k' (hx.2 k' hk') hy.1
  exact hex.disjoint k hk' hk

/-- **Sorted sequences are free of deadlocks.** -/
theorem deadlockFree_of_sorted {r : K → K → Prop} [Std.Antisymm r] (hxs : xs.Pairwise r)
    (hys : ys.Pairwise r) : DeadlockFree xs ys := by
  refine deadlockFree_iff.mpr ?_
  -- each first shared lock comes before the other
  have hle : ∀ {xs ys : List K} {x y : K}, xs.Pairwise r → firstShared xs ys = some x → y ∈ xs →
      y ∈ ys → x = y ∨ r x y := by
    intro xs ys x y hxs hx hyx hyy
    obtain ⟨-, p, t, rfl, hp⟩ := List.find?_eq_some_iff_append.mp hx
    rcases List.mem_append.mp hyx with hyx | hyx
    · exact absurd hyy (by simpa using hp y hyx)
    · rcases List.mem_cons.mp hyx with rfl | hyt
      · exact .inl rfl
      · exact .inr ((List.pairwise_cons.mp (List.pairwise_append.mp hxs).2.1).1 y hyt)
  have hmem : ∀ {xs ys : List K} {x : K}, firstShared xs ys = some x → x ∈ xs ∧ x ∈ ys := fun hx =>
    ⟨List.mem_of_find?_eq_some hx, by simpa using List.find?_some hx⟩
  have hnone : ∀ {xs ys : List K}, firstShared xs ys = none → firstShared ys xs = none := by
    intro xs ys h
    rw [firstShared, List.find?_eq_none] at h ⊢
    exact fun y hy hyx => h y (by simpa using hyx) (by simpa using hy)
  cases hx : firstShared xs ys with
  | none => exact (hnone hx).symm
  | some x =>
    cases hy : firstShared ys xs with
    | none => exact absurd ((hnone hy).symm.trans hx) (by simp)
    | some y =>
      obtain ⟨hxx, hxy⟩ := hmem hx
      obtain ⟨hyy, hyx⟩ := hmem hy
      rcases hle hxs hx hyx hyy with rfl | hr
      · rfl
      · rcases hle hys hy hxy hxx with rfl | hr'
        · rfl
        · rw [Std.Antisymm.antisymm x y hr hr']

end

end SpotExchange.Lib
