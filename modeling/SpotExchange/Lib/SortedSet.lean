import Mathlib.Data.List.Sort
import Mathlib.Algebra.Order.Ring.Rat

namespace SpotExchange.Lib

/-!
# Sorted sets

A set of members with a score each, listed by ascending score and, where scores are equal, by the
ascending sort key of the member.

* `SortedSet.zadd`, `SortedSet.zrem` — insertion (or a new score) and removal;
* `SortedSet.Distinct` — no member is listed twice; kept by both;
* `SortedSet.InOrder` — the listing is sorted; kept by both;
* `SortedSet.InOrder.eq_of_perm` — where no two members have one sort key, there is one listing;
* `SortedSet.InOrder.sublist_iff` — which of two members is listed first.
-/

/-- The members with their scores, in order. -/
abbrev SortedSet (α : Type) := List (ℚ × α)

namespace SortedSet

variable {α κ : Type} [LinearOrder κ] (key : α → κ)

/-- The order of the listing. -/
def precedes (x y : ℚ × α) : Prop := x.1 < y.1 ∨ x.1 = y.1 ∧ key x.2 ≤ key y.2

instance : DecidableRel (precedes key) := fun x y => by unfold precedes; infer_instance

instance : Std.Total (precedes (κ := κ) key) where
  total x y := by
    unfold precedes
    rcases lt_trichotomy x.1 y.1 with h | h | h
    · exact .inl (.inl h)
    · rcases le_total (key x.2) (key y.2) with h' | h'
      · exact .inl (.inr ⟨h, h'⟩)
      · exact .inr (.inr ⟨h.symm, h'⟩)
    · exact .inr (.inl h)

instance : IsTrans (ℚ × α) (precedes (κ := κ) key) where
  trans x y z h h' := by
    unfold precedes at h h' ⊢
    rcases h with h | ⟨h, hk⟩ <;> rcases h' with h' | ⟨h', hk'⟩
    · exact .inl (h.trans h')
    · exact .inl (h.trans_eq h')
    · exact .inl (h.trans_lt h')
    · exact .inr ⟨h.trans h', hk.trans hk'⟩

/-- The members. -/
def members (z : SortedSet α) : List α := z.map Prod.snd

/-- No member is listed twice. -/
def Distinct (z : SortedSet α) : Prop := z.members.Nodup

/-- The listing is sorted. -/
def InOrder (z : SortedSet α) : Prop := z.Pairwise (precedes key)

variable [DecidableEq α]

/-- Remove a member, if it is there. -/
def zrem (z : SortedSet α) (m : α) : SortedSet α := z.filter fun x => x.2 ≠ m

/-- Insert a member, or give it another score. -/
def zadd (z : SortedSet α) (score : ℚ) (m : α) : SortedSet α :=
  (z.zrem m).orderedInsert (precedes key) (score, m)

variable {key} {z : SortedSet α} {m : α} {x : ℚ × α} {score : ℚ}

theorem mem_zrem : x ∈ z.zrem m ↔ x ∈ z ∧ x.2 ≠ m := by simp [zrem]

theorem mem_zadd : x ∈ z.zadd key score m ↔ x = (score, m) ∨ x ∈ z ∧ x.2 ≠ m := by
  rw [zadd, List.mem_orderedInsert, mem_zrem]

theorem Distinct.zrem (h : z.Distinct) : (z.zrem m).Distinct :=
  h.sublist (List.filter_sublist.map Prod.snd)

theorem Distinct.zadd (h : z.Distinct) : (z.zadd key score m).Distinct := by
  have hperm : (members (SortedSet.zadd key z score m)).Perm (m :: members (z.zrem m)) :=
    (List.perm_orderedInsert (precedes key) (score, m) (z.zrem m)).map Prod.snd
  refine hperm.nodup_iff.mpr (List.nodup_cons.mpr ⟨fun hm => ?_, h.zrem⟩)
  obtain ⟨x, hx, rfl⟩ := List.mem_map.mp hm
  exact (mem_zrem.mp hx).2 rfl

theorem InOrder.zrem (h : InOrder key z) : InOrder key (z.zrem m) := h.sublist List.filter_sublist

theorem InOrder.zadd (h : InOrder key z) : InOrder key (z.zadd key score m) :=
  h.zrem.orderedInsert _ _

/-- A new member is one more. -/
theorem zadd_perm (h : m ∉ z.members) : (z.zadd key score m).Perm ((score, m) :: z) := by
  have hrem : z.zrem m = z := by
    refine List.filter_eq_self.mpr fun x hx => ?_
    have hne : x.2 ≠ m := by
      rintro rfl
      exact h (List.mem_map_of_mem hx)
    simpa using hne
  rw [SortedSet.zadd, hrem]
  exact List.perm_orderedInsert _ _ _

/-- A member that is there gets another score. -/
theorem zadd_perm_map (hz : z.Distinct) (h : m ∈ z.members) :
    (z.zadd key score m).Perm (z.map fun x => if x.2 = m then (score, m) else x) := by
  have hperm : (z.zadd key score m).Perm ((score, m) :: z.zrem m) := List.perm_orderedInsert _ _ _
  apply hperm.trans
  clear hperm
  induction z with
  | nil => exact absurd h (by simp [members])
  | cons x z ih =>
    have hnodup : x.2 ∉ members z ∧ (members z).Nodup := List.nodup_cons.mp hz
    by_cases hx : x.2 = m
    · -- no other entry is the member's
      have hothers : ∀ y ∈ z, y.2 ≠ m := by
        rintro y hy rfl
        apply hnodup.1
        rw [hx]
        exact List.mem_map_of_mem hy
      have hrem : SortedSet.zrem (x :: z) m = z := by
        show List.filter _ (x :: z) = z
        rw [List.filter_cons_of_neg (by simpa using hx)]
        exact List.filter_eq_self.mpr fun y hy => by simpa using hothers y hy
      have hmap : z.map (fun x => if x.2 = m then (score, m) else x) = z := by
        rw [List.map_congr_left fun y hy => if_neg (hothers y hy), List.map_id']
      rw [hrem, List.map_cons, if_pos hx, hmap]
    · have hm : m ∈ members z := by
        rcases List.mem_cons.mp h with h | h
        · exact absurd h.symm hx
        · exact h
      have hrem : SortedSet.zrem (x :: z) m = x :: SortedSet.zrem z m := by
        show List.filter _ (x :: z) = x :: List.filter _ z
        rw [List.filter_cons_of_pos (by simpa using hx)]
      rw [hrem, List.map_cons, if_neg hx]
      exact (List.Perm.swap _ _ _).trans ((ih hnodup.2 hm).cons x)

omit [DecidableEq α] in
/-- One listing only. -/
theorem InOrder.eq_of_perm {z' : SortedSet α} (hkey : Function.Injective key) (h : InOrder key z)
    (h' : InOrder key z') (hperm : z.Perm z') : z = z' := by
  apply hperm.eq_of_pairwise _ h h'
  rintro x y - - hxy hyx
  rcases hxy with hlt | ⟨heq, hle⟩ <;> rcases hyx with hlt' | ⟨heq', hle'⟩
  · exact absurd hlt' hlt.not_gt
  · exact absurd heq' hlt.ne'
  · exact absurd heq hlt'.ne'
  · exact Prod.ext heq (hkey (le_antisymm hle hle'))

omit [DecidableEq α] in
/-- One of two members is listed first. -/
theorem pair_sublist {β : Type} {l : List β} {a b : β} (ha : a ∈ l) (hb : b ∈ l) (hne : a ≠ b) :
    [a, b].Sublist l ∨ [b, a].Sublist l := by
  induction l with
  | nil => exact absurd ha (by simp)
  | cons c l ih =>
    rcases List.mem_cons.mp ha with rfl | ha'
    · rcases List.mem_cons.mp hb with rfl | hb'
      · exact absurd rfl hne
      · exact .inl ((List.singleton_sublist.mpr hb').cons_cons a)
    · rcases List.mem_cons.mp hb with rfl | hb'
      · exact .inr ((List.singleton_sublist.mpr ha').cons_cons b)
      · exact (ih ha' hb').imp (fun h => h.cons c) fun h => h.cons c

omit [DecidableEq α] in
/-- **Which of two members is listed first**: the one with the smaller score, or sort key. -/
theorem InOrder.sublist_iff {y : ℚ × α} (hkey : Function.Injective key) (h : InOrder key z)
    (hz : z.Distinct) (hx : x ∈ z) (hy : y ∈ z) (hne : x.2 ≠ y.2) :
    [x.2, y.2].Sublist z.members ↔ x.1 < y.1 ∨ x.1 = y.1 ∧ key x.2 < key y.2 := by
  have hstrict : ∀ {a b : ℚ × α}, a.2 ≠ b.2 → [a, b].Sublist z →
      a.1 < b.1 ∨ a.1 = b.1 ∧ key a.2 < key b.2 := by
    intro a b hab hsub
    have hpair : precedes key a b := List.pairwise_pair.mp (h.sublist hsub)
    rcases hpair with hlt | ⟨heq, hle⟩
    · exact .inl hlt
    · exact .inr ⟨heq, hle.lt_of_ne fun hk => hab (hkey hk)⟩
  constructor
  · intro hsub
    obtain ⟨l, hl, hmap⟩ := List.sublist_map_iff.mp hsub
    -- a member has one entry
    obtain ⟨a, l, rfl, hax, hmap⟩ := List.map_eq_cons_iff.mp hmap.symm
    obtain ⟨b, l, rfl, hby, hmap⟩ := List.map_eq_cons_iff.mp hmap
    obtain rfl := List.map_eq_nil_iff.mp hmap
    obtain rfl : a = x := List.inj_on_of_nodup_map hz (hl.subset (by simp)) hx hax
    obtain rfl : b = y := List.inj_on_of_nodup_map hz (hl.subset (by simp)) hy hby
    exact hstrict hne hl
  · intro hlt
    rcases pair_sublist hx hy (fun heq => hne (congrArg Prod.snd heq)) with hsub | hsub
    · exact hsub.map Prod.snd
    · have hback := hstrict hne.symm hsub
      exfalso
      rcases hlt with hlt | ⟨heq, hlt⟩ <;> rcases hback with hlt' | ⟨heq', hlt'⟩
      · exact hlt.not_gt hlt'
      · exact hlt.ne heq'.symm
      · exact hlt'.ne heq.symm
      · exact hlt.not_gt hlt'

end SortedSet

end SpotExchange.Lib
