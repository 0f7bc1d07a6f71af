import Mathlib.Data.List.Basic
import Mathlib.Order.Lattice
import Mathlib.Tactic.Common

namespace SpotExchange.Lib

/-!
# Grouping in one pass

A list is read once, and the entries of each key are summed up in one group: the first entry of a key
starts the group, each further one extends it.

* `summary` — what becomes of the entries of one group;
* `Grouped` — the groups of a list: one for each key, in order, each the summary of its entries;
* `Grouped.extend_last`, `Grouped.start_new` — the next entry goes to the last group, or starts one.
-/

variable {α κ γ : Type*} [LinearOrder κ]

/-- The first entry starts the group, each further one extends it. -/
def summary (start : α → γ) (extend : γ → α → γ) : List α → Option γ
  | [] => none
  | x :: xs => some (xs.foldl extend (start x))

variable {key : α → κ} {label : γ → κ} {start : α → γ} {extend : γ → α → γ} {l : List α}
  {groups : List γ} {g : γ} {x : α}

theorem summary_concat : summary start extend (l ++ [x])
    = some (((summary start extend l).map fun g => extend g x).getD (start x)) := by
  cases l with
  | nil => rfl
  | cons y ys => simp [summary]

/-- **The groups of a list.** -/
structure Grouped (key : α → κ) (label : γ → κ) (start : α → γ) (extend : γ → α → γ) (l : List α)
    (groups : List γ) : Prop where
  increasing : (groups.map label).Pairwise (· < ·)
  covers : ∀ k, k ∈ groups.map label ↔ k ∈ l.map key
  summaries : ∀ g ∈ groups, summary start extend (l.filter fun x => key x = label g) = some g

namespace Grouped

theorem nil : Grouped key label start extend [] [] := ⟨by simp, by simp, by simp⟩

/-- A further entry of the last group. -/
theorem extend_last (hlabel : ∀ g x, label (extend g x) = label g)
    (h : Grouped key label start extend l (groups ++ [g])) (hkey : key x = label g) :
    Grouped key label start extend (l ++ [x]) (groups ++ [extend g x]) := by
  have hlabels : (groups ++ [extend g x]).map label = (groups ++ [g]).map label := by simp [hlabel]
  have hmem : label g ∈ l.map key := by
    rw [← h.covers]
    simp
  refine ⟨?_, fun k => ?_, fun g' hg' => ?_⟩
  · rw [hlabels]
    exact h.increasing
  · rw [hlabels, h.covers, List.map_append, List.mem_append, List.map_singleton,
      List.mem_singleton, hkey]
    constructor
    · exact .inl
    · rintro (hk | rfl)
      · exact hk
      · exact hmem
  · rw [List.mem_append, List.mem_singleton] at hg'
    obtain hg' | rfl := hg'
    · -- an earlier group has a smaller label
      have hlt : label g' < label g := by
        have hinc := h.increasing
        rw [List.map_append, List.pairwise_append] at hinc
        exact hinc.2.2 _ (List.mem_map_of_mem hg') _ (by simp)
      have hne : key x ≠ label g' := by
        rw [hkey]
        exact hlt.ne'
      rw [List.filter_append, List.filter_cons_of_neg (by simpa using hne), List.filter_nil,
        List.append_nil]
      exact h.summaries g' (List.mem_append_left _ hg')
    · have hsum := h.summaries g (List.mem_append_right _ List.mem_cons_self)
      rw [hlabel, List.filter_append, List.filter_cons_of_pos (by simpa using hkey),
        List.filter_nil, summary_concat, hsum]
      rfl

/-- An entry with a greater key than all before it. -/
theorem start_new (hlabel : ∀ x, label (start x) = key x)
    (h : Grouped key label start extend l groups) (hlast : ∀ k ∈ l.map key, k < key x) :
    Grouped key label start extend (l ++ [x]) (groups ++ [start x]) := by
  refine ⟨?_, fun k => ?_, fun g hg => ?_⟩
  · rw [List.map_append, List.pairwise_append]
    refine ⟨h.increasing, List.pairwise_singleton _ _, fun k hk k' hk' => ?_⟩
    rw [List.map_singleton, List.mem_singleton] at hk'
    rw [hk', hlabel]
    exact hlast k ((h.covers k).mp hk)
  · rw [List.map_append, List.mem_append, h.covers, List.map_append, List.mem_append,
      List.map_singleton, List.map_singleton, hlabel]
  · rw [List.mem_append, List.mem_singleton] at hg
    obtain hg | rfl := hg
    · have hlt : label g < key x := hlast _ ((h.covers _).mp (List.mem_map_of_mem hg))
      rw [List.filter_append, List.filter_cons_of_neg (by simpa using hlt.ne'), List.filter_nil,
        List.append_nil]
      exact h.summaries g hg
    · have hnone : l.filter (fun y => key y = label (start x)) = [] := by
        apply List.filter_eq_nil_iff.mpr
        intro y hy
        have hlt : key y < key x := hlast _ (List.mem_map_of_mem hy)
        simpa [hlabel] using hlt.ne
      rw [List.filter_append, hnone, List.nil_append, List.filter_cons_of_pos (by simp [hlabel]),
        List.filter_nil]
      rfl

end Grouped

end SpotExchange.Lib
