import Mathlib.Data.List.Sort

namespace SpotExchange.Lib

/-!
# Stable sorting

An insertion sort keeps the order of the entries that it need not exchange.

* `filter_insertionSort` — sorting and picking out entries commute;
* `filter_insertionSort_of_forall` — entries that need not be exchanged stay as they are.
-/

variable {α : Type*} {r : α → α → Prop} [DecidableRel r] {a : α} {l : List α} {p : α → Bool}

/-- An entry that is not picked out. -/
theorem filter_orderedInsert_of_neg (h : p a = false) (l : List α) :
    (l.orderedInsert r a).filter p = l.filter p := by
  induction l with
  | nil => simp [h]
  | cons b l ih =>
    rw [List.orderedInsert_cons]
    split_ifs
    · rw [List.filter_cons_of_neg (by simp [h])]
    · rw [List.filter_cons, List.filter_cons, ih]

/-- An entry that is picked out of a sorted list. -/
theorem filter_orderedInsert_of_pos [IsTrans α r] (h : p a = true) (hl : l.Pairwise r) :
    (l.orderedInsert r a).filter p = (l.filter p).orderedInsert r a := by
  induction l with
  | nil => simp [h]
  | cons b l ih =>
    rw [List.pairwise_cons] at hl
    rw [List.orderedInsert_cons]
    split_ifs with hab
    · rw [List.filter_cons_of_pos h]
      -- the entry is in front of all that are picked out
      have hall : ∀ c ∈ (b :: l).filter p, r a c := by
        intro c hc
        rcases List.mem_cons.mp (List.mem_of_mem_filter hc) with rfl | hc
        · exact hab
        · exact trans_of r hab (hl.1 c hc)
      cases hfilter : (b :: l).filter p with
      | nil => rfl
      | cons c cs =>
        rw [List.orderedInsert_cons, if_pos (hall c (by rw [hfilter]; exact List.mem_cons_self))]
    · rw [List.filter_cons, List.filter_cons, ih hl.2]
      split_ifs
      · rw [List.orderedInsert_cons, if_neg hab]
      · rfl

variable [Std.Total r] [IsTrans α r]

/-- **Sorting is stable**: what is picked out of a sorted list is sorted as it was. -/
theorem filter_insertionSort (p : α → Bool) (l : List α) :
    (l.insertionSort r).filter p = (l.filter p).insertionSort r := by
  induction l with
  | nil => rfl
  | cons a l ih =>
    rw [List.insertionSort_cons]
    cases h : p a with
    | false => rw [filter_orderedInsert_of_neg h, ih, List.filter_cons_of_neg (by simp [h])]
    | true =>
      rw [filter_orderedInsert_of_pos h (List.pairwise_insertionSort r l), ih,
        List.filter_cons_of_pos h, List.insertionSort_cons]

/-- Entries that need not be exchanged stay as they are. -/
theorem filter_insertionSort_of_forall (h : ∀ a b, p a = true → p b = true → r a b) (l : List α) :
    (l.insertionSort r).filter p = l.filter p := by
  rw [filter_insertionSort]
  refine List.Pairwise.insertionSort_eq (List.Pairwise.imp_of_mem (R := fun _ _ => True) ?_ ?_)
  · intro a b ha hb _
    exact h a b (List.mem_filter.mp ha).2 (List.mem_filter.mp hb).2
  · exact List.pairwise_of_forall fun _ _ => trivial

end SpotExchange.Lib
