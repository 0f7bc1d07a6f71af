import Mathlib.Data.List.Induction
import Mathlib.Data.List.Nodup
import Mathlib.Tactic.Common

namespace SpotExchange.Lib

/-!
# Maps in insertion order

A map whose entries are listed in the order in which their keys came in: a new value for a key takes the
place of the old one, a new key goes to the end.

* `OrderedMap.set`, `OrderedMap.delete` — one entry, `OrderedMap.setAll` — one after the other;
* `OrderedMap.get?_set`, `OrderedMap.get?_delete`, `OrderedMap.get?_setAll` — what is found then;
* `lastAt` — the last value for a key in a list, which is what `setAll` leaves.
-/

section

variable {κ ν : Type*} [DecidableEq κ] {k k' : κ} {v v' : ν} {es es' : List (κ × ν)}

/-- The last value for a key. -/
def lastAt (k : κ) (es : List (κ × ν)) : Option ν := (es.filter fun e => e.1 = k).getLast?.map Prod.snd

@[simp] theorem lastAt_nil : lastAt k ([] : List (κ × ν)) = none := rfl

theorem lastAt_append : lastAt k (es ++ es') = (lastAt k es').or (lastAt k es) := by
  unfold lastAt
  rw [List.filter_append, List.getLast?_append, Option.map_or]

theorem lastAt_concat : lastAt k' (es ++ [(k, v)]) = if k' = k then some v else lastAt k' es := by
  rw [lastAt_append]
  by_cases h : k' = k
  · subst h
    simp [lastAt]
  · simp [lastAt, Ne.symm h, h]

/-- A key that is there has a last value. -/
theorem lastAt_eq_none : lastAt k es = none ↔ k ∉ es.map Prod.fst := by
  unfold lastAt
  rw [Option.map_eq_none_iff, List.getLast?_eq_none_iff, List.filter_eq_nil_iff]
  simp only [decide_eq_true_eq, List.mem_map, not_exists, not_and]

/-- Where no key comes twice, the value of an entry is the last one for its key. -/
theorem lastAt_eq_some_iff (hnodup : (es.map Prod.fst).Nodup) : lastAt k es = some v ↔ (k, v) ∈ es := by
  induction es using List.reverseRecOn with
  | nil => simp
  | append_singleton es e ih =>
    obtain ⟨k', v'⟩ := e
    rw [List.map_append, List.map_singleton, List.nodup_append] at hnodup
    have hnew : k' ∉ es.map Prod.fst := fun hmem => hnodup.2.2 _ hmem _ List.mem_cons_self rfl
    rw [lastAt_concat, List.mem_append, List.mem_singleton, Prod.mk.injEq]
    split_ifs with h
    · subst h
      have hnot : (k, v) ∉ es := fun hmem => hnew (List.mem_map_of_mem hmem)
      simp [hnot, eq_comm]
    · rw [ih hnodup.1]
      simp [h]

end

/-- **A map in insertion order.** -/
structure OrderedMap (κ ν : Type*) where
  entries : List (κ × ν)
  nodup : (entries.map Prod.fst).Nodup

namespace OrderedMap

variable {κ ν : Type*} [DecidableEq κ]

/-- The map without entries. -/
def empty : OrderedMap κ ν := ⟨[], List.nodup_nil⟩

/-- The value of a key. -/
def get? (m : OrderedMap κ ν) (k : κ) : Option ν := lastAt k m.entries

/-- A value for a key, in its old place or at the end. -/
def set (m : OrderedMap κ ν) (k : κ) (v : ν) : OrderedMap κ ν :=
  if h : k ∈ m.entries.map Prod.fst then
    { entries := m.entries.map fun e => if e.1 = k then (k, v) else e
      nodup := by
        have hkeys : ((m.entries.map fun e => if e.1 = k then (k, v) else e).map Prod.fst) =
            m.entries.map Prod.fst := by
          rw [List.map_map]
          refine List.map_congr_left fun e _ => ?_
          show (if e.1 = k then (k, v) else e).1 = e.1
          split_ifs with hk
          · exact hk.symm
          · rfl
        rw [hkeys]
        exact m.nodup }
  else
    { entries := m.entries ++ [(k, v)]
      nodup := by
        rw [List.map_append, List.map_singleton, List.nodup_append]
        refine ⟨m.nodup, List.nodup_singleton _, fun a ha b hb heq => h ?_⟩
        rw [heq, List.mem_singleton.mp hb] at ha
        exact ha }

/-- The map without a key. -/
def delete (m : OrderedMap κ ν) (k : κ) : OrderedMap κ ν where
  entries := m.entries.filter fun e => e.1 ≠ k
  nodup := m.nodup.sublist (List.filter_sublist.map _)

/-- Several values, one after the other. -/
def setAll (m : OrderedMap κ ν) (es : List (κ × ν)) : OrderedMap κ ν :=
  es.foldl (fun m e => m.set e.1 e.2) m

/-- The map of a list of entries. -/
def ofList (es : List (κ × ν)) : OrderedMap κ ν := empty.setAll es

variable {m : OrderedMap κ ν} {k k' : κ} {v v' : ν} {es : List (κ × ν)}

theorem get?_eq_some : m.get? k = some v ↔ (k, v) ∈ m.entries := lastAt_eq_some_iff m.nodup

@[simp] theorem get?_empty : (empty : OrderedMap κ ν).get? k = none := rfl

theorem mem_set : (k', v') ∈ (m.set k v).entries ↔ if k' = k then v' = v else (k', v') ∈ m.entries := by
  unfold set
  split_ifs with hmem hk hk
  · subst hk
    simp only [List.mem_map]
    constructor
    · rintro ⟨e, -, he⟩
      split_ifs at he with hek
      · exact (Prod.mk.inj he).2.symm
      · exact absurd (congrArg Prod.fst he) hek
    · rintro rfl
      obtain ⟨e, he, rfl⟩ := List.mem_map.mp hmem
      exact ⟨e, he, if_pos rfl⟩
  · simp only [List.mem_map]
    constructor
    · rintro ⟨e, he, heq⟩
      split_ifs at heq with hek
      · exact absurd (Prod.mk.inj heq).1.symm hk
      · exact heq ▸ he
    · intro he
      exact ⟨(k', v'), he, if_neg hk⟩
  · subst hk
    have hnot : (k', v') ∉ m.entries := fun he => hmem (List.mem_map_of_mem he)
    simp [hnot]
  · simp [hk]

/-- **A value for a key.** -/
theorem get?_set : (m.set k v).get? k' = if k' = k then some v else m.get? k' := by
  ext v'
  rw [get?_eq_some, mem_set]
  split_ifs
  · rw [Option.some.injEq, eq_comm]
  · rw [get?_eq_some]

/-- **The map without a key.** -/
theorem get?_delete : (m.delete k).get? k' = if k' = k then none else m.get? k' := by
  ext v'
  rw [get?_eq_some]
  unfold delete
  rw [List.mem_filter, decide_eq_true_eq]
  split_ifs with h
  · simp [h]
  · rw [get?_eq_some]
    simp [h]

/-- **Several values**: the last one for each key is found. -/
theorem get?_setAll : (m.setAll es).get? k = (lastAt k es).or (m.get? k) := by
  induction es using List.reverseRecOn with
  | nil => rfl
  | append_singleton es e ih =>
    have hstep : m.setAll (es ++ [e]) = (m.setAll es).set e.1 e.2 := by
      unfold setAll
      rw [List.foldl_append]
      rfl
    rw [hstep, get?_set, ih, lastAt_concat]
    split_ifs <;> rfl

theorem get?_ofList : (ofList es).get? k = lastAt k es := by
  rw [ofList, get?_setAll, get?_empty, Option.or_none]

end OrderedMap

end SpotExchange.Lib
