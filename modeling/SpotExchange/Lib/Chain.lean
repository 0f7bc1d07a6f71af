import Mathlib.Logic.Function.Basic
import Mathlib.Data.List.Nodup
import Mathlib.Tactic.Common

namespace SpotExchange.Lib

/-!
# Singly linked lists in a pool

`Chain next p l` says that following `next` from the pointer `p` visits exactly the cells `l`
and ends in the null pointer.  The list `l` is determined by `p` (`Chain.unique`), and a write
to cells outside `l` does not disturb the chain (`Chain.congr`).  The pointer surgery of an
append at the tail and of an unlink in the middle is `Chain.snoc` and `Chain.unlink`.
-/

variable {ι : Type*} {next next' : ι → Option ι} {p : Option ι}

/-- Following `next` from `p` visits the cells `l` and ends. -/
def Chain (next : ι → Option ι) : Option ι → List ι → Prop
  | p, [] => p = none
  | p, i :: l => p = some i ∧ Chain next (next i) l

@[simp] theorem chain_nil : Chain next p [] ↔ p = none := Iff.rfl

@[simp] theorem chain_cons {i : ι} {l : List ι} :
    Chain next p (i :: l) ↔ p = some i ∧ Chain next (next i) l := Iff.rfl

/-- A chain's first cell is the one its head pointer names. -/
theorem Chain.head_eq {l : List ι} (h : Chain next p l) : p = l.head? := by
  cases l with
  | nil => exact h
  | cons i l => exact h.1

/-- The cells of a chain are determined by its head pointer. -/
theorem Chain.unique {l l' : List ι} (h : Chain next p l) (h' : Chain next p l') : l = l' := by
  induction l generalizing p l' with
  | nil =>
    cases l' with
    | nil => rfl
    | cons j l' => rw [chain_nil.mp h] at h'; exact absurd h'.1 (by simp)
  | cons i l ih =>
    obtain ⟨rfl, h2⟩ := h
    cases l' with
    | nil => exact absurd h' (by simp)
    | cons j l' =>
      obtain ⟨hij, h2'⟩ := h'
      obtain rfl : i = j := by simpa using hij
      rw [ih h2 h2']

/-- **Frame.** A chain only reads the links of its own cells. -/
theorem Chain.congr {l : List ι} (h : Chain next p l) (heq : ∀ i ∈ l, next' i = next i) :
    Chain next' p l := by
  induction l generalizing p with
  | nil => exact h
  | cons i l ih =>
    refine ⟨h.1, ?_⟩
    rw [heq i List.mem_cons_self]
    exact ih h.2 fun j hj => heq j (List.mem_cons_of_mem _ hj)

/-- Splitting a chain at a cell. -/
theorem Chain.tail_of_append {l₁ l₂ : List ι} {i : ι} (h : Chain next p (l₁ ++ i :: l₂)) :
    Chain next (next i) l₂ := by
  induction l₁ generalizing p with
  | nil => exact h.2
  | cons j l₁ ih => exact ih h.2

/-- The last cell's link is null. -/
theorem Chain.next_last {l : List ι} {t : ι} (h : Chain next p (l ++ [t])) : next t = none :=
  chain_nil.mp h.tail_of_append

variable [DecidableEq ι]

/-- Appending cell `n` behind the last cell `t`: link `t` to `n`, and end in `n`. -/
theorem Chain.snoc {l : List ι} {t n : ι} (h : Chain next p (l ++ [t]))
    (ht : t ∉ l) (hn : n ∉ l ++ [t]) :
    Chain (Function.update (Function.update next t (some n)) n none) p (l ++ [t] ++ [n]) := by
  have hnt : n ≠ t := fun e => hn (by simp [e])
  induction l generalizing p with
  | nil =>
    refine ⟨h.1, ?_, ?_⟩
    · rw [Function.update_of_ne hnt.symm, Function.update_self]
    · simp
  | cons i l ih =>
    simp only [List.cons_append, List.mem_cons, not_or] at ht hn
    refine ⟨h.1, ?_⟩
    rw [Function.update_of_ne (Ne.symm hn.1), Function.update_of_ne (Ne.symm ht.1)]
    exact ih h.2 ht.2 hn.2

/-- Unlinking cell `c` behind cell `b`: link `b` to `c`'s successor. -/
theorem Chain.unlink {l₁ l₂ : List ι} {b c : ι} (h : Chain next p (l₁ ++ b :: c :: l₂))
    (hnd : (l₁ ++ b :: c :: l₂).Nodup) :
    Chain (Function.update next b (next c)) p (l₁ ++ b :: l₂) := by
  induction l₁ generalizing p with
  | nil =>
    refine ⟨h.1, ?_⟩
    rw [Function.update_self]
    refine h.2.2.congr fun i hi => Function.update_of_ne ?_ _ _
    rintro rfl
    simp only [List.nil_append, List.nodup_cons, List.mem_cons, not_or] at hnd
    exact hnd.1.2 hi
  | cons i l₁ ih =>
    simp only [List.cons_append, List.nodup_cons, List.mem_append, List.mem_cons, not_or] at hnd
    refine ⟨h.1, ?_⟩
    rw [Function.update_of_ne hnd.1.2.1]
    exact ih h.2 (by simpa using hnd.2)

end SpotExchange.Lib
