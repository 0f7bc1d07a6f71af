import Mathlib.Data.List.Basic
import Mathlib.Tactic.Common

namespace SpotExchange.Lib

/-!
# Fields with a separator after each

A text of a fixed number of fields, each followed by a separator, and a rest that may be anything.

* `framed sep fields rest` — the text;
* `framed_inj` — fields without the separator, and the rest, can be read off again.
-/

variable {α : Type*}

/-- The fields, each with a separator after it, and the rest. -/
def framed (sep : α) (fields : List (List α)) (rest : List α) : List α :=
  fields.foldr (fun field text => field ++ sep :: text) rest

variable {sep : α} {fields fields' : List (List α)} {field field' rest rest' : List α}

@[simp] theorem framed_nil : framed sep [] rest = rest := rfl

@[simp] theorem framed_cons :
    framed sep (field :: fields) rest = field ++ sep :: framed sep fields rest := rfl

/-- A field ends at the first separator. -/
theorem append_cons_inj (h : sep ∉ field) (h' : sep ∉ field')
    (heq : field ++ sep :: rest = field' ++ sep :: rest') : field = field' ∧ rest = rest' := by
  induction field generalizing field' with
  | nil =>
    cases field' with
    | nil => exact ⟨rfl, List.tail_eq_of_cons_eq heq⟩
    | cons c cs =>
      rw [List.nil_append, List.cons_append, List.cons.injEq] at heq
      exact absurd (by rw [heq.1]; exact List.mem_cons_self) h'
  | cons c cs ih =>
    cases field' with
    | nil =>
      rw [List.nil_append, List.cons_append, List.cons.injEq] at heq
      exact absurd (by rw [heq.1]; exact List.mem_cons_self) h
    | cons c' cs' =>
      rw [List.mem_cons, not_or] at h h'
      rw [List.cons_append, List.cons_append, List.cons.injEq] at heq
      obtain ⟨hfield, hrest⟩ := ih h.2 h'.2 heq.2
      exact ⟨by rw [heq.1, hfield], hrest⟩

/-- **Fields without the separator can be read off again**, as many as there are. -/
theorem framed_inj (hlen : fields.length = fields'.length) (h : ∀ field ∈ fields, sep ∉ field)
    (h' : ∀ field ∈ fields', sep ∉ field)
    (heq : framed sep fields rest = framed sep fields' rest') : fields = fields' ∧ rest = rest' := by
  induction fields generalizing fields' with
  | nil =>
    cases fields' with
    | nil => exact ⟨rfl, heq⟩
    | cons field fields' => simp at hlen
  | cons field fields ih =>
    cases fields' with
    | nil => simp at hlen
    | cons field' fields' =>
      rw [List.forall_mem_cons] at h h'
      obtain ⟨hfield, htext⟩ := append_cons_inj h.1 h'.1 heq
      obtain ⟨hfields, hrest⟩ := ih (by simpa using hlen) h.2 h'.2 htext
      exact ⟨by rw [hfield, hfields], hrest⟩

end SpotExchange.Lib
