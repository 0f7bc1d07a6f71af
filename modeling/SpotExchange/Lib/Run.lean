import Mathlib.Tactic.Common

namespace SpotExchange.Lib

/-!
# Runs of a deterministic system

A system answers a request in a state with the next state.

* `Run.after` — the state after a list of requests;
* `Run.Along` — each request of a run meets a condition in the state that it finds;
* `Run.Along.invariant` — the invariant rule, and `Run.Along.mono`, which strengthens the condition
  by an invariant;
* `Run.along_iff_forall_prefix` — a property of all states of a run, as a condition on its requests.
-/

namespace Run

variable {σ ρ : Type*} (step : σ → ρ → σ)

/-- The state after a list of requests. -/
def after (s : σ) (reqs : List ρ) : σ := reqs.foldl step s

/-- Each request meets `C` in the state that it finds. -/
def Along (C : σ → ρ → Prop) : σ → List ρ → Prop
  | _, [] => True
  | s, req :: reqs => C s req ∧ Along C (step s req) reqs

variable {step} {C D : σ → ρ → Prop} {I : σ → Prop} {s : σ} {req : ρ} {reqs reqs' : List ρ}

@[simp] theorem after_nil : after step s [] = s := rfl

@[simp] theorem after_cons : after step s (req :: reqs) = after step (step s req) reqs := rfl

theorem after_append : after step s (reqs ++ reqs') = after step (after step s reqs) reqs' :=
  List.foldl_append

/-- The invariant rule without a condition. -/
theorem invariant (hstep : ∀ s req, I s → I (step s req)) (h : I s) (reqs : List ρ) :
    I (after step s reqs) := by
  induction reqs generalizing s with
  | nil => exact h
  | cons req reqs ih => exact ih (hstep s req h)

namespace Along

theorem of_forall (h : ∀ req ∈ reqs, ∀ s, C s req) : Along step C s reqs := by
  induction reqs generalizing s with
  | nil => trivial
  | cons req reqs ih =>
    rw [List.forall_mem_cons] at h
    exact ⟨h.1 s, ih h.2⟩

theorem and (h : Along step C s reqs) (h' : Along step D s reqs) :
    Along step (fun s req => C s req ∧ D s req) s reqs := by
  induction reqs generalizing s with
  | nil => trivial
  | cons req reqs ih => exact ⟨⟨h.1, h'.1⟩, ih h.2 h'.2⟩

theorem append_iff : Along step C s (reqs ++ reqs') ↔
    Along step C s reqs ∧ Along step C (after step s reqs) reqs' := by
  induction reqs generalizing s with
  | nil => exact ⟨fun h => ⟨trivial, h⟩, fun h => h.2⟩
  | cons req reqs ih =>
    constructor
    · rintro ⟨h, hrest⟩
      obtain ⟨hrest, htail⟩ := ih.mp hrest
      exact ⟨⟨h, hrest⟩, htail⟩
    · rintro ⟨⟨h, hrest⟩, htail⟩
      exact ⟨h, ih.mpr ⟨hrest, htail⟩⟩

/-- **The invariant rule.** -/
theorem invariant (hstep : ∀ s req, I s → C s req → I (step s req)) (h : I s)
    (hrun : Along step C s reqs) : I (after step s reqs) := by
  induction reqs generalizing s with
  | nil => exact h
  | cons req reqs ih => exact ih (hstep s req h hrun.1) hrun.2

/-- **What the invariant adds**: each request meets `D` where it meets `C` and the invariant holds. -/
theorem mono (hstep : ∀ s req, I s → C s req → I (step s req) ∧ D s req) (h : I s)
    (hrun : Along step C s reqs) : Along step D s reqs := by
  induction reqs generalizing s with
  | nil => trivial
  | cons req reqs ih =>
    obtain ⟨hI, hD⟩ := hstep s req h hrun.1
    exact ⟨hD, ih hI hrun.2⟩

end Along

/-- **A property of every state of a run**: if a request keeps it exactly where it meets `C`, it holds in
    every state exactly if each request meets `C`. -/
theorem along_iff_forall_prefix {P : σ → Prop} (hstep : ∀ s req, I s → I (step s req))
    (hkeep : ∀ s req, I s → P s → (P (step s req) ↔ C s req)) (h : I s) (hP : P s) :
    Along step C s reqs ↔ ∀ pre, pre <+: reqs → P (after step s pre) := by
  induction reqs generalizing s with
  | nil =>
    constructor
    · intro _ pre hpre
      rw [List.prefix_nil.mp hpre]
      exact hP
    · exact fun _ => trivial
  | cons req reqs ih =>
    constructor
    · rintro ⟨hC, hrest⟩ pre hpre
      cases pre with
      | nil => exact hP
      | cons req' pre =>
        obtain ⟨heq, hpre'⟩ := List.cons_prefix_cons.mp hpre
        subst heq
        exact (ih (hstep s _ h) ((hkeep s _ h hP).mpr hC)).mp hrest pre hpre'
    · intro hall
      have hnext : P (step s req) := hall [req] (List.cons_prefix_cons.mpr ⟨rfl, List.nil_prefix⟩)
      refine ⟨(hkeep s req h hP).mp hnext, (ih (hstep s req h) hnext).mpr fun pre hpre => ?_⟩
      exact hall (req :: pre) (List.cons_prefix_cons.mpr ⟨rfl, hpre⟩)

end Run

end SpotExchange.Lib
