import Mathlib.Tactic.Common
import Mathlib.Algebra.GroupWithZero.Nat

namespace SpotExchange.Lib

/-!
# While loops with a bound

`whileFuel cond body n s` runs `while cond: body` from `s` for at most `n` iterations.  The
answer is `none` when the loop has not left by then (or when an iteration itself did not
finish), so a result `some t` is the state in which the unbounded loop leaves:
`whileFuel_mono` makes it independent of the bound.

* `whileFuel_total` — the total-correctness rule: an invariant and a natural-number measure
  that every iteration decreases give a bound that suffices;
* `whileFuel_inv` — the invariant rule for a run that is known to have left;
* `whileFuel_early` — a loop that now and then breaks, against the loop without the breaks;
* `whileFuel_rel` — two loops whose states stay related;
* `loopTrace` — the states in which the iterations begin, and `whileFuel_counts`, which counts them.
-/

variable {σ : Type*}

/-- `while cond: body` from `s`, for at most `n` iterations. -/
def whileFuel (cond : σ → Bool) (body : σ → Option σ) : ℕ → σ → Option σ
  | 0, s => if cond s then none else some s
  | n + 1, s => if cond s then (body s).bind (whileFuel cond body n) else some s

variable {cond : σ → Bool} {body : σ → Option σ}

/-- A loop whose test is false leaves at once, whatever the bound. -/
theorem whileFuel_of_not {s : σ} (h : cond s = false) (n : ℕ) :
    whileFuel cond body n s = some s := by
  cases n <;> simp [whileFuel, h]

/-- One iteration of a loop whose test is true. -/
theorem whileFuel_succ {s t : σ} (h : cond s = true) (hb : body s = some t) (n : ℕ) :
    whileFuel cond body (n + 1) s = whileFuel cond body n t := by
  simp [whileFuel, h, hb]

/-- A run that has left within `n` iterations gives the same state under every larger bound. -/
theorem whileFuel_mono {n m : ℕ} {s t : σ} (h : whileFuel cond body n s = some t)
    (hnm : n ≤ m) : whileFuel cond body m s = some t := by
  induction n generalizing s m with
  | zero =>
    cases hc : cond s with
    | true => simp [whileFuel, hc] at h
    | false =>
      rw [whileFuel_of_not hc] at h ⊢
      exact h
  | succ n ih =>
    obtain ⟨k, rfl⟩ : ∃ k, m = k + 1 := ⟨m - 1, by omega⟩
    cases hc : cond s with
    | false =>
      rw [whileFuel_of_not hc] at h ⊢
      exact h
    | true =>
      simp only [whileFuel, hc, if_true] at h ⊢
      cases hb : body s with
      | none => simp [hb] at h
      | some u =>
        simp only [hb, Option.bind_some] at h ⊢
        exact ih h (by omega)

/-- The state in which a loop leaves does not satisfy the test. -/
theorem whileFuel_exit {n : ℕ} {s t : σ} (h : whileFuel cond body n s = some t) :
    cond t = false := by
  induction n generalizing s with
  | zero =>
    cases hc : cond s with
    | true => simp [whileFuel, hc] at h
    | false =>
      rw [whileFuel_of_not hc, Option.some.injEq] at h
      exact h ▸ hc
  | succ n ih =>
    cases hc : cond s with
    | false =>
      rw [whileFuel_of_not hc, Option.some.injEq] at h
      exact h ▸ hc
    | true =>
      simp only [whileFuel, hc, if_true] at h
      cases hb : body s with
      | none => simp [hb] at h
      | some u => exact ih (by simpa [hb] using h)

/-- **Invariant rule.** What every iteration preserves holds of the state in which the loop
    leaves. -/
theorem whileFuel_inv {P : σ → Prop}
    (hstep : ∀ s t, P s → cond s = true → body s = some t → P t)
    {n : ℕ} {s t : σ} (hs : P s) (h : whileFuel cond body n s = some t) : P t := by
  induction n generalizing s with
  | zero =>
    cases hc : cond s with
    | true => simp [whileFuel, hc] at h
    | false =>
      rw [whileFuel_of_not hc, Option.some.injEq] at h
      exact h ▸ hs
  | succ n ih =>
    cases hc : cond s with
    | false =>
      rw [whileFuel_of_not hc, Option.some.injEq] at h
      exact h ▸ hs
    | true =>
      simp only [whileFuel, hc, if_true] at h
      cases hb : body s with
      | none => simp [hb] at h
      | some u =>
        simp only [hb, Option.bind_some] at h
        exact ih (hstep s u hs hc hb) h

/-- **Total correctness.** If every iteration from a state with `P` succeeds, keeps `P` and
    decreases `μ`, then `μ s` iterations suffice, and the loop leaves with `P`. -/
theorem whileFuel_total {P : σ → Prop} (μ : σ → ℕ)
    (hstep : ∀ s, P s → cond s = true → ∃ t, body s = some t ∧ P t ∧ μ t < μ s)
    {n : ℕ} {s : σ} (hs : P s) (hn : μ s ≤ n) :
    ∃ t, whileFuel cond body n s = some t ∧ P t ∧ cond t = false := by
  induction n generalizing s with
  | zero =>
    cases hc : cond s with
    | true =>
      obtain ⟨t, _, _, hlt⟩ := hstep s hs hc
      omega
    | false => exact ⟨s, whileFuel_of_not hc 0, hs, hc⟩
  | succ n ih =>
    cases hc : cond s with
    | false => exact ⟨s, whileFuel_of_not hc _, hs, hc⟩
    | true =>
      obtain ⟨t, hb, ht, hlt⟩ := hstep s hs hc
      obtain ⟨u, hu, hpu, hcu⟩ := ih ht (by omega)
      exact ⟨u, by rw [whileFuel_succ hc hb]; exact hu, hpu, hcu⟩

/-- **Early exit.** The iterations of `body'` are those of `body`, but some of them leave the loop
    instead.  Then a run of `body'` is that of `body`, or it leaves early. -/
theorem whileFuel_early {body' : σ → Option σ} {P Q : σ → Prop}
    (hstep : ∀ s t, P s → cond s = true → body s = some t →
      body' s = some t ∧ P t ∨ ∃ u, body' s = some u ∧ cond u = false ∧ Q u)
    {n : ℕ} {s t : σ} (hs : P s) (h : whileFuel cond body n s = some t) :
    whileFuel cond body' n s = some t ∧ P t ∨ ∃ u, whileFuel cond body' n s = some u ∧ Q u := by
  induction n generalizing s with
  | zero =>
    cases hc : cond s with
    | true => simp [whileFuel, hc] at h
    | false =>
      rw [whileFuel_of_not hc, Option.some.injEq] at h ⊢
      exact .inl ⟨h, h ▸ hs⟩
  | succ n ih =>
    cases hc : cond s with
    | false =>
      rw [whileFuel_of_not hc, Option.some.injEq] at h ⊢
      exact .inl ⟨h, h ▸ hs⟩
    | true =>
      cases hb : body s with
      | none => simp [whileFuel, hc, hb] at h
      | some u =>
        rw [whileFuel_succ hc hb] at h
        rcases hstep s u hs hc hb with ⟨hb', hu⟩ | ⟨v, hb', hv, hq⟩
        · rw [whileFuel_succ hc hb']
          exact ih hu h
        · exact .inr ⟨v, by rw [whileFuel_succ hc hb', whileFuel_of_not hv], hq⟩

/-- **Simulation.** Two loops whose states are related from iteration to iteration leave in
    related states, or neither has left. -/
theorem whileFuel_rel {τ : Type*} {cond' : τ → Bool} {body' : τ → Option τ} {R : σ → τ → Prop}
    (hcond : ∀ s t, R s t → cond s = cond' t)
    (hbody : ∀ s t, R s t → cond s = true → Option.Rel R (body s) (body' t))
    (n : ℕ) {s : σ} {t : τ} (h : R s t) :
    Option.Rel R (whileFuel cond body n s) (whileFuel cond' body' n t) := by
  induction n generalizing s t with
  | zero =>
    rw [whileFuel, whileFuel, ← hcond s t h]
    split_ifs
    · exact .none
    · exact .some h
  | succ n ih =>
    rw [whileFuel, whileFuel, ← hcond s t h]
    split_ifs with hc
    · have hrel := hbody s t h hc
      generalize body s = x, body' t = y at hrel
      cases hrel with
      | some hrel => exact ih hrel
      | none => exact .none
    · exact .some h

/-! ### Iterations -/

/-- The states in which the iterations of a loop begin. -/
def loopTrace (cond : σ → Bool) (body : σ → Option σ) : ℕ → σ → List σ
  | 0, _ => []
  | n + 1, s => if cond s then s :: (body s).elim [] (loopTrace cond body n) else []

theorem loopTrace_of_not {s : σ} (h : cond s = false) (n : ℕ) : loopTrace cond body n s = [] := by
  cases n <;> simp [loopTrace, h]

theorem loopTrace_succ {s t : σ} (h : cond s = true) (hb : body s = some t) (n : ℕ) :
    loopTrace cond body (n + 1) s = s :: loopTrace cond body n t := by
  simp [loopTrace, h, hb]

/-- An iteration begins where the test is true. -/
theorem loopTrace_cond {n : ℕ} {s t : σ} (h : t ∈ loopTrace cond body n s) : cond t = true := by
  induction n generalizing s with
  | zero => exact absurd h (by simp [loopTrace])
  | succ n ih =>
    cases hc : cond s with
    | false => exact absurd h (by simp [loopTrace_of_not hc])
    | true =>
      rw [loopTrace, if_pos hc] at h
      rcases List.mem_cons.mp h with rfl | h
      · exact hc
      · cases hb : body s with
        | none => exact absurd h (by simp [hb])
        | some u => exact ih (by simpa [hb] using h)

/-- What every iteration preserves holds where an iteration begins. -/
theorem loopTrace_inv {P : σ → Prop}
    (hstep : ∀ s t, P s → cond s = true → body s = some t → P t)
    {n : ℕ} {s t : σ} (hs : P s) (h : t ∈ loopTrace cond body n s) : P t := by
  induction n generalizing s with
  | zero => exact absurd h (by simp [loopTrace])
  | succ n ih =>
    cases hc : cond s with
    | false => exact absurd h (by simp [loopTrace_of_not hc])
    | true =>
      rw [loopTrace, if_pos hc] at h
      rcases List.mem_cons.mp h with rfl | h
      · exact hs
      · cases hb : body s with
        | none => exact absurd h (by simp [hb])
        | some u => exact ih (hstep s u hs hc hb) (by simpa [hb] using h)

/-- **A counter with a limit.** If an iteration adds what `work` says, up to the limit, and the loop
    leaves in a state with `Q` where it would go past it, then so does the whole run. -/
theorem whileFuel_counts {count work : σ → ℕ} {Q : σ → Prop} {limit : ℕ}
    (hQ : ∀ s, Q s → cond s = false)
    (hstep : ∀ s t, cond s = true → body s = some t → count s ≤ limit →
      count t = min limit (count s + work s) ∧ (limit < count s + work s → Q t))
    {n : ℕ} {s t : σ} (hs : count s ≤ limit) (h : whileFuel cond body n s = some t) :
    count t = min limit (count s + ((loopTrace cond body n s).map work).sum) ∧
      (limit < count s + ((loopTrace cond body n s).map work).sum → Q t) := by
  have hstopped : ∀ {s t : σ} {n : ℕ}, cond s = false → count s ≤ limit →
      whileFuel cond body n s = some t →
        count t = min limit (count s + ((loopTrace cond body n s).map work).sum) ∧
          (limit < count s + ((loopTrace cond body n s).map work).sum → Q t) := by
    intro s t n hc hs h
    rw [whileFuel_of_not hc, Option.some.injEq] at h
    subst h
    rw [loopTrace_of_not hc, List.map_nil, List.sum_nil, Nat.add_zero]
    exact ⟨(Nat.min_eq_right hs).symm, fun hlt => absurd hlt (by omega)⟩
  induction n generalizing s with
  | zero =>
    cases hc : cond s with
    | true => simp [whileFuel, hc] at h
    | false => exact hstopped hc hs h
  | succ n ih =>
    cases hc : cond s with
    | false => exact hstopped hc hs h
    | true =>
      cases hb : body s with
      | none => simp [whileFuel, hc, hb] at h
      | some u =>
        obtain ⟨hcount, hover⟩ := hstep s u hc hb hs
        rw [whileFuel_succ hc hb] at h
        rw [loopTrace_succ hc hb, List.map_cons, List.sum_cons]
        rcases Nat.lt_or_ge limit (count s + work s) with hlt | hge
        · -- the loop leaves behind this iteration
          have hleft := hQ u (hover hlt)
          rw [whileFuel_of_not hleft, Option.some.injEq] at h
          subst h
          rw [loopTrace_of_not hleft, List.map_nil, List.sum_nil, Nat.add_zero]
          exact ⟨hcount, hover⟩
        · have hrest := ih (hcount ▸ Nat.min_le_left _ _) h
          rw [hcount, Nat.min_eq_right hge, Nat.add_assoc] at hrest
          exact hrest

end SpotExchange.Lib
