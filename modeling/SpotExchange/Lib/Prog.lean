import Mathlib.Algebra.BigOperators.Group.List.Defs
import Mathlib.Order.Defs.Unbundled
import Mathlib.Tactic.Common

namespace SpotExchange.Lib

/-!
# Programs that change a state and may raise

`Prog σ ε α` — a program over states `σ` that returns an `α` or raises an `ε`.  What it has done to
the state before it raises stays done; `Prog.atomically` takes back the part of the state that a
transaction covers.

* `Prog.wp` — the weakest precondition, with one postcondition for each way to end;
* `Prog.Moves` — a relation between the state before and after, whichever way the program ends;
  it passes through sequencing and loops when it is reflexive and transitive;
* `bind_eq_ok` and its kin — what a run that has returned tells about its parts.
-/

universe u

/-- A program. -/
def Prog (σ ε α : Type u) : Type u := σ → Except ε α × σ

namespace Prog

variable {σ ε α β : Type u}

instance : Monad (Prog σ ε) where
  pure a := fun s => (.ok a, s)
  bind x f := fun s =>
    match x s with
    | (.ok a, s') => f a s'
    | (.error e, s') => (.error e, s')

instance : LawfulMonad (Prog σ ε) := .mk' _
  (fun x => funext fun s => by
    show (match x s with | (.ok a, s') => (.ok (id a), s') | (.error e, s') => (.error e, s')) = x s
    rcases x s with ⟨_ | _, _⟩ <;> rfl)
  (fun _ _ => rfl)
  (fun x f g => funext fun s => by
    show (match (match x s with | (.ok a, s') => f a s' | (.error e, s') => (.error e, s')) with
      | (.ok b, s') => g b s' | (.error e, s') => (.error e, s')) =
      match x s with
      | (.ok a, s') => (match f a s' with | (.ok b, s'') => g b s'' | (.error e, s'') => (.error e, s''))
      | (.error e, s') => (.error e, s')
    rcases x s with ⟨_ | _, _⟩ <;> rfl)

/-- Look at the state. -/
def read (f : σ → α) : Prog σ ε α := fun s => (.ok (f s), s)

/-- Change the state. -/
def modify (f : σ → σ) : Prog σ ε PUnit := fun s => (.ok ⟨⟩, f s)

/-- Raise an exception. -/
def raise (e : ε) : Prog σ ε α := fun s => (.error e, s)

/-- Raise an exception unless the condition holds. -/
def require (p : Prop) [Decidable p] (e : ε) : Prog σ ε PUnit := if p then pure ⟨⟩ else raise e

/-- Do something with a value that may be missing. -/
def whenSome (x : Option β) (f : β → Prog σ ε PUnit) : Prog σ ε PUnit :=
  match x with
  | some b => f b
  | none => pure ⟨⟩

/-- Do something under a condition. -/
def whenever (p : Prop) [Decidable p] (x : Prog σ ε PUnit) : Prog σ ε PUnit :=
  if p then x else pure ⟨⟩

/-- A result computed without the state. -/
def ofExcept : Except ε α → Prog σ ε α
  | .ok a => pure a
  | .error e => raise e

/-- `try … except`: the handler gets the exception, and the state as it is then. -/
def tryExcept (x : Prog σ ε α) (handler : ε → Prog σ ε α) : Prog σ ε α := fun s =>
  match x s with
  | (.ok a, s') => (.ok a, s')
  | (.error e, s') => handler e s'

/-- `for x in xs`. -/
def forEach : List β → (β → Prog σ ε PUnit) → Prog σ ε PUnit
  | [], _ => pure ⟨⟩
  | x :: xs, body => do
      body x
      forEach xs body

/-- Run a transaction: when it raises, `restore before after` is what remains. -/
def atomically (restore : σ → σ → σ) (x : Prog σ ε α) : Prog σ ε α := fun s =>
  match x s with
  | (.ok a, s') => (.ok a, s')
  | (.error e, s') => (.error e, restore s s')

/-! ### Runs -/

variable {x : Prog σ ε α} {f : α → Prog σ ε β} {s s' : σ} {a : α} {b : β} {e : ε}

@[simp] theorem pure_apply (a : α) (s : σ) : (pure a : Prog σ ε α) s = (.ok a, s) := rfl

@[simp] theorem read_apply (g : σ → α) (s : σ) : (read g : Prog σ ε α) s = (.ok (g s), s) := rfl

@[simp] theorem modify_apply (g : σ → σ) (s : σ) :
    (modify g : Prog σ ε PUnit) s = (.ok ⟨⟩, g s) := rfl

@[simp] theorem raise_apply (e : ε) (s : σ) : (raise e : Prog σ ε α) s = (.error e, s) := rfl

theorem bind_apply (x : Prog σ ε α) (f : α → Prog σ ε β) (s : σ) :
    (x >>= f) s = match x s with
      | (.ok a, s') => f a s'
      | (.error e, s') => (.error e, s') := rfl

theorem bind_of_ok (h : x s = (.ok a, s')) : (x >>= f) s = f a s' := by
  rw [bind_apply, h]

theorem bind_of_error (h : x s = (.error e, s')) : (x >>= f) s = (.error e, s') := by
  rw [bind_apply, h]

/-- **A sequence returns** when both parts do. -/
theorem bind_eq_ok {s'' : σ} :
    (x >>= f) s = (.ok b, s'') ↔ ∃ a s', x s = (.ok a, s') ∧ f a s' = (.ok b, s'') := by
  rw [bind_apply]
  rcases hx : x s with ⟨_ | a, s'⟩
  · simp
  · constructor
    · intro h
      exact ⟨a, s', rfl, h⟩
    · rintro ⟨a', s₁, h, h'⟩
      obtain ⟨rfl, rfl⟩ : a = a' ∧ s' = s₁ := by simpa using h
      exact h'

/-- A sequence raises when one of its parts does. -/
theorem bind_eq_error {s'' : σ} :
    (x >>= f) s = (.error e, s'') ↔
      x s = (.error e, s'') ∨ ∃ a s', x s = (.ok a, s') ∧ f a s' = (.error e, s'') := by
  rw [bind_apply]
  rcases hx : x s with ⟨e' | a, s'⟩
  · simp
  · simp only [Prod.mk.injEq, reduceCtorEq, false_and, false_or, Except.ok.injEq]
    constructor
    · intro h
      exact ⟨a, s', ⟨rfl, rfl⟩, h⟩
    · rintro ⟨a', s₁, ⟨rfl, rfl⟩, h⟩
      exact h

theorem atomically_eq_ok {restore : σ → σ → σ} :
    atomically restore x s = (.ok a, s') ↔ x s = (.ok a, s') := by
  unfold atomically
  rcases x s with ⟨_ | _, _⟩ <;> simp

theorem atomically_eq_error {restore : σ → σ → σ} :
    atomically restore x s = (.error e, s') ↔ ∃ s₁, x s = (.error e, s₁) ∧ restore s s₁ = s' := by
  unfold atomically
  rcases x s with ⟨e' | _, s₁⟩
  · simp only [Prod.mk.injEq, Except.error.injEq]
    constructor
    · rintro ⟨rfl, rfl⟩
      exact ⟨s₁, ⟨rfl, rfl⟩, rfl⟩
    · rintro ⟨s₂, ⟨rfl, rfl⟩, rfl⟩
      exact ⟨rfl, rfl⟩
  · simp

theorem require_eq_ok {p : Prop} [Decidable p] {u : PUnit} :
    require p e s = (.ok u, s') ↔ p ∧ s = s' := by
  unfold require
  by_cases h : p <;> simp [h]

theorem ofExcept_eq_ok {r : Except ε α} : ofExcept r s = (.ok a, s') ↔ r = .ok a ∧ s = s' := by
  cases r <;> simp [ofExcept]

theorem whenSome_eq_ok {y : Option β} {g : β → Prog σ ε PUnit} {u : PUnit} :
    whenSome y g s = (.ok u, s') ↔
      y = none ∧ s = s' ∨ ∃ b, y = some b ∧ g b s = (.ok u, s') := by
  cases y <;> simp [whenSome]

theorem whenever_eq_ok {p : Prop} [Decidable p] {y : Prog σ ε PUnit} {u : PUnit} :
    whenever p y s = (.ok u, s') ↔ ¬ p ∧ s = s' ∨ p ∧ y s = (.ok u, s') := by
  unfold whenever
  by_cases h : p <;> simp [h]

theorem forEach_cons (x : β) (xs : List β) (body : β → Prog σ ε PUnit) :
    forEach (x :: xs) body = body x >>= fun _ => forEach xs body := rfl

/-- A loop whose iterations always return returns. -/
theorem forEach_total {f : β → Prog σ ε PUnit} (h : ∀ x s, ∃ s', f x s = (.ok ⟨⟩, s'))
    (xs : List β) (s : σ) : ∃ s', forEach xs f s = (.ok ⟨⟩, s') := by
  induction xs generalizing s with
  | nil => exact ⟨s, rfl⟩
  | cons x xs ih =>
    obtain ⟨s₁, hx⟩ := h x s
    rw [forEach_cons, bind_of_ok hx]
    exact ih s₁

/-! ### Weakest preconditions -/

/-- The states from which the program ends in `Q` if it returns, and in `E` if it raises. -/
def wp (x : Prog σ ε α) (Q : α → σ → Prop) (E : ε → σ → Prop) (s : σ) : Prop :=
  match x s with
  | (.ok a, s') => Q a s'
  | (.error e, s') => E e s'

section

variable {Q : α → σ → Prop} {R : β → σ → Prop} {E : ε → σ → Prop}

@[simp] theorem wp_pure {a : α} : wp (pure a) Q E s ↔ Q a s := Iff.rfl

@[simp] theorem wp_read {g : σ → α} : wp (read g) Q E s ↔ Q (g s) s := Iff.rfl

@[simp] theorem wp_modify {g : σ → σ} {Q : PUnit → σ → Prop} :
    wp (modify g) Q E s ↔ Q ⟨⟩ (g s) := Iff.rfl

@[simp] theorem wp_raise {e : ε} : wp (raise e) Q E s ↔ E e s := Iff.rfl

@[simp] theorem wp_bind : wp (x >>= f) R E s ↔ wp x (fun a => wp (f a) R E) E s := by
  unfold wp
  rw [bind_apply]
  rcases x s with ⟨_ | _, _⟩ <;> rfl

@[simp] theorem wp_ofExcept {r : Except ε α} :
    wp (ofExcept r) Q E s ↔ (∀ a, r = .ok a → Q a s) ∧ ∀ e, r = .error e → E e s := by
  cases r <;> simp [ofExcept]

@[simp] theorem wp_require {p : Prop} [Decidable p] {Q : PUnit → σ → Prop} :
    wp (require p e) Q E s ↔ (p → Q ⟨⟩ s) ∧ (¬ p → E e s) := by
  unfold require
  by_cases h : p <;> simp [h]

theorem wp_intro (hok : ∀ a s', x s = (.ok a, s') → Q a s')
    (herr : ∀ e s', x s = (.error e, s') → E e s') : wp x Q E s := by
  unfold wp
  rcases hx : x s with ⟨e | a, s'⟩
  · exact herr e s' hx
  · exact hok a s' hx

end

/-! ### Relations between before and after -/

/-- However the program ends, `R` relates the state before to the state after. -/
def Moves (R : σ → σ → Prop) (x : Prog σ ε α) : Prop := ∀ s, R s (x s).2

section

variable {R : σ → σ → Prop}

theorem Moves.of_ok (h : Moves R x) (hx : x s = (.ok a, s')) : R s s' := by
  have := h s
  rwa [hx] at this

theorem Moves.of_error (h : Moves R x) (hx : x s = (.error e, s')) : R s s' := by
  have := h s
  rwa [hx] at this

theorem Moves.wp (h : Moves R x) (s : σ) : Prog.wp x (fun _ => R s) (fun _ => R s) s :=
  wp_intro (fun _ _ => h.of_ok) fun _ _ => h.of_error

theorem Moves.mono {R' : σ → σ → Prop} (h : Moves R x) (hR : ∀ s s', R s s' → R' s s') :
    Moves R' x := fun s => hR _ _ (h s)

theorem moves_modify {g : σ → σ} (h : ∀ s, R s (g s)) : Moves R (modify g : Prog σ ε PUnit) := h

theorem Moves.ite {p : Prop} [Decidable p] {y : Prog σ ε α} (hx : p → Moves R x)
    (hy : ¬ p → Moves R y) : Moves R (if p then x else y) := by
  split_ifs with h
  · exact hx h
  · exact hy h

theorem Moves.atomically {restore : σ → σ → σ} (h : Moves R x)
    (hrestore : ∀ s s', R s s' → R s (restore s s')) : Moves R (Prog.atomically restore x) := by
  intro s
  have hR := h s
  unfold Prog.atomically
  rcases hx : x s with ⟨_ | _, s'⟩ <;> rw [hx] at hR
  · exact hrestore s s' hR
  · exact hR

variable [IsPreorder σ R]

theorem moves_pure (a : α) : Moves R (pure a : Prog σ ε α) := fun s => refl_of R s

theorem moves_read (g : σ → α) : Moves R (read g : Prog σ ε α) := fun s => refl_of R s

theorem moves_raise (e : ε) : Moves R (raise e : Prog σ ε α) := fun s => refl_of R s

theorem moves_require (p : Prop) [Decidable p] (e : ε) :
    Moves R (require p e : Prog σ ε PUnit) := by
  unfold require
  split_ifs
  · exact moves_pure _
  · exact moves_raise _

theorem Moves.whenSome {y : Option β} {g : β → Prog σ ε PUnit}
    (h : ∀ b, y = some b → Moves R (g b)) : Moves R (Prog.whenSome y g) := by
  cases y with
  | none => exact moves_pure _
  | some b => exact h b rfl

theorem Moves.whenever {p : Prop} [Decidable p] {y : Prog σ ε PUnit} (h : p → Moves R y) :
    Moves R (Prog.whenever p y) := by
  unfold Prog.whenever
  split_ifs with hp
  · exact h hp
  · exact moves_pure _

/-- **The sequence rule.** -/
theorem Moves.bind (hx : Moves R x) (hf : ∀ a, Moves R (f a)) : Moves R (x >>= f) := by
  intro s
  have hR := hx s
  rw [bind_apply]
  rcases heq : x s with ⟨_ | a, s'⟩ <;> rw [heq] at hR
  · exact hR
  · exact trans_of R hR (hf a s')

theorem Moves.tryExcept {handler : ε → Prog σ ε α} (hx : Moves R x)
    (hhandler : ∀ e, Moves R (handler e)) : Moves R (Prog.tryExcept x handler) := by
  intro s
  have hR := hx s
  unfold Prog.tryExcept
  rcases heq : x s with ⟨e | a, s'⟩ <;> rw [heq] at hR
  · exact trans_of R hR (hhandler e s')
  · exact hR

theorem Moves.forEach {body : β → Prog σ ε PUnit} {xs : List β}
    (h : ∀ x ∈ xs, Moves R (body x)) : Moves R (Prog.forEach xs body) := by
  induction xs with
  | nil => exact moves_pure _
  | cons x xs ih =>
    rw [forEach_cons]
    exact (h x List.mem_cons_self).bind fun _ => ih fun y hy => h y (List.mem_cons_of_mem _ hy)

/-- Each iteration of a loop that returns has returned, from a state reached by the loop. -/
theorem forEach_eq_ok_mem {body : β → Prog σ ε PUnit} {xs : List β} {u : PUnit}
    (hbody : ∀ x ∈ xs, Moves R (body x)) (h : forEach xs body s = (.ok u, s')) :
    ∀ x ∈ xs, ∃ s₁ s₂, R s s₁ ∧ body x s₁ = (.ok ⟨⟩, s₂) := by
  induction xs generalizing s with
  | nil => simp
  | cons y xs ih =>
    rw [forEach_cons] at h
    obtain ⟨_, s₁, hy, hxs⟩ := bind_eq_ok.mp h
    have hR := (hbody y List.mem_cons_self).of_ok hy
    intro x hx
    rcases List.mem_cons.mp hx with rfl | hx
    · exact ⟨s, s₁, refl_of R s, hy⟩
    · obtain ⟨s₂, s₃, hR', hx⟩ := ih (fun z hz => hbody z (List.mem_cons_of_mem _ hz)) hxs x hx
      exact ⟨s₂, s₃, trans_of R hR hR', hx⟩

end

/-! ### Relations that go with `Moves` -/

/-- What `g` sees of the state stays as it is. -/
def Keeps (g : σ → β) (s s' : σ) : Prop := g s' = g s

instance (g : σ → β) : IsPreorder σ (Keeps g) where
  refl _ := rfl
  trans _ _ _ h h' := h'.trans h

/-- An invariant stays true. -/
def Preserves (I : σ → Prop) (s s' : σ) : Prop := I s → I s'

instance (I : σ → Prop) : IsPreorder σ (Preserves I) where
  refl _ h := h
  trans _ _ _ h h' := h' ∘ h

/-! ### Loops with an invariant -/

/-- What each iteration that returns keeps. -/
theorem forEach_keeps {I : σ → Prop} {body : β → Prog σ ε PUnit} {xs : List β} {u : PUnit}
    (hkeep : ∀ x ∈ xs, ∀ s s', I s → body x s = (.ok ⟨⟩, s') → I s') (hI : I s)
    (h : forEach xs body s = (.ok u, s')) : I s' := by
  induction xs generalizing s with
  | nil =>
    obtain rfl : s = s' := congrArg Prod.snd h
    exact hI
  | cons x xs ih =>
    rw [forEach_cons] at h
    obtain ⟨_, s₁, hx, hxs⟩ := bind_eq_ok.mp h
    rw [List.forall_mem_cons] at hkeep
    exact ih hkeep.2 (hkeep.1 s s₁ hI hx) hxs

/-- **What one iteration brings about**, and all of them keep. -/
theorem forEach_establishes {I : σ → Prop} {body : β → Prog σ ε PUnit} {xs : List β} {u : PUnit}
    (hkeep : ∀ x ∈ xs, ∀ s s', I s → body x s = (.ok ⟨⟩, s') → I s') {x : β} (hx : x ∈ xs)
    (hmake : ∀ s s', body x s = (.ok ⟨⟩, s') → I s') (h : forEach xs body s = (.ok u, s')) : I s' := by
  induction xs generalizing s with
  | nil => exact absurd hx List.not_mem_nil
  | cons y xs ih =>
    rw [forEach_cons] at h
    obtain ⟨_, s₁, hy, hxs⟩ := bind_eq_ok.mp h
    rw [List.forall_mem_cons] at hkeep
    rcases List.mem_cons.mp hx with rfl | hx
    · exact forEach_keeps hkeep.2 (hmake s s₁ hy) hxs
    · exact ih hkeep.2 hx hxs

/-! ### Loops that accumulate -/

/-- **What a loop adds up to.**  Each iteration that returns moves the state by an amount, as long
    as `I` holds; amounts add up along a run. -/
theorem forEach_eq_ok_sum {D : Type*} [AddMonoid D] {T : D → σ → σ → Prop} {I : σ → Prop}
    {body : β → Prog σ ε PUnit} {u : PUnit} (hrefl : ∀ s, T 0 s s)
    (htrans : ∀ {d d' s s' s''}, T d s s' → T d' s' s'' → T (d + d') s s'') (δ : β → D)
    {xs : List β}
    (hbody : ∀ x ∈ xs, ∀ s s', I s → body x s = (.ok ⟨⟩, s') → I s' ∧ T (δ x) s s') (hI : I s)
    (h : forEach xs body s = (.ok u, s')) : I s' ∧ T (xs.map δ).sum s s' := by
  induction xs generalizing s with
  | nil =>
    obtain rfl : s = s' := congrArg Prod.snd h
    exact ⟨hI, hrefl s⟩
  | cons x xs ih =>
    rw [forEach_cons] at h
    obtain ⟨_, s₁, hx, hxs⟩ := bind_eq_ok.mp h
    obtain ⟨hI₁, hT₁⟩ := hbody x List.mem_cons_self s s₁ hI hx
    obtain ⟨hI', hT'⟩ := ih (fun y hy => hbody y (List.mem_cons_of_mem _ hy)) hI₁ hxs
    rw [List.map_cons, List.sum_cons]
    exact ⟨hI', htrans hT₁ hT'⟩

end Prog

end SpotExchange.Lib
