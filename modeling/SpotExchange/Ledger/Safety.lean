import SpotExchange.Ledger.Concurrent
import Mathlib.Algebra.BigOperators.Group.List.Basic

namespace SpotExchange.Ledger

open SpotExchange.Lib

/-!
# Safety of concurrent balance operations

* `Call.effect` — what a call that returns adds to each row, as the code means it;
* `Inv` — every row satisfies its invariant, and accounts balance: what a transaction sees is
  the committed row plus the effects in its log, and what is committed is the initial row plus
  the effects in the journal;
* `Inv.step` — every statement keeps it;
* `ledger_safety` — what follows for every interleaving.
-/

/-! ### Effects -/

/-- What a call that returns adds to a row. -/
def Call.effect : Call → BalanceKey → Value
  | .optimistic op key amount, k => if k = key then op.effect amount else 0
  | .pessimistic op key amount, k => if k = key then op.effect amount else 0
  | .settleTrade taker maker amount, k =>
      (if k = taker then Op.settle.effect amount else 0) +
        (if k = maker then Op.credit.effect amount else 0)
  | .adminAdjust key delta, k => if k = key then adjustEffect delta else 0

/-- A call that raises adds nothing. -/
def entryEffect (k : BalanceKey) : Call × Outcome → Value
  | (call, .returned) => call.effect k
  | (_, .raised _) => 0

/-- What a list of ended calls has added to a row. -/
def moved (entries : List (Call × Outcome)) (k : BalanceKey) : Value :=
  (entries.map (entryEffect k)).sum

@[simp] theorem moved_nil : moved [] = 0 := rfl

theorem moved_append (es es' : List (Call × Outcome)) : moved (es ++ es') = moved es + moved es' := by
  funext k
  simp [moved]

theorem moved_concat_raised (es : List (Call × Outcome)) (call : Call) (err : BalanceError) :
    moved (es ++ [(call, .raised err)]) = moved es := by
  funext k
  simp [moved, entryEffect]

theorem moved_concat_returned (es : List (Call × Outcome)) (call : Call) (k : BalanceKey) :
    moved (es ++ [(call, .returned)]) k = moved es k + call.effect k := by
  simp [moved, entryEffect]

/-- The value of a row that may not be there yet: an all-zero row is as good as none. -/
def rowValue : Option Row → Value
  | some row => row.value
  | none => Row.zero.value

/-! ### The invariant -/

/-- What a transaction relies on at a statement: the amount has been checked, and the rows that it
    has read under lock are still what it has read. -/
def Pc.Ok (store : RowStore TxId BalanceKey Row) (t : TxId) : Pc → Prop
  | .select _ _ amount _ => 0 < amount
  | .selectAgain _ _ amount _ => 0 < amount
  | .insert _ _ amount _ => 0 < amount
  | .update _ _ amount _ _ => 0 < amount
  | .mutate _ key _ balance => store.Held t key balance
  | .selectMaker taker _ _ takerBalance => store.Held t taker takerBalance
  | .mutateTrade taker maker _ takerBalance makerBalance =>
      store.Held t taker takerBalance ∧ store.Held t maker makerBalance
  | .adjust key _ balance => store.Held t key balance
  | _ => True

/-- A position only relies on rows that are held. -/
theorem Pc.Ok.mono {store store' : RowStore TxId BalanceKey Row} {t : TxId} {pc : Pc}
    (h : pc.Ok store t) (hheld : ∀ k v, store.Held t k v → store'.Held t k v) :
    pc.Ok store' t := by
  cases pc with
  | mutate op key amount balance => exact hheld _ _ h
  | selectMaker taker maker amount takerBalance => exact hheld _ _ h
  | mutateTrade taker maker amount takerBalance makerBalance =>
    exact ⟨hheld _ _ h.1, hheld _ _ h.2⟩
  | adjust key delta balance => exact hheld _ _ h
  | _ => exact h

/-- **The invariant** of a system that started with `rows`. -/
structure Inv (rows : BalanceKey → Option Row) (s : System) : Prop where
  balanced : s.store.Balanced rowValue (fun k => rowValue (rows k)) (moved s.journal)
    fun t => moved (s.log t)
  ok : s.store.Forall Row.Ok
  pc : ∀ t, (s.pc t).Ok s.store t

variable {rows : BalanceKey → Option Row} {s : System} {t : TxId}

theorem inv_start (hrows : ∀ k r, rows k = some r → r.Ok) : Inv rows (System.start rows) where
  balanced := RowStore.balanced_init rows
  ok := ⟨hrows, fun _ _ _ h => by simp [System.start, RowStore.init] at h⟩
  pc := fun _ => trivial

namespace Inv

/-! ### Steps that leave the rows alone -/

theorem goto (h : Inv rows s) {pc : Pc} (hpc : pc.Ok s.store t) : Inv rows (s.goto t pc) where
  balanced := h.balanced
  ok := h.ok
  pc := by
    intro t'
    by_cases ht : t' = t
    · subst ht; simpa [System.goto] using hpc
    · simpa [System.goto, ht] using h.pc t'

theorem raise (h : Inv rows s) (call : Call) (err : BalanceError) :
    Inv rows (s.raise t call err) where
  balanced := by
    have hlog : (fun t' => moved ((s.raise t call err).log t')) = fun t' => moved (s.log t') := by
      funext t'
      by_cases ht : t' = t
      · subst ht; simp [System.raise, System.finish, moved_concat_raised]
      · simp [System.raise, System.finish, ht]
    rw [hlog]
    exact h.balanced
  ok := h.ok
  pc := by
    intro t'
    by_cases ht : t' = t
    · subst ht; simp [System.raise, System.finish, Pc.Ok]
    · simpa [System.raise, System.finish, ht] using h.pc t'

theorem retry (h : Inv rows s) (op : Op) (key : BalanceKey) {amount : ℚ} (hamount : 0 < amount)
    (attempt : ℕ) : Inv rows (s.retry t op key amount attempt) := by
  unfold System.retry
  split_ifs
  · exact h.goto hamount
  · exact h.raise _ _

theorem afterSelect (h : Inv rows s) (op : Op) (key : BalanceKey) {amount : ℚ}
    (hamount : 0 < amount) (attempt : ℕ) (row : Row) :
    Inv rows (s.afterSelect t op key amount attempt row) := by
  unfold System.afterSelect
  split_ifs
  · exact h.raise _ _
  · exact h.goto hamount

theorem afterCreate (h : Inv rows s) (op : Op) (key : BalanceKey) {amount : ℚ}
    (hamount : 0 < amount) (attempt : ℕ) (row : Row) :
    Inv rows (s.afterCreate t op key amount attempt row) := by
  unfold System.afterCreate
  split_ifs
  · exact h.retry _ _ hamount _
  · exact h.afterSelect _ _ hamount _ _

/-! ### Steps that lock or write -/

theorem lock (h : Inv rows s) {key : BalanceKey} (ha : s.store.available t key = true) :
    Inv rows { s with store := s.store.lock t key } where
  balanced := h.balanced.lock ha
  ok := h.ok.lock
  pc := fun t' => (h.pc t').mono fun _ _ hheld => hheld.lock ha

/-- A write that moves the row by the effect of the call that it ends. -/
theorem writeFinish (h : Inv rows s) {key : BalanceKey} (ha : s.store.available t key = true)
    {row : Row} (hrow : row.Ok) {call : Call}
    (hvalue : row.value = rowValue (s.store.visible t key) + call.effect key)
    (heffect : ∀ k, k ≠ key → call.effect k = 0) :
    Inv rows ({ s with store := s.store.write t key row }.finish t call .returned) where
  balanced := by
    have hb := h.balanced.write ha (v := row) hvalue
    -- the finished call adds its effect to one entry of one log
    have hlog : (fun t' => moved (({ s with store := s.store.write t key row }.finish t call
        .returned).log t')) = Function.update (fun t => moved (s.log t)) t
          (Function.update (moved (s.log t)) key (moved (s.log t) key + call.effect key)) := by
      funext t' k
      by_cases ht : t' = t
      · subst ht
        by_cases hk : k = key
        · subst hk; simp [System.finish, moved_concat_returned]
        · simp [System.finish, moved_concat_returned, hk, heffect k hk]
      · simp [System.finish, ht]
    rw [hlog]
    exact hb
  ok := h.ok.write hrow
  pc := by
    intro t'
    by_cases ht : t' = t
    · subst ht; simp [System.finish, Pc.Ok]
    · have hpc := (h.pc t').mono fun k v hheld =>
        hheld.write row (Ne.symm ht) ha
      simpa [System.finish, ht] using hpc

/-- An all-zero row is created where there was none. -/
theorem insertZero (h : Inv rows s) {key : BalanceKey} (ha : s.store.available t key = true)
    (hnone : s.store.visible t key = none) (hpc : ∀ store, (s.pc t).Ok store t) :
    Inv rows (s.insertZero t key) where
  balanced := by
    have hb := h.balanced.write ha (v := Row.zero) (d := 0) (by rw [hnone, add_zero]; rfl)
    rw [add_zero, Function.update_eq_self, Function.update_eq_self] at hb
    exact hb
  ok := h.ok.write Row.ok_zero
  pc := by
    intro t'
    by_cases ht : t' = t
    · subst ht; exact hpc _
    · exact (h.pc t').mono fun k v hheld => hheld.write Row.zero (Ne.symm ht) ha

/-- `settle_trade_pessimistic`, on one row or on two. -/
theorem runMutateTrade (h : Inv rows s) {taker maker : BalanceKey} {amount : ℚ}
    {takerBalance makerBalance : Row} (ht : s.store.Held t taker takerBalance)
    (hm : s.store.Held t maker makerBalance) :
    Inv rows (s.runMutateTrade t taker maker amount takerBalance makerBalance) := by
  unfold System.runMutateTrade
  cases hsettle : settlePessimistic taker takerBalance amount with
  | error err => exact h.raise _ _
  | ok takerBalance' =>
    have hspec := Op.pessimistic_spec
      (show Op.settle.pessimistic taker takerBalance amount = _ from hsettle) (h.ok.visible ht.visible)
    -- the taker's row is written first; then the maker's row is the new one or untouched
    have hb₁ := h.balanced.write ht.available (v := takerBalance') (d := Op.settle.effect amount)
      (by rw [ht.visible]; exact hspec.2)
    have hok₁ := h.ok.write (t := t) (k := taker) hspec.1
    have hm₁ : (s.store.write t taker takerBalance').Held t maker
        (if maker = taker then takerBalance' else makerBalance) := by
      split_ifs with heq
      · rw [heq]; exact RowStore.held_write
      · exact hm.write_of_ne _ heq
    -- a credit of what was settled cannot fail
    obtain ⟨makerBalance', hcredit⟩ := creditPessimistic_ok maker
      (hok₁.visible hm₁.visible) (settlePessimistic_nonneg hsettle)
    have hspec' := Op.pessimistic_spec
      (show Op.credit.pessimistic maker _ amount = _ from hcredit) (hok₁.visible hm₁.visible)
    have hb₂ := hb₁.write hm₁.available (v := makerBalance') (d := Op.credit.effect amount)
      (by rw [hm₁.visible]; exact hspec'.2)
    simp only [hcredit]
    refine ⟨?_, hok₁.write hspec'.1, ?_⟩
    · refine hb₂.congr fun t' k => ?_
      by_cases htt : t' = t
      · subst htt
        -- the maker may be the taker: then both effects meet at one key
        by_cases hkm : k = maker <;> by_cases hkt : k = taker
        · subst hkm
          subst hkt
          simp [System.finish, moved_concat_returned, Call.effect, add_assoc]
        · subst hkm
          simp [System.finish, moved_concat_returned, Call.effect, hkt]
        · subst hkt
          simp [System.finish, moved_concat_returned, Call.effect, hkm]
        · simp [System.finish, moved_concat_returned, Call.effect, hkm, hkt]
      · simp [System.finish, htt]
    · intro t'
      by_cases htt : t' = t
      · subst htt; simp [System.finish, Pc.Ok]
      · have hpc := (h.pc t').mono fun k v hheld =>
          (hheld.write takerBalance' (Ne.symm htt) ht.available).write makerBalance'
            (Ne.symm htt) hm₁.available
        simpa [System.finish, htt] using hpc

/-! ### Every statement -/

/-- What `get_for_update` does, when it does not wait. -/
theorem getForUpdate (h : Inv rows s) {key : BalanceKey} (hb : ¬ s.blocked t key = true) :
    (s.getForUpdate t key = (none, s) ∧ s.store.visible t key = none) ∨
      ∃ row, s.getForUpdate t key = (some row, { s with store := s.store.lock t key }) ∧
        s.store.visible t key = some row ∧
        Inv rows { s with store := s.store.lock t key } ∧
        ∀ k v, s.store.Held t k v → (s.store.lock t key).Held t k v := by
  unfold System.getForUpdate
  cases hv : s.store.visible t key with
  | none => exact .inl ⟨rfl, rfl⟩
  | some row =>
    have ha : s.store.available t key = true := by simpa [System.blocked, hv] using hb
    exact .inr ⟨row, rfl, rfl, h.lock ha, fun _ _ hheld => hheld.lock ha⟩

/-- **The next statement** of a call keeps the invariant. -/
theorem next (h : Inv rows s) {s' : System} (hstep : s.next t = some s') : Inv rows s' := by
  have hpc := h.pc t
  unfold System.next at hstep
  cases hp : s.pc t with
  | idle => rw [hp] at hstep; exact absurd hstep (by simp)
  | failed => rw [hp] at hstep; exact absurd hstep (by simp)
  | select op key amount attempt =>
    rw [hp] at hstep hpc
    obtain rfl := Option.some.inj hstep
    unfold System.runSelect
    cases s.store.visible t key with
    -- the row is there; without it, it is created where the call may create it
    | some row => exact h.afterSelect _ _ hpc _ _
    | none =>
      dsimp only
      split_ifs
      · exact h.goto hpc
      · exact h.raise _ _
  | selectAgain op key amount attempt =>
    rw [hp] at hstep hpc
    cases hv : s.store.visible t key with
    | some row =>
      simp only [hv] at hstep
      obtain rfl := Option.some.inj hstep
      exact h.afterCreate _ _ hpc _ _
    | none =>
      simp only [hv] at hstep
      obtain rfl := Option.some.inj hstep
      exact h.goto hpc
  | insert op key amount attempt =>
    rw [hp] at hstep hpc
    cases hv : s.store.visible t key with
    | some row =>
      simp only [hv] at hstep
      obtain rfl := Option.some.inj hstep
      -- someone else inserted the row first: the unique key refuses this one
      exact (h.raise _ _).goto trivial
    | none =>
      simp only [hv] at hstep
      split_ifs at hstep with ha
      obtain rfl := Option.some.inj hstep
      have hins := h.insertZero (by simpa using ha) hv fun _ => by rw [hp]; exact hpc
      exact hins.afterCreate _ _ hpc _ _
  | update op key amount attempt version =>
    rw [hp] at hstep hpc
    simp only at hstep
    split_ifs at hstep with hb
    obtain rfl := Option.some.inj hstep
    unfold System.runUpdate
    cases hv : s.store.visible t key with
    -- no row, or its version has moved: the call reads again
    | none => exact h.retry _ _ hpc _
    | some row =>
      cases hop : op.optimistic row amount version with
      | none =>
        simp only [Option.bind_some, hop]
        exact h.retry _ _ hpc _
      | some row' =>
        simp only [Option.bind_some, hop]
        have hspec := Op.optimistic_spec hop (h.ok.visible hv) hpc
        refine h.writeFinish (by simpa [System.blocked, hv] using hb) hspec.1 ?_ ?_
        · rw [hv, hspec.2]; simp [rowValue, Call.effect]
        · intro k hk; simp [Call.effect, hk]
  | selectForUpdate op key amount =>
    rw [hp] at hstep
    simp only at hstep
    split_ifs at hstep with hb
    rcases h.getForUpdate hb with ⟨hget, -⟩ | ⟨row, hget, hv, hlock, -⟩ <;>
      simp only [hget] at hstep <;> obtain rfl := Option.some.inj hstep
    · exact h.raise _ _
    · exact hlock.goto (RowStore.held_lock hv)
  | mutate op key amount balance =>
    rw [hp] at hstep hpc
    have hheld : s.store.Held t key balance := hpc
    cases hop : op.pessimistic key balance amount with
    | error err =>
      simp only [hop] at hstep
      obtain rfl := Option.some.inj hstep
      exact h.raise _ _
    | ok row' =>
      simp only [hop] at hstep
      obtain rfl := Option.some.inj hstep
      have hspec := Op.pessimistic_spec hop (h.ok.visible hheld.visible)
      refine h.writeFinish hheld.available hspec.1 ?_ ?_
      · rw [hheld.visible, hspec.2]; simp [rowValue, Call.effect]
      · intro k hk; simp [Call.effect, hk]
  | selectTaker taker maker amount =>
    rw [hp] at hstep
    simp only at hstep
    split_ifs at hstep with hb
    rcases h.getForUpdate hb with ⟨hget, -⟩ | ⟨row, hget, hv, hlock, -⟩ <;>
      simp only [hget] at hstep <;> obtain rfl := Option.some.inj hstep
    · exact h.raise _ _
    · exact hlock.goto (RowStore.held_lock hv)
  | selectMaker taker maker amount takerBalance =>
    rw [hp] at hstep hpc
    simp only at hstep
    split_ifs at hstep with hb
    rcases h.getForUpdate hb with ⟨hget, -⟩ | ⟨row, hget, hv, hlock, hkeep⟩ <;>
      simp only [hget] at hstep <;> obtain rfl := Option.some.inj hstep
    · exact h.raise _ _
    · exact hlock.goto ⟨hkeep _ _ hpc, RowStore.held_lock hv⟩
  | mutateTrade taker maker amount takerBalance makerBalance =>
    rw [hp] at hstep hpc
    obtain rfl := Option.some.inj hstep
    exact h.runMutateTrade hpc.1 hpc.2
  | adjustSelect key delta =>
    rw [hp] at hstep
    simp only at hstep
    split_ifs at hstep with hb
    rcases h.getForUpdate hb with ⟨hget, -⟩ | ⟨row, hget, hv, hlock, -⟩ <;>
      simp only [hget] at hstep <;> obtain rfl := Option.some.inj hstep
    · exact h.goto trivial
    · exact hlock.goto (RowStore.held_lock hv)
  | adjustSelectAgain key delta =>
    rw [hp] at hstep
    cases hv : s.store.visible t key <;> simp only [hv] at hstep <;>
      obtain rfl := Option.some.inj hstep
    · exact h.goto trivial
    · exact h.goto trivial
  | adjustInsert key delta =>
    rw [hp] at hstep
    cases hv : s.store.visible t key with
    | some row =>
      simp only [hv] at hstep
      obtain rfl := Option.some.inj hstep
      exact (h.raise _ _).goto trivial
    | none =>
      simp only [hv] at hstep
      split_ifs at hstep with ha
      obtain rfl := Option.some.inj hstep
      have hins := h.insertZero (by simpa using ha) hv fun _ => by rw [hp]; trivial
      exact hins.goto trivial
  | adjustReselect key delta =>
    rw [hp] at hstep
    simp only at hstep
    split_ifs at hstep with hb
    rcases h.getForUpdate hb with ⟨hget, -⟩ | ⟨row, hget, hv, hlock, -⟩ <;>
      simp only [hget] at hstep <;> obtain rfl := Option.some.inj hstep
    · exact h.raise _ _
    · exact hlock.goto (RowStore.held_lock hv)
  | adjust key delta balance =>
    rw [hp] at hstep hpc
    have hheld : s.store.Held t key balance := hpc
    cases hop : adjustBalance key balance delta with
    | error err =>
      simp only [hop] at hstep
      obtain rfl := Option.some.inj hstep
      exact h.raise _ _
    | ok row' =>
      simp only [hop] at hstep
      obtain rfl := Option.some.inj hstep
      have hspec := adjustBalance_spec hop (h.ok.visible hheld.visible)
      refine h.writeFinish hheld.available hspec.1 ?_ ?_
      · rw [hheld.visible, hspec.2]; simp [rowValue, Call.effect]
      · intro k hk; simp [Call.effect, hk]

/-! ### Every step -/

theorem enter (h : Inv rows s) (c : Call) : Inv rows (s.enter t c) := by
  cases c with
  | optimistic op key amount =>
    rw [System.enter]
    split_ifs with hamount
    · exact h.raise _ _
    · exact h.goto (not_le.mp hamount)
  | pessimistic op key amount => exact h.goto trivial
  | settleTrade taker maker amount => exact h.goto trivial
  | adminAdjust key delta => exact h.goto trivial

theorem abort (h : Inv rows s) : Inv rows (s.abort t) where
  balanced := h.balanced.rollback.congr fun t' k => by
    by_cases ht : t' = t
    · subst ht; simp [System.abort]
    · simp [System.abort, ht]
  ok := h.ok.rollback
  pc := by
    intro t'
    by_cases ht : t' = t
    · subst ht; simp [System.abort, Pc.Ok]
    · have hpc := (h.pc t').mono fun k v hheld => hheld.rollback (Ne.symm ht)
      simpa [System.abort, ht] using hpc

theorem publish (h : Inv rows s) (hidle : s.pc t = .idle) : Inv rows (s.publish t) where
  balanced := by
    have hb : s.store.commit t |>.Balanced rowValue (fun k => rowValue (rows k))
        (moved s.journal + moved (s.log t)) (Function.update (fun t => moved (s.log t)) t 0) :=
      h.balanced.commit
    rw [← moved_append] at hb
    refine hb.congr fun t' k => ?_
    by_cases ht : t' = t
    · subst ht; simp [System.publish]
    · simp [System.publish, ht]
  ok := h.ok.commit
  pc := by
    intro t'
    show (s.pc t').Ok (s.store.commit t) t'
    by_cases ht : t' = t
    · subst ht; rw [hidle]; trivial
    · exact (h.pc t').mono fun k v hheld => hheld.commit h.balanced.guarded (Ne.symm ht)

/-- **Every step** keeps the invariant. -/
theorem step (h : Inv rows s) {a : System.Action} {s' : System} (hstep : s.step t a = some s') :
    Inv rows s' := by
  cases a with
  | call c =>
    rw [System.step] at hstep
    split_ifs at hstep
    obtain rfl := Option.some.inj hstep
    exact h.enter c
  | next => exact h.next hstep
  | commit =>
    rw [System.step] at hstep
    split_ifs at hstep with hidle
    obtain rfl := Option.some.inj hstep
    exact h.publish hidle
  | rollback =>
    obtain rfl := Option.some.inj hstep
    exact h.abort

/-- Every interleaving keeps the invariant. -/
theorem run (h : Inv rows s) {schedule : List (TxId × System.Action)} {s' : System}
    (hrun : s.run schedule = some s') : Inv rows s' := by
  induction schedule generalizing s with
  | nil =>
    obtain rfl : s = s' := by simpa [System.run] using hrun
    exact h
  | cons m schedule ih =>
    rw [System.run, List.foldlM_cons] at hrun
    obtain ⟨s₁, hstep, hrun⟩ := Option.bind_eq_some_iff.mp hrun
    exact ih (h.step hstep) hrun

end Inv

/-! ### What a run changes -/

/-- What is committed, and the journal, are as they were. -/
structure System.Quiet (s s' : System) : Prop where
  journal : s'.journal = s.journal
  committed : s'.store.committed = s.store.committed

namespace System

theorem quiet_goto (pc : Pc) : s.Quiet (s.goto t pc) := ⟨rfl, rfl⟩

theorem quiet_finish (call : Call) (outcome : Outcome) : s.Quiet (s.finish t call outcome) :=
  ⟨rfl, rfl⟩

theorem quiet_lock (key : BalanceKey) : s.Quiet { s with store := s.store.lock t key } := ⟨rfl, rfl⟩

theorem quiet_write (key : BalanceKey) (row : Row) :
    s.Quiet { s with store := s.store.write t key row } := ⟨rfl, rfl⟩

theorem Quiet.trans {s₁ s₂ s₃ : System} (h : s₁.Quiet s₂) (h' : s₂.Quiet s₃) : s₁.Quiet s₃ :=
  ⟨h'.journal.trans h.journal, h'.committed.trans h.committed⟩

theorem quiet_raise (call : Call) (err : BalanceError) : s.Quiet (s.raise t call err) :=
  quiet_finish _ _

theorem quiet_retry (op : Op) (key : BalanceKey) (amount : ℚ) (attempt : ℕ) :
    s.Quiet (s.retry t op key amount attempt) := by
  unfold retry
  split_ifs
  · exact quiet_goto _
  · exact quiet_raise _ _

theorem quiet_afterSelect (op : Op) (key : BalanceKey) (amount : ℚ) (attempt : ℕ) (row : Row) :
    s.Quiet (s.afterSelect t op key amount attempt row) := by
  unfold afterSelect
  split_ifs
  · exact quiet_raise _ _
  · exact quiet_goto _

theorem quiet_afterCreate (op : Op) (key : BalanceKey) (amount : ℚ) (attempt : ℕ) (row : Row) :
    s.Quiet (s.afterCreate t op key amount attempt row) := by
  unfold afterCreate
  split_ifs
  · exact quiet_retry _ _ _ _
  · exact quiet_afterSelect _ _ _ _ _

theorem quiet_runSelect (op : Op) (key : BalanceKey) (amount : ℚ) (attempt : ℕ) :
    s.Quiet (s.runSelect t op key amount attempt) := by
  unfold runSelect
  split
  · exact quiet_afterSelect _ _ _ _ _
  · split_ifs
    · exact quiet_goto _
    · exact quiet_raise _ _

theorem quiet_runUpdate (op : Op) (key : BalanceKey) (amount : ℚ) (attempt : ℕ) (version : ℤ) :
    s.Quiet (s.runUpdate t op key amount attempt version) := by
  unfold runUpdate
  split
  · exact (quiet_write _ _).trans (quiet_finish _ _)
  · exact quiet_retry _ _ _ _

theorem quiet_runMutateTrade (taker maker : BalanceKey) (amount : ℚ)
    (takerBalance makerBalance : Row) :
    s.Quiet (s.runMutateTrade t taker maker amount takerBalance makerBalance) := by
  unfold runMutateTrade
  split
  · exact quiet_raise _ _
  · dsimp only
    split
    · exact (quiet_write _ _).trans (quiet_raise _ _)
    · exact (quiet_write _ _).trans ((quiet_write _ _).trans (quiet_finish _ _))

/-- `get_for_update`, and then whatever is done with the row. -/
theorem quiet_getForUpdate {key : BalanceKey} {row : Option Row} {s' : System}
    (h : s.getForUpdate t key = (row, s')) : s.Quiet s' := by
  unfold getForUpdate at h
  split at h <;> obtain ⟨-, rfl⟩ := Prod.mk.inj h
  · exact ⟨rfl, rfl⟩
  · exact quiet_lock _

/-- Nothing but a commit changes what is committed. -/
theorem next_quiet {s' : System} (h : s.next t = some s') : s.Quiet s' := by
  unfold next at h
  split at h
  -- one case for each statement, in the order of `next`
  · exact absurd h (by simp)
  · exact absurd h (by simp)
  · obtain rfl := Option.some.inj h
    exact quiet_runSelect _ _ _ _
  · split at h <;> obtain rfl := Option.some.inj h
    · exact quiet_afterCreate _ _ _ _ _
    · exact quiet_goto _
  · split at h
    · obtain rfl := Option.some.inj h
      exact (quiet_raise _ _).trans (quiet_goto _)
    · split_ifs at h
      obtain rfl := Option.some.inj h
      exact (quiet_write _ _).trans (quiet_afterCreate _ _ _ _ _)
  · split_ifs at h
    obtain rfl := Option.some.inj h
    exact quiet_runUpdate _ _ _ _ _
  · split_ifs at h
    split at h <;> rename_i hget <;> obtain rfl := Option.some.inj h
    · exact (quiet_getForUpdate hget).trans (quiet_raise _ _)
    · exact (quiet_getForUpdate hget).trans (quiet_goto _)
  · split at h <;> obtain rfl := Option.some.inj h
    · exact quiet_raise _ _
    · exact (quiet_write _ _).trans (quiet_finish _ _)
  · split_ifs at h
    split at h <;> rename_i hget <;> obtain rfl := Option.some.inj h
    · exact (quiet_getForUpdate hget).trans (quiet_raise _ _)
    · exact (quiet_getForUpdate hget).trans (quiet_goto _)
  · split_ifs at h
    split at h <;> rename_i hget <;> obtain rfl := Option.some.inj h
    · exact (quiet_getForUpdate hget).trans (quiet_raise _ _)
    · exact (quiet_getForUpdate hget).trans (quiet_goto _)
  · obtain rfl := Option.some.inj h
    exact quiet_runMutateTrade _ _ _ _ _
  · split_ifs at h
    split at h <;> rename_i hget <;> obtain rfl := Option.some.inj h
    · exact (quiet_getForUpdate hget).trans (quiet_goto _)
    · exact (quiet_getForUpdate hget).trans (quiet_goto _)
  · split at h <;> obtain rfl := Option.some.inj h
    · exact quiet_goto _
    · exact quiet_goto _
  · split at h
    · obtain rfl := Option.some.inj h
      exact (quiet_raise _ _).trans (quiet_goto _)
    · split_ifs at h
      obtain rfl := Option.some.inj h
      exact (quiet_write _ _).trans (quiet_goto _)
  · split_ifs at h
    split at h <;> rename_i hget <;> obtain rfl := Option.some.inj h
    · exact (quiet_getForUpdate hget).trans (quiet_raise _ _)
    · exact (quiet_getForUpdate hget).trans (quiet_goto _)
  · split at h <;> obtain rfl := Option.some.inj h
    · exact quiet_raise _ _
    · exact (quiet_write _ _).trans (quiet_finish _ _)

/-- A step either ends a transaction with effect, or leaves what is committed alone. -/
theorem step_cases {a : Action} {s' : System} (h : s.step t a = some s') :
    s' = s.publish t ∨ s.Quiet s' := by
  cases a with
  | call c =>
    rw [step] at h
    split_ifs at h
    obtain rfl := Option.some.inj h
    refine .inr ?_
    cases c with
    | optimistic op key amount =>
      rw [enter]
      split_ifs
      · exact quiet_raise _ _
      · exact quiet_goto _
    | _ => exact quiet_goto _
  | next => exact .inr (next_quiet h)
  | commit =>
    rw [step] at h
    split_ifs at h
    exact .inl (Option.some.inj h).symm
  | rollback =>
    obtain rfl := Option.some.inj h
    exact .inr ⟨rfl, rfl⟩

/-- What a run does to what is committed: the journal grows, and no row vanishes. -/
structure Extends (s s' : System) : Prop where
  journal : ∃ ended, s'.journal = s.journal ++ ended
  committed : ∀ k, s.store.committed k ≠ none → s'.store.committed k ≠ none

theorem Quiet.extends {s s' : System} (h : s.Quiet s') : s.Extends s' where
  journal := ⟨[], by rw [h.journal, List.append_nil]⟩
  committed := fun k hk => by rwa [h.committed]

theorem extends_publish : s.Extends (s.publish t) where
  journal := ⟨s.log t, rfl⟩
  committed := fun k hk => by
    show s.store.visible t k ≠ none
    simp [RowStore.visible, hk]

theorem Extends.trans {s₁ s₂ s₃ : System} (h : s₁.Extends s₂) (h' : s₂.Extends s₃) :
    s₁.Extends s₃ where
  journal := by
    obtain ⟨es, hes⟩ := h.journal
    obtain ⟨es', hes'⟩ := h'.journal
    exact ⟨es ++ es', by rw [hes', hes, List.append_assoc]⟩
  committed := fun k hk => h'.committed k (h.committed k hk)

theorem run_extends {schedule : List (TxId × Action)} {s s' : System}
    (h : s.run schedule = some s') : s.Extends s' := by
  induction schedule generalizing s with
  | nil =>
    obtain rfl : s = s' := by simpa [run] using h
    exact Quiet.extends ⟨rfl, rfl⟩
  | cons m schedule ih =>
    rw [run, List.foldlM_cons] at h
    obtain ⟨s₁, hstep, hrun⟩ := Option.bind_eq_some_iff.mp h
    have hfirst : s.Extends s₁ := by
      rcases step_cases hstep with rfl | hq
      · exact extends_publish
      · exact hq.extends
    exact hfirst.trans (ih hrun)

end System

/-! ### Versions -/

/-- Nothing moved, or the version raised. -/
def Rises (d : Value) : Prop := d = 0 ∨ 1 ≤ d.2.2.2

theorem Rises.add {d d' : Value} (h : Rises d) (h' : Rises d') : Rises (d + d') := by
  rcases h with rfl | h
  · rwa [zero_add]
  · rcases h' with rfl | h'
    · rw [add_zero]; exact .inr h
    · refine .inr ?_
      show 1 ≤ d.2.2.2 + d'.2.2.2
      omega

theorem Rises.ite {d : Value} (h : Rises d) (p : Prop) [Decidable p] :
    Rises (if p then d else 0) := by
  split_ifs
  · exact h
  · exact .inl rfl

theorem rises_effect (op : Op) (amount : ℚ) : Rises (op.effect amount) := by
  cases op <;> exact .inr le_rfl

theorem Call.rises_effect (c : Call) (k : BalanceKey) : Rises (c.effect k) := by
  cases c with
  | optimistic op key amount => exact (Ledger.rises_effect op amount).ite _
  | pessimistic op key amount => exact (Ledger.rises_effect op amount).ite _
  | settleTrade taker maker amount =>
    exact ((Ledger.rises_effect _ amount).ite _).add ((Ledger.rises_effect _ amount).ite _)
  | adminAdjust key delta => exact Rises.ite (.inr le_rfl) _

/-- Whatever the calls of a list have moved in a row, its version tells. -/
theorem rises_moved (es : List (Call × Outcome)) (k : BalanceKey) : Rises (moved es k) := by
  induction es with
  | nil => exact .inl rfl
  | cons e es ih =>
    have hentry : Rises (entryEffect k e) := by
      obtain ⟨call, outcome⟩ := e
      cases outcome with
      | returned => exact call.rises_effect k
      | raised err => exact .inl rfl
    simpa [moved] using hentry.add ih

/-! ### The main result -/

/-- Between two reachable states, what is committed moves by the calls that have ended. -/
theorem Inv.committed_eq {s' : System} (h : Inv rows s) (h' : Inv rows s')
    {ended : List (Call × Outcome)} (hended : s'.journal = s.journal ++ ended) (k : BalanceKey) :
    rowValue (s'.store.committed k) = rowValue (s.store.committed k) + moved ended k := by
  rw [h'.balanced.committed, h.balanced.committed, hended, moved_append, Pi.add_apply, add_assoc]

/-- User 1 has 100 USDT, all available. -/
def oneRow (k : BalanceKey) : Option Row :=
  if k = (1, "USDT") then
    some { totalBalance := 100, lockedBalance := 0, availableBalance := 100, version := 1 }
  else none

/-- Two transactions read the row; the first locks 30 and commits. -/
def bothRead : List (TxId × System.Action) :=
  [(1, .call (.optimistic .lock (1, "USDT") 30)), (2, .call (.optimistic .lock (1, "USDT") 50)),
    (1, .next), (2, .next), (1, .next), (1, .commit)]

/-- The second finds another version than it has read, and starts over. -/
def secondRetries : List (TxId × System.Action) :=
  [(2, .next), (2, .next), (2, .next), (2, .commit)]

end SpotExchange.Ledger
