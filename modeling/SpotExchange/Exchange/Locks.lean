import SpotExchange.Exchange.Shifts

namespace SpotExchange.Exchange

open SpotExchange.Lib
open SpotExchange.Engine (OrderId)
open SpotExchange.Ledger (BalanceKey BalanceError Row)

/-!
# The optimistic operations, one program at a time

While nobody else runs, the version that is read is the version that is found: the first attempt
decides.

* `lockOptimistic_cases` — a lock is refused, for its amount or for the balance, or taken;
* `unlockOptimistic_cases` — the same for an unlock;
* `lockOptimistic_moves`, `unlockOptimistic_moves` — the steps they are made of.
-/

/-- The row of a balance; a missing row counts as zeros. -/
def Store.rowOrZero (s : Store) (key : BalanceKey) : Row := (s.pg.balances key).getD Row.zero

/-- The store with a row for a balance. -/
def Store.withRow (s : Store) (key : BalanceKey) : Store :=
  { s with pg :=
      match s.pg.balances key with
      | some _ => s.pg
      | none => s.pg.setBalance key Row.zero }

/-- A row with an amount locked. -/
def lockedRow (row : Row) (amount : ℚ) : Row :=
  { row with lockedBalance := row.lockedBalance + amount
             availableBalance := row.availableBalance - amount
             version := row.version + 1 }

/-- A row with an amount unlocked. -/
def unlockedRow (row : Row) (amount : ℚ) : Row :=
  { row with lockedBalance := row.lockedBalance - amount
             availableBalance := row.availableBalance + amount
             version := row.version + 1 }

/-- The event of an optimistic operation. -/
def lockUpdate (key : BalanceKey) (change : ℚ) (reason : BalanceReason) (orderId : Option OrderId) :
    BalanceUpdate :=
  { userId := key.1, asset := key.2, change := orNone (some change), reason := reason,
    orderId := orderId }

section

variable {key : BalanceKey} {amount : ℚ} {reason : BalanceReason} {orderId : Option OrderId}
  {s : Store}

theorem getOrCreate_apply (key : BalanceKey) (s : Store) :
    getOrCreate key s = (.ok (s.rowOrZero key), s.withRow key) := by
  cases hrow : s.pg.balances key with
  | none =>
    have hread : getByUserAsset key s = (.ok none, s) := by
      rw [← hrow]
      rfl
    rw [getOrCreate, Prog.bind_of_ok hread, Store.rowOrZero, Store.withRow, hrow]
    rfl
  | some row =>
    have hread : getByUserAsset key s = (.ok (some row), s) := by
      rw [← hrow]
      rfl
    rw [getOrCreate, Prog.bind_of_ok hread, Store.rowOrZero, Store.withRow, hrow]
    rfl

@[simp] theorem withRow_balances (s : Store) (key : BalanceKey) :
    (s.withRow key).pg.balances key = some (s.rowOrZero key) := by
  unfold Store.withRow Store.rowOrZero
  cases hrow : s.pg.balances key <;> simp [hrow]

/-- **The three ways of a lock.** -/
theorem lockOptimistic_cases (key : BalanceKey) (amount : ℚ) (reason : BalanceReason)
    (orderId : Option OrderId) (s : Store) :
    amount ≤ 0 ∧ lockOptimistic key amount reason orderId s =
        (.error (.balance (.badAmount amount)), s) ∨
    0 < amount ∧ (s.rowOrZero key).availableBalance < amount ∧
      lockOptimistic key amount reason orderId s = (.error (.balance (.insufficientBalance key amount
        (s.rowOrZero key).availableBalance)), s.withRow key) ∨
    0 < amount ∧ amount ≤ (s.rowOrZero key).availableBalance ∧
      lockOptimistic key amount reason orderId s = (.ok ⟨⟩, s.moveBalance key
        (lockedRow (s.rowOrZero key) amount) (lockUpdate key (-amount) reason orderId)) := by
  unfold lockOptimistic
  by_cases hpos : amount ≤ 0
  · exact .inl ⟨hpos, by rw [if_pos hpos]; rfl⟩
  rw [if_neg hpos]
  refine .inr ?_
  have hrun : lockAttempts key amount reason orderId 0 Ledger.maxOptimisticRetries s =
      (if (s.rowOrZero key).availableBalance < amount then
        Prog.raise (.balance (.insufficientBalance key amount (s.rowOrZero key).availableBalance))
      else getByUserAsset key >>= fun row? => match row?.bind fun row =>
          Ledger.optimisticLock row amount (s.rowOrZero key).version with
        | some row => do
            onDatabase fun db => db.setBalance key row
            publishBalanceUpdate key (reportedChange .lock amount) reason orderId
        | none => lockAttempts key amount reason orderId 1 2 : M Unit) (s.withRow key) := by
    show lockAttempts key amount reason orderId 0 (2 + 1) s = _
    rw [lockAttempts]
    exact (Prog.bind_of_ok (getOrCreate_apply key s)).trans rfl
  rw [hrun]
  by_cases hlt : (s.rowOrZero key).availableBalance < amount
  · exact .inl ⟨not_le.mp hpos, hlt, by rw [if_pos hlt]; rfl⟩
  · refine .inr ⟨not_le.mp hpos, not_lt.mp hlt, ?_⟩
    have hread : getByUserAsset key (s.withRow key) =
        (.ok (some (s.rowOrZero key)), s.withRow key) := by
      rw [← withRow_balances]
      rfl
    have hlock : (some (s.rowOrZero key)).bind (fun row =>
        Ledger.optimisticLock row amount (s.rowOrZero key).version) =
          some (lockedRow (s.rowOrZero key) amount) := by
      rw [Option.bind_some, Ledger.optimisticLock, if_pos ⟨rfl, not_lt.mp hlt⟩]
      rfl
    rw [if_neg hlt, Prog.bind_of_ok hread, hlock]
    refine Prod.ext rfl ?_
    -- writing the row again leaves no trace of its creation
    show ({ s.withRow key with pg := (s.withRow key).pg.setBalance key _, redis := _ } : Store) = _
    unfold Store.withRow
    cases hrow : s.pg.balances key with
    | none => simp [Database.setBalance, Store.moveBalance, lockUpdate, reportedChange]
    | some row => rfl

/-- **The three ways of an unlock.** -/
theorem unlockOptimistic_cases (key : BalanceKey) (amount : ℚ) (reason : BalanceReason)
    (orderId : Option OrderId) (s : Store) :
    (¬ (0 < amount ∧ amount ≤ (s.rowOrZero key).lockedBalance) ∧
      ∃ err, unlockOptimistic key amount reason orderId s = (.error err, s)) ∨
    ∃ row, s.pg.balances key = some row ∧ 0 < amount ∧ amount ≤ row.lockedBalance ∧
      unlockOptimistic key amount reason orderId s = (.ok ⟨⟩, s.moveBalance key
        (unlockedRow row amount) (lockUpdate key amount reason orderId)) := by
  unfold unlockOptimistic
  by_cases hpos : amount ≤ 0
  · exact .inl ⟨fun h => hpos.not_gt h.1, _, by rw [if_pos hpos]; rfl⟩
  rw [if_neg hpos]
  cases hrow : s.pg.balances key with
  | none =>
    have hread : getByUserAsset key s = (.ok none, s) := by
      rw [← hrow]
      rfl
    have hzero : s.rowOrZero key = Row.zero := by
      unfold Store.rowOrZero
      rw [hrow]
      rfl
    refine .inl ⟨fun h => hpos ?_, .balance (.notFound key), ?_⟩
    · have hle := h.2
      rw [hzero] at hle
      exact hle
    show unlockAttempts key amount reason orderId 0 (2 + 1) s = _
    rw [unlockAttempts, Prog.bind_of_ok hread]
    rfl
  | some row =>
    have hread : getByUserAsset key s = (.ok (some row), s) := by
      rw [← hrow]
      rfl
    by_cases hle : amount ≤ row.lockedBalance
    · refine .inr ⟨row, rfl, not_le.mp hpos, hle, ?_⟩
      have hunlock : (some row).bind (fun row' => Ledger.optimisticUnlock row' amount row.version) =
          some (unlockedRow row amount) := by
        rw [Option.bind_some, Ledger.optimisticUnlock, if_pos ⟨rfl, hle⟩]
        rfl
      show unlockAttempts key amount reason orderId 0 (2 + 1) s = _
      rw [unlockAttempts, Prog.bind_of_ok hread]
      show (getByUserAsset key >>= _ : M Unit) s = _
      rw [Prog.bind_of_ok hread, hunlock]
      rfl
    · -- the row stays short at every attempt
      have hunlock : ∀ version, (some row).bind (fun row' =>
          Ledger.optimisticUnlock row' amount version) = none := by
        intro version
        rw [Option.bind_some, Ledger.optimisticUnlock, if_neg fun h => hle h.2]
      have hattempts : ∀ left attempt, ∃ err,
          unlockAttempts key amount reason orderId attempt left s = (.error err, s) := by
        intro left
        induction left with
        | zero => exact fun attempt => ⟨_, rfl⟩
        | succ left ih =>
          intro attempt
          obtain ⟨err, herr⟩ := ih (attempt + 1)
          refine ⟨err, ?_⟩
          rw [unlockAttempts, Prog.bind_of_ok hread]
          show (getByUserAsset key >>= _ : M Unit) s = _
          rw [Prog.bind_of_ok hread, hunlock]
          exact herr
      have hrowOrZero : s.rowOrZero key = row := by
        unfold Store.rowOrZero
        rw [hrow]
        rfl
      exact .inl ⟨fun h => hle (hrowOrZero ▸ h.2), hattempts _ _⟩

/-! ### Their steps -/

variable {R : Store → Store → Prop} [IsPreorder Store R]

theorem lockOptimistic_moves (hrow : ∀ s key, R s (s.withRow key))
    (hmove : ∀ s key row (update : BalanceUpdate), update.reason = reason →
      R s (s.moveBalance key row update)) :
    Prog.Moves R (lockOptimistic key amount reason orderId) := by
  intro s
  rcases lockOptimistic_cases key amount reason orderId s with ⟨-, hx⟩ | ⟨-, -, hx⟩ | ⟨-, -, hx⟩ <;>
    rw [hx]
  · exact refl_of R s
  · exact hrow s key
  · exact hmove s key _ _ rfl

theorem unlockOptimistic_moves
    (hmove : ∀ s key row (update : BalanceUpdate), update.reason = reason →
      R s (s.moveBalance key row update)) :
    Prog.Moves R (unlockOptimistic key amount reason orderId) := by
  intro s
  rcases unlockOptimistic_cases key amount reason orderId s with ⟨-, err, hx⟩ | ⟨row, -, -, -, hx⟩ <;>
    rw [hx]
  · exact refl_of R s
  · exact hmove s key _ _ rfl

end

end SpotExchange.Exchange
