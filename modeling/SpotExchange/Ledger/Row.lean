import Mathlib.Algebra.Order.Ring.Rat
import Mathlib.Algebra.Group.Prod
import Mathlib.Tactic.Linarith
import Mathlib.Tactic.Abel

namespace SpotExchange.Ledger

/-!
# Balance rows

A row of `balances` and what `BalanceRepository` does to it.  Amounts (`Numeric(36, 18)`) are
exact rationals.

* `optimisticLock` … `optimisticCredit` — the conditional `UPDATE`s: `none` is `rowcount == 0`;
* `lockPessimistic` … `creditPessimistic` — the mutations of a row under `FOR UPDATE`;
* `Row.Ok` — the invariant of a row, kept by all of them;
* `Row.value` — the row as a vector, in which each of them is the addition of `Op.effect`.
-/

/-- `(user_id, asset)`. -/
abbrev BalanceKey := ℕ × String

/-- A row of `balances`. -/
structure Row where
  totalBalance : ℚ
  lockedBalance : ℚ
  availableBalance : ℚ
  version : ℤ
  deriving DecidableEq, Repr

/-- The row that `get_or_create` inserts. -/
def Row.zero : Row := { totalBalance := 0, lockedBalance := 0, availableBalance := 0, version := 1 }

/-- What an operation on balances raises, with the values its message reports. -/
inductive BalanceError
  /-- `ValueError("… amount must be positive, got …")` and its non-negative variant. -/
  | badAmount (amount : ℚ)
  /-- `InsufficientBalanceError(user_id, asset, needed, available)`. -/
  | insufficientBalance (key : BalanceKey) (needed available : ℚ)
  /-- `ValueError("Insufficient available balance …: need …, have …")` of the pessimistic helpers,
      and its locked variant. -/
  | insufficient (key : BalanceKey) (need held : ℚ)
  /-- `ValueError("Balance not found …")`. -/
  | notFound (key : BalanceKey)
  /-- `BalanceVersionConflict(user_id, asset, retries)`. -/
  | versionConflict (key : BalanceKey) (retries : ℕ)
  /-- The `RuntimeError` of `check_invariant`. -/
  | invariantViolated (key : BalanceKey) (total expected : ℚ)
  /-- `uq_balances_user_asset`: the row was inserted by another transaction. -/
  | integrityError (key : BalanceKey)
  deriving DecidableEq, Repr

/-- `MAX_OPTIMISTIC_RETRIES` -/
def maxOptimisticRetries : ℕ := 3

/-! ### The conditional updates -/

/-- `optimistic_lock`. -/
def optimisticLock (row : Row) (amount : ℚ) (expectedVersion : ℤ) : Option Row :=
  if row.version = expectedVersion ∧ row.availableBalance ≥ amount then
    some { row with lockedBalance := row.lockedBalance + amount
                    availableBalance := row.availableBalance - amount
                    version := row.version + 1 }
  else none

/-- `optimistic_unlock`. -/
def optimisticUnlock (row : Row) (amount : ℚ) (expectedVersion : ℤ) : Option Row :=
  if row.version = expectedVersion ∧ row.lockedBalance ≥ amount then
    some { row with lockedBalance := row.lockedBalance - amount
                    availableBalance := row.availableBalance + amount
                    version := row.version + 1 }
  else none

/-- `optimistic_settle`. -/
def optimisticSettle (row : Row) (amount : ℚ) (expectedVersion : ℤ) : Option Row :=
  if row.version = expectedVersion ∧ row.lockedBalance ≥ amount then
    some { row with lockedBalance := row.lockedBalance - amount
                    totalBalance := row.totalBalance - amount
                    version := row.version + 1 }
  else none

/-- `optimistic_credit`. -/
def optimisticCredit (row : Row) (amount : ℚ) (expectedVersion : ℤ) : Option Row :=
  if row.version = expectedVersion then
    some { row with totalBalance := row.totalBalance + amount
                    availableBalance := row.availableBalance + amount
                    version := row.version + 1 }
  else none

/-! ### The mutations under a row lock -/

/-- `check_invariant`. -/
def checkInvariant (key : BalanceKey) (row : Row) : Except BalanceError Row :=
  if row.totalBalance = row.lockedBalance + row.availableBalance then .ok row
  else .error (.invariantViolated key row.totalBalance (row.lockedBalance + row.availableBalance))

/-- `lock_pessimistic`. -/
def lockPessimistic (key : BalanceKey) (balance : Row) (amount : ℚ) : Except BalanceError Row :=
  if amount < 0 then .error (.badAmount amount)
  else if balance.availableBalance < amount then
    .error (.insufficient key amount balance.availableBalance)
  else
    checkInvariant key { balance with
      availableBalance := balance.availableBalance - amount
      lockedBalance := balance.lockedBalance + amount
      version := balance.version + 1 }

/-- `unlock_pessimistic`. -/
def unlockPessimistic (key : BalanceKey) (balance : Row) (amount : ℚ) : Except BalanceError Row :=
  if amount < 0 then .error (.badAmount amount)
  else if balance.lockedBalance < amount then
    .error (.insufficient key amount balance.lockedBalance)
  else
    checkInvariant key { balance with
      lockedBalance := balance.lockedBalance - amount
      availableBalance := balance.availableBalance + amount
      version := balance.version + 1 }

/-- `settle_pessimistic`. -/
def settlePessimistic (key : BalanceKey) (balance : Row) (amount : ℚ) : Except BalanceError Row :=
  if amount < 0 then .error (.badAmount amount)
  else if balance.lockedBalance < amount then
    .error (.insufficient key amount balance.lockedBalance)
  else
    checkInvariant key { balance with
      lockedBalance := balance.lockedBalance - amount
      totalBalance := balance.totalBalance - amount
      version := balance.version + 1 }

/-- `credit_pessimistic`. -/
def creditPessimistic (key : BalanceKey) (balance : Row) (amount : ℚ) : Except BalanceError Row :=
  if amount < 0 then .error (.badAmount amount)
  else
    checkInvariant key { balance with
      totalBalance := balance.totalBalance + amount
      availableBalance := balance.availableBalance + amount
      version := balance.version + 1 }

/-- The mutation of `admin_adjust`. -/
def adjustBalance (key : BalanceKey) (balance : Row) (delta : ℚ) : Except BalanceError Row :=
  if delta ≥ 0 then
    checkInvariant key { balance with
      totalBalance := balance.totalBalance + delta
      availableBalance := balance.availableBalance + delta
      version := balance.version + 1 }
  else if balance.availableBalance < -delta then
    .error (.insufficientBalance key (-delta) balance.availableBalance)
  else
    checkInvariant key { balance with
      totalBalance := balance.totalBalance - -delta
      availableBalance := balance.availableBalance - -delta
      version := balance.version + 1 }

/-! ### The four operations -/

/-- What moves balances: of an order's funds, or of a trade. -/
inductive Op
  | lock
  | unlock
  | settle
  | credit
  deriving DecidableEq, Repr

/-- The conditional update of an operation. -/
def Op.optimistic : Op → Row → ℚ → ℤ → Option Row
  | .lock => optimisticLock
  | .unlock => optimisticUnlock
  | .settle => optimisticSettle
  | .credit => optimisticCredit

/-- The mutation of an operation under a row lock. -/
def Op.pessimistic : Op → BalanceKey → Row → ℚ → Except BalanceError Row
  | .lock => lockPessimistic
  | .unlock => unlockPessimistic
  | .settle => settlePessimistic
  | .credit => creditPessimistic

/-! ### The invariant of a row, and its value -/

/-- **The invariant of a row.** -/
structure Row.Ok (r : Row) : Prop where
  total_eq : r.totalBalance = r.lockedBalance + r.availableBalance
  locked_nonneg : 0 ≤ r.lockedBalance
  available_nonneg : 0 ≤ r.availableBalance

instance (r : Row) : Decidable r.Ok :=
  decidable_of_iff (r.totalBalance = r.lockedBalance + r.availableBalance ∧ 0 ≤ r.lockedBalance ∧
    0 ≤ r.availableBalance) ⟨fun h => ⟨h.1, h.2.1, h.2.2⟩, fun h => ⟨h.1, h.2, h.3⟩⟩

theorem Row.ok_zero : Row.zero.Ok := by decide +kernel

/-- Total, locked and available balance, and version. -/
abbrev Value := ℚ × ℚ × ℚ × ℤ

/-- A row as a vector. -/
def Row.value (r : Row) : Value :=
  (r.totalBalance, r.lockedBalance, r.availableBalance, r.version)

theorem Row.value_injective : Function.Injective Row.value := by
  rintro ⟨⟩ ⟨⟩ h
  simpa [Row.value] using h

/-- What an operation with that amount adds to a row. -/
def Op.effect : Op → ℚ → Value
  | .lock, a => (0, a, -a, 1)
  | .unlock, a => (0, -a, a, 1)
  | .settle, a => (-a, -a, 0, 1)
  | .credit, a => (a, 0, a, 1)

/-- What `admin_adjust` adds to a row. -/
def adjustEffect (delta : ℚ) : Value := (delta, 0, delta, 1)

/-- **The conditional updates** keep the invariant and add their effect. -/
theorem Op.optimistic_spec {op : Op} {row row' : Row} {amount : ℚ} {expectedVersion : ℤ}
    (h : op.optimistic row amount expectedVersion = some row') (hrow : row.Ok)
    (hamount : 0 < amount) : row'.Ok ∧ row'.value = row.value + op.effect amount := by
  obtain ⟨htotal, hlocked, havailable⟩ := hrow
  cases op <;>
    simp only [optimistic, optimisticLock, optimisticUnlock, optimisticSettle,
      optimisticCredit] at h <;>
    split_ifs at h with hguard <;>
    obtain rfl := Option.some.inj h
  · refine ⟨⟨?_, ?_, ?_⟩, ?_⟩ <;> simp only [Row.value, effect, Prod.mk_add_mk]
    · linarith
    · linarith
    · linarith [hguard.2]
    · simp [sub_eq_add_neg]
  · refine ⟨⟨?_, ?_, ?_⟩, ?_⟩ <;> simp only [Row.value, effect, Prod.mk_add_mk]
    · linarith
    · linarith [hguard.2]
    · linarith
    · simp [sub_eq_add_neg]
  · refine ⟨⟨?_, ?_, ?_⟩, ?_⟩ <;> simp only [Row.value, effect, Prod.mk_add_mk]
    · linarith
    · linarith [hguard.2]
    · linarith
    · simp [sub_eq_add_neg]
  · refine ⟨⟨?_, ?_, ?_⟩, ?_⟩ <;> simp only [Row.value, effect, Prod.mk_add_mk]
    · linarith
    · linarith
    · linarith
    · simp

theorem checkInvariant_eq_ok {key : BalanceKey} {row row' : Row}
    (h : checkInvariant key row = .ok row') :
    row.totalBalance = row.lockedBalance + row.availableBalance ∧ row = row' := by
  unfold checkInvariant at h
  split_ifs at h with hinv
  exact ⟨hinv, Except.ok.inj h⟩

/-- The mutations under a row lock add their effect, and check the sum. -/
theorem Op.pessimistic_value {op : Op} {key : BalanceKey} {row row' : Row} {amount : ℚ}
    (h : op.pessimistic key row amount = .ok row') : row'.value = row.value + op.effect amount := by
  cases op <;>
    simp only [pessimistic, lockPessimistic, unlockPessimistic, settlePessimistic,
      creditPessimistic] at h <;>
    split_ifs at h <;>
    obtain ⟨-, rfl⟩ := checkInvariant_eq_ok h <;>
    simp [Row.value, effect, sub_eq_add_neg]

/-- **The mutations under a row lock** keep the invariant and add their effect. -/
theorem Op.pessimistic_spec {op : Op} {key : BalanceKey} {row row' : Row} {amount : ℚ}
    (h : op.pessimistic key row amount = .ok row') (hrow : row.Ok) :
    row'.Ok ∧ row'.value = row.value + op.effect amount := by
  refine ⟨?_, pessimistic_value h⟩
  obtain ⟨htotal, hlocked, havailable⟩ := hrow
  cases op <;>
    simp only [pessimistic, lockPessimistic, unlockPessimistic, settlePessimistic,
      creditPessimistic] at h <;>
    split_ifs at h with hamount <;>
    obtain ⟨hinv, rfl⟩ := checkInvariant_eq_ok h <;>
    simp only [not_lt] at hamount
  · exact ⟨hinv, by dsimp only; linarith, by dsimp only; linarith⟩
  · exact ⟨hinv, by dsimp only; linarith, by dsimp only; linarith⟩
  · exact ⟨hinv, by dsimp only; linarith, by dsimp only; linarith⟩
  · exact ⟨hinv, by dsimp only; linarith, by dsimp only; linarith⟩

/-- The mutation of `admin_adjust`. -/
theorem adjustBalance_spec {key : BalanceKey} {row row' : Row} {delta : ℚ}
    (h : adjustBalance key row delta = .ok row') (hrow : row.Ok) :
    row'.Ok ∧ row'.value = row.value + adjustEffect delta := by
  obtain ⟨htotal, hlocked, havailable⟩ := hrow
  unfold adjustBalance at h
  split_ifs at h with hpos hguard <;> obtain ⟨hinv, rfl⟩ := checkInvariant_eq_ok h
  · refine ⟨⟨hinv, ?_, ?_⟩, ?_⟩ <;> simp only [Row.value, adjustEffect, Prod.mk_add_mk]
    · linarith
    · linarith
    · simp
  · refine ⟨⟨hinv, ?_, ?_⟩, ?_⟩ <;> simp only [Row.value, adjustEffect, Prod.mk_add_mk]
    · linarith
    · linarith
    · simp

/-- From rows that add up, `check_invariant` never raises. -/
theorem Op.pessimistic_checked {op : Op} {key : BalanceKey} {row : Row} {amount : ℚ}
    (htotal : row.totalBalance = row.lockedBalance + row.availableBalance) (total expected : ℚ) :
    op.pessimistic key row amount ≠ .error (.invariantViolated key total expected) := by
  intro h
  cases op <;>
    simp only [pessimistic, lockPessimistic, unlockPessimistic, settlePessimistic,
      creditPessimistic] at h <;>
    split_ifs at h <;>
    first
      | (rw [checkInvariant, if_pos (by linarith)] at h
         exact absurd h (by simp))
      | exact absurd h (by simp)

theorem adjustBalance_checked {key : BalanceKey} {row : Row} {delta : ℚ}
    (htotal : row.totalBalance = row.lockedBalance + row.availableBalance) (total expected : ℚ) :
    adjustBalance key row delta ≠ .error (.invariantViolated key total expected) := by
  intro h
  unfold adjustBalance at h
  split_ifs at h
  · rw [checkInvariant, if_pos (by linarith)] at h
    exact absurd h (by simp)
  · exact absurd h (by simp)
  · rw [checkInvariant, if_pos (by linarith)] at h
    exact absurd h (by simp)

/-- A credit of a non-negative amount does not raise. -/
theorem creditPessimistic_ok (key : BalanceKey) {row : Row} {amount : ℚ} (hrow : row.Ok)
    (hamount : 0 ≤ amount) : ∃ row', creditPessimistic key row amount = .ok row' := by
  have htotal := hrow.total_eq
  rw [creditPessimistic, if_neg (not_lt.mpr hamount), checkInvariant, if_pos (by linarith)]
  exact ⟨_, rfl⟩

theorem settlePessimistic_nonneg {key : BalanceKey} {row row' : Row} {amount : ℚ}
    (h : settlePessimistic key row amount = .ok row') : 0 ≤ amount := by
  unfold settlePessimistic at h
  split_ifs at h with hneg
  exact not_lt.mp hneg

end SpotExchange.Ledger
