import SpotExchange.Ledger.Row
import SpotExchange.Lib.RowStore

namespace SpotExchange.Ledger

open SpotExchange.Lib

/-!
# Concurrent balance operations

`BalanceService` as a transition system.  Any number of transactions run calls one after the
other, each a sequence of statements; between two statements any other transaction may move.
PostgreSQL runs a statement atomically, at `READ COMMITTED`: a read sees the latest committed row
(and the transaction's own writes), an `UPDATE`, an `INSERT` or a `SELECT … FOR UPDATE` waits for
the row lock and holds it until the transaction ends.

* `Pc` — where a transaction is inside a call, with what the call has read;
* `System.next` — the next statement of a call, `none` while it waits for a lock;
* `System.step` — a statement, or the begin of a call, a commit or a rollback.

A call that has ended is noted in the transaction's `log`; a commit moves the log to the
`journal`.  Both are bookkeeping: no statement reads them.
-/

/-- A database transaction (an `AsyncSession`). -/
abbrev TxId := ℕ

/-- A call of a `BalanceService` method. -/
inductive Call
  /-- `lock_optimistic`, `unlock_optimistic`, `settle_optimistic`, `credit_optimistic`. -/
  | optimistic (op : Op) (key : BalanceKey) (amount : ℚ)
  /-- `get_for_update`, then the pessimistic method of the same name. -/
  | pessimistic (op : Op) (key : BalanceKey) (amount : ℚ)
  /-- `get_for_update` of both rows, then `settle_trade_pessimistic`. -/
  | settleTrade (taker maker : BalanceKey) (amount : ℚ)
  /-- `admin_adjust`. -/
  | adminAdjust (key : BalanceKey) (delta : ℚ)
  deriving DecidableEq, Repr

/-- How a call ended. -/
inductive Outcome
  | returned
  | raised (err : BalanceError)
  deriving DecidableEq, Repr

/-- The statement a transaction is about to run. -/
inductive Pc
  /-- Between two calls. -/
  | idle
  /-- After an `IntegrityError`: the transaction can only be rolled back. -/
  | failed
  /-- `get_by_user_asset` of an attempt. -/
  | select (op : Op) (key : BalanceKey) (amount : ℚ) (attempt : ℕ)
  /-- The `get_by_user_asset` inside `get_or_create`. -/
  | selectAgain (op : Op) (key : BalanceKey) (amount : ℚ) (attempt : ℕ)
  /-- The `INSERT` of `get_or_create`. -/
  | insert (op : Op) (key : BalanceKey) (amount : ℚ) (attempt : ℕ)
  /-- The conditional `UPDATE` on the version read. -/
  | update (op : Op) (key : BalanceKey) (amount : ℚ) (attempt : ℕ) (version : ℤ)
  /-- `get_for_update` of a pessimistic call. -/
  | selectForUpdate (op : Op) (key : BalanceKey) (amount : ℚ)
  /-- The mutation of the row read, and the flush. -/
  | mutate (op : Op) (key : BalanceKey) (amount : ℚ) (balance : Row)
  /-- `get_for_update` of the taker's row. -/
  | selectTaker (taker maker : BalanceKey) (amount : ℚ)
  /-- `get_for_update` of the maker's row. -/
  | selectMaker (taker maker : BalanceKey) (amount : ℚ) (takerBalance : Row)
  /-- The mutation of both rows, and the flush. -/
  | mutateTrade (taker maker : BalanceKey) (amount : ℚ) (takerBalance makerBalance : Row)
  /-- `get_for_update` of `admin_adjust`. -/
  | adjustSelect (key : BalanceKey) (delta : ℚ)
  /-- The `get_by_user_asset` inside `get_or_create`. -/
  | adjustSelectAgain (key : BalanceKey) (delta : ℚ)
  /-- The `INSERT` of `get_or_create`. -/
  | adjustInsert (key : BalanceKey) (delta : ℚ)
  /-- `get_for_update` after the creation. -/
  | adjustReselect (key : BalanceKey) (delta : ℚ)
  /-- The mutation of the row read, and the flush. -/
  | adjust (key : BalanceKey) (delta : ℚ) (balance : Row)
  deriving DecidableEq, Repr

/-- The database, the position of each transaction, and the notes. -/
structure System where
  store : RowStore TxId BalanceKey Row
  pc : TxId → Pc
  log : TxId → List (Call × Outcome)
  journal : List (Call × Outcome)

namespace System

variable (s : System) (t : TxId)

/-- Committed rows, nothing running. -/
def start (rows : BalanceKey → Option Row) : System where
  store := RowStore.init rows
  pc := fun _ => .idle
  log := fun _ => []
  journal := []

/-! ### Moving on -/

/-- Go on with another statement of the call. -/
def goto (pc : Pc) : System := { s with pc := Function.update s.pc t pc }

/-- The call ends. -/
def finish (call : Call) (outcome : Outcome) : System :=
  { s with pc := Function.update s.pc t .idle
           log := Function.update s.log t (s.log t ++ [(call, outcome)]) }

/-- The call ends with an exception. -/
def raise (call : Call) (err : BalanceError) : System := s.finish t call (.raised err)

/-- The next attempt of an optimistic call, or `BalanceVersionConflict` after the last one. -/
def retry (op : Op) (key : BalanceKey) (amount : ℚ) (attempt : ℕ) : System :=
  if attempt + 1 < maxOptimisticRetries then s.goto t (.select op key amount (attempt + 1))
  else s.raise t (.optimistic op key amount) (.versionConflict key (attempt + 1))

/-- A statement that needs the lock of the row, if there is a row. -/
def blocked (key : BalanceKey) : Bool :=
  (s.store.visible t key).isSome && !s.store.available t key

/-- `get_for_update`: the row, locked. -/
def getForUpdate (key : BalanceKey) : Option Row × System :=
  match s.store.visible t key with
  | none => (none, s)
  | some row => (some row, { s with store := s.store.lock t key })

/-- The `INSERT` of an all-zero row. -/
def insertZero (key : BalanceKey) : System := { s with store := s.store.write t key Row.zero }

/-! ### The statements -/

/-- `get_by_user_asset` gave `row`: what an attempt does with it. -/
def afterSelect (op : Op) (key : BalanceKey) (amount : ℚ) (attempt : ℕ) (row : Row) : System :=
  if op = .lock ∧ row.availableBalance < amount then
    s.raise t (.optimistic op key amount)
      (.insufficientBalance key amount row.availableBalance)
  else s.goto t (.update op key amount attempt row.version)

/-- `get_or_create` gave `row`: locking goes on with it, crediting uses up the attempt. -/
def afterCreate (op : Op) (key : BalanceKey) (amount : ℚ) (attempt : ℕ) (row : Row) : System :=
  if op = .credit then s.retry t op key amount attempt
  else s.afterSelect t op key amount attempt row

/-- The first `SELECT` of an attempt. -/
def runSelect (op : Op) (key : BalanceKey) (amount : ℚ) (attempt : ℕ) : System :=
  match s.store.visible t key with
  | some row => s.afterSelect t op key amount attempt row
  | none =>
      if op = .lock ∨ op = .credit then s.goto t (.selectAgain op key amount attempt)
      else s.raise t (.optimistic op key amount) (.notFound key)

/-- The conditional `UPDATE`. -/
def runUpdate (op : Op) (key : BalanceKey) (amount : ℚ) (attempt : ℕ) (version : ℤ) : System :=
  match (s.store.visible t key).bind fun row => op.optimistic row amount version with
  | some row =>
      { s with store := s.store.write t key row }.finish t (.optimistic op key amount) .returned
  | none => s.retry t op key amount attempt

/-- `settle_trade_pessimistic`: the two rows are one object when the keys are equal. -/
def runMutateTrade (taker maker : BalanceKey) (amount : ℚ) (takerBalance makerBalance : Row) :
    System :=
  let call := Call.settleTrade taker maker amount
  match settlePessimistic taker takerBalance amount with
  | .error err => s.raise t call err
  | .ok takerBalance =>
      let s := { s with store := s.store.write t taker takerBalance }
      match creditPessimistic maker (if maker = taker then takerBalance else makerBalance) amount with
      | .error err => s.raise t call err
      | .ok makerBalance =>
          { s with store := s.store.write t maker makerBalance }.finish t call .returned

/-- The next statement of the call that `t` is in. -/
def next : Option System :=
  match s.pc t with
  | .idle => none
  | .failed => none
  | .select op key amount attempt => some (s.runSelect t op key amount attempt)
  | .selectAgain op key amount attempt =>
      match s.store.visible t key with
      | some row => some (s.afterCreate t op key amount attempt row)
      | none => some (s.goto t (.insert op key amount attempt))
  | .insert op key amount attempt =>
      match s.store.visible t key with
      | some _ => some ((s.raise t (.optimistic op key amount) (.integrityError key)).goto t .failed)
      | none =>
          -- another transaction's uncommitted row of this key: wait for its end
          if !s.store.available t key then none
          else some ((s.insertZero t key).afterCreate t op key amount attempt Row.zero)
  | .update op key amount attempt version =>
      if s.blocked t key then none else some (s.runUpdate t op key amount attempt version)
  | .selectForUpdate op key amount =>
      if s.blocked t key then none
      else
        match s.getForUpdate t key with
        | (none, s) => some (s.raise t (.pessimistic op key amount) (.notFound key))
        | (some row, s) => some (s.goto t (.mutate op key amount row))
  | .mutate op key amount balance =>
      match op.pessimistic key balance amount with
      | .error err => some (s.raise t (.pessimistic op key amount) err)
      | .ok balance =>
          some ({ s with store := s.store.write t key balance }.finish t
            (.pessimistic op key amount) .returned)
  | .selectTaker taker maker amount =>
      if s.blocked t taker then none
      else
        match s.getForUpdate t taker with
        | (none, s) => some (s.raise t (.settleTrade taker maker amount) (.notFound taker))
        | (some row, s) => some (s.goto t (.selectMaker taker maker amount row))
  | .selectMaker taker maker amount takerBalance =>
      if s.blocked t maker then none
      else
        match s.getForUpdate t maker with
        | (none, s) => some (s.raise t (.settleTrade taker maker amount) (.notFound maker))
        | (some row, s) => some (s.goto t (.mutateTrade taker maker amount takerBalance row))
  | .mutateTrade taker maker amount takerBalance makerBalance =>
      some (s.runMutateTrade t taker maker amount takerBalance makerBalance)
  | .adjustSelect key delta =>
      if s.blocked t key then none
      else
        match s.getForUpdate t key with
        | (none, s) => some (s.goto t (.adjustSelectAgain key delta))
        | (some row, s) => some (s.goto t (.adjust key delta row))
  | .adjustSelectAgain key delta =>
      match s.store.visible t key with
      | some _ => some (s.goto t (.adjustReselect key delta))
      | none => some (s.goto t (.adjustInsert key delta))
  | .adjustInsert key delta =>
      match s.store.visible t key with
      | some _ => some ((s.raise t (.adminAdjust key delta) (.integrityError key)).goto t .failed)
      | none =>
          if !s.store.available t key then none
          else some ((s.insertZero t key).goto t (.adjustReselect key delta))
  | .adjustReselect key delta =>
      if s.blocked t key then none
      else
        match s.getForUpdate t key with
        | (none, s) => some (s.raise t (.adminAdjust key delta) (.notFound key))
        | (some row, s) => some (s.goto t (.adjust key delta row))
  | .adjust key delta balance =>
      match adjustBalance key balance delta with
      | .error err => some (s.raise t (.adminAdjust key delta) err)
      | .ok balance =>
          some ({ s with store := s.store.write t key balance }.finish t
            (.adminAdjust key delta) .returned)

/-! ### The system -/

/-- The begin of a call: an optimistic method checks its amount before the first statement. -/
def enter : Call → System
  | .optimistic op key amount =>
      if amount ≤ 0 then s.raise t (.optimistic op key amount) (.badAmount amount)
      else s.goto t (.select op key amount 0)
  | .pessimistic op key amount => s.goto t (.selectForUpdate op key amount)
  | .settleTrade taker maker amount => s.goto t (.selectTaker taker maker amount)
  | .adminAdjust key delta => s.goto t (.adjustSelect key delta)

/-- What a transaction can do. -/
inductive Action
  | call (c : Call)
  | next
  | commit
  | rollback
  deriving DecidableEq, Repr

/-- The end of a transaction without effect, at any time. -/
def abort : System :=
  { s with store := s.store.rollback t, pc := Function.update s.pc t .idle
           log := Function.update s.log t [] }

/-- The end of a transaction with effect. -/
def publish : System :=
  { s with store := s.store.commit t, log := Function.update s.log t []
           journal := s.journal ++ s.log t }

/-- **One step** of transaction `t`; `none` if it cannot be taken now. -/
def step : Action → Option System
  | .call c => if s.pc t = .idle then some (s.enter t c) else none
  | .next => s.next t
  | .commit => if s.pc t = .idle then some (s.publish t) else none
  | .rollback => some (s.abort t)

/-- An interleaving: who moves, and what it does. -/
def run (s : System) (schedule : List (TxId × Action)) : Option System :=
  schedule.foldlM (fun s m => s.step m.1 m.2) s

end System

end SpotExchange.Ledger
