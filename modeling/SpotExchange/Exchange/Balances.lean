import SpotExchange.Exchange.Store

namespace SpotExchange.Exchange

open SpotExchange.Lib
open SpotExchange.Engine (OrderId)
open SpotExchange.Ledger (BalanceKey BalanceError Row Op)

/-!
# The balance service

The methods of `BalanceService` that the order and trade services call, over the row operations
of `Ledger.Row`.  A balance that `get_for_update` has loaded is an object of the session, shared
by everyone who loads the same row: it is the row's key here, if there is a row.
-/

/-- `_publish_balance_update`. -/
def publishBalanceUpdate (key : BalanceKey) (change : ℚ) (reason : BalanceReason)
    (orderId : Option OrderId) : M Unit :=
  onRedis fun r =>
    let update : BalanceUpdate :=
      { userId := key.1, asset := key.2, change := orNone (some change), reason := reason,
        orderId := orderId }
    { r with balanceUpdates := r.balanceUpdates ++ [update] }

/-- `BalanceRepository.get_by_user_asset`: the row. -/
def getByUserAsset (key : BalanceKey) : M (Option Row) := Prog.read fun s => s.pg.balances key

/-- `BalanceRepository.get_for_update`: the loaded object, if there is a row. -/
def getBalanceForUpdate (userId : UserId) (asset : String) : M (Option BalanceKey) :=
  Prog.read fun s => (s.pg.balances (userId, asset)).map fun _ => (userId, asset)

/-- `balance.locked_balance` of a loaded object. -/
def lockedBalance (balance : BalanceKey) : M ℚ :=
  Prog.read fun s => (s.pg.balances balance).elim 0 fun row => row.lockedBalance

/-! ### Pessimistic operations -/

/-- How the available balance changes, as the operations report it. -/
def reportedChange : Op → ℚ → ℚ
  | .lock, amount => -amount
  | .unlock, amount => amount
  | .settle, _ => 0
  | .credit, amount => amount

/-- `lock_pessimistic`, `unlock_pessimistic`, `settle_pessimistic`, `credit_pessimistic`: mutate the
    loaded row, flush, publish. -/
def pessimistic (op : Op) (balance : BalanceKey) (amount : ℚ) (reason : BalanceReason)
    (orderId : Option OrderId) : M Unit := do
  match ← getByUserAsset balance with
  | none => Prog.raise (.balance (.notFound balance))
  | some row =>
      let row ← Prog.ofExcept ((op.pessimistic balance row amount).mapError .balance)
      onDatabase fun db => db.setBalance balance row
      publishBalanceUpdate balance (reportedChange op amount) reason orderId

/-- `unlock_pessimistic`. -/
def unlockPessimistic (balance : BalanceKey) (amount : ℚ) (reason : BalanceReason)
    (orderId : Option OrderId) : M Unit := pessimistic .unlock balance amount reason orderId

/-- `settle_pessimistic`. -/
def settlePessimistic (balance : BalanceKey) (amount : ℚ) (reason : BalanceReason)
    (orderId : Option OrderId) : M Unit := pessimistic .settle balance amount reason orderId

/-- `credit_pessimistic`. -/
def creditPessimistic (balance : BalanceKey) (amount : ℚ) (reason : BalanceReason)
    (orderId : Option OrderId) : M Unit := pessimistic .credit balance amount reason orderId

/-! ### Optimistic operations -/

/-- `BalanceRepository.get_or_create`. -/
def getOrCreate (key : BalanceKey) : M Row := do
  match ← getByUserAsset key with
  | some row => return row
  | none => do
      onDatabase fun db => db.setBalance key Row.zero
      return Row.zero

/-- The attempts of `lock_optimistic` from `attempt` on, of which `left` are left. -/
def lockAttempts (key : BalanceKey) (amount : ℚ) (reason : BalanceReason)
    (orderId : Option OrderId) (attempt : ℕ) : ℕ → M Unit
  | 0 => Prog.raise (.balance (.versionConflict key attempt))
  | left + 1 => do
      let balance ← getOrCreate key
      if balance.availableBalance < amount then
        Prog.raise (.balance (.insufficientBalance key amount balance.availableBalance))
      else
        match (← getByUserAsset key).bind fun row =>
            Ledger.optimisticLock row amount balance.version with
        | some row => do
            onDatabase fun db => db.setBalance key row
            publishBalanceUpdate key (reportedChange .lock amount) reason orderId
        | none => lockAttempts key amount reason orderId (attempt + 1) left

/-- `lock_optimistic`. -/
def lockOptimistic (key : BalanceKey) (amount : ℚ) (reason : BalanceReason)
    (orderId : Option OrderId) : M Unit :=
  if amount ≤ 0 then Prog.raise (.balance (.badAmount amount))
  else lockAttempts key amount reason orderId 0 Ledger.maxOptimisticRetries

/-- The attempts of `unlock_optimistic` from `attempt` on, of which `left` are left. -/
def unlockAttempts (key : BalanceKey) (amount : ℚ) (reason : BalanceReason)
    (orderId : Option OrderId) (attempt : ℕ) : ℕ → M Unit
  | 0 => Prog.raise (.balance (.versionConflict key attempt))
  | left + 1 => do
      match ← getByUserAsset key with
      | none => Prog.raise (.balance (.notFound key))
      | some balance =>
          match (← getByUserAsset key).bind fun row =>
              Ledger.optimisticUnlock row amount balance.version with
          | some row => do
              onDatabase fun db => db.setBalance key row
              publishBalanceUpdate key (reportedChange .unlock amount) reason orderId
          | none => unlockAttempts key amount reason orderId (attempt + 1) left

/-- `unlock_optimistic`. -/
def unlockOptimistic (key : BalanceKey) (amount : ℚ) (reason : BalanceReason)
    (orderId : Option OrderId) : M Unit :=
  if amount ≤ 0 then Prog.raise (.balance (.badAmount amount))
  else unlockAttempts key amount reason orderId 0 Ledger.maxOptimisticRetries

end SpotExchange.Exchange
