import SpotExchange.Exchange.BulkCanceling

namespace SpotExchange.Exchange

open SpotExchange.Lib
open SpotExchange.Engine (OrderId)
open SpotExchange.Ledger (BalanceKey BalanceError Row)
open scoped BigOperators

/-!
# Adjustments by an admin

* `adminAdjust`, `adjustBalance` — `BalanceService.admin_adjust`, and the endpoint that commits it;
* `creditUser`, `debitUser` — the wrappers of `AdminBalanceService`;
* `Action`, `Bank.actAll` — runs in which adjustments and bulk cancels come between the other requests.
-/

/-! ### The admin service -/

/-- What an adjustment is published as. -/
inductive AdjustReason
  | adminAdjustment
  | deposit
  deriving DecidableEq, Repr

/-- The event of an adjustment. -/
structure AdjustmentUpdate where
  userId : UserId
  asset : Asset
  total : ℚ
  locked : ℚ
  available : ℚ
  change : Option ℚ
  reason : AdjustReason
  deriving DecidableEq, Repr

/-- The store, and the adjustments that have been published, the oldest first. -/
structure Bank where
  store : Store
  adjustments : List AdjustmentUpdate

/-- What the admin service raises. -/
inductive AdminError
  /-- Of the balance service. -/
  | balance (err : BalanceError)
  /-- The `IntegrityError` of a balance without its user. -/
  | userForeignKey (userId : UserId)
  /-- `ValueError("amount must be positive")` -/
  | amountNotPositive
  deriving DecidableEq, Repr

/-- A program of the admin service. -/
abbrev AdminM := Prog Bank AdminError

/-- A row written. -/
def Bank.setBalance (b : Bank) (key : BalanceKey) (row : Row) : Bank :=
  { b with store := { b.store with pg := b.store.pg.setBalance key row } }

/-- `get_for_update`, and `get_or_create` if there is no row. -/
def loadBalance (key : BalanceKey) : AdminM Row := do
  match ← Prog.read fun b => b.store.pg.balances key with
  | some row => return row
  | none => do
      let known ← Prog.read fun b => decide (key.1 ∈ b.store.pg.users)
      Prog.require (known = true) (.userForeignKey key.1)
      Prog.modify fun b => b.setBalance key Row.zero
      return Row.zero

/-- The event that `admin_adjust` publishes: whatever the admin calls it, it is a deposit. -/
def adjustmentUpdate (key : BalanceKey) (row : Row) (delta : ℚ) (reason : String) : AdjustmentUpdate where
  userId := key.1
  asset := key.2
  total := row.totalBalance
  locked := row.lockedBalance
  available := row.availableBalance
  change := orNone (some delta)
  reason := if reason = "admin_adjustment" then .adminAdjustment else .deposit

/-- **`admin_adjust`.** -/
def adminAdjust (key : BalanceKey) (delta : ℚ) (reason : String) : AdminM Row := do
  let balance ← loadBalance key
  let row ← Prog.ofExcept ((Ledger.adjustBalance key balance delta).mapError .balance)
  Prog.modify fun b => b.setBalance key row
  Prog.modify fun b => { b with adjustments := b.adjustments ++ [adjustmentUpdate key row delta reason] }
  return row

/-- The endpoint `adjust_balance`: an exception undoes the tables. -/
def adjustBalance (key : BalanceKey) (delta : ℚ) (reason : String) : AdminM Row :=
  Prog.atomically (fun before after => { after with store := { after.store with pg := before.store.pg } })
    (adminAdjust key delta reason)

/-- `credit_user`. -/
def creditUser (key : BalanceKey) (amount : ℚ) : AdminM Row :=
  if amount ≤ 0 then Prog.raise .amountNotPositive else adminAdjust key amount "admin_credit"

/-- `debit_user`. -/
def debitUser (key : BalanceKey) (amount : ℚ) : AdminM Row :=
  if amount ≤ 0 then Prog.raise .amountNotPositive else adminAdjust key (-amount) "admin_debit"

/-! ### Runs with an admin -/

/-- What is served: a request, a bulk cancel, or an adjustment. -/
inductive Action
  | request (req : Request)
  | cancelBulk (userId : UserId) (orderIds : Option (List OrderId)) (symbol : Option Symbol)
      (cancelAll : Bool)
  | adjust (key : BalanceKey) (delta : ℚ) (reason : String)

/-- The bank after an action. -/
def Bank.act (b : Bank) : Action → Bank
  | .request req => { b with store := b.store.serve req }
  | .cancelBulk userId orderIds symbol cancelAll =>
      { b with store := (transaction (cancelBulkOrders userId orderIds symbol cancelAll) b.store).2 }
  | .adjust key delta reason => (adjustBalance key delta reason b).2

/-- The bank after a run. -/
def Bank.actAll (b : Bank) (actions : List Action) : Bank := Run.after Bank.act b actions

/-- By how much an action adjusts an asset: nothing, unless it is an adjustment of the asset for a known
    user that is committed. -/
def Bank.adjustedBy (b : Bank) (asset : Asset) : Action → ℚ
  | .adjust key delta reason =>
      if key.1 ∈ b.store.pg.users ∧ key.2 = asset ∧ (adjustBalance key delta reason b).1.isOk = true then
        delta
      else 0
  | _ => 0

/-- **By how much a run adjusts an asset.** -/
def Bank.adjusted (asset : Asset) : Bank → List Action → ℚ
  | _, [] => 0
  | b, a :: as => b.adjustedBy asset a + Bank.adjusted asset (b.act a) as

section

variable {b b' : Bank} {key : BalanceKey} {delta : ℚ} {reason : String}

/-- The row that an adjustment starts from, and the bank in which it is there. -/
inductive Loaded (b : Bank) (key : BalanceKey) : Row → Bank → Prop
  | found (row : Row) (hrow : b.store.pg.balances key = some row) : Loaded b key row b
  | created (hrow : b.store.pg.balances key = none) (huser : key.1 ∈ b.store.pg.users) :
      Loaded b key Row.zero (b.setBalance key Row.zero)

theorem loadBalance_cases (b : Bank) (key : BalanceKey) :
    (∃ row b₁, Loaded b key row b₁ ∧ loadBalance key b = (.ok row, b₁)) ∨
      ∃ err, loadBalance key b = (.error err, b) := by
  cases hrow : b.store.pg.balances key with
  | some row =>
    have hread : (Prog.read fun b => b.store.pg.balances key : AdminM _) b = (.ok (some row), b) := by
      rw [← hrow]
      rfl
    exact .inl ⟨row, b, .found row hrow, by rw [loadBalance, Prog.bind_of_ok hread]; rfl⟩
  | none =>
    have hread : (Prog.read fun b => b.store.pg.balances key : AdminM _) b = (.ok none, b) := by
      rw [← hrow]
      rfl
    by_cases huser : key.1 ∈ b.store.pg.users
    · refine .inl ⟨Row.zero, _, .created hrow huser, ?_⟩
      rw [loadBalance, Prog.bind_of_ok hread]
      simp [Prog.bind_apply, Prog.require, huser]
      rfl
    · refine .inr ⟨.userForeignKey key.1, ?_⟩
      rw [loadBalance, Prog.bind_of_ok hread]
      simp [Prog.bind_apply, Prog.require, huser]

/-- **An adjustment** moves one row, or changes nothing. -/
theorem adjustBalance_cases (b : Bank) (key : BalanceKey) (delta : ℚ) (reason : String) :
    (∃ row b₁ row', Loaded b key row b₁ ∧ Ledger.adjustBalance key row delta = .ok row' ∧
      adjustBalance key delta reason b = (.ok row', { b₁.setBalance key row' with
        adjustments := b₁.adjustments ++ [adjustmentUpdate key row' delta reason] })) ∨
    ∃ err, adjustBalance key delta reason b = (.error err, b) := by
  unfold adjustBalance Prog.atomically
  rcases loadBalance_cases b key with ⟨row, b₁, hloaded, hx⟩ | ⟨err, hx⟩
  · rw [adminAdjust, Prog.bind_of_ok hx]
    cases hadjust : Ledger.adjustBalance key row delta with
    | ok row' => exact .inl ⟨row, b₁, row', hloaded, hadjust, rfl⟩
    | error err =>
      refine .inr ⟨.balance err, ?_⟩
      -- the row that was created is undone
      cases hloaded <;> rfl
  · rw [adminAdjust, Prog.bind_of_error hx]
    exact .inr ⟨err, rfl⟩

end

end SpotExchange.Exchange
