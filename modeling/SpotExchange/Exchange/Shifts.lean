import SpotExchange.Exchange.Trades
import SpotExchange.Lib.Table

namespace SpotExchange.Exchange

open SpotExchange.Lib
open SpotExchange.Engine (OrderId)
open SpotExchange.Ledger (BalanceKey Row Op)

/-!
# What settlement does to balances

* `Row.amounts`, `Op.amounts` — a row as a vector, and what an operation adds to it;
* `Shifts d s s'` — every row that exists has moved by `d`, and no row has appeared;
* `partyShift` — what `_settle_trade_balances` moves for one party;
* `persistTradeBatch_shifts` — what a whole batch moves.

A row that does not exist does not take part: settlement passes over it.
-/

/-- Total, locked and available balance. -/
abbrev Amounts := ℚ × ℚ × ℚ

/-- A row as a vector. -/
def amounts (r : Row) : Amounts := (r.totalBalance, r.lockedBalance, r.availableBalance)

/-- What an operation adds. -/
def opAmounts : Op → ℚ → Amounts
  | .lock, a => (0, a, -a)
  | .unlock, a => (0, -a, a)
  | .settle, a => (-a, -a, 0)
  | .credit, a => (a, 0, a)

theorem opAmounts_add (op : Op) (a b : ℚ) : opAmounts op (a + b) = opAmounts op a + opAmounts op b := by
  cases op <;> simp only [opAmounts, Prod.mk_add_mk, add_zero, neg_add]

theorem opAmounts_zero (op : Op) : opAmounts op 0 = 0 := by
  cases op <;> simp [opAmounts]

theorem amounts_pessimistic {op : Op} {key : BalanceKey} {row row' : Row} {amount : ℚ}
    (h : op.pessimistic key row amount = .ok row') :
    amounts row' = amounts row + opAmounts op amount := by
  have hv := Op.pessimistic_value h
  simp only [Row.value, Prod.ext_iff, Prod.fst_add, Prod.snd_add] at hv
  cases op <;> simp only [Op.effect] at hv <;>
    exact Prod.ext hv.1 (Prod.ext hv.2.1 hv.2.2.1)

/-- Every row that exists has moved by `d`, and no row has appeared. -/
abbrev Shifts (d : BalanceKey → Amounts) (s s' : Store) : Prop :=
  Moved amounts d s.pg.balances s'.pg.balances

/-! ### One operation -/

/-- A row written, and an event published. -/
def Store.moveBalance (s : Store) (key : BalanceKey) (row : Row) (update : BalanceUpdate) : Store :=
  { s with pg := s.pg.setBalance key row
           redis := { s.redis with balanceUpdates := s.redis.balanceUpdates ++ [update] } }

section

variable {s s' : Store} {op : Op} {balance : BalanceKey} {amount : ℚ} {reason : BalanceReason}
  {orderId : Option OrderId} {u : Unit}

/-- A pessimistic operation that returns. -/
theorem pessimistic_eq_ok (h : pessimistic op balance amount reason orderId s = (.ok u, s')) :
    ∃ row row', s.pg.balances balance = some row ∧ op.pessimistic balance row amount = .ok row' ∧
      s' = s.moveBalance balance row'
        { userId := balance.1, asset := balance.2, change := orNone (some (reportedChange op amount)),
          reason := reason, orderId := orderId } := by
  obtain ⟨row?, s₁, hread, h⟩ := Prog.bind_eq_ok.mp h
  obtain ⟨rfl, rfl⟩ : s.pg.balances balance = row? ∧ s = s₁ := by
    simpa [getByUserAsset] using hread
  cases hrow : s.pg.balances balance with
  | none => rw [hrow] at h; exact absurd h (by simp)
  | some row =>
    rw [hrow] at h
    obtain ⟨row', s₂, hop, h⟩ := Prog.bind_eq_ok.mp h
    obtain ⟨hrow', rfl⟩ := Prog.ofExcept_eq_ok.mp hop
    refine ⟨row, row', rfl, ?_, (congrArg Prod.snd h).symm⟩
    cases hp : op.pessimistic balance row amount with
    | error err => rw [hp] at hrow'; exact absurd hrow' (by simp [Except.mapError])
    | ok r =>
      rw [hp] at hrow'
      simpa [Except.mapError] using hrow'

theorem pessimistic_shifts (h : pessimistic op balance amount reason orderId s = (.ok u, s')) :
    Shifts (Moved.single balance (opAmounts op amount)) s s' := by
  obtain ⟨row, row', hrow, hop, rfl⟩ := pessimistic_eq_ok h
  exact Moved.update hrow (amounts_pessimistic hop)

end

/-! ### One party -/

/-- What a party pays from its locked balance and receives. -/
def partyShift (userId : UserId) (paid received : Asset) (paidAmount receivedAmount : ℚ) :
    BalanceKey → Amounts :=
  Moved.single (userId, paid) (opAmounts .settle paidAmount) +
    Moved.single (userId, received) (opAmounts .credit receivedAmount)

theorem partyShift_add (userId : UserId) (paid received : Asset) (p q p' q' : ℚ) :
    partyShift userId paid received (p + p') (q + q') =
      partyShift userId paid received p q + partyShift userId paid received p' q' := by
  simp only [partyShift, opAmounts_add, Moved.single_add]
  abel

theorem partyShift_zero (userId : UserId) (paid received : Asset) :
    partyShift userId paid received 0 0 = 0 := by
  simp [partyShift, opAmounts_zero, Moved.single_zero]

/-- An operation on a row that is there, or nothing. -/
theorem optional_shifts {s s' : Store} (op : Op) (key : BalanceKey) {bal : Option BalanceKey}
    {amount : ℚ} {reason : BalanceReason} {orderId : Option OrderId} {u : Unit}
    (hbal : ∀ b, bal = some b → b = key) (hnone : bal = none → s.pg.balances key = none)
    (h : Prog.whenSome bal (fun b => pessimistic op b amount reason orderId) s = (.ok u, s')) :
    Shifts (Moved.single key (opAmounts op amount)) s s' := by
  cases bal with
  | some b =>
    obtain rfl := hbal b rfl
    exact pessimistic_shifts h
  | none =>
    obtain rfl : s = s' := congrArg Prod.snd h
    refine (Moved.refl s.pg.balances).congr fun k hk => ?_
    have hne : k ≠ key := by rintro rfl; exact hk (hnone rfl)
    simp [hne]

/-- **One party.** -/
theorem settleParty_shifts {s s' : Store} {userId : UserId} {orderId : OrderId} {paid received : Asset}
    {paidAmount receivedAmount : ℚ} {u : Unit}
    (h : settleParty userId orderId paid received paidAmount receivedAmount s = (.ok u, s')) :
    Shifts (partyShift userId paid received paidAmount receivedAmount) s s' := by
  obtain ⟨paidBal, s₁, hread, h⟩ := Prog.bind_eq_ok.mp h
  obtain ⟨hpaid, rfl⟩ : (s.pg.balances (userId, paid)).map (fun _ => (userId, paid)) = paidBal ∧
      s = s₁ := by simpa [getBalanceForUpdate] using hread
  obtain ⟨receivedBal, s₁, hread, h⟩ := Prog.bind_eq_ok.mp h
  obtain ⟨hreceived, rfl⟩ : (s.pg.balances (userId, received)).map (fun _ => (userId, received)) =
      receivedBal ∧ s = s₁ := by simpa [getBalanceForUpdate] using hread
  obtain ⟨u₁, s₁, hsettle, hcredit⟩ := Prog.bind_eq_ok.mp h
  have h₁ := optional_shifts .settle (userId, paid)
    (fun b hb => by rw [← hpaid] at hb; simp only [Option.map_eq_some_iff] at hb
                    obtain ⟨-, -, rfl⟩ := hb; rfl)
    (fun hb => by rw [← hpaid] at hb; simpa using hb) hsettle
  have h₂ := optional_shifts .credit (userId, received)
    (fun b hb => by rw [← hreceived] at hb; simp only [Option.map_eq_some_iff] at hb
                    obtain ⟨-, -, rfl⟩ := hb; rfl)
    (fun hb => (h₁.none_iff _).mpr (by rw [← hreceived] at hb; simpa using hb)) hcredit
  exact h₁.trans h₂

end SpotExchange.Exchange
