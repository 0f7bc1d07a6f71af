import SpotExchange.Exchange.Batch

namespace SpotExchange.Exchange

open SpotExchange.Lib
open SpotExchange.Engine (OrderId)
open SpotExchange.Ledger (BalanceKey Row Op)

/-!
# Which settlements return

* `Store.Pays` — the balances of a party allow its settlement, read from their rows and from what has
  moved them since;
* `settleParty_returns_iff` — just then the settlement returns;
* `pays_of_shifts` — and it is seen from before the balances have moved.
-/

/-- Total is locked plus available. -/
def Balanced (x : Amounts) : Prop := x.1 = x.2.1 + x.2.2

theorem Balanced.add {x y : Amounts} (hx : Balanced x) (hy : Balanced y) : Balanced (x + y) := by
  unfold Balanced at *
  rw [Prod.fst_add, Prod.snd_add, Prod.fst_add, Prod.snd_add, hx, hy]
  ring

theorem Balanced.of_add {x y : Amounts} (h : Balanced (x + y)) (hy : Balanced y) : Balanced x := by
  unfold Balanced at *
  rw [Prod.fst_add, Prod.snd_add, Prod.fst_add, Prod.snd_add] at h
  linarith

/-- **A party can be settled** once its balances have moved by `Δ`: it can pay what it pays, and its
    balances add up. -/
def Store.Pays (s : Store) (Δ : BalanceKey → Amounts) (userId : UserId) (paid received : Asset)
    (paidAmount receivedAmount : ℚ) : Prop :=
  (∀ row, s.pg.balances (userId, paid) = some row → 0 ≤ paidAmount ∧
    paidAmount ≤ row.lockedBalance + (Δ (userId, paid)).2.1 ∧ Balanced (amounts row)) ∧
  ∀ row, s.pg.balances (userId, received) = some row → 0 ≤ receivedAmount ∧ Balanced (amounts row)

section

variable {s t : Store} {op : Op} {key : BalanceKey} {row : Row} {amount : ℚ}
  {userId : UserId} {orderId : OrderId} {paid received : Asset} {paidAmount receivedAmount : ℚ}

/-- A pessimistic operation on a row that allows it. -/
theorem pessimistic_of_ok {row' : Row} {reason : BalanceReason} {o : Option OrderId}
    (hrow : s.pg.balances key = some row) (h : op.pessimistic key row amount = .ok row') :
    ∃ s', pessimistic op key amount reason o s = (.ok ⟨⟩, s') := by
  have hread : getByUserAsset key s = (.ok (some row), s) := by
    rw [← hrow]
    rfl
  rw [pessimistic, Prog.bind_of_ok hread]
  dsimp only
  rw [h]
  exact ⟨_, rfl⟩

theorem settlePessimistic_returns_iff : (∃ row', Op.pessimistic .settle key row amount = .ok row') ↔
    0 ≤ amount ∧ amount ≤ row.lockedBalance ∧ Balanced (amounts row) := by
  show (∃ row', Ledger.settlePessimistic key row amount = .ok row') ↔ _
  unfold Ledger.settlePessimistic Ledger.checkInvariant Balanced amounts
  split_ifs with hneg hlocked hsum <;> simp only [exists_false, Except.ok.injEq, exists_eq', true_iff, false_iff]
  · exact fun h => absurd h.1 (not_le.mpr hneg)
  · exact fun h => absurd h.2.1 (not_le.mpr hlocked)
  · exact ⟨not_lt.mp hneg, not_lt.mp hlocked, by linarith⟩
  · exact fun h => hsum (by linarith [h.2.2])

theorem creditPessimistic_returns_iff : (∃ row', Op.pessimistic .credit key row amount = .ok row') ↔
    0 ≤ amount ∧ Balanced (amounts row) := by
  show (∃ row', Ledger.creditPessimistic key row amount = .ok row') ↔ _
  unfold Ledger.creditPessimistic Ledger.checkInvariant Balanced amounts
  split_ifs with hneg hsum <;> simp only [exists_false, Except.ok.injEq, exists_eq', true_iff, false_iff]
  · exact fun h => absurd h.1 (not_le.mpr hneg)
  · exact ⟨not_lt.mp hneg, by linarith⟩
  · exact fun h => hsum (by linarith [h.2])

/-- An operation on a row that is there, or nothing, returns just if the row allows it. -/
theorem whenSome_returns_iff {reason : BalanceReason} {o : Option OrderId} :
    (∃ s', Prog.whenSome ((s.pg.balances key).map fun _ => key)
        (fun b => pessimistic op b amount reason o) s = (.ok ⟨⟩, s')) ↔
      ∀ row, s.pg.balances key = some row → ∃ row', op.pessimistic key row amount = .ok row' := by
  cases hrow : s.pg.balances key with
  | none => exact iff_of_true ⟨s, rfl⟩ fun _ h => absurd h (by simp)
  | some row =>
    constructor
    · rintro ⟨s', hs'⟩ row' h
      obtain rfl := Option.some.inj h
      obtain ⟨row₁, row₂, hrow₁, hop, -⟩ := pessimistic_eq_ok hs'
      obtain rfl : row = row₁ := Option.some.inj (hrow.symm.trans hrow₁)
      exact ⟨row₂, hop⟩
    · intro h
      obtain ⟨row', hop⟩ := h row rfl
      exact pessimistic_of_ok hrow hop

/-- What holds of a row that has moved. -/
theorem shifted_row_iff {Δ : BalanceKey → Amounts} (h : Shifts Δ s t) (key : BalanceKey)
    {P : Amounts → Prop} : (∀ row, t.pg.balances key = some row → P (amounts row)) ↔
      ∀ row, s.pg.balances key = some row → P (amounts row + Δ key) := by
  constructor
  · intro hP row hrow
    obtain ⟨row', hrow', hv⟩ := h.row hrow
    exact hv ▸ hP row' hrow'
  · intro hP row' hrow'
    obtain ⟨row, hrow⟩ : ∃ row, s.pg.balances key = some row := by
      rw [← Option.ne_none_iff_exists', Ne, ← h.none_iff, hrow']
      simp
    obtain ⟨_, hrow'', hv⟩ := h.row hrow
    obtain rfl : row' = _ := Option.some.inj (hrow'.symm.trans hrow'')
    exact hv ▸ hP row hrow

/-- Moving adds up where what is moved adds up. -/
theorem balanced_add_iff {x y : Amounts} (hy : Balanced y) : Balanced (x + y) ↔ Balanced x :=
  ⟨fun h => h.of_add hy, fun h => h.add hy⟩

/-- **Whether a party can pay**, seen from before its balances have moved. -/
theorem pays_of_shifts {Δ : BalanceKey → Amounts} (h : Shifts Δ s t) (hΔ : ∀ key, Balanced (Δ key)) :
    t.Pays 0 userId paid received paidAmount receivedAmount ↔
      s.Pays Δ userId paid received paidAmount receivedAmount := by
  unfold Store.Pays
  refine and_congr ?_ ?_
  · refine (shifted_row_iff h (userId, paid)
      (P := fun x => 0 ≤ paidAmount ∧ paidAmount ≤ x.2.1 + 0 ∧ Balanced x)).trans ?_
    refine forall_congr' fun row => imp_congr_right fun _ => and_congr_right fun _ => ?_
    rw [balanced_add_iff (hΔ _), add_zero]
    rfl
  · refine (shifted_row_iff h (userId, received)
      (P := fun x => 0 ≤ receivedAmount ∧ Balanced x)).trans ?_
    refine forall_congr' fun row => imp_congr_right fun _ => and_congr_right fun _ => ?_
    exact balanced_add_iff (hΔ _)

/-- **A party is settled** just if it can pay. -/
theorem settleParty_returns_iff :
    (∃ t, settleParty userId orderId paid received paidAmount receivedAmount s = (.ok ⟨⟩, t)) ↔
      s.Pays 0 userId paid received paidAmount receivedAmount := by
  have hrun : settleParty userId orderId paid received paidAmount receivedAmount s =
      ((Prog.whenSome ((s.pg.balances (userId, paid)).map fun _ => (userId, paid)) fun bal =>
          pessimistic .settle bal paidAmount .tradeSettled (some orderId)) >>= fun _ =>
        Prog.whenSome ((s.pg.balances (userId, received)).map fun _ => (userId, received)) fun bal =>
          pessimistic .credit bal receivedAmount .tradeReceived (some orderId)) s := rfl
  have hsettled : ∀ {s₁}, Prog.whenSome ((s.pg.balances (userId, paid)).map fun _ => (userId, paid))
      (fun bal => pessimistic .settle bal paidAmount .tradeSettled (some orderId)) s = (.ok ⟨⟩, s₁) →
        (((s.pg.balances (userId, received)).map fun _ => (userId, received)) =
          (s₁.pg.balances (userId, received)).map fun _ => (userId, received)) ∧
        ((∀ row, s₁.pg.balances (userId, received) = some row →
            ∃ row', Op.pessimistic .credit (userId, received) row receivedAmount = .ok row') ↔
          ∀ row, s.pg.balances (userId, received) = some row →
            0 ≤ receivedAmount ∧ Balanced (amounts row)) := by
    intro s₁ hs₁
    have hshift := optional_shifts .settle (userId, paid) (by simp [eq_comm]) (by simp) hs₁
    refine ⟨?_, ?_⟩
    · have hk := hshift (userId, received)
      cases h : s.pg.balances (userId, received) <;> cases h₁ : s₁.pg.balances (userId, received) <;>
        rw [h, h₁] at hk <;> simp_all
    · simp only [creditPessimistic_returns_iff]
      refine (shifted_row_iff hshift (userId, received)
        (P := fun x => 0 ≤ receivedAmount ∧ Balanced x)).trans ?_
      refine forall_congr' fun row => imp_congr_right fun _ => and_congr_right fun _ => ?_
      refine balanced_add_iff ?_
      rw [Moved.single_apply]
      split_ifs <;> simp [Balanced, opAmounts]
  have hpays : (∃ s₁, Prog.whenSome ((s.pg.balances (userId, paid)).map fun _ => (userId, paid))
      (fun bal => pessimistic .settle bal paidAmount .tradeSettled (some orderId)) s = (.ok ⟨⟩, s₁)) ↔
        ∀ row, s.pg.balances (userId, paid) = some row → 0 ≤ paidAmount ∧
          paidAmount ≤ row.lockedBalance + 0 ∧ Balanced (amounts row) := by
    rw [whenSome_returns_iff]
    simp only [settlePessimistic_returns_iff, add_zero]
  rw [hrun]
  constructor
  · rintro ⟨t, h⟩
    obtain ⟨_, s₁, hpaid, hcredit⟩ := Prog.bind_eq_ok.mp h
    obtain ⟨hkey, hrows⟩ := hsettled hpaid
    rw [hkey] at hcredit
    exact ⟨hpays.mp ⟨s₁, hpaid⟩, hrows.mp (whenSome_returns_iff.mp ⟨t, hcredit⟩)⟩
  · rintro ⟨hpaid, hreceived⟩
    obtain ⟨s₁, hs₁⟩ := hpays.mpr hpaid
    obtain ⟨hkey, hrows⟩ := hsettled hs₁
    obtain ⟨t, ht⟩ := whenSome_returns_iff.mpr (hrows.mpr hreceived)
    refine ⟨t, ?_⟩
    rw [Prog.bind_of_ok hs₁, hkey]
    exact ht

end

end SpotExchange.Exchange
