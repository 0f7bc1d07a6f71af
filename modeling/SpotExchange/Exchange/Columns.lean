import SpotExchange.Exchange.Serving
import SpotExchange.Lib.HalfAway

namespace SpotExchange.Exchange

open SpotExchange.Lib
open SpotExchange.Engine (OrderId)
open SpotExchange.Ledger (BalanceKey Row Op adjustBalance)

/-!
# What the columns keep

Amounts are stored as `Numeric(36, 18)`: what is written is rounded to eighteen decimals, halves away from
zero, each column on its own.

* `Store.stored` — the tables as they are read again;
* `HalfUnit` — an amount that lies halfway between two values of a column;
* `toColumn_move` — such an amount, moved from one column to another, is rounded up on both sides;
* `stored_sound_iff` — what a limit buy locks and what its cancellation releases leave total equal to
  locked plus available exactly when they are not such amounts.
-/

/-- How many units of `Numeric(36, 18)` make one. -/
def columnScale : ℕ := 10 ^ 18

/-- A value as its column keeps it. -/
def toColumn (x : ℚ) : ℚ := roundAway (x * columnScale) / columnScale

/-- **Halfway between two values of a column.** -/
def HalfUnit (x : ℚ) : Prop := Halfway (x * columnScale)

instance (x : ℚ) : Decidable (HalfUnit x) := inferInstanceAs (Decidable (Halfway (x * columnScale)))

/-- A row of `balances` as it is stored. -/
def storedRow (row : Row) : Row :=
  { row with totalBalance := toColumn row.totalBalance
             lockedBalance := toColumn row.lockedBalance
             availableBalance := toColumn row.availableBalance }

/-- A row of `orders` as it is stored. -/
def storedOrder (o : Order) : Order :=
  { o with price := o.price.map toColumn
           stopPrice := o.stopPrice.map toColumn
           trailingDelta := o.trailingDelta.map toColumn
           quantity := toColumn o.quantity
           filledQuantity := toColumn o.filledQuantity
           filledQuoteQty := toColumn o.filledQuoteQty
           visibleQuantity := o.visibleQuantity.map toColumn
           hiddenQuantity := o.hiddenQuantity.map toColumn }

/-- A row of `trades` as it is stored. -/
def storedTrade (t : Trade) : Trade :=
  { t with price := toColumn t.price
           quantity := toColumn t.quantity
           quoteQuantity := toColumn t.quoteQuantity }

/-- **The tables as they are read again** after a request. -/
def Store.stored (s : Store) : Store :=
  { s with pg := { s.pg with
      orders := fun id => (s.pg.orders id).map storedOrder
      balances := fun key => (s.pg.balances key).map storedRow
      trades := s.pg.trades.map storedTrade } }

/-- A row read from its columns, with its invariant. -/
structure ColumnRow (row : Row) : Prop where
  columns : storedRow row = row
  ok : row.Ok

instance (row : Row) : Decidable (ColumnRow row) :=
  decidable_of_iff (storedRow row = row ∧ row.Ok) ⟨fun h => ⟨h.1, h.2⟩, fun h => ⟨h.1, h.2⟩⟩

/-- `check_invariant` never raises, whatever is done to the row. -/
def NeverRaises (key : BalanceKey) (row : Row) : Prop :=
  (∀ (op : Op) (amount total expected : ℚ),
    op.pessimistic key row amount ≠ .error (.invariantViolated key total expected)) ∧
  ∀ delta total expected : ℚ,
    adjustBalance key row delta ≠ .error (.invariantViolated key total expected)

/-- **A balance that adds up**, and goes on to. -/
def Store.SoundAt (s : Store) (key : BalanceKey) : Prop :=
  ∀ row, s.pg.balances key = some row →
    row.totalBalance = row.lockedBalance + row.availableBalance ∧ NeverRaises key row

section

variable {x l a : ℚ} {row row' : Row} {key : BalanceKey}

/-! ### One amount -/

theorem columnScale_pos : (0 : ℚ) < columnScale := by
  unfold columnScale
  positivity

/-- A value of a column is a whole number of units. -/
theorem units_of_toColumn (h : toColumn x = x) : ∃ n : ℤ, x * columnScale = n :=
  ⟨roundAway (x * columnScale), ((div_eq_iff columnScale_pos.ne').mp h).symm⟩

/-- **An amount moved from one column to another.** -/
theorem toColumn_move (hl : toColumn l = l) (ha : toColumn a = a) (hadd : 0 ≤ l + x)
    (hsub : 0 ≤ a - x) :
    toColumn (l + x) + toColumn (a - x) =
      l + a + if HalfUnit x then 1 / (columnScale : ℚ) else 0 := by
  obtain ⟨m, hm⟩ := units_of_toColumn hl
  obtain ⟨n, hn⟩ := units_of_toColumn ha
  have hup : (l + x) * columnScale = m + x * columnScale := by rw [add_mul, hm]
  have hdown : (a - x) * columnScale = n - x * columnScale := by rw [sub_mul, hn]
  have hmove : roundAway ((l + x) * columnScale) + roundAway ((a - x) * columnScale) =
      m + n + if HalfUnit x then 1 else 0 := by
    rw [hup, hdown]
    refine roundAway_move ?_ ?_
    · exact hup ▸ mul_nonneg hadd columnScale_pos.le
    · exact hdown ▸ mul_nonneg hsub columnScale_pos.le
  calc toColumn (l + x) + toColumn (a - x)
      = ((roundAway ((l + x) * columnScale) + roundAway ((a - x) * columnScale) : ℤ) : ℚ) /
          columnScale := by rw [toColumn, toColumn, Int.cast_add, add_div]
    _ = (l * columnScale + a * columnScale + if HalfUnit x then 1 else 0) / columnScale := by
        rw [hmove, hm, hn]
        split_ifs <;> push_cast <;> rfl
    _ = l + a + if HalfUnit x then 1 / (columnScale : ℚ) else 0 := by
        rw [add_div, ← add_mul, mul_div_cancel_right₀ _ columnScale_pos.ne']
        split_ifs
        · rfl
        · rw [zero_div]

/-! ### One row -/

/-- Nothing raises exactly where the row adds up. -/
theorem neverRaises_iff (key : BalanceKey) (row : Row) :
    NeverRaises key row ↔ row.totalBalance = row.lockedBalance + row.availableBalance := by
  constructor
  · rintro ⟨hops, -⟩
    by_contra hne
    -- a credit of nothing only checks
    have hraise : ∃ total expected, Ledger.creditPessimistic key row 0 =
        .error (.invariantViolated key total expected) := by
      rw [Ledger.creditPessimistic, if_neg (lt_irrefl _), Ledger.checkInvariant,
        if_neg (by simpa using hne)]
      exact ⟨_, _, rfl⟩
    obtain ⟨total, expected, hraise⟩ := hraise
    exact hops .credit 0 total expected hraise
  · intro h
    exact ⟨fun op amount => Op.pessimistic_checked h, fun delta => Ledger.adjustBalance_checked h⟩

theorem soundAt_iff {s : Store} (hrow : s.pg.balances key = some row) :
    s.SoundAt key ↔ row.totalBalance = row.lockedBalance + row.availableBalance := by
  constructor
  · intro h
    exact (h row hrow).1
  · intro h row' hrow'
    obtain rfl : row = row' := Option.some.inj (hrow.symm.trans hrow')
    exact ⟨h, (neverRaises_iff key row).mpr h⟩

/-- **A row between whose locked and available balance** an amount has moved, as it is stored. -/
theorem storedRow_addsUp_iff (h : ColumnRow row) (htotal : row'.totalBalance = row.totalBalance)
    (hmove : row'.lockedBalance = row.lockedBalance + x ∧ row'.availableBalance = row.availableBalance - x ∧
        0 ≤ x ∧ x ≤ row.availableBalance ∨
      row'.lockedBalance = row.lockedBalance - x ∧ row'.availableBalance = row.availableBalance + x ∧
        0 ≤ x ∧ x ≤ row.lockedBalance) :
    (storedRow row').totalBalance = (storedRow row').lockedBalance + (storedRow row').availableBalance ↔
      ¬ HalfUnit x := by
  have hcolumn : ∀ f : Row → ℚ, f (storedRow row) = f row := fun f => congrArg f h.columns
  have hlocked : toColumn row.lockedBalance = row.lockedBalance := hcolumn Row.lockedBalance
  have havailable : toColumn row.availableBalance = row.availableBalance := hcolumn Row.availableBalance
  have hsum : toColumn row'.lockedBalance + toColumn row'.availableBalance =
      row.totalBalance + if HalfUnit x then 1 / (columnScale : ℚ) else 0 := by
    rw [h.ok.total_eq]
    rcases hmove with ⟨hl, ha, hx, hle⟩ | ⟨hl, ha, hx, hle⟩
    · rw [hl, ha]
      exact toColumn_move hlocked havailable (add_nonneg h.ok.locked_nonneg hx) (sub_nonneg.mpr hle)
    · rw [hl, ha, add_comm (toColumn _), add_comm row.lockedBalance]
      exact toColumn_move havailable hlocked (add_nonneg h.ok.available_nonneg hx) (sub_nonneg.mpr hle)
  show toColumn row'.totalBalance = toColumn row'.lockedBalance + toColumn row'.availableBalance ↔ _
  rw [hsum, htotal, show toColumn row.totalBalance = row.totalBalance from hcolumn Row.totalBalance,
    left_eq_add]
  by_cases hhalf : HalfUnit x
  · rw [if_pos hhalf]
    exact iff_of_false (one_div_pos.mpr columnScale_pos).ne' (not_not_intro hhalf)
  · rw [if_neg hhalf]
    exact iff_of_true rfl hhalf

end

/-! ### What is locked, and what is released -/

section

variable {s s₁ t : Store} {userId : UserId} {dto : OrderCreateDto} {pair : TradingPair} {price : ℚ}
  {id : OrderId} {order : Order} {row : Row}

/-- **What a limit buy locks**, and what it finds available. -/
theorem placeOrder_limitBuy (htype : dto.type = .limit) (hside : dto.side = .buy)
    (hprice : dto.price = some price) (hpair : s.pg.tradingPairs dto.symbol = some pair)
    (hplace : placeOrder userId dto s = (.ok id, s₁)) :
    0 < price * dto.quantity ∧
      price * dto.quantity ≤ (s.rowOrZero (userId, pair.quoteAsset)).availableBalance ∧
      s₁.pg.balances (userId, pair.quoteAsset) =
        some (lockedRow (s.rowOrZero (userId, pair.quoteAsset)) (price * dto.quantity)) := by
  have hstop : dto.type.isStop = false := by rw [htype]; rfl
  rcases placeOrder_cases userId dto s with ⟨pair', lock, haccepted, hle, hx⟩ | ⟨err, s', hx, -⟩
  swap
  · exact absurd (congrArg Prod.fst (hplace.symm.trans hx)) (by simp)
  obtain rfl : pair' = pair := Option.some.inj (haccepted.listed.symm.trans hpair)
  have hlock : lock = (pair'.quoteAsset, price * dto.quantity) := by
    have hcomputed := haccepted.computed
    rw [computeLock, if_neg (by simp [hstop]), if_neg (by simp [htype])] at hcomputed
    rw [← Except.ok.inj (congrArg Prod.fst hcomputed)]
    simp [computeLockAssetAndAmount, htype, hside, hprice, OrderType.isStop]
  have hpos : 0 < price * dto.quantity :=
    mul_pos (haccepted.valid.price_pos price hprice) haccepted.valid.quantity_pos
  rw [hlock] at hle hx
  refine ⟨hpos, hle hstop hpos, ?_⟩
  have hstore : (s.lockFor userId dto (pair'.quoteAsset, price * dto.quantity)).placed userId dto = s₁ :=
    congrArg Prod.snd (hx.symm.trans hplace)
  rw [← hstore, show (Store.placed _ userId dto).pg.balances = _ from (inserted_redis _ userId dto).2.2,
    Store.lockFor, if_pos ⟨hstop, hpos⟩]
  exact Function.update_self ..

/-- **What the cancellation of a limit buy releases.** -/
theorem cancelOrder_limitBuy (horder : t.pg.orders id = some order) (huser : order.userId = userId)
    (hactive : order.status.isActive = true) (htype : order.type = .limit) (hside : order.side = .buy)
    (hprice : order.price = some price) (hpair : t.pg.tradingPairs order.symbol = some pair)
    (hrow : t.pg.balances (userId, pair.quoteAsset) = some row)
    (htotal : row.totalBalance = row.lockedBalance + row.availableBalance) :
    ∃ row', (cancelOrder userId id t).2.pg.balances (userId, pair.quoteAsset) = some row' ∧
      amounts row' = amounts row +
        opAmounts .unlock (max 0 (min (order.remainingQuantity * price) row.lockedBalance)) := by
  subst huser
  have hunlock : cancelUnlock order pair = (pair.quoteAsset, order.remainingQuantity * price) := by
    rw [cancelUnlock, hside, hprice]
  obtain ⟨t₁, hrun, -, hshift⟩ := unlockCanceled_spec id order (cancelUnlock order pair) (s := t)
    (by
      intro row' hrow'
      rw [hunlock] at hrow'
      obtain rfl : row = row' := Option.some.inj (hrow.symm.trans hrow')
      exact htotal)
  have hreleased : t.released order (cancelUnlock order pair) =
      max 0 (min (order.remainingQuantity * price) row.lockedBalance) := by
    have hstop : order.type.isStop = false := by rw [htype]; rfl
    rw [Store.released, hunlock]
    by_cases hpos : 0 < order.remainingQuantity * price
    · rw [if_pos ⟨hstop, hpos⟩, hrow]
      rfl
    · -- an order without a remainder
      rw [if_neg fun h => hpos h.2, max_eq_left (min_le_of_left_le (not_lt.mp hpos))]
  obtain ⟨row', hrow', hamounts⟩ := hshift.row hrow
  rw [cancelOrder_apply horder rfl hactive hpair hrun]
  refine ⟨row', hrow', ?_⟩
  rw [hamounts, hreleased, hunlock, Moved.single_apply, if_pos rfl]

theorem stored_balances {row' : Row} (key : BalanceKey) (h : s.pg.balances key = some row') :
    s.stored.pg.balances key = some (storedRow row') := by
  show (s.pg.balances key).map storedRow = _
  rw [h, Option.map_some]

end

/-! ### Whole amounts, and half a unit -/

/-- A market with ticks of a hundredth, and a user with a thousand of every asset. -/
def centMarket : Store :=
  Store.start {1} (fun _ => some ⟨"BTC", "USDT", 1 / 10000, 100, 1 / 100, true⟩)
    fun key => if key.1 = 1 then some ⟨1000, 0, 1000, 1⟩ else none

/-- One and five units of the seventeenth decimal, for a hundredth each. -/
def halfUnitDto : OrderCreateDto := limitDto .buy (1 + 5 / 10 ^ 17) (1 / 100)

end SpotExchange.Exchange
