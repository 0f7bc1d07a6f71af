import SpotExchange.Exchange.Causing
import SpotExchange.Exchange.Halting

namespace SpotExchange.Exchange

open SpotExchange.Lib
open SpotExchange.Ledger (BalanceKey Row)

/-!
# The exchange between two actions

* `Healthy` — what holds of the store, whatever requests, bulk cancels and adjustments have come;
* `Healthy.setUsers`, `Healthy.setPair` — users who enroll and markets that are managed do not disturb it;
* `Healthy.act` — every action keeps it;
* `inherits_act` — an action brings nothing into a halted market.
-/

/-- The store with other users. -/
def Store.setUsers (s : Store) (users : Finset UserId) : Store := { s with pg := { s.pg with users := users } }

/-- **What holds of the store between two turns.** -/
structure Healthy (s : Store) : Prop extends Sweepable s where
  orderly : Orderly s
  recorded : Recorded s

section

variable {s s' : Store} {b : Bank} {userId other : UserId} {a : Action}

theorem healthy_start (users : Finset UserId) (pairs : Symbol → Option TradingPair)
    {balances : BalanceKey → Option Row} (hrows : RowsOk balances) :
    Healthy (Store.start users pairs balances) where
  toSweepable := sweepable_start users pairs hrows
  orderly := orderly_start users pairs balances
  recorded := recorded_start users pairs balances

theorem Healthy.serve (h : Healthy s) (req : Request) : Healthy (s.serve req) where
  rows := (audited_serve s req).rowsOk h.rows
  markets := marketsKnown_serve h.orderly.consistent h.markets req
  orderly := orderly_serve h.orderly req
  recorded := (recorded_serve h.orderly h.recorded req).1

theorem Healthy.serveAll (h : Healthy s) (reqs : List Request) : Healthy (s.serveAll reqs) :=
  Run.invariant (fun _ req h => h.serve req) h reqs

/-- New users have no part in it. -/
theorem Healthy.setUsers (h : Healthy s) (users : Finset UserId) : Healthy (s.setUsers users) where
  rows := h.rows
  markets := h.markets
  orderly :=
    { consistent := ⟨h.orderly.consistent.engine, h.orderly.consistent.ids, h.orderly.consistent.booked,
        h.orderly.consistent.queued⟩
      fresh := ⟨h.orderly.fresh.nodup, h.orderly.fresh.apart, h.orderly.fresh.unfilled, h.orderly.fresh.pending,
        h.orderly.fresh.nonneg, h.orderly.fresh.distinct⟩ }
  recorded :=
    { fills := h.recorded.fills
      rows := fun t ht => ⟨(h.recorded.rows t ht).quantity_pos, (h.recorded.rows t ht).quoteQuantity,
        (h.recorded.rows t ht).parties⟩
      ids := h.recorded.ids
      increasing := h.recorded.increasing }

/-- A pair that is added, or turned on or off, has no part in it. -/
theorem Healthy.setPair (h : Healthy s) (symbol : Symbol) (pair : TradingPair) : Healthy (s.setPair symbol pair) where
  rows := h.rows
  markets := by
    intro id o ho
    show Function.update s.pg.tradingPairs symbol (some pair) o.symbol ≠ none
    rw [Function.update_apply]
    split_ifs
    · exact Option.some_ne_none pair
    · exact h.markets id o ho
  orderly :=
    { consistent := ⟨h.orderly.consistent.engine, h.orderly.consistent.ids, h.orderly.consistent.booked,
        h.orderly.consistent.queued⟩
      fresh := ⟨h.orderly.fresh.nodup, h.orderly.fresh.apart, h.orderly.fresh.unfilled, h.orderly.fresh.pending,
        h.orderly.fresh.nonneg, h.orderly.fresh.distinct⟩ }
  recorded :=
    { fills := h.recorded.fills
      rows := fun t ht => ⟨(h.recorded.rows t ht).quantity_pos, (h.recorded.rows t ht).quoteQuantity,
        (h.recorded.rows t ht).parties⟩
      ids := h.recorded.ids
      increasing := h.recorded.increasing }

/-- Balances alone have no part in the orders and the trades. -/
theorem Healthy.quiet (h : Healthy s) (hquiet : Quiet s s') (hrows : RowsOk s'.pg.balances) :
    Healthy s' := by
  have horderly := h.orderly.quiet hquiet
  obtain ⟨balances, updates, rfl⟩ := hquiet
  exact
    { rows := hrows
      markets := h.markets
      orderly := horderly
      recorded :=
        { fills := h.recorded.fills
          rows := fun t ht => ⟨(h.recorded.rows t ht).quantity_pos, (h.recorded.rows t ht).quoteQuantity,
            (h.recorded.rows t ht).parties⟩
          ids := h.recorded.ids
          increasing := h.recorded.increasing } }

/-- An adjustment changes balances alone, and of no other user. -/
theorem adjust_quiet (userId : UserId) (b : Bank) (key : BalanceKey) (delta : ℚ) (reason : String) :
    Quiet b.store (b.act (.adjust key delta reason)).store ∧
      (key.1 ≠ userId → KeptBalances userId b.store (b.act (.adjust key delta reason)).store) := by
  have hact : b.act (.adjust key delta reason) = (adjustBalance key delta reason b).2 := rfl
  rw [hact]
  rcases adjustBalance_cases b key delta reason with ⟨row, b₁, row', hloaded, -, hx⟩ | ⟨err, hx⟩ <;>
    rw [hx]
  · refine ⟨?_, fun hother asset row₀ hrow₀ => ?_⟩
    · cases hloaded <;> exact ⟨_, _, rfl⟩
    · have hne : (userId, asset) ≠ key := fun heq => hother (congrArg Prod.fst heq).symm
      show Function.update b₁.store.pg.balances key (some row') (userId, asset) = some row₀
      rw [Function.update_of_ne hne]
      cases hloaded with
      | found row hrow => exact hrow₀
      | created hrow huser =>
        show Function.update b.store.pg.balances key (some Row.zero) (userId, asset) = some row₀
        rw [Function.update_of_ne hne]
        exact hrow₀
  · exact ⟨refl_of Quiet b.store, fun _ _ row hrow => hrow⟩

/-- **Every action keeps the store so.** -/
theorem Healthy.act (h : Healthy b.store) (a : Action) : Healthy (b.act a).store := by
  cases a with
  | request req => exact h.serve req
  | cancelBulk userId orderIds symbol cancelAll =>
    have hstore : (b.act (.cancelBulk userId orderIds symbol cancelAll)).store = _ :=
      cancelBulkOrders_serveAll h.toSweepable userId orderIds symbol cancelAll
    rw [hstore]
    exact h.serveAll _
  | adjust key delta reason =>
    exact h.quiet (adjust_quiet key.1 b key delta reason).1
      ((audited_act b (.adjust key delta reason)).rowsOk h.rows)

/-- **An action** brings nothing into a halted market, and leaves the markets as they are. -/
theorem inherits_act {b : Bank} {symbol : Symbol} (h : Healthy b.store) (hhalted : Halted symbol b.store)
    (a : Action) : (b.act a).store.pg.tradingPairs = b.store.pg.tradingPairs ∧
      Inherited symbol b.store (b.act a).store := by
  have hserve : ∀ s : Store, Healthy s → Halted symbol s → ∀ req,
      (s.serve req).pg.tradingPairs = s.pg.tradingPairs ∧ Inherited symbol s (s.serve req) := fun s h hhalted req =>
    ⟨serve_pairs h.orderly.consistent.ids h.orderly.consistent.engine req,
      inherits_serve h.orderly.consistent hhalted req⟩
  cases a with
  | request req => exact hserve b.store h hhalted req
  | cancelBulk userId orderIds symbol' cancelAll =>
    have hstore : (b.act (.cancelBulk userId orderIds symbol' cancelAll)).store = _ :=
      cancelBulkOrders_serveAll h.toSweepable userId orderIds symbol' cancelAll
    rw [hstore]
    have hrun : ∀ reqs : List Request, Healthy (b.store.serveAll reqs) ∧
        (b.store.serveAll reqs).pg.tradingPairs = b.store.pg.tradingPairs ∧
        Inherited symbol b.store (b.store.serveAll reqs) := fun reqs =>
      Run.invariant (I := fun s => Healthy s ∧ s.pg.tradingPairs = b.store.pg.tradingPairs ∧
        Inherited symbol b.store s)
        (fun s req hI => by
          obtain ⟨hs, hpairs, hinherited⟩ := hI
          have hhalted' : Halted symbol s := by
            unfold Halted
            rw [hpairs]
            exact hhalted
          obtain ⟨hpairs', hinherited'⟩ := hserve s hs hhalted' req
          exact ⟨hs.serve req, hpairs'.trans hpairs, hinherited.trans hinherited'⟩)
        ⟨h, rfl, .refl h.orderly.consistent.ids⟩ reqs
    exact (hrun _).2
  | adjust key delta reason =>
    have hquiet := (adjust_quiet key.1 b key delta reason).1
    refine ⟨?_, inherits_quiet hquiet h.orderly.consistent.ids⟩
    obtain ⟨balances, updates, hstore⟩ := hquiet
    rw [hstore]

end

end SpotExchange.Exchange
