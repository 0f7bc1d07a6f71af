import SpotExchange.Engine.Levels

namespace SpotExchange.Engine

open SpotExchange.Lib

/-!
# The matching loop

`_would_cross`, `_precheck_fok`, `_match_internal` and `match_active_order` of `engine.pyx`.
The locals of the two nested loops are the records `LevelWalk` (the walk along the orders of
one level) and `SideWalk` (the walk along the levels of the opposite side).
-/

/-- The taker's limit excludes a level of this price; a taker without a price has no limit. -/
def COrder.outOfLimit (c : COrder) (price : ℚ) : Bool :=
  match c.price with
  | none => false
  | some p => (decide (c.side = .buy) && decide (price > p)) ||
      (decide (c.side = .sell) && decide (price < p))

/-- `_would_cross`: a comparison with `NaN` is false. -/
def wouldCross (e : CMatchingEngine) (c : COrder) : Bool :=
  let opp := e.bookSide c.side.opp
  match c.price with
  | none => false
  | some p =>
      decide (0 < opp.size) &&
        match c.side with
        | .buy => decide (p ≥ (opp.levels 0).price)
        | .sell => decide (p ≤ (opp.levels 0).price)

/-- The summing loop of `_precheck_fok` over the levels that are left. -/
def precheckLoop (c : COrder) : ℚ → List PriceLevel → Bool
  | _, [] => false
  | cumulative, lvl :: levels =>
      if c.outOfLimit lvl.price then false
      else if cumulative + lvl.totalVolume ≥ c.quantity then true
      else precheckLoop c (cumulative + lvl.totalVolume) levels

/-- `_precheck_fok`. -/
def precheckFok (e : CMatchingEngine) (c : COrder) : Bool :=
  let opp := e.bookSide c.side.opp
  precheckLoop c 0 (slice opp.levels opp.size)

/-! ### One fill -/

/-- What a maker offers to one fill: the visible chunk of an iceberg, else everything. -/
def OrderNode.visibleAvail (maker : OrderNode) : ℚ :=
  if maker.isIceberg ∧ maker.visibleQty < maker.remainingQty then maker.visibleQty
  else maker.remainingQty

/-- Take from a maker: the maker afterwards, the filled quantity and what is left of the
    taker.  A depleted iceberg chunk is refilled with all that remains. -/
def takeFromMaker (maker : OrderNode) (remaining : ℚ) : OrderNode × ℚ × ℚ :=
  if remaining ≥ maker.visibleAvail then
    let fillQty := maker.visibleAvail
    let hidden := maker.remainingQty - fillQty
    let visible := if maker.isIceberg then (if hidden > 0 then hidden else 0) else maker.visibleQty
    ({ maker with remainingQty := hidden, visibleQty := visible }, fillQty, remaining - fillQty)
  else
    let visible := if maker.isIceberg then maker.visibleQty - remaining else maker.visibleQty
    ({ maker with remainingQty := maker.remainingQty - remaining, visibleQty := visible },
      remaining, 0)

/-- The locals of the walk along one level. -/
structure LevelWalk where
  pool : ℕ → OrderNode
  lvl : PriceLevel
  maker : Option ℕ
  remainingQty : ℚ
  tradesBuf : ℕ → TradeResult
  tradesCount : ℕ
  poolGrowNeeded : Bool

/-- `while maker != NULL and incoming.remaining_qty > 0.0`, left by `break` on a full buffer. -/
def LevelWalk.running (w : LevelWalk) : Bool :=
  w.maker.isSome && decide (0 < w.remainingQty) && !w.poolGrowNeeded

/-- Unlink the exhausted head `m` of a level. -/
def PriceLevel.unlinkHead (lvl : PriceLevel) (m : ℕ) (next : Option ℕ) : PriceLevel :=
  { lvl with head := next, tail := if lvl.tail = some m then none else lvl.tail,
             orderCount := lvl.orderCount - 1 }

/-- The body of the walk along one level: fill the current maker, emit the trade if the buffer
    has room, unlink the maker if it is exhausted, and advance. -/
def LevelWalk.step (c : COrder) (tradesCap : ℕ) (w : LevelWalk) : Option LevelWalk :=
  match w.maker with
  | none => some w
  | some m =>
      let (maker, fillQty, remaining) := takeFromMaker (w.pool m) w.remainingQty
      let lvl := { w.lvl with totalVolume := w.lvl.totalVolume - fillQty }
      let w := { w with pool := Function.update w.pool m maker, lvl := lvl,
                        remainingQty := remaining }
      if w.tradesCount ≥ tradesCap then
        some { w with poolGrowNeeded := true }
      else
        let trade : TradeResult :=
          { takerOrderId := c.orderId, makerOrderId := maker.orderId, price := lvl.price,
            quantity := fillQty, takerSide := c.side }
        let lvl := if maker.remainingQty ≤ 0 then lvl.unlinkHead m maker.next else lvl
        let next :=
          if maker.remainingQty ≤ 0 then lvl.head
          else if maker.visibleQty ≤ 0 then maker.next
          else some m
        some { w with lvl := lvl, maker := next,
                      tradesBuf := Function.update w.tradesBuf w.tradesCount trade,
                      tradesCount := w.tradesCount + 1 }

/-! ### The walk along the side -/

/-- The locals of the walk along the levels; `stopped` is set by a `break`. -/
structure SideWalk where
  pool : ℕ → OrderNode
  opp : OrderBookSide
  lvlIdx : ℕ
  remainingQty : ℚ
  tradesBuf : ℕ → TradeResult
  tradesCount : ℕ
  poolGrowNeeded : Bool
  stopped : Bool

/-- `while incoming.remaining_qty > 0.0 and lvl_idx < opp.size`. -/
def SideWalk.running (s : SideWalk) : Bool :=
  decide (0 < s.remainingQty) && decide (s.lvlIdx < s.opp.size) && !s.stopped

/-- The start of the walk along the level at `lvl_idx`. -/
def SideWalk.enter (s : SideWalk) : LevelWalk where
  pool := s.pool
  lvl := s.opp.levels s.lvlIdx
  maker := (s.opp.levels s.lvlIdx).head
  remainingQty := s.remainingQty
  tradesBuf := s.tradesBuf
  tradesCount := s.tradesCount
  poolGrowNeeded := s.poolGrowNeeded

/-- After the walk along one level: leave on a full buffer, compact an emptied level (the next
    one shifts into its place), else go to the next index. -/
def SideWalk.leave (s : SideWalk) (w : LevelWalk) : SideWalk :=
  let opp := { s.opp with levels := Function.update s.opp.levels s.lvlIdx w.lvl }
  let s := { s with pool := w.pool, opp := opp, remainingQty := w.remainingQty,
                    tradesBuf := w.tradesBuf, tradesCount := w.tradesCount,
                    poolGrowNeeded := w.poolGrowNeeded }
  if w.poolGrowNeeded then { s with stopped := true }
  else if w.lvl.orderCount = 0 then { s with opp := removeLevel opp s.lvlIdx }
  else { s with lvlIdx := s.lvlIdx + 1 }

/-- The body of the walk along the levels.  `fuel` bounds the walk along one level. -/
def SideWalk.step (c : COrder) (tradesCap fuel : ℕ) (s : SideWalk) : Option SideWalk :=
  if c.outOfLimit (s.opp.levels s.lvlIdx).price then some { s with stopped := true }
  else (whileFuel LevelWalk.running (LevelWalk.step c tradesCap) fuel s.enter).map s.leave

/-- `_match_internal`: the outcome, what is left of the taker, and the engine afterwards.  Every
    order of the pool takes at most two fills, every iteration of the outer loop passes a level. -/
def matchInternal (e : CMatchingEngine) (c : COrder) :
    Except EngineError (CMatchOutcome × ℚ × CMatchingEngine) :=
  let opp := e.bookSide c.side.opp
  if c.type = .postOnly then
    .ok (if wouldCross e c then .postOnlyCross else .ok, c.remainingQty, e)
  else if c.type = .fok ∧ precheckFok e c = false then
    .ok (.fokRejected, c.remainingQty, e)
  else
    match whileFuel SideWalk.running (SideWalk.step c e.tradesCap (2 * e.nodePoolSize)) opp.size
        { pool := e.nodePool, opp := opp, lvlIdx := 0, remainingQty := c.remainingQty,
          tradesBuf := e.tradesBuf, tradesCount := e.tradesCount, poolGrowNeeded := false,
          stopped := false } with
    | none => .error .diverged
    | some s =>
        let e := { e.setBookSide c.side.opp s.opp with
                   nodePool := s.pool, tradesBuf := s.tradesBuf, tradesCount := s.tradesCount }
        let outcome : CMatchOutcome :=
          if s.poolGrowNeeded then .noLiquidity
          else if 0 < s.remainingQty ∧ (c.type = .market ∨ c.type = .ioc) ∧ s.tradesCount = 0 then
            .noLiquidity
          else .ok
        .ok (outcome, s.remainingQty, e)

/-- What `match_active_order` returns. -/
structure MatchResult where
  trades : List TradeResult
  outcome : CMatchOutcome
  remainingQty : ℚ
  deriving DecidableEq, Repr

/-- `match_active_order`. -/
def matchActiveOrder (e : CMatchingEngine) (c : COrder) :
    Except EngineError (MatchResult × CMatchingEngine) :=
  match matchInternal { e with tradesCount := 0 } c with
  | .error err => .error err
  | .ok (outcome, remaining, e) =>
      .ok ({ trades := slice e.tradesBuf e.tradesCount, outcome := outcome,
             remainingQty := remaining }, e)

end SpotExchange.Engine
