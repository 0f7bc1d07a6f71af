import SpotExchange.Exchange.Absence

namespace SpotExchange.Exchange

open SpotExchange.Lib
open SpotExchange.Engine (OrderId)

/-!
# What becomes of a replacement

`modify_order` queues the new order as a `modify` action, which the worker acknowledges without
placing anything.

* `Live` — the least that an order needs so as to be matched some day;
* `modifyOrder_not_live` — no replacement is ever live, however long the worker runs.
-/

/-- The order is filled, or it rests in the ZSET of its side with what is left of it. -/
def Live (s : Store) (id : OrderId) : Prop :=
  ∃ o, s.pg.orders id = some o ∧ (o.filledQuantity = o.quantity ∨ ∃ hash,
    id ∈ (s.redis.book o.symbol o.side).members ∧ s.redis.orderHash id = some hash ∧
      hash.loadedQuantity = o.remainingQuantity)

section

variable {s s' : Store} {k : OrderId}

/-- The worker goes on leaving an order alone. -/
theorem gone_drain (h : Consistent s) (hgone : Gone k s) (n : ℕ) :
    Gone k (s.serveAll (List.replicate n .work)) ∧
      (s.serveAll (List.replicate n .work)).pg.orders k = s.pg.orders k := by
  induction n generalizing s with
  | zero => exact ⟨hgone, rfl⟩
  | succ n ih =>
    have hwork := gone_work h.engine hgone
    obtain ⟨hgone', hrow⟩ := ih (consistent_work h) (hgone.of_leftAlone hwork)
    exact ⟨hgone', hrow.trans hwork.row⟩

/-- An id that has not been given out is out of reach. -/
theorem Consistent.unused (h : Consistent s) :
    (∀ symbol side, s.orderIdSeq ∉ (s.redis.book symbol side).members) ∧
      ∀ p ∈ s.redis.ordersQueue, p.action = .place → p.orderId ≠ s.orderIdSeq := by
  constructor
  · intro symbol side hid
    obtain ⟨o, ho, -⟩ := h.booked symbol side _ hid
    exact lt_irrefl _ (h.ids _ (by rw [ho]; simp))
  · intro p hp hplace hid
    obtain ⟨o, ho, -⟩ := h.queued p hp hplace
    exact lt_irrefl _ (hid ▸ h.ids _ (by rw [ho]; simp))

/-- **The replacement is gone** as soon as it exists. -/
theorem gone_replace (h : Consistent s) {id : OrderId} {old : Order} (newPrice newQuantity : ℚ)
    (hold : s.pg.orders id = some old) :
    Gone s.orderIdSeq (s.replace id old newPrice newQuantity) ∧
      (s.replace id old newPrice newQuantity).pg.orders s.orderIdSeq =
        some (replacement id old newPrice newQuantity) := by
  have hne : id ≠ s.orderIdSeq := (h.ids id (by rw [hold]; simp)).ne
  have hrow : (s.replace id old newPrice newQuantity).pg.orders s.orderIdSeq =
      some (replacement id old newPrice newQuantity) := by
    show Function.update (Function.update (Function.update s.pg.orders id _) s.orderIdSeq _) id _ _ = _
    rw [Function.update_of_ne hne.symm, Function.update_self]
  obtain ⟨hbook, hqueue⟩ := h.unused
  refine ⟨⟨⟨_, hrow, fun hp => nomatch hp⟩, fun symbol side hk => ?_, fun p hp hplace => ?_⟩, hrow⟩
  · exact hbook symbol side ((bookShrinks_removeRestingOrder id old.symbol old.side s.redis).mem hk)
  · rcases List.mem_append.mp hp with hp | hp
    · exact hqueue p hp hplace
    · rw [List.mem_singleton.mp hp] at hplace
      exact nomatch hplace

/-- **No replacement is ever live**: from every store that a run reaches, however long the worker
    runs afterwards. -/
theorem modifyOrder_not_live (users : Finset UserId) (pairs : Symbol → Option TradingPair)
    (balances : Ledger.BalanceKey → Option Ledger.Row) (reqs : List Request) {userId : UserId}
    {id newId : OrderId} {newPrice newQuantity : ℚ}
    (h : modifyOrder userId id newPrice newQuantity
      ((Store.start users pairs balances).serveAll reqs) = (.ok newId, s')) (n : ℕ) :
    ¬ Live (s'.serveAll (List.replicate n .work)) newId := by
  have hc := consistent_serveAll (consistent_start users pairs balances) reqs
  generalize hs : (Store.start users pairs balances).serveAll reqs = s at h hc
  rcases modifyOrder_cases (fun order ho => (hc.ids id (by rw [ho]; simp)).ne) userId newPrice
    newQuantity with ⟨old, s₁, hold, -, -, -, -, hpos, hquiet, hx⟩ | ⟨err, s₁, hx, -⟩
  swap
  · exact absurd (congrArg Prod.fst (hx.symm.trans h)) (by simp)
  obtain ⟨rfl, rfl⟩ : s.orderIdSeq = newId ∧ s₁.replace id old newPrice newQuantity = s' := by
    simpa using hx.symm.trans h
  have hc₁ := hc.of_drains (drains_quiet hquiet)
  obtain ⟨balances', updates, rfl⟩ := hquiet
  obtain ⟨hgone, hrow⟩ := gone_replace hc₁ newPrice newQuantity hold
  obtain ⟨hgone', hrow'⟩ := gone_drain (hc₁.of_drains (drains_replace hold)) hgone n
  rintro ⟨o, ho, hlive⟩
  obtain rfl : replacement id old newPrice newQuantity = o :=
    Option.some.inj ((hrow'.trans hrow).symm.trans ho)
  rcases hlive with hfilled | ⟨hash, hbook, -⟩
  · exact hpos.1.ne hfilled
  · exact hgone'.book _ _ hbook

end

/-! ### One replacement -/

/-- A sell order of one unit at 100. -/
def oneSell : OrderCreateDto where
  symbol := "BTC/USDT"
  side := .sell
  type := .limit
  price := some 100
  quantity := 1

/-- It rests. -/
def restedSell : Store := stopStart.serveAll [.place 1 oneSell, .work]

/-- Its replacement at 110, and the worker has drained the queue. -/
def replacedSell : Store := restedSell.serveAll [.modify 1 1 110 1, .work]

/-- **A replacement that is lost**: the order rests and is replaced, the queue is drained, and the
    new order, its funds locked, is not live. -/
theorem replacedSell_lost :
    (restedSell.redis.book "BTC/USDT" .sell).members = [1] ∧
      (modifyOrder 1 1 110 1 restedSell).1 = .ok 2 ∧ replacedSell.redis.ordersQueue = [] ∧
      (replacedSell.pg.balances (1, "BTC")).map Ledger.Row.lockedBalance = some 1 ∧
      ¬ Live replacedSell 2 := by
  have hrow : (replacedSell.pg.orders 2).map (fun o => (o.filledQuantity, o.quantity)) =
      some (0, 1) := by decide +kernel
  have hbook : ∀ side, (replacedSell.redis.book "BTC/USDT" side).members = [] := by
    intro side
    cases side <;> decide +kernel
  have hsymbol : (replacedSell.pg.orders 2).map Order.symbol = some "BTC/USDT" := by decide +kernel
  refine ⟨by decide +kernel, by decide +kernel, by decide +kernel, by decide +kernel, ?_⟩
  rintro ⟨o, ho, hlive⟩
  rw [ho] at hrow hsymbol
  obtain ⟨hfilled, hquantity⟩ : o.filledQuantity = 0 ∧ o.quantity = 1 := by simpa using hrow
  have hsymbol : o.symbol = "BTC/USDT" := by simpa using hsymbol
  rcases hlive with h | ⟨_, h, -⟩
  · rw [hfilled, hquantity] at h
    exact absurd h (by norm_num)
  · rw [hsymbol, hbook o.side] at h
    exact absurd h List.not_mem_nil

/-- That replacement is not live after one more round of the worker. -/
theorem modifyOrder_not_live_oneSell :
    ¬ Live ((modifyOrder 1 1 110 1 restedSell).2.serveAll (List.replicate 1 .work)) 2 :=
  modifyOrder_not_live _ _ _ [.place 1 oneSell, .work] (Prod.ext (by decide +kernel) rfl) 1

end SpotExchange.Exchange
