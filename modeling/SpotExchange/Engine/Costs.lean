import SpotExchange.Engine.Amounts
import SpotExchange.Lib.Offers

namespace SpotExchange.Engine

open SpotExchange.Lib

/-!
# What a match costs

* `walkFlat_cost` — the trades of a walk cost what its units cost along the orders;
* `LoadedLevels.cost` — what a market buy pays is what its units cost, best price first.
-/

variable {c : COrder}

/-- What trades come to in the quote asset. -/
def quoteOf (trades : List TradeResult) : ℚ := (trades.map fun t => t.price * t.quantity).sum

theorem quoteOf_append (ts ts' : List TradeResult) : quoteOf (ts ++ ts') = quoteOf ts + quoteOf ts' := by
  simp [quoteOf]

theorem quoteOf_fills (price : ℚ) (id : OrderId) (fills : List ℚ) :
    quoteOf (fills.map (c.trade price id)) = price * fills.sum := by
  induction fills with
  | nil => simp [quoteOf]
  | cons q fills ih =>
    have hcons : quoteOf ((q :: fills).map (c.trade price id)) =
        price * q + quoteOf (fills.map (c.trade price id)) := by simp [quoteOf, COrder.trade]
    rw [hcons, ih, List.sum_cons]
    ring

/-- **Along orders within the limit** a walk pays for its units in turn. -/
theorem walkFlat_cost {xs : List Placed} (hin : ∀ x ∈ xs, c.outOfLimit x.1 = false) (r : ℚ) :
    quoteOf (walkFlat c r xs).trades = Offers.cost r (xs.map Placed.offer) := by
  induction xs generalizing r with
  | nil => rfl
  | cons x xs ih =>
    rw [List.forall_mem_cons] at hin
    rcases le_or_gt r 0 with hr | hr
    · rw [(walkFlat_stop xs (.inl hr)).1, Offers.cost_nonpos hr]
      rfl
    · have hout : ¬ c.outOfLimit x.1 = true := by simp [hin.1]
      rw [(walkFlat_cons xs hr hout).1, quoteOf_append, quoteOf_fills, (fillMaker_amounts x.2 r).fills,
        ih hin.2, List.map_cons, Offers.cost_cons hr]
      rfl

/-- **What a market buy pays**: its units cost, best price first. -/
theorem LoadedLevels.cost {os : List PassiveOrder} {ls : List Level} (h : LoadedLevels .sell os ls)
    (htype : c.type = .market) (hprice : c.price = none)
    {offers : List (ℚ × ℚ)} (hperm : offers.Perm (os.map PassiveOrder.offer))
    (hsorted : Offers.Sorted offers) :
    quoteOf (matchLevels c ls).1.trades = Offers.cost c.remainingQty offers := by
  have hwalk := matchLevels_walk (c := c) ls (by simp [htype]) (by simp [htype])
  have hflat := walkSide_flat c c.remainingQty h.nonempty
  have hin : ∀ x ∈ flat ls, c.outOfLimit x.1 = false := fun x _ => by
    rw [COrder.outOfLimit, hprice]
  have hcost := walkFlat_cost hin c.remainingQty
  rw [hflat] at hcost
  rw [hwalk, hcost]
  have hplaced : ((flat ls).map Placed.offer).Perm offers := by
    have := h.perm.map Placed.offer
    rw [List.map_map] at this
    exact this.trans hperm.symm
  have hlevels : Offers.Sorted ((flat ls).map Placed.offer) := by
    refine List.pairwise_map.mpr ((flat_sorted h.sorted).imp fun {x y} hxy => ?_)
    simpa [before, CSide.descending, Placed.offer] using hxy
  refine Offers.cost_sorted_eq (fun x hx => ?_) hlevels hsorted hplaced _
  obtain ⟨y, hy, rfl⟩ := List.mem_map.mp hx
  exact (h.valid y hy).remaining_pos.le

end SpotExchange.Engine
