import SpotExchange.Engine.FlatWalk
import Mathlib.Data.List.Sort

namespace SpotExchange.Engine

open SpotExchange.Lib

/-!
# Price-time priority

The naive reference: a book is a bag of orders stamped with their arrival, and a match sorts the
opposite side by price and arrival, walks the sorted list, and takes `min` from one maker after
the other.

* `RefBook` — the reference book with its operations;
* `Built e b` — the same sequence of calls made the engine `e` and the reference book `b`;
* `matchActiveOrder_refines` — the matcher refines the reference.
-/

/-! ### The reference -/

/-- A resting order of the reference book. -/
structure RefOrder where
  orderId : OrderId
  side : CSide
  price : ℚ
  remainingQty : ℚ
  arrival : ℕ
  deriving DecidableEq, Repr

/-- The reference book: its orders, in no particular order, and the next arrival stamp. -/
structure RefBook where
  orders : List RefOrder
  clock : ℕ
  deriving DecidableEq, Repr

/-- The price is beyond what the taker accepts; without a price it accepts every price. -/
def COrder.rejects (c : COrder) (price : ℚ) : Prop :=
  match c.price, c.side with
  | none, _ => False
  | some limit, .buy => limit < price
  | some limit, .sell => price < limit

instance (c : COrder) (price : ℚ) : Decidable (c.rejects price) := by
  unfold COrder.rejects; split <;> infer_instance

/-- Walk the sorted makers with a taker of which `r` is left. -/
def takeWalk (c : COrder) : ℚ → List RefOrder → Walked (List RefOrder)
  | r, [] => { trades := [], rest := [], remaining := r }
  | r, o :: os =>
      if r ≤ 0 ∨ c.rejects o.price then { trades := [], rest := o :: os, remaining := r }
      else
        let q := min r o.remainingQty
        let w := takeWalk c (r - q) os
        { trades := c.trade o.price o.orderId q :: w.trades
          rest := if q = o.remainingQty then w.rest
            else { o with remainingQty := o.remainingQty - q } :: w.rest
          remaining := w.remaining }

/-- Order `a` is served no later than `b`: better price, or the same and no later arrival. -/
def RefOrder.ahead (s : CSide) (a b : RefOrder) : Prop :=
  before s.descending a.price b.price ∨ a.price = b.price ∧ a.arrival ≤ b.arrival

instance (s : CSide) : DecidableRel (RefOrder.ahead s) := fun _ _ => by
  unfold RefOrder.ahead; infer_instance

namespace RefBook

/-- The empty book. -/
def empty : RefBook := { orders := [], clock := 0 }

/-- A new order, arriving now. -/
def add (b : RefBook) (o : PassiveOrder) : RefBook where
  orders := { orderId := o.orderId, side := o.side, price := o.price, remainingQty := o.qty,
              arrival := b.clock } :: b.orders
  clock := b.clock + 1

/-- Forget the order of that id at that price. -/
def cancel (b : RefBook) (orderId : OrderId) (side : CSide) (price : ℚ) : RefBook :=
  { b with orders := b.orders.filter fun o =>
      !(decide (o.orderId = orderId) && decide (o.side = side) && decide (o.price = price)) }

/-- The orders of a side. -/
def onSide (b : RefBook) (s : CSide) : List RefOrder := b.orders.filter fun o => o.side = s

/-- The orders of a side, in the order in which they are served. -/
def queue (b : RefBook) (s : CSide) : List RefOrder := (b.onSide s).insertionSort (RefOrder.ahead s)

/-- The walk of a taker along the other side. -/
def walk (b : RefBook) (c : COrder) : Walked (List RefOrder) :=
  takeWalk c c.remainingQty (b.queue c.side.opp)

/-- The book after that walk. -/
def afterMatch (b : RefBook) (c : COrder) : RefBook :=
  { b with orders := b.onSide c.side ++ (b.walk c).rest }

end RefBook

/-! ### What the engine holds -/

/-- The slots visited from `p`, at most `n`. -/
def nodesFrom (pool : ℕ → OrderNode) : ℕ → Option ℕ → List ℕ
  | 0, _ => []
  | _, none => []
  | n + 1, some i => i :: nodesFrom pool n (pool i).next

/-- Price, id and remaining quantity of an order. -/
abbrev Entry := ℚ × OrderId × ℚ

/-- The orders resting on a side of the engine: level after level, each from its head. -/
def restingOrders (e : CMatchingEngine) (s : CSide) : List Entry :=
  (slice (e.bookSide s).levels (e.bookSide s).size).flatMap fun lvl =>
    (nodesFrom e.nodePool lvl.orderCount.toNat lvl.head).map fun i =>
      (lvl.price, (e.nodePool i).orderId, (e.nodePool i).remainingQty)

/-- The same of a reference order. -/
def RefOrder.entry (o : RefOrder) : Entry := (o.price, o.orderId, o.remainingQty)

/-- The taker gets to walk the book: it is not post-only, and a fill-or-kill passes its check. -/
def TakerWalks (e : CMatchingEngine) (c : COrder) : Prop :=
  c.type ≠ .postOnly ∧ (c.type = .fok → precheckFok e c = true)

instance (e : CMatchingEngine) (c : COrder) : Decidable (TakerWalks e c) := by
  unfold TakerWalks; infer_instance

/-- The engine `e` and the reference book `b` come from one sequence of calls: insertions of
    orders whose id does not rest yet, cancellations, matches and resets. -/
inductive Built : CMatchingEngine → RefBook → Prop
  | new : Built CMatchingEngine.new RefBook.empty
  | add {e b e'} (o : PassiveOrder) : Built e b → o.IcebergOk →
      o.orderId ∉ b.orders.map RefOrder.orderId → addPassiveOrder e o = .ok e' →
      Built e' (b.add o)
  | cancel {e b e' found} (orderId : OrderId) (side : CSide) (price : ℚ) : Built e b →
      cancelOrder e orderId side price = .ok (found, e') →
      Built e' (b.cancel orderId side price)
  | walk {e b e' r} (c : COrder) : Built e b → TakerWalks e c → fillsNeeded e c ≤ e.tradesCap →
      matchActiveOrder e c = .ok (r, e') → Built e' (b.afterMatch c)
  | noWalk {e b e' r} (c : COrder) : Built e b → ¬ TakerWalks e c →
      matchActiveOrder e c = .ok (r, e') → Built e' b
  | reset {e b} : Built e b → Built (reset e) RefBook.empty

variable {c : COrder} {e : CMatchingEngine} {G : Ghost} {b : RefBook}

/-! ### One walk -/

/-- The entry of an order with its price. -/
def Placed.entry (x : Placed) : Entry := (x.1, x.2.orderId, x.2.remainingQty)

theorem rejects_iff (c : COrder) (price : ℚ) : c.rejects price ↔ c.outOfLimit price = true := by
  unfold COrder.rejects COrder.outOfLimit
  cases c.price with
  | none => simp
  | some limit => cases c.side <;> simp

theorem takeWalk_nonpos {r : ℚ} (h : r ≤ 0) (os : List RefOrder) :
    takeWalk c r os = { trades := [], rest := os, remaining := r } := by
  cases os with
  | nil => rfl
  | cons o os => rw [takeWalk, if_pos (.inl h)]

/-- What a walk leaves is what the reference walk leaves, up to merging. -/
structure SameWalk (w : Walked (List Placed)) (w' : Walked (List RefOrder)) : Prop where
  trades : mergeTrades w.trades = w'.trades
  rest : w.rest.map Placed.entry = w'.rest.map RefOrder.entry
  remaining : w.remaining = w'.remaining

/-- **The walks agree.** On lists with the same entries, of distinct makers. -/
theorem walkFlat_sameWalk (r : ℚ) {xs : List Placed} {os : List RefOrder}
    (h : xs.map Placed.entry = os.map RefOrder.entry) (hv : ∀ x ∈ xs, x.2.Valid)
    (hnd : (xs.map fun x => x.2.orderId).Nodup) :
    SameWalk (walkFlat c r xs) (takeWalk c r os) := by
  induction xs generalizing r os with
  | nil =>
    obtain rfl : os = [] := by simpa using h.symm
    exact ⟨rfl, rfl, rfl⟩
  | cons x xs ih =>
    obtain ⟨o, os, rfl⟩ : ∃ o os', os = o :: os' := by
      cases os with
      | nil => simp at h
      | cons o os => exact ⟨o, os, rfl⟩
    rw [List.map_cons, List.map_cons, List.cons.injEq] at h
    obtain ⟨hprice, hid, hrem⟩ : x.1 = o.price ∧ x.2.orderId = o.orderId ∧
        x.2.remainingQty = o.remainingQty := by
      simpa [Placed.entry, RefOrder.entry] using h.1
    have hx : x.entry = o.entry := h.1
    by_cases hstop : r ≤ 0 ∨ c.outOfLimit x.1 = true
    · have hstop' : r ≤ 0 ∨ c.rejects o.price := by rwa [rejects_iff, ← hprice]
      rw [walkFlat, if_pos hstop, takeWalk, if_pos hstop']
      exact ⟨rfl, by simp [h.1, h.2], rfl⟩
    have hstop' : ¬ (r ≤ 0 ∨ c.rejects o.price) := by rwa [rejects_iff, ← hprice]
    have hr : 0 < r := not_le.mp (not_or.mp hstop).1
    have hamt := fillMaker_amounts x.2 r
    have hnd' := List.nodup_cons.mp (List.map_cons ▸ hnd)
    rw [walkFlat, if_neg hstop, takeWalk, if_neg hstop']
    cases hm : (fillMaker x.2 r).maker with
    | some o' =>
      -- the maker outlasts the taker, and both walks end here
      obtain ⟨hlt, hid', hrem'⟩ := hamt.left o' hm
      have hmin : min r o.remainingQty = r := min_eq_left (hrem ▸ hlt.le)
      have hne : r ≠ o.remainingQty := (hrem ▸ hlt).ne
      have hzero : (fillMaker x.2 r).remaining = 0 := fillMaker_remaining hm
      have hmerge := mergeTrades_fills (c := c) x.1 hamt.fills_ne []
        (by simp : ∀ t ∈ ([] : List TradeResult), t.makerOrderId ≠ x.2.orderId)
      rw [hamt.fills, hrem, hmin, List.append_nil] at hmerge
      simp only [hm, hmin, sub_self, takeWalk_nonpos (le_refl (0 : ℚ)), if_neg hne, hzero]
      refine ⟨by rw [hmerge, hprice, hid]; rfl, ?_, rfl⟩
      simp only [List.map_cons, h.2, Placed.entry, RefOrder.entry, hprice, hid', hid, hrem', hrem]
    | none =>
      -- the maker is used up
      have hle : o.remainingQty ≤ r := hrem ▸ hamt.used_up hm
      have hmin : min r o.remainingQty = o.remainingQty := min_eq_right hle
      have hremaining : (fillMaker x.2 r).remaining = r - o.remainingQty := by
        rw [hamt.remaining, hrem, hmin]
      have hih := ih (r - o.remainingQty) h.2 (fun x' hx' => hv x' (List.mem_cons_of_mem _ hx'))
        hnd'.2
      have hothers : ∀ t ∈ (walkFlat c (r - o.remainingQty) xs).trades,
          t.makerOrderId ≠ x.2.orderId :=
        fun t ht heq => hnd'.1 (heq ▸ walkFlat_makers _ xs t ht)
      have hmerge := mergeTrades_fills (c := c) x.1 hamt.fills_ne _ hothers
      rw [hamt.fills, hrem, hmin, hih.trades] at hmerge
      simp only [hm, hremaining, hmin, if_true]
      exact ⟨by rw [hmerge, hprice, hid], hih.rest, hih.remaining⟩

/-- The order without its quantity. -/
def RefOrder.place (o : RefOrder) : RefOrder := { o with remainingQty := 0 }

/-- A walk keeps places: what is left stands where it stood, and nothing else moves. -/
theorem takeWalk_rest_sublist (r : ℚ) (os : List RefOrder) :
    ((takeWalk c r os).rest.map RefOrder.place).Sublist (os.map RefOrder.place) := by
  induction os generalizing r with
  | nil => exact List.Sublist.slnil
  | cons o os ih =>
    rw [takeWalk]
    split_ifs
    · exact List.Sublist.refl _
    · dsimp only
      split_ifs
      · exact (ih _).cons _
      · exact (ih _).cons_cons _

/-! ### The queue of the reference -/

instance (s : CSide) : Std.Total (RefOrder.ahead s) where
  total a b := by
    by_cases h : a.price = b.price
    · rcases Nat.le_total a.arrival b.arrival with hle | hle
      · exact .inl (.inr ⟨h, hle⟩)
      · exact .inr (.inr ⟨h.symm, hle⟩)
    · exact (before_or_before h).imp .inl .inl

instance (s : CSide) : IsTrans RefOrder (RefOrder.ahead s) where
  trans a b c := by
    rintro (hab | ⟨hab, hle⟩) (hbc | ⟨hbc, hle'⟩)
    · exact .inl (before_trans hab hbc)
    · exact .inl (hbc ▸ hab)
    · exact .inl (hab ▸ hbc)
    · exact .inr ⟨hab.trans hbc, hle.trans hle'⟩

namespace RefBook

theorem queue_perm (b : RefBook) (s : CSide) : (b.queue s).Perm (b.onSide s) :=
  List.perm_insertionSort _ _

theorem queue_pairwise (b : RefBook) (s : CSide) : (b.queue s).Pairwise (RefOrder.ahead s) :=
  List.pairwise_insertionSort _ _

theorem mem_queue {s : CSide} {o : RefOrder} : o ∈ b.queue s ↔ o ∈ b.orders ∧ o.side = s := by
  rw [(b.queue_perm s).mem_iff, onSide, List.mem_filter, decide_eq_true_eq]

/-- With distinct arrivals there is only one way to serve a side. -/
theorem queue_unique (hnd : (b.orders.map RefOrder.arrival).Nodup) {s : CSide} {Q : List RefOrder}
    (hperm : Q.Perm (b.onSide s)) (hsorted : Q.Pairwise (RefOrder.ahead s)) : Q = b.queue s := by
  refine List.Perm.eq_of_pairwise ?_ hsorted (b.queue_pairwise s) (hperm.trans (b.queue_perm s).symm)
  intro x y hx hy hxy hyx
  have hx' : x ∈ b.orders := (List.mem_filter.mp (hperm.mem_iff.mp hx)).1
  have hy' : y ∈ b.orders := (mem_queue.mp hy).1
  refine List.inj_on_of_nodup_map hnd hx' hy' ?_
  rcases hxy with hlt | ⟨heq, hle⟩ <;> rcases hyx with hlt' | ⟨heq', hle'⟩
  · exact absurd hlt' (before_asymm hlt)
  · exact absurd (heq' ▸ hlt) (before_irrefl _ _)
  · exact absurd (heq ▸ hlt') (before_irrefl _ _)
  · exact le_antisymm hle hle'

/-- What a walk leaves is, up to the quantities, a part of the queue. -/
theorem walk_rest_sublist (b : RefBook) (c : COrder) {β : Type} (f : RefOrder → β)
    (hf : ∀ o : RefOrder, f o.place = f o) :
    ((b.walk c).rest.map f).Sublist ((b.queue c.side.opp).map f) := by
  have hsub := (takeWalk_rest_sublist (c := c) c.remainingQty (b.queue c.side.opp)).map f
  have hcomp : f ∘ RefOrder.place = f := funext hf
  rwa [List.map_map, List.map_map, hcomp] at hsub

/-- The book after a match is, up to the quantities, a part of the book before. -/
theorem afterMatch_subperm (b : RefBook) (c : COrder) {β : Type} (f : RefOrder → β)
    (hf : ∀ o : RefOrder, f o.place = f o) :
    ((b.afterMatch c).orders.map f).Subperm (b.orders.map f) := by
  have hopp : b.onSide c.side.opp = b.orders.filter fun o => !decide (o.side = c.side) := by
    refine List.filter_congr fun o _ => ?_
    cases o.side <;> cases c.side <;> rfl
  have hsplit : (b.onSide c.side ++ b.onSide c.side.opp).Perm b.orders := by
    rw [hopp]
    exact List.filter_append_perm (fun o => decide (o.side = c.side)) b.orders
  have hrest : ((b.walk c).rest.map f).Subperm ((b.onSide c.side.opp).map f) :=
    (b.walk_rest_sublist c f hf).subperm.trans ((b.queue_perm _).map f).subperm
  have hbook : ((b.onSide c.side).map f ++ (b.walk c).rest.map f).Subperm
      ((b.onSide c.side).map f ++ (b.onSide c.side.opp).map f) :=
    (List.subperm_append_left _).mpr hrest
  rw [afterMatch, List.map_append]
  refine hbook.trans ?_
  rw [← List.map_append]
  exact (hsplit.map f).subperm

end RefBook

/-! ### Insertion -/

/-- Put an entry behind all that are not worse. -/
def insertEntry (d : Bool) (x : Entry) : List Entry → List Entry
  | [] => [x]
  | y :: ys => if before d x.1 y.1 then x :: y :: ys else y :: insertEntry d x ys

theorem insertEntry_append {d : Bool} {x : Entry} {ys zs : List Entry}
    (h : ∀ y ∈ ys, ¬ before d x.1 y.1) :
    insertEntry d x (ys ++ zs) = ys ++ insertEntry d x zs := by
  induction ys with
  | nil => rfl
  | cons y ys ih =>
    rw [List.cons_append, insertEntry, if_neg (h y List.mem_cons_self),
      ih fun y' hy' => h y' (List.mem_cons_of_mem _ hy')]
    rfl

theorem insertEntry_of_before {d : Bool} {x : Entry} {ys : List Entry}
    (h : ∀ y ∈ ys, before d x.1 y.1) : insertEntry d x ys = x :: ys := by
  cases ys with
  | nil => rfl
  | cons y ys => rw [insertEntry, if_pos (h y List.mem_cons_self)]

theorem entries_level (price : ℚ) (os : List Resting) :
    ((os.map fun o => (price, o)).map Placed.entry) =
      os.map fun o => (price, o.orderId, o.remainingQty) := by
  rw [List.map_map]; rfl

/-- `addResting`, on entries. -/
theorem entries_addResting {d : Bool} {price : ℚ} {o : Resting} {ls : List Level}
    (hs : ls.Pairwise fun l l' => before d l.price l'.price) :
    (flat (addResting d price o ls)).map Placed.entry =
      insertEntry d (price, o.orderId, o.remainingQty) ((flat ls).map Placed.entry) := by
  induction ls with
  | nil => rfl
  | cons l ls ih =>
    rw [List.pairwise_cons] at hs
    have hmem : ∀ y ∈ (l.orders.map fun o => (l.price, o)).map Placed.entry, y.1 = l.price := by
      intro y hy
      rw [entries_level] at hy
      obtain ⟨o', -, rfl⟩ := List.mem_map.mp hy
      rfl
    have hrest : ∀ y ∈ (flat ls).map Placed.entry, before d l.price y.1 := by
      intro y hy
      obtain ⟨x, hx, rfl⟩ := List.mem_map.mp hy
      obtain ⟨l', hl', hp, -⟩ := mem_flat.mp hx
      exact hp ▸ hs.1 l' hl'
    rw [addResting]
    by_cases hp : l.price = price
    -- the level of the price: the order goes behind those that rest there
    · rw [if_pos hp, flat_cons (l := l), List.map_append, insertEntry_append,
        insertEntry_of_before (x := (price, o.orderId, o.remainingQty)) (hp ▸ hrest)]
      · simp [Placed.entry, hp]
      · intro y hy
        rw [hmem y hy, hp]
        exact before_irrefl d price
    rw [if_neg hp]
    by_cases hb : before d price l.price
    -- a new level in front of this one
    · rw [if_pos hb, flat_cons, insertEntry_of_before (x := (price, o.orderId, o.remainingQty))]
      · rfl
      · intro y hy
        rw [flat_cons, List.map_append, List.mem_append] at hy
        rcases hy with hy | hy
        · rw [hmem y hy]; exact hb
        · exact before_trans hb (hrest y hy)
    · rw [if_neg hb, flat_cons, flat_cons, List.map_append, List.map_append, insertEntry_append,
        ih hs.2]
      intro y hy
      rw [hmem y hy]
      exact hb

/-- The insertion of the latest order into a queue, on entries. -/
theorem entries_orderedInsert {s : CSide} {o : RefOrder} {Q : List RefOrder}
    (h : ∀ q ∈ Q, q.arrival < o.arrival) :
    (Q.orderedInsert (RefOrder.ahead s) o).map RefOrder.entry =
      insertEntry s.descending o.entry (Q.map RefOrder.entry) := by
  induction Q with
  | nil => rfl
  | cons q Q ih =>
    have hlt := h q List.mem_cons_self
    have hiff : RefOrder.ahead s o q ↔ before s.descending o.entry.1 q.entry.1 :=
      ⟨fun hah => hah.resolve_right fun hle => absurd hle.2 (not_le.mpr hlt), .inl⟩
    rw [List.orderedInsert_cons, List.map_cons, insertEntry]
    by_cases hb : before s.descending o.entry.1 q.entry.1
    · rw [if_pos (hiff.mpr hb), if_pos hb]
      rfl
    · rw [if_neg (mt hiff.mp hb), if_neg hb, List.map_cons,
        ih fun q' hq' => h q' (List.mem_cons_of_mem _ hq')]

/-! ### Cancellation -/

/-- The entry is not the one of that id at that price. -/
def keeps (price : ℚ) (orderId : OrderId) (x : Entry) : Bool :=
  !(decide (x.2.1 = orderId) && decide (x.1 = price))

/-- Among distinct ids, erasing the first of an id erases the id. -/
theorem eraseP_eq_filter {os : List Resting} (hnd : (os.map Resting.orderId).Nodup)
    (orderId : OrderId) :
    (os.eraseP fun o => o.orderId = orderId) = os.filter fun o => !decide (o.orderId = orderId) := by
  induction os with
  | nil => rfl
  | cons o os ih =>
    rw [List.map_cons, List.nodup_cons] at hnd
    by_cases ho : o.orderId = orderId
    · rw [List.eraseP_cons_of_pos (by simpa using ho), List.filter_cons_of_neg (by simpa using ho),
        eq_comm, List.filter_eq_self]
      intro o' ho'
      have hne : o'.orderId ≠ orderId := fun heq =>
        hnd.1 (ho ▸ heq ▸ List.mem_map_of_mem ho')
      simpa using hne
    · rw [List.eraseP_cons_of_neg (by simpa using ho), List.filter_cons_of_pos (by simpa using ho),
        ih hnd.2]

/-- `cancelResting`, on entries of distinct ids. -/
theorem entries_cancelResting {d : Bool} {price : ℚ} {orderId : OrderId} {ls : List Level}
    (hs : ls.Pairwise fun l l' => before d l.price l'.price)
    (hnd : ((flat ls).map fun x => x.2.orderId).Nodup) :
    (flat (cancelResting price orderId ls)).map Placed.entry =
      ((flat ls).map Placed.entry).filter (keeps price orderId) := by
  induction ls with
  | nil => rfl
  | cons l ls ih =>
    rw [List.pairwise_cons] at hs
    rw [flat_cons, List.map_append] at hnd
    have hids : (l.orders.map Resting.orderId).Nodup := by
      have := (List.nodup_append.mp hnd).1
      rwa [List.map_map] at this
    rw [cancelResting, flat_cons, List.map_append, List.filter_append]
    by_cases hp : l.price = price
    · -- the level of the price: no other level has it
      have hrest : ((flat ls).map Placed.entry).filter (keeps price orderId) =
          (flat ls).map Placed.entry := by
        rw [List.filter_eq_self]
        intro y hy
        obtain ⟨x, hx, rfl⟩ := List.mem_map.mp hy
        obtain ⟨l', hl', hpx, -⟩ := mem_flat.mp hx
        have hne : x.1 ≠ price := fun heq =>
          before_irrefl d price (by simpa [hp, hpx, heq] using hs.1 l' hl')
        simp [keeps, Placed.entry, hne]
      have hlevel : ((l.orders.map fun o => (l.price, o)).map Placed.entry).filter
          (keeps price orderId) = (l.orders.eraseP fun o => o.orderId = orderId).map
            fun o => (l.price, o.orderId, o.remainingQty) := by
        rw [entries_level, List.filter_map]
        rw [eraseP_eq_filter hids]
        refine congrArg (List.map _) (List.filter_congr fun o _ => ?_)
        simp [keeps, hp]
      rw [if_pos hp, hrest, hlevel]
      by_cases hnil : (l.orders.eraseP fun o => o.orderId = orderId) = []
      · simp [hnil]
      · rw [if_neg hnil, flat_cons, List.map_append, entries_level]
    · have hlevel : ((l.orders.map fun o => (l.price, o)).map Placed.entry).filter
          (keeps price orderId) = (l.orders.map fun o => (l.price, o)).map Placed.entry := by
        rw [entries_level, List.filter_eq_self]
        intro y hy
        obtain ⟨o, -, rfl⟩ := List.mem_map.mp hy
        simp [keeps, hp]
      rw [if_neg hp, flat_cons, List.map_append, hlevel, ih hs.2 (List.nodup_append.mp hnd).2.1]

/-! ### The simulation -/

theorem EngineRep.view_valid (h : EngineRep e G) (s : CSide) :
    ∀ x ∈ flat (view e G s), x.2.Valid := by
  intro x hx
  obtain ⟨l, hl, -, hx⟩ := mem_flat.mp hx
  exact h.orders_valid s l hl x.2 hx

theorem EngineShape.view_nonempty (h : EngineShape e G) (s : CSide) :
    ∀ l ∈ view e G s, l.orders ≠ [] := by
  intro l hl
  obtain ⟨g, hg, rfl⟩ := List.mem_map.mp hl
  simpa [viewLevel] using h.nonempty s g hg

theorem EngineShape.view_sorted (h : EngineShape e G) (s : CSide) :
    (view e G s).Pairwise fun l l' => before s.descending l.price l'.price := by
  have := viewSide_sorted (h.side s)
  rwa [h.direction] at this

/-- A list that the links describe is the list that following the links visits. -/
theorem nodesFrom_of_chain {pool : ℕ → OrderNode} {p : Option ℕ} {ids : List ℕ}
    (h : Chain (nextOf pool) p ids) : nodesFrom pool ids.length p = ids := by
  induction ids generalizing p with
  | nil => rfl
  | cons i ids ih =>
    rw [h.1, List.length_cons, nodesFrom]
    exact congrArg (i :: ·) (ih h.2)

/-- The orders that the engine holds are those it represents. -/
theorem EngineShape.restingOrders_eq (h : EngineShape e G) (s : CSide) :
    restingOrders e s = (flat (view e G s)).map Placed.entry := by
  rw [restingOrders, (h.side s).levels, view, viewSide, flat, List.flatMap_map, List.flatMap_map,
    List.map_flatMap]
  refine List.flatMap_congr fun g hg => ?_
  have hrep := (h.side s).rep g hg
  have hcount : g.1.orderCount.toNat = g.2.length := by rw [hrep.count, Int.toNat_natCast]
  rw [hcount, nodesFrom_of_chain hrep.chain, entries_level]
  simp only [viewLevel, List.map_map]
  rfl

/-- **The simulation relation.** Side by side the engine holds the reference's queue, and the
    reference's stamps and ids are distinct. -/
structure Refines (e : CMatchingEngine) (G : Ghost) (b : RefBook) : Prop where
  rep : EngineRep e G
  entries : ∀ s, (flat (view e G s)).map Placed.entry = (b.queue s).map RefOrder.entry
  arrivals : (b.orders.map RefOrder.arrival).Nodup
  clock : ∀ o ∈ b.orders, o.arrival < b.clock
  ids : (b.orders.map RefOrder.orderId).Nodup

namespace Refines

theorem flat_ids (h : Refines e G b) (s : CSide) :
    ((flat (view e G s)).map fun x => x.2.orderId) = (b.queue s).map RefOrder.orderId := by
  have := congrArg (List.map fun x : Entry => x.2.1) (h.entries s)
  rwa [List.map_map, List.map_map] at this

theorem queue_ids_nodup (h : Refines e G b) (s : CSide) :
    ((b.queue s).map RefOrder.orderId).Nodup :=
  ((b.queue_perm s).map _).nodup_iff.mpr (h.ids.sublist (List.filter_sublist.map _))

theorem new : Refines CMatchingEngine.new (fun _ => []) RefBook.empty where
  rep := engineRep_new
  entries := fun _ => rfl
  arrivals := List.nodup_nil
  clock := by simp [RefBook.empty]
  ids := List.nodup_nil

theorem reset (h : Refines e G b) : Refines (reset e) (fun _ => []) RefBook.empty where
  rep := engineRep_reset h.rep.direction
  entries := fun _ => rfl
  arrivals := List.nodup_nil
  clock := by simp [RefBook.empty]
  ids := List.nodup_nil

/-- Insertion. -/
theorem add (h : Refines e G b) {o : PassiveOrder} {e' : CMatchingEngine} (hice : o.IcebergOk)
    (hid : o.orderId ∉ b.orders.map RefOrder.orderId) (hrun : addPassiveOrder e o = .ok e') :
    ∃ G', Refines e' G' (b.add o) := by
  have hq : ¬ o.qty ≤ 0 := fun hq => by simp [addPassiveOrder, hq] at hrun
  have hcap : ¬ e.nodePoolSize + 1 > e.nodePoolCap := fun hcap => by
    simp [addPassiveOrder, hq, hcap] at hrun
  obtain ⟨e'', G', hrun', hrep, hview, hopp, -⟩ :=
    addPassiveOrder_spec h.rep (hice.valid (not_le.mp hq)) (not_lt.mp hcap)
  obtain rfl : e'' = e' := by simpa [hrun'] using hrun
  refine ⟨G', hrep, ?_, ?_, ?_, List.nodup_cons.mpr ⟨hid, h.ids⟩⟩
  · intro s
    -- the new order is queued on its own side only
    rcases eq_or_eq_opp o.side s with rfl | rfl
    · have hqueue : (b.add o).queue o.side = (b.queue o.side).orderedInsert
          (RefOrder.ahead o.side) ⟨o.orderId, o.side, o.price, o.qty, b.clock⟩ := by
        simp [RefBook.queue, RefBook.onSide, RefBook.add]
      rw [hview, hqueue, entries_addResting (h.rep.view_sorted _), h.entries,
        entries_orderedInsert fun q hq => h.clock q (RefBook.mem_queue.mp hq).1]
      rfl
    · have hqueue : (b.add o).queue o.side.opp = b.queue o.side.opp := by
        simp [RefBook.queue, RefBook.onSide, RefBook.add, (opp_ne o.side).symm]
      rw [hopp, hqueue, h.entries]
  -- its arrival is the clock, which no earlier arrival has reached
  · refine List.nodup_cons.mpr ⟨fun hmem => ?_, h.arrivals⟩
    obtain ⟨o', ho', heq⟩ := List.mem_map.mp hmem
    exact absurd heq (h.clock o' ho').ne
  · intro o' ho'
    rcases List.mem_cons.mp ho' with rfl | ho'
    · exact Nat.lt_succ_self _
    · exact Nat.lt_succ_of_lt (h.clock o' ho')

/-- Cancellation. -/
theorem cancel (h : Refines e G b) {e' : CMatchingEngine} {orderId : OrderId} {s : CSide}
    {price : ℚ} {found : Bool} (hrun : cancelOrder e orderId s price = .ok (found, e')) :
    ∃ G', Refines e' G' (b.cancel orderId s price) := by
  obtain ⟨e'', G', hrun', hrep, hview, hopp, -⟩ := cancelOrder_spec h.rep orderId s price
  obtain rfl : e'' = e' := by
    rw [hrun'] at hrun
    injection hrun with hrun
    exact congrArg Prod.snd hrun
  have hsub : (b.cancel orderId s price).orders.Sublist b.orders := List.filter_sublist
  have harr : ((b.cancel orderId s price).orders.map RefOrder.arrival).Nodup :=
    h.arrivals.sublist (hsub.map _)
  refine ⟨G', hrep, ?_, harr, fun o ho => h.clock o (hsub.subset ho), h.ids.sublist (hsub.map _)⟩
  have hside : ∀ t, (b.cancel orderId s price).onSide t = (b.onSide t).filter fun o =>
      !(decide (o.orderId = orderId) && decide (o.side = s) && decide (o.price = price)) := by
    intro t
    rw [RefBook.onSide, RefBook.cancel, List.filter_filter, RefBook.onSide, List.filter_filter]
    exact List.filter_congr fun o _ => Bool.and_comm _ _
  -- a filtered queue is still in order, and the order is unique
  have hqueue : ∀ t, (b.cancel orderId s price).queue t = (b.queue t).filter fun o =>
      !(decide (o.orderId = orderId) && decide (o.side = s) && decide (o.price = price)) := by
    intro t
    refine (RefBook.queue_unique harr ?_ ((b.queue_pairwise t).filter _)).symm
    rw [hside]
    exact (b.queue_perm t).filter _
  intro t
  rw [hqueue]
  rcases eq_or_eq_opp s t with rfl | rfl
  · have hnd : ((flat (view e G t)).map fun x => x.2.orderId).Nodup := by
      rw [h.flat_ids]; exact h.queue_ids_nodup t
    rw [hview, entries_cancelResting (h.rep.view_sorted t) hnd, h.entries, List.filter_map]
    refine congrArg (List.map _) (List.filter_congr fun o ho => ?_)
    have hs : o.side = t := (RefBook.mem_queue.mp ho).2
    simp only [Function.comp_apply, keeps, RefOrder.entry, hs, decide_true, Bool.and_true]
    rfl
  · rw [hopp, h.entries, eq_comm]
    refine congrArg (List.map _) (List.filter_eq_self.mpr fun o ho => ?_)
    simp [(RefBook.mem_queue.mp ho).2, opp_ne]

/-- A part of a list without repetitions has none. -/
private theorem nodup_of_subperm {α : Type} {l l' : List α} (h : l.Subperm l') (hnd : l'.Nodup) :
    l.Nodup := by
  obtain ⟨l'', hperm, hsub⟩ := h
  exact hperm.nodup_iff.mp (hnd.sublist hsub)

/-- A taker that walks. -/
theorem walk (h : Refines e G b) (hc : TakerWalks e c) (hfit : fillsNeeded e c ≤ e.tradesCap) :
    ∃ r e' G', matchActiveOrder e c = .ok (r, e') ∧ Refines e' G' (b.afterMatch c) ∧
      mergeTrades r.trades = (b.walk c).trades ∧ r.remainingQty = (b.walk c).remaining := by
  have hlevels : matchLevels c (view e G c.side.opp) =
      (let w := walkSide c c.remainingQty (view e G c.side.opp)
       ({ trades := w.trades, outcome := walkOutcome c w, remainingQty := w.remaining },
        w.rest)) := by
    have hfok : ¬ (c.type = .fok ∧ coversWithin c 0 (view e G c.side.opp) = false) := by
      -- a FOK taker walks only after its precheck has passed
      rintro ⟨htype, hcov⟩
      rw [← precheckFok_eq h.rep.toEngineShape, hc.2 htype] at hcov
      exact absurd hcov (by simp)
    rw [matchLevels, if_neg hc.1, if_neg hfok]
  rw [fillsNeeded_eq h.rep.toEngineShape] at hfit
  obtain ⟨e', G', hrun, hrep, hview, hsame, -⟩ := matchActiveOrder_spec h.rep c hfit
  rw [hlevels] at hrun hview
  have hnd : ((flat (view e G c.side.opp)).map fun x => x.2.orderId).Nodup := by
    rw [h.flat_ids]; exact h.queue_ids_nodup _
  have hwalk := walkFlat_sameWalk (c := c) c.remainingQty (h.entries c.side.opp)
    (h.rep.view_valid _) hnd
  rw [walkSide_flat c _ (h.rep.view_nonempty _)] at hwalk
  refine ⟨_, e', G', hrun, ?_, hwalk.trades, hwalk.remaining⟩
  have hrest_side : ∀ o ∈ (b.walk c).rest, o.side = c.side.opp := by
    intro o ho
    have hmem := (b.walk_rest_sublist c RefOrder.side fun _ => rfl).subset
      (List.mem_map_of_mem ho)
    obtain ⟨o', ho', heq⟩ := List.mem_map.mp hmem
    rw [← heq]
    exact (RefBook.mem_queue.mp ho').2
  -- the walk changes the opposite side only
  have hside_self : (b.afterMatch c).onSide c.side = b.onSide c.side := by
    have hnone : (b.walk c).rest.filter (fun o => decide (o.side = c.side)) = [] := by
      rw [List.filter_eq_nil_iff]
      intro o ho
      simp [hrest_side o ho, opp_ne]
    rw [RefBook.onSide, RefBook.afterMatch, List.filter_append, hnone, List.append_nil,
      RefBook.onSide, List.filter_filter]
    exact List.filter_congr fun o _ => Bool.and_self _
  have hside_opp : (b.afterMatch c).onSide c.side.opp = (b.walk c).rest := by
    have hnone : (b.onSide c.side).filter (fun o => decide (o.side = c.side.opp)) = [] := by
      rw [List.filter_eq_nil_iff]
      intro o ho
      have hs : o.side = c.side := by simpa using (List.mem_filter.mp ho).2
      simp [hs, (opp_ne c.side).symm]
    rw [RefBook.onSide, RefBook.afterMatch, List.filter_append, hnone, List.nil_append,
      List.filter_eq_self]
    intro o ho
    simpa using hrest_side o ho
  -- what is left stands in the order it stood in
  have hsorted : (b.walk c).rest.Pairwise (RefOrder.ahead c.side.opp) := by
    have hplaces : ((b.queue c.side.opp).map RefOrder.place).Pairwise
        (RefOrder.ahead c.side.opp) := List.pairwise_map.mpr (b.queue_pairwise c.side.opp)
    have hrest := hplaces.sublist (b.walk_rest_sublist c RefOrder.place fun _ => rfl)
    rw [List.pairwise_map] at hrest
    exact hrest
  refine ⟨hrep, ?_, ?_, ?_, ?_⟩
  · intro s
    rcases eq_or_eq_opp c.side s with rfl | rfl
    · have hqueue : (b.afterMatch c).queue c.side = b.queue c.side := by
        rw [RefBook.queue, hside_self]; rfl
      rw [hsame, hqueue, h.entries]
    · have hqueue : (b.afterMatch c).queue c.side.opp = (b.walk c).rest := by
        rw [RefBook.queue, hside_opp]
        exact hsorted.insertionSort_eq
      rw [hview, hqueue]
      exact hwalk.rest
  · exact nodup_of_subperm (b.afterMatch_subperm c RefOrder.arrival fun _ => rfl) h.arrivals
  · intro o ho
    have hmem := (b.afterMatch_subperm c RefOrder.arrival fun _ => rfl).subset
      (List.mem_map_of_mem ho)
    obtain ⟨o', ho', heq⟩ := List.mem_map.mp hmem
    rw [← heq]
    exact h.clock o' ho'
  · exact nodup_of_subperm (b.afterMatch_subperm c RefOrder.orderId fun _ => rfl) h.ids

end Refines

/-- A taker that does not walk leaves the book alone. -/
theorem Refines.noWalk (h : Refines e G b) (hc : ¬ TakerWalks e c) {r : MatchResult}
    {e' : CMatchingEngine} (hrun : matchActiveOrder e c = .ok (r, e')) :
    ∃ G', Refines e' G' b := by
  have hlevels : (matchLevels c (view e G c.side.opp)).2 = view e G c.side.opp ∧
      (matchLevels c (view e G c.side.opp)).1.trades = [] := by
    rw [matchLevels]
    by_cases hpost : c.type = .postOnly
    · rw [if_pos hpost]
      exact ⟨rfl, rfl⟩
    · have hfok : c.type = .fok ∧ coversWithin c 0 (view e G c.side.opp) = false := by
        rw [← precheckFok_eq h.rep.toEngineShape]
        simpa [TakerWalks, hpost] using hc
      rw [if_neg hpost, if_pos hfok]
      exact ⟨rfl, rfl⟩
  obtain ⟨e'', G', hrun', hrep, hview, hsame, -⟩ :=
    matchActiveOrder_spec h.rep c (by rw [hlevels.2]; exact Nat.zero_le _)
  obtain rfl : e'' = e' := by
    rw [hrun'] at hrun
    injection hrun with hrun
    exact congrArg Prod.snd hrun
  refine ⟨G', hrep, fun s => ?_, h.arrivals, h.clock, h.ids⟩
  rcases eq_or_eq_opp c.side s with rfl | rfl
  · rw [hsame, h.entries]
  · rw [hview, hlevels.1, h.entries]

/-- **Every run refines.** -/
theorem Built.refines (h : Built e b) : ∃ G, Refines e G b := by
  induction h with
  | new => exact ⟨_, Refines.new⟩
  | add o _ hice hid hrun ih =>
    obtain ⟨G, h⟩ := ih
    exact h.add hice hid hrun
  | cancel orderId side price _ hrun ih =>
    obtain ⟨G, h⟩ := ih
    exact h.cancel hrun
  | walk c _ hc hfit hrun ih =>
    obtain ⟨G, h⟩ := ih
    obtain ⟨r, e', G', hrun', h', -⟩ := h.walk hc hfit
    rw [hrun', Except.ok.injEq, Prod.mk.injEq] at hrun
    exact ⟨G', hrun.2 ▸ h'⟩
  | noWalk c _ hc hrun ih =>
    obtain ⟨G, h⟩ := ih
    exact h.noWalk hc hrun
  | reset _ ih =>
    obtain ⟨G, h⟩ := ih
    exact ⟨_, h.reset⟩

/-- **The matcher refines price-time priority.** On every book and for every taker that gets to
    walk it within the trade buffer: the merged trades, the returned remainder, and the orders
    that rest afterwards are those of the reference. -/
theorem matchActiveOrder_refines (hb : Built e b) (hc : TakerWalks e c)
    (hfit : fillsNeeded e c ≤ e.tradesCap) :
    ∃ r e', matchActiveOrder e c = .ok (r, e') ∧
      mergeTrades r.trades = (b.walk c).trades ∧
      r.remainingQty = (b.walk c).remaining ∧
      ∀ s, restingOrders e' s = ((b.afterMatch c).queue s).map RefOrder.entry := by
  obtain ⟨G, h⟩ := hb.refines
  obtain ⟨r, e', G', hrun, h', htrades, hremaining⟩ := h.walk hc hfit
  refine ⟨r, e', hrun, htrades, hremaining, fun s => ?_⟩
  rw [h'.rep.restingOrders_eq, h'.entries]

/-- An iceberg seller, then a plain one at the same price, then a better one. -/
def mixedAsks : List PassiveOrder :=
  [{ orderId := 1, side := .sell, price := 100, qty := 5, isIceberg := true, visibleQty := 2,
     hiddenQty := 3 },
   { orderId := 2, side := .sell, price := 100, qty := 4, isIceberg := false, visibleQty := 4,
     hiddenQty := 0 },
   { orderId := 3, side := .sell, price := 99, qty := 1, isIceberg := false, visibleQty := 1,
     hiddenQty := 0 }]

/-- The engine after the insertions, where none of them raises. -/
def insertAll (e : CMatchingEngine) (os : List PassiveOrder) : CMatchingEngine :=
  runCalls e (os.map .addPassiveOrder)

theorem built_insertAll (hb : Built e b) (os : List PassiveOrder) (hice : ∀ o ∈ os, o.IcebergOk)
    (hids : (os.map PassiveOrder.orderId).Nodup)
    (hnew : ∀ o ∈ os, o.orderId ∉ b.orders.map RefOrder.orderId)
    (hqty : ∀ o ∈ os, 0 < o.qty) (hcap : e.nodePoolSize + os.length ≤ e.nodePoolCap) :
    Built (insertAll e os) (os.foldl RefBook.add b) := by
  induction os generalizing e b with
  | nil => exact hb
  | cons o os ih =>
    obtain ⟨G, h⟩ := hb.refines
    have hmem : o ∈ o :: os := List.mem_cons_self
    rw [List.length_cons] at hcap
    obtain ⟨e', G', hrun, -, -, -, hsize, hcap', -⟩ := addPassiveOrder_spec h.rep
      (PassiveOrder.IcebergOk.valid (hice o hmem) (hqty o hmem)) (by omega)
    have hb' := hb.add o (hice o hmem) (hnew o hmem) hrun
    have hstep : insertAll e (o :: os) = insertAll e' os := by
      simp only [insertAll, runCalls, List.map_cons, List.foldl_cons, EngineCall.run, hrun]
    rw [List.map_cons, List.nodup_cons] at hids
    rw [hstep]
    refine ih hb' (fun o' ho' => hice o' (List.mem_cons_of_mem _ ho')) hids.2 ?_
      (fun o' ho' => hqty o' (List.mem_cons_of_mem _ ho')) (by omega)
    intro o' ho' hmem'
    rcases List.mem_cons.mp hmem' with heq | hmem'
    · have heq' : o'.orderId = o.orderId := heq
      exact hids.1 (heq' ▸ List.mem_map_of_mem ho')
    · exact hnew o' (List.mem_cons_of_mem _ ho') hmem'

/-- A buyer who sweeps the better price, the iceberg, and a piece of the plain order. -/
theorem matchActiveOrder_refines_mixedAsks :
    ∃ r e', matchActiveOrder (insertAll CMatchingEngine.new mixedAsks)
        { orderId := 9, side := .buy, type := .limit, price := some 100, quantity := 8,
          remainingQty := 8, isIceberg := false, visibleQty := 8, hiddenQty := 0 } = .ok (r, e') ∧
      (mergeTrades r.trades).map (fun t => (t.makerOrderId, t.price, t.quantity)) =
        [(3, 99, 1), (1, 100, 5), (2, 100, 2)] ∧
      r.remainingQty = 0 ∧
      restingOrders e' .sell = [(100, 2, 2)] := by
  have hb := built_insertAll Built.new mixedAsks (by decide) (by decide) (by decide)
    (by decide +kernel) (by decide)
  obtain ⟨r, e', hrun, htrades, hremaining, hrest⟩ := matchActiveOrder_refines
    (c := { orderId := 9, side := .buy, type := .limit, price := some 100, quantity := 8,
            remainingQty := 8, isIceberg := false, visibleQty := 8, hiddenQty := 0 }) hb
    (by decide) (by decide +kernel)
  refine ⟨r, e', hrun, ?_, ?_, ?_⟩
  · rw [htrades]; decide +kernel
  · rw [hremaining]; decide +kernel
  · rw [hrest]; decide +kernel

end SpotExchange.Engine
