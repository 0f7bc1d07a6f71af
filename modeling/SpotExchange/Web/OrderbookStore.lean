import Mathlib.Algebra.Order.Ring.Rat
import Mathlib.Order.Bounds.Basic
import SpotExchange.Lib.OrderedMap
import SpotExchange.Lib.Sorting

namespace SpotExchange.Web

open SpotExchange.Lib

/-!
# The orderbook store

The levels that the client shows: a snapshot, and since then a reducer for each `orderbook_update` message.

* `aggregateLevels`, `OrderBookState.applySnapshot`, `OrderBookState.applyUpdate` — as in the store;
* `Book` — what the levels are meant to be: a quantity of 0 removes a level, any other sets its volume;
* `Shows` — a store shows a book;
* `shows_iff` — when the store shows the book after a snapshot and updates.
-/

/-- A side of the book, `"bid"` or `"ask"`. -/
inductive Side
  | bid
  | ask
  deriving DecidableEq, Repr

structure OrderBookLevel where
  price : ℚ
  volume : ℚ
  deriving DecidableEq, Repr

/-- What the reducers read of a snapshot. -/
structure OrderBookSnapshotMsg where
  bids : List (ℚ × ℚ)
  asks : List (ℚ × ℚ)
  lastTradePrice : Option ℚ

structure OrderBookChange where
  side : Side
  price : ℚ
  qty : ℚ
  deriving DecidableEq, Repr

/-- What the reducers read of an update. -/
structure OrderBookUpdateMsg where
  changes : List OrderBookChange

/-- The state of `useOrderbookStore`. -/
structure OrderBookState where
  symbol : String
  bids : List OrderBookLevel
  asks : List OrderBookLevel
  lastTradePrice : Option ℚ
  spread : Option ℚ
  deriving DecidableEq, Repr

/-! ### The reducers -/

/-- The two maps of `aggregateLevels`. -/
structure LevelChanges where
  bids : OrderedMap ℚ ℚ
  asks : OrderedMap ℚ ℚ

/-- The loop of `aggregateLevels`. -/
def LevelChanges.step (maps : LevelChanges) (c : OrderBookChange) : LevelChanges :=
  let put (map : OrderedMap ℚ ℚ) := if c.qty = 0 then map.delete c.price else map.set c.price c.qty
  match c.side with
  | .bid => { maps with bids := put maps.bids }
  | .ask => { maps with asks := put maps.asks }

/-- `aggregateLevels`. -/
def aggregateLevels (changes : List OrderBookChange) : LevelChanges :=
  changes.foldl LevelChanges.step ⟨.empty, .empty⟩

/-- A price need not come behind another one: bids are sorted descending, asks ascending. -/
def inOrder : Side → ℚ → ℚ → Prop
  | .bid, p, q => q ≤ p
  | .ask, p, q => p ≤ q

instance (side : Side) : DecidableRel (inOrder side) := fun p q => by
  cases side <;> unfold inOrder <;> infer_instance

/-- The levels of a side, sorted. -/
def sortLevels (side : Side) (levels : List OrderBookLevel) : List OrderBookLevel :=
  levels.insertionSort fun a b => inOrder side a.price b.price

/-- `spread`. -/
def spreadOf : List OrderBookLevel → List OrderBookLevel → Option ℚ
  | bid :: _, ask :: _ => some (ask.price - bid.price)
  | _, _ => none

/-- A price and a volume. -/
def toLevel (entry : ℚ × ℚ) : OrderBookLevel := ⟨entry.1, entry.2⟩

/-- The entry of a level. -/
def OrderBookLevel.entry (level : OrderBookLevel) : ℚ × ℚ := (level.price, level.volume)

/-- The changes of a message, merged into the existing levels. -/
def mergeLevels (side : Side) (levels : List OrderBookLevel) (changes : OrderedMap ℚ ℚ) :
    List OrderBookLevel :=
  let map := (OrderedMap.ofList (levels.map OrderBookLevel.entry)).setAll changes.entries
  sortLevels side (map.entries.map toLevel)

namespace OrderBookState

/-- The store before a snapshot. -/
def init : OrderBookState where
  symbol := "BTC/USD"
  bids := []
  asks := []
  lastTradePrice := none
  spread := none

def setSymbol (_ : OrderBookState) (symbol : String) : OrderBookState :=
  { symbol := symbol, bids := [], asks := [], lastTradePrice := none, spread := none }

def applySnapshot (s : OrderBookState) (msg : OrderBookSnapshotMsg) : OrderBookState :=
  let bids := sortLevels .bid (msg.bids.map toLevel)
  let asks := sortLevels .ask (msg.asks.map toLevel)
  { s with bids := bids, asks := asks, lastTradePrice := msg.lastTradePrice, spread := spreadOf bids asks }

def applyUpdate (s : OrderBookState) (msg : OrderBookUpdateMsg) : OrderBookState :=
  let changes := aggregateLevels msg.changes
  let bids := mergeLevels .bid s.bids changes.bids
  let asks := mergeLevels .ask s.asks changes.asks
  { s with bids := bids, asks := asks, spread := spreadOf bids asks }

def clear (s : OrderBookState) : OrderBookState :=
  { s with bids := [], asks := [], lastTradePrice := none, spread := none }

end OrderBookState

/-! ### What the store is for -/

/-- The volume of each price of each side that has a level. -/
abbrev Book := Side → ℚ → Option ℚ

/-- A change: a quantity of 0 removes the level, any other sets its volume. -/
def Book.apply (book : Book) (c : OrderBookChange) : Book := fun side price =>
  if (side, price) = (c.side, c.price) then if c.qty = 0 then none else some c.qty else book side price

/-- The levels of a side of a snapshot. -/
def OrderBookSnapshotMsg.levels (msg : OrderBookSnapshotMsg) : Side → List (ℚ × ℚ)
  | .bid => msg.bids
  | .ask => msg.asks

/-- The book of a snapshot. -/
def OrderBookSnapshotMsg.book (msg : OrderBookSnapshotMsg) : Book := fun side price =>
  lastAt price (msg.levels side)

/-- A price comes strictly before another one. -/
def ahead : Side → ℚ → ℚ → Prop
  | .bid, p, q => q < p
  | .ask, p, q => p < q

/-- **Levels hold exactly what one side of a book says**: in strict order, each with its volume. -/
structure Holds (side : Side) (levels : List OrderBookLevel) (volume : ℚ → Option ℚ) : Prop where
  sorted : levels.Pairwise fun l l' => ahead side l.price l'.price
  mem_iff : ∀ l, l ∈ levels ↔ volume l.price = some l.volume

/-- The prices that have a level. -/
def Book.prices (book : Book) (side : Side) : Set ℚ := {p | book side p ≠ none}

/-- **A store shows a book.**  The spread is the best ask minus the best bid. -/
structure Shows (s : OrderBookState) (book : Book) : Prop where
  bids : Holds .bid s.bids (book .bid)
  asks : Holds .ask s.asks (book .ask)
  spread : ∀ bid ask, IsGreatest (book.prices .bid) bid → IsLeast (book.prices .ask) ask →
    s.spread = some (ask - bid)
  oneSided : book.prices .bid = ∅ ∨ book.prices .ask = ∅ → s.spread = none

/-- The quantity of the last change at a price. -/
def lastQty (changes : List OrderBookChange) (side : Side) (price : ℚ) : Option ℚ :=
  lastAt (side, price) (changes.map fun c => ((c.side, c.price), c.qty))

section

variable {side : Side} {price : ℚ} {levels : List OrderBookLevel} {changes : List OrderBookChange}
  {s : OrderBookState} {book : Book} {volume : ℚ → Option ℚ}

/-! ### Changes -/

theorem lastQty_concat (c : OrderBookChange) : lastQty (changes ++ [c]) side price =
    if (side, price) = (c.side, c.price) then some c.qty else lastQty changes side price := by
  unfold lastQty
  rw [List.map_append, List.map_singleton, lastAt_concat]

theorem lastQty_append {changes' : List OrderBookChange} : lastQty (changes ++ changes') side price =
    (lastQty changes' side price).or (lastQty changes side price) := by
  unfold lastQty
  rw [List.map_append, lastAt_append]

/-- **The changes one by one**: the last one at a price decides. -/
theorem foldl_apply (book : Book) (changes : List OrderBookChange) :
    changes.foldl Book.apply book side price =
      ((lastQty changes side price).map fun q => if q = 0 then none else some q).getD (book side price) := by
  induction changes using List.reverseRecOn with
  | nil => rfl
  | append_singleton changes c ih =>
    rw [List.foldl_append, List.foldl_cons, List.foldl_nil, lastQty_concat, Book.apply, ih]
    split_ifs <;> simp_all

/-- The map of a side. -/
def LevelChanges.on (maps : LevelChanges) : Side → OrderedMap ℚ ℚ
  | .bid => maps.bids
  | .ask => maps.asks

theorem LevelChanges.step_on (maps : LevelChanges) (c : OrderBookChange) :
    ((maps.step c).on side).get? price =
      if (side, price) = (c.side, c.price) then if c.qty = 0 then none else some c.qty
        else (maps.on side).get? price := by
  have hput : ∀ map : OrderedMap ℚ ℚ,
      (if c.qty = 0 then map.delete c.price else map.set c.price c.qty).get? price =
        if price = c.price then if c.qty = 0 then none else some c.qty else map.get? price := by
    intro map
    split_ifs with hzero hprice hprice <;> simp [OrderedMap.get?_delete, OrderedMap.get?_set, hprice]
  unfold LevelChanges.step
  cases side <;> cases hside : c.side <;> simp only [LevelChanges.on, hput, Prod.mk.injEq, reduceCtorEq,
    false_and, true_and, if_false]

/-- **The maps of a message**: a price whose last change removes it is in neither. -/
theorem aggregateLevels_on (changes : List OrderBookChange) :
    ((aggregateLevels changes).on side).get? price = (lastQty changes side price).filter (· ≠ 0) := by
  induction changes using List.reverseRecOn with
  | nil => cases side <;> rfl
  | append_singleton changes c ih =>
    have hstep : aggregateLevels (changes ++ [c]) = (aggregateLevels changes).step c := by
      unfold aggregateLevels
      rw [List.foldl_append]
      rfl
    rw [hstep, LevelChanges.step_on, lastQty_concat, ih]
    split_ifs with hat hzero
    · rw [hzero]
      rfl
    · rw [Option.filter_some, if_pos (decide_eq_true hzero)]
    · rfl

/-! ### Levels -/

instance : Std.Total fun a b : OrderBookLevel => inOrder side a.price b.price where
  total a b := by
    cases side
    · exact le_total b.price a.price
    · exact le_total a.price b.price

instance : IsTrans OrderBookLevel fun a b => inOrder side a.price b.price where
  trans a b c hab hbc := by
    cases side
    · exact le_trans hbc hab
    · exact le_trans hab hbc

theorem ahead_of_inOrder {p q : ℚ} (h : inOrder side p q) (hne : p ≠ q) : ahead side p q := by
  cases side
  · exact lt_of_le_of_ne h hne.symm
  · exact lt_of_le_of_ne h hne

theorem ahead_ne {p q : ℚ} (h : ahead side p q) : p ≠ q := by
  cases side
  · exact ne_of_gt h
  · exact ne_of_lt h

/-- The volume that levels have at a price. -/
def volumeAt (levels : List OrderBookLevel) (price : ℚ) : Option ℚ :=
  lastAt price (levels.map OrderBookLevel.entry)

theorem map_entry_map_toLevel (entries : List (ℚ × ℚ)) :
    (entries.map toLevel).map OrderBookLevel.entry = entries := by
  rw [List.map_map]
  exact List.map_id _

/-- Sorting changes no volume, as levels of one price need not be exchanged. -/
theorem volumeAt_sortLevels (levels : List OrderBookLevel) :
    volumeAt (sortLevels side levels) price = volumeAt levels price := by
  have hsame : ∀ a b : OrderBookLevel, decide (a.price = price) = true → decide (b.price = price) = true →
      inOrder side a.price b.price := by
    intro a b ha hb
    rw [of_decide_eq_true ha, of_decide_eq_true hb]
    cases side <;> exact le_refl price
  have hfilter : ∀ ls : List OrderBookLevel, (ls.map OrderBookLevel.entry).filter (fun e => e.1 = price) =
      (ls.filter fun l => l.price = price).map OrderBookLevel.entry := fun ls => List.filter_map
  unfold volumeAt lastAt sortLevels
  rw [hfilter, hfilter, filter_insertionSort_of_forall hsame]

/-- **Levels are sorted strictly** just if no price comes twice. -/
theorem sortLevels_strict_iff (levels : List OrderBookLevel) :
    (sortLevels side levels).Pairwise (fun l l' => ahead side l.price l'.price) ↔
      (levels.map OrderBookLevel.price).Nodup := by
  have hperm : ((sortLevels side levels).map OrderBookLevel.price).Perm (levels.map OrderBookLevel.price) :=
    (List.perm_insertionSort _ levels).map _
  rw [← hperm.nodup_iff, List.Nodup, List.pairwise_map]
  constructor
  · exact List.Pairwise.imp ahead_ne
  · intro hne
    have hsorted : (sortLevels side levels).Pairwise fun a b => inOrder side a.price b.price :=
      List.pairwise_insertionSort _ _
    exact List.Pairwise.imp₂ (fun _ _ => ahead_of_inOrder) hsorted hne

/-- A level of a strictly sorted list is found by its price. -/
theorem mem_iff_volumeAt (hsorted : levels.Pairwise fun l l' => ahead side l.price l'.price)
    (l : OrderBookLevel) : l ∈ levels ↔ volumeAt levels l.price = some l.volume := by
  have hnodup : ((levels.map OrderBookLevel.entry).map Prod.fst).Nodup := by
    rw [List.map_map, List.Nodup, List.pairwise_map]
    exact hsorted.imp ahead_ne
  unfold volumeAt
  rw [lastAt_eq_some_iff hnodup, List.mem_map]
  constructor
  · intro hl
    exact ⟨l, hl, rfl⟩
  · rintro ⟨l', hl', heq⟩
    obtain ⟨hprice, hvolume⟩ := Prod.mk.inj heq
    have hsame : l' = l := by
      cases l'
      cases l
      exact congrArg₂ OrderBookLevel.mk hprice hvolume
    exact hsame ▸ hl'

/-- **What levels hold** is what they have at each price. -/
theorem holds_iff : Holds side levels volume ↔
    (levels.Pairwise fun l l' => ahead side l.price l'.price) ∧ ∀ p, volumeAt levels p = volume p := by
  constructor
  · rintro ⟨hsorted, hmem⟩
    refine ⟨hsorted, fun p => Option.ext fun v => ?_⟩
    exact (mem_iff_volumeAt hsorted ⟨p, v⟩).symm.trans (hmem ⟨p, v⟩)
  · rintro ⟨hsorted, hvolume⟩
    refine ⟨hsorted, fun l => ?_⟩
    rw [← hvolume]
    exact mem_iff_volumeAt hsorted l

/-- **Merging**: the changes of the message first, then what was there. -/
theorem volumeAt_mergeLevels (levels : List OrderBookLevel) (maps : OrderedMap ℚ ℚ) :
    volumeAt (mergeLevels side levels maps) price = (maps.get? price).or (volumeAt levels price) := by
  unfold mergeLevels
  rw [volumeAt_sortLevels]
  unfold volumeAt
  rw [map_entry_map_toLevel]
  show ((OrderedMap.ofList (levels.map OrderBookLevel.entry)).setAll maps.entries).get? price = _
  rw [OrderedMap.get?_setAll, OrderedMap.get?_ofList]
  rfl

theorem mergeLevels_strict (levels : List OrderBookLevel) (maps : OrderedMap ℚ ℚ) :
    (mergeLevels side levels maps).Pairwise fun l l' => ahead side l.price l'.price := by
  unfold mergeLevels
  rw [sortLevels_strict_iff, List.map_map]
  exact OrderedMap.nodup _

/-! ### The spread -/

/-- The levels of a side. -/
def OrderBookState.on (s : OrderBookState) : Side → List OrderBookLevel
  | .bid => s.bids
  | .ask => s.asks

/-- The first level is the best one. -/
theorem Holds.head {l : OrderBookLevel} {rest : List OrderBookLevel} (h : Holds side (l :: rest) volume) :
    volume l.price ≠ none ∧ ∀ p, volume p ≠ none → inOrder side l.price p := by
  refine ⟨?_, fun p hp => ?_⟩
  · rw [(h.mem_iff l).mp List.mem_cons_self]
    simp
  · obtain ⟨v, hv⟩ := Option.ne_none_iff_exists'.mp hp
    rcases List.mem_cons.mp ((h.mem_iff ⟨p, v⟩).mpr hv) with rfl | hmem
    · cases side <;> exact le_refl p
    · have hahead := (List.pairwise_cons.mp h.sorted).1 _ hmem
      cases side <;> exact le_of_lt hahead

/-- A side without levels. -/
theorem Holds.eq_none (h : Holds side [] volume) (p : ℚ) : volume p = none := by
  by_contra hp
  obtain ⟨v, hv⟩ := Option.ne_none_iff_exists'.mp hp
  exact absurd ((h.mem_iff ⟨p, v⟩).mpr hv) (by simp)

/-- **A store whose spread is that of its levels** shows a book just if its levels do. -/
theorem shows_iff_holds (hspread : s.spread = spreadOf s.bids s.asks) :
    Shows s book ↔ ∀ side, Holds side (s.on side) (book side) := by
  constructor
  · intro h side
    cases side
    · exact h.bids
    · exact h.asks
  · intro h
    have hbids : Holds .bid s.bids (book .bid) := h .bid
    have hasks : Holds .ask s.asks (book .ask) := h .ask
    refine ⟨hbids, hasks, fun bid ask hbid hask => ?_, fun hnone => ?_⟩
    · rw [hspread]
      cases hb : s.bids with
      | nil => exact absurd ((hb ▸ hbids).eq_none bid) hbid.1
      | cons b _ =>
        cases ha : s.asks with
        | nil => exact absurd ((ha ▸ hasks).eq_none ask) hask.1
        | cons a _ =>
          have hb' := (hb ▸ hbids : Holds .bid (b :: _) _).head
          have ha' := (ha ▸ hasks : Holds .ask (a :: _) _).head
          have hbest : b.price = bid := le_antisymm (hbid.2 hb'.1) (hb'.2 bid hbid.1)
          have hbest' : a.price = ask := le_antisymm (ha'.2 ask hask.1) (hask.2 ha'.1)
          rw [← hbest, ← hbest']
          rfl
    · rw [hspread]
      cases hb : s.bids with
      | nil => rfl
      | cons b _ =>
        cases ha : s.asks with
        | nil => rfl
        | cons a _ =>
          have hb' : b.price ∈ book.prices .bid := (hb ▸ hbids : Holds .bid (b :: _) _).head.1
          have ha' : a.price ∈ book.prices .ask := (ha ▸ hasks : Holds .ask (a :: _) _).head.1
          rcases hnone with hnone | hnone
          · exact absurd (hnone ▸ hb') (Set.notMem_empty _)
          · exact absurd (hnone ▸ ha') (Set.notMem_empty _)

/-- A store without levels shows the book without levels. -/
theorem shows_empty (hbids : s.bids = []) (hasks : s.asks = []) (hspread : s.spread = none) :
    Shows s fun _ _ => none := by
  have hholds : ∀ side, Holds side ([] : List OrderBookLevel) fun _ => none := fun _ =>
    ⟨List.Pairwise.nil, fun _ => by simp⟩
  rw [shows_iff_holds (by rw [hbids, hasks, hspread]; rfl)]
  intro side
  cases side
  · exact (hbids ▸ hholds .bid : Holds .bid s.bids fun _ => none)
  · exact (hasks ▸ hholds .ask : Holds .ask s.asks fun _ => none)

/-- Nothing is shown of another symbol. -/
theorem shows_setSymbol (s : OrderBookState) (symbol : String) : Shows (s.setSymbol symbol) fun _ _ => none :=
  shows_empty rfl rfl rfl

theorem shows_clear (s : OrderBookState) : Shows s.clear fun _ _ => none := shows_empty rfl rfl rfl

/-! ### A snapshot and updates -/

variable {snapshot : OrderBookSnapshotMsg} {msgs : List OrderBookUpdateMsg}

/-- The store after a snapshot and updates. -/
def OrderBookState.fed (s : OrderBookState) (snapshot : OrderBookSnapshotMsg)
    (msgs : List OrderBookUpdateMsg) : OrderBookState :=
  msgs.foldl OrderBookState.applyUpdate (s.applySnapshot snapshot)

/-- The changes of the updates. -/
def changesOf (msgs : List OrderBookUpdateMsg) : List OrderBookChange :=
  msgs.flatMap OrderBookUpdateMsg.changes

/-- **A price that the updates remove has never been set**: neither does the snapshot list it, nor does an
    update leave it with a quantity. -/
def NeverSet (snapshot : OrderBookSnapshotMsg) (msgs : List OrderBookUpdateMsg) (side : Side) (price : ℚ) :
    Prop :=
  price ∉ (snapshot.levels side).map Prod.fst ∧
    ∀ m ∈ msgs, ∀ q, lastQty m.changes side price = some q → q = 0

theorem fed_concat (m : OrderBookUpdateMsg) : s.fed snapshot (msgs ++ [m]) = (s.fed snapshot msgs).applyUpdate m := by
  unfold OrderBookState.fed
  rw [List.foldl_append]
  rfl

theorem changesOf_concat (m : OrderBookUpdateMsg) : changesOf (msgs ++ [m]) = changesOf msgs ++ m.changes := by
  unfold changesOf
  rw [List.flatMap_append, List.flatMap_singleton]

theorem applySnapshot_on (s : OrderBookState) (snapshot : OrderBookSnapshotMsg) :
    (s.applySnapshot snapshot).on side = sortLevels side ((snapshot.levels side).map toLevel) := by
  cases side <;> rfl

theorem applyUpdate_on (s : OrderBookState) (m : OrderBookUpdateMsg) :
    (s.applyUpdate m).on side = mergeLevels side (s.on side) ((aggregateLevels m.changes).on side) := by
  cases side <;> rfl

/-- **An update**: what it ends with at a price, unless this is a removal, and else what was there. -/
theorem volumeAt_applyUpdate (s : OrderBookState) (m : OrderBookUpdateMsg) :
    volumeAt ((s.applyUpdate m).on side) price =
      ((lastQty m.changes side price).filter (· ≠ 0)).or (volumeAt (s.on side) price) := by
  rw [applyUpdate_on, volumeAt_mergeLevels, aggregateLevels_on]

theorem volumeAt_applySnapshot (s : OrderBookState) (snapshot : OrderBookSnapshotMsg) :
    volumeAt ((s.applySnapshot snapshot).on side) price = snapshot.book side price := by
  rw [applySnapshot_on, volumeAt_sortLevels]
  unfold volumeAt
  rw [map_entry_map_toLevel]
  rfl

/-- A price has no level just if it has never been set. -/
theorem volumeAt_fed_eq_none : volumeAt ((s.fed snapshot msgs).on side) price = none ↔
    NeverSet snapshot msgs side price := by
  unfold NeverSet
  induction msgs using List.reverseRecOn with
  | nil =>
    show volumeAt ((s.applySnapshot snapshot).on side) price = none ↔ _
    rw [volumeAt_applySnapshot, OrderBookSnapshotMsg.book, lastAt_eq_none]
    simp
  | append_singleton msgs m ih =>
    rw [fed_concat, volumeAt_applyUpdate, Option.or_eq_none_iff, ih, Option.filter_eq_none_iff]
    simp only [List.forall_mem_append, List.forall_mem_singleton, decide_eq_true_eq, not_not]
    tauto

/-- **Where the last change is no removal**, the store has what the changes leave. -/
theorem volumeAt_fed (h : lastQty (changesOf msgs) side price ≠ some 0) :
    volumeAt ((s.fed snapshot msgs).on side) price =
      (changesOf msgs).foldl Book.apply snapshot.book side price := by
  induction msgs using List.reverseRecOn with
  | nil => exact volumeAt_applySnapshot s snapshot
  | append_singleton msgs m ih =>
    rw [changesOf_concat, lastQty_append] at h
    rw [fed_concat, volumeAt_applyUpdate, changesOf_concat, List.foldl_append,
      foldl_apply ((changesOf msgs).foldl Book.apply snapshot.book)]
    cases hlast : lastQty m.changes side price with
    | none =>
      rw [hlast, Option.none_or] at h
      exact ih h
    | some q =>
      have hq : q ≠ 0 := by
        rw [hlast, Option.some_or] at h
        exact fun hzero => h (congrArg some hzero)
      simp [hq]

/-- After a removal there is no level. -/
theorem foldl_apply_removed (h : lastQty changes side price = some 0) :
    changes.foldl Book.apply book side price = none := by
  rw [foldl_apply, h]
  simp

theorem fed_strict_iff : ((s.fed snapshot msgs).on side).Pairwise (fun l l' => ahead side l.price l'.price) ↔
    (msgs = [] → ((snapshot.levels side).map Prod.fst).Nodup) := by
  rcases List.eq_nil_or_concat msgs with rfl | ⟨init, m, rfl⟩
  · show ((s.applySnapshot snapshot).on side).Pairwise _ ↔ _
    rw [applySnapshot_on, sortLevels_strict_iff, List.map_map]
    exact ⟨fun h _ => h, fun h => h rfl⟩
  · -- an update sorts distinct prices
    rw [List.concat_eq_append, fed_concat, applyUpdate_on]
    exact iff_of_true (mergeLevels_strict _ _) fun h => absurd h (by simp)

theorem fed_spread : (s.fed snapshot msgs).spread =
    spreadOf (s.fed snapshot msgs).bids (s.fed snapshot msgs).asks := by
  rcases List.eq_nil_or_concat msgs with rfl | ⟨init, m, rfl⟩
  · rfl
  · rw [List.concat_eq_append, fed_concat]
    rfl

/-- **Snapshot plus deltas is the book** just if no price that was ever set is removed in the end: a price
    whose last change removes it is not in the snapshot, and no update leaves it with a quantity.  Without
    an update, the snapshot lists no price twice. -/
theorem shows_iff (s : OrderBookState) (snapshot : OrderBookSnapshotMsg) (msgs : List OrderBookUpdateMsg) :
    Shows (s.fed snapshot msgs) ((changesOf msgs).foldl Book.apply snapshot.book) ↔
      (msgs = [] → ∀ side, ((snapshot.levels side).map Prod.fst).Nodup) ∧
        ∀ side price, lastQty (changesOf msgs) side price = some 0 → NeverSet snapshot msgs side price := by
  have hvolumes : ∀ side, (∀ price, volumeAt ((s.fed snapshot msgs).on side) price =
        (changesOf msgs).foldl Book.apply snapshot.book side price) ↔
      ∀ price, lastQty (changesOf msgs) side price = some 0 → NeverSet snapshot msgs side price := by
    intro side
    refine forall_congr' fun price => ?_
    by_cases hremoved : lastQty (changesOf msgs) side price = some 0
    · rw [foldl_apply_removed hremoved, volumeAt_fed_eq_none]
      exact ⟨fun h _ => h, fun h => h hremoved⟩
    · exact iff_of_true (volumeAt_fed hremoved) fun h => absurd h hremoved
  rw [shows_iff_holds fed_spread]
  constructor
  · intro h
    exact ⟨fun hnone side => fed_strict_iff.mp (holds_iff.mp (h side)).1 hnone,
      fun side => (hvolumes side).mp (holds_iff.mp (h side)).2⟩
  · rintro ⟨hdistinct, hset⟩ side
    exact holds_iff.mpr ⟨fed_strict_iff.mpr fun hnone => hdistinct hnone side, (hvolumes side).mpr (hset side)⟩

end

/-- One bid, and one ask. -/
def oneEach : OrderBookSnapshotMsg where
  bids := [(100, 1)]
  asks := [(101, 1)]
  lastTradePrice := none

/-- The bid is taken away. -/
def bidRemoved : OrderBookUpdateMsg := ⟨[⟨.bid, 100, 0⟩]⟩

/-- **A removed level stays**: the map of the message has no entry for it. -/
theorem shows_not_always :
    (OrderBookState.init.fed oneEach [bidRemoved]).bids = [⟨100, 1⟩] ∧
      (changesOf [bidRemoved]).foldl Book.apply oneEach.book .bid 100 = none ∧
      ¬ Shows (OrderBookState.init.fed oneEach [bidRemoved])
        ((changesOf [bidRemoved]).foldl Book.apply oneEach.book) := by
  have hbids : (OrderBookState.init.fed oneEach [bidRemoved]).bids = [⟨100, 1⟩] := by decide +kernel
  have hnone : (changesOf [bidRemoved]).foldl Book.apply oneEach.book .bid 100 = none := by decide +kernel
  refine ⟨hbids, hnone, fun h => ?_⟩
  have hlevel := (h.bids.mem_iff ⟨100, 1⟩).mp (by rw [hbids]; exact List.mem_singleton_self _)
  rw [hnone] at hlevel
  exact absurd hlevel (by simp)

end SpotExchange.Web
