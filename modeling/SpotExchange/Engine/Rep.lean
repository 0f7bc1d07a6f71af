import SpotExchange.Engine.Calls
import SpotExchange.Lib.Chain
import Mathlib.Algebra.BigOperators.Group.List.Basic
import Mathlib.Tactic.Linarith

namespace SpotExchange.Engine

open SpotExchange.Lib

/-!
# What an engine represents

The pointer structure of a well-formed engine represents, for each side, a list of price
levels each holding a list of resting orders.  The representation is a relation with a ghost:
`G s` lists the level descriptors of side `s`, each with the pool slots of its orders.

* `LevelRep` — one level: the list from `head`, its `tail`, its count and its volume;
* `SideRep` — the level array of a side, sorted;
* `EngineShape` — both sides without empty levels, over pairwise distinct slots of the used part of the pool;
* `EngineRep` — the same, and every order has something left and shows some of it;
* `viewSide` — the levels and orders that a ghost stands for, without pointers.
-/

/-! ### The represented book -/

/-- A resting order, without its place in the pool. -/
structure Resting where
  orderId : OrderId
  remainingQty : ℚ
  visibleQty : ℚ
  isIceberg : Bool
  deriving DecidableEq, Repr

/-- Something is left to fill and something is exposed; an iceberg exposes no more than it has. -/
structure Resting.Valid (o : Resting) : Prop where
  remaining_pos : 0 < o.remainingQty
  visible_pos : 0 < o.visibleQty
  visible_le : o.isIceberg = true → o.visibleQty ≤ o.remainingQty

/-- Something is left, and something shows: what a fill leaves of an order that it does not use
    up. -/
structure Resting.Live (o : Resting) : Prop where
  remaining_pos : 0 < o.remainingQty
  visible_pos : 0 < o.visibleQty

/-- What every order in the memory satisfies, also the maker at which a match ran out of trade
    buffer, which stays linked with nothing left. -/
structure Resting.Sound (o : Resting) : Prop where
  remaining_nonneg : 0 ≤ o.remainingQty
  visible_pos : o.isIceberg = false → 0 < o.visibleQty

theorem Resting.Live.sound {o : Resting} (h : o.Live) : o.Sound where
  remaining_nonneg := h.remaining_pos.le
  visible_pos := fun _ => h.visible_pos

theorem Resting.Valid.sound {o : Resting} (h : o.Valid) : o.Sound where
  remaining_nonneg := h.remaining_pos.le
  visible_pos := fun _ => h.visible_pos

/-- The resting orders of one price, oldest first. -/
structure Level where
  price : ℚ
  orders : List Resting
  deriving DecidableEq, Repr

/-- A node without its link. -/
def OrderNode.resting (n : OrderNode) : Resting where
  orderId := n.orderId
  remainingQty := n.remainingQty
  visibleQty := n.visibleQty
  isIceberg := n.isIceberg

/-! ### Levels -/

/-- The `next` pointers of a pool. -/
def nextOf (pool : ℕ → OrderNode) (i : ℕ) : Option ℕ := (pool i).next

/-- A level descriptor with the slots of its orders. -/
abbrev GhostLevel := PriceLevel × List ℕ

/-- The level `lvl` holds exactly the orders in the slots `ids`, oldest first. -/
structure LevelRep (pool : ℕ → OrderNode) (lvl : PriceLevel) (ids : List ℕ) : Prop where
  chain : Chain (nextOf pool) lvl.head ids
  tail : lvl.tail = ids.getLast?
  count : lvl.orderCount = ids.length
  volume : lvl.totalVolume = (ids.map fun i => (pool i).remainingQty).sum
  sound : ∀ i ∈ ids, (pool i).resting.Sound

/-- **Frame.** A level only depends on its own slots. -/
theorem LevelRep.congr {pool pool' : ℕ → OrderNode} {lvl : PriceLevel} {ids : List ℕ}
    (h : LevelRep pool lvl ids) (heq : ∀ i ∈ ids, pool' i = pool i) : LevelRep pool' lvl ids where
  chain := h.chain.congr fun i hi => by simp only [nextOf, heq i hi]
  tail := h.tail
  count := h.count
  volume := by
    rw [h.volume]
    exact congrArg List.sum (List.map_congr_left fun i hi => by rw [heq i hi])
  sound := fun i hi => by rw [heq i hi]; exact h.sound i hi

/-- The empty level. -/
theorem LevelRep.nil_of_cleared (pool : ℕ → OrderNode) {lvl : PriceLevel} (h : lvl.cleared = lvl) :
    LevelRep pool lvl [] := by
  rw [← h]
  exact ⟨rfl, rfl, rfl, rfl, by simp⟩

/-- A level without orders counts none, and conversely. -/
theorem LevelRep.count_eq_zero {pool : ℕ → OrderNode} {lvl : PriceLevel} {ids : List ℕ}
    (h : LevelRep pool lvl ids) : lvl.orderCount = 0 ↔ ids = [] := by
  rw [h.count]; simp

/-- What a level descriptor with its slots stands for. -/
def viewLevel (pool : ℕ → OrderNode) (g : GhostLevel) : Level where
  price := g.1.price
  orders := g.2.map fun i => (pool i).resting

/-! ### Sides -/

/-- All slots of a side. -/
def cells (L : List GhostLevel) : List ℕ := L.flatMap Prod.snd

@[simp] theorem cells_nil : cells [] = [] := rfl

@[simp] theorem cells_cons (g : GhostLevel) (L : List GhostLevel) :
    cells (g :: L) = g.2 ++ cells L := rfl

theorem mem_cells {L : List GhostLevel} {i : ℕ} : i ∈ cells L ↔ ∃ g ∈ L, i ∈ g.2 := by
  simp [cells]

/-- The level array of a side holds the levels `L`, best price first. -/
structure SideRep (pool : ℕ → OrderNode) (side : OrderBookSide) (L : List GhostLevel) : Prop where
  levels : slice side.levels side.size = L.map Prod.fst
  rep : ∀ g ∈ L, LevelRep pool g.1 g.2
  sorted : L.Pairwise fun g g' => before side.isDescending g.1.price g'.1.price

/-- What a side stands for. -/
def viewSide (pool : ℕ → OrderNode) (L : List GhostLevel) : List Level := L.map (viewLevel pool)

theorem SideRep.size_eq {pool : ℕ → OrderNode} {side : OrderBookSide} {L : List GhostLevel}
    (h : SideRep pool side L) : side.size = L.length := by
  simpa using congrArg List.length h.levels

theorem SideRep.level_eq {pool : ℕ → OrderNode} {side : OrderBookSide} {L : List GhostLevel}
    (h : SideRep pool side L) {i : ℕ} (hi : i < L.length) : side.levels i = L[i].1 := by
  have hs : i < (slice side.levels side.size).length := by rw [h.levels]; simpa using hi
  rw [← getElem_slice side.levels side.size i hs]
  simp only [h.levels, List.getElem_map]

/-- **Frame.** A side only depends on its own slots. -/
theorem SideRep.congr {pool pool' : ℕ → OrderNode} {side : OrderBookSide} {L : List GhostLevel}
    (h : SideRep pool side L) (heq : ∀ i ∈ cells L, pool' i = pool i) : SideRep pool' side L where
  levels := h.levels
  rep := fun g hg => (h.rep g hg).congr fun i hi => heq i (mem_cells.mpr ⟨g, hg, hi⟩)
  sorted := h.sorted

theorem viewSide_congr {pool pool' : ℕ → OrderNode} {L : List GhostLevel}
    (heq : ∀ i ∈ cells L, pool' i = pool i) : viewSide pool' L = viewSide pool L := by
  refine List.map_congr_left fun g hg => ?_
  simp only [viewLevel, Level.mk.injEq, true_and]
  exact List.map_congr_left fun i hi => by rw [heq i (mem_cells.mpr ⟨g, hg, hi⟩)]

/-! ### The engine -/

/-- The slots and levels of both sides, as a ghost of the engine. -/
abbrev Ghost := CSide → List GhostLevel

/-- The engine's memory holds the levels `G s` on each side `s`, none of them empty, over
    pairwise distinct slots of the used part of the pool. -/
structure EngineShape (e : CMatchingEngine) (G : Ghost) : Prop where
  side : ∀ s, SideRep e.nodePool (e.bookSide s) (G s)
  nonempty : ∀ s, ∀ g ∈ G s, g.2 ≠ []
  direction : ∀ s, (e.bookSide s).isDescending = decide (s = CSide.buy)
  nodup : ∀ s, (cells (G s) ++ cells (G s.opp)).Nodup
  bound : ∀ s, ∀ i ∈ cells (G s), i < e.nodePoolSize

/-- The engine's memory holds the levels `G s` on each side `s`, and all orders are valid. -/
structure EngineRep (e : CMatchingEngine) (G : Ghost) : Prop extends EngineShape e G where
  valid : ∀ s, ∀ i ∈ cells (G s), (e.nodePool i).resting.Valid

@[simp] theorem opp_opp (s : CSide) : s.opp.opp = s := by cases s <;> rfl

theorem opp_ne (s : CSide) : s.opp ≠ s := by cases s <;> simp [CSide.opp]

theorem eq_or_eq_opp (s t : CSide) : t = s ∨ t = s.opp := by
  cases s <;> cases t <;> simp [CSide.opp]

namespace CMatchingEngine

variable (e : CMatchingEngine) (s : CSide) (b : OrderBookSide)

@[simp] theorem bookSide_set_self : (e.setBookSide s b).bookSide s = b := by cases s <;> rfl

@[simp] theorem bookSide_set_opp : (e.setBookSide s b).bookSide s.opp = e.bookSide s.opp := by
  cases s <;> rfl

@[simp] theorem set_nodePool : (e.setBookSide s b).nodePool = e.nodePool := by cases s <;> rfl

@[simp] theorem set_nodePoolSize : (e.setBookSide s b).nodePoolSize = e.nodePoolSize := by
  cases s <;> rfl

@[simp] theorem set_nodePoolCap : (e.setBookSide s b).nodePoolCap = e.nodePoolCap := by
  cases s <;> rfl

@[simp] theorem set_tradesCap : (e.setBookSide s b).tradesCap = e.tradesCap := by cases s <;> rfl

end CMatchingEngine

/-- A slot belongs to one side only. -/
theorem EngineShape.not_mem_opp {e : CMatchingEngine} {G : Ghost} (h : EngineShape e G) {s : CSide}
    {i : ℕ} (hi : i ∈ cells (G s)) : i ∉ cells (G s.opp) :=
  fun hi' => (List.nodup_append.mp (h.nodup s)).2.2 i hi i hi' rfl

theorem EngineShape.cells_nodup {e : CMatchingEngine} {G : Ghost} (h : EngineShape e G) (s : CSide) :
    (cells (G s)).Nodup := (List.nodup_append.mp (h.nodup s)).1

/-- A fresh engine represents the empty book. -/
theorem engineRep_new : EngineRep CMatchingEngine.new fun _ => [] where
  side := by
    intro s
    cases s <;> exact ⟨rfl, by simp, List.Pairwise.nil⟩
  nonempty := by simp
  direction := by intro s; cases s <;> rfl
  nodup := by simp
  bound := by simp
  valid := by simp

/-- `reset` leaves an engine that represents the empty book. -/
theorem engineRep_reset {e : CMatchingEngine}
    (hdir : ∀ s, (e.bookSide s).isDescending = decide (s = CSide.buy)) :
    EngineRep (reset e) fun _ => [] where
  side := by
    intro s
    cases s <;> exact ⟨rfl, by simp, List.Pairwise.nil⟩
  nonempty := by simp
  direction := by
    intro s
    cases s
    · exact hdir .buy
    · exact hdir .sell
  nodup := by simp
  bound := by simp
  valid := by simp

/-- What the engine stands for, side by side. -/
def view (e : CMatchingEngine) (G : Ghost) (s : CSide) : List Level := viewSide e.nodePool (G s)

theorem forall_view {e : CMatchingEngine} {G : Ghost} {s : CSide} {P : Resting → Prop} :
    (∀ l ∈ view e G s, ∀ o ∈ l.orders, P o) ↔ ∀ i ∈ cells (G s), P (e.nodePool i).resting := by
  constructor
  · intro h i hi
    obtain ⟨g, hg, hi⟩ := mem_cells.mp hi
    exact h _ (List.mem_map_of_mem hg) _ (List.mem_map_of_mem hi)
  · intro h l hl o ho
    obtain ⟨g, hg, rfl⟩ := List.mem_map.mp hl
    obtain ⟨i, hi, rfl⟩ := List.mem_map.mp ho
    exact h i (mem_cells.mpr ⟨g, hg, hi⟩)

/-- An engine of the right shape represents the book that it shows, if the orders are valid. -/
theorem EngineShape.rep {e : CMatchingEngine} {G : Ghost} (h : EngineShape e G)
    (hv : ∀ s, ∀ l ∈ view e G s, ∀ o ∈ l.orders, o.Valid) : EngineRep e G :=
  { h with valid := fun s => forall_view.mp (hv s) }

theorem EngineRep.orders_valid {e : CMatchingEngine} {G : Ghost} (h : EngineRep e G) (s : CSide) :
    ∀ l ∈ view e G s, ∀ o ∈ l.orders, o.Valid :=
  forall_view.mpr (h.valid s)

theorem EngineShape.orders_sound {e : CMatchingEngine} {G : Ghost} (h : EngineShape e G)
    (s : CSide) : ∀ l ∈ view e G s, ∀ o ∈ l.orders, o.Sound := by
  refine forall_view.mpr fun i hi => ?_
  obtain ⟨g, hg, hi⟩ := mem_cells.mp hi
  exact ((h.side s).rep g hg).sound i hi

end SpotExchange.Engine
