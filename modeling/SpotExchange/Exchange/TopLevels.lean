import SpotExchange.Exchange.LockWalk
import SpotExchange.Exchange.Snapshot
import SpotExchange.Lib.Levels

namespace SpotExchange.Exchange

open SpotExchange.Lib
open SpotExchange.Engine (OrderId)

/-!
# The top of the book

A snapshot of depth `n` is made of the first `n` orders of each side, not of the first `n` prices.

* `bestFirst` — a side of the book, the best order first; `topLevels` — its best prices, each with what
  all its orders show;
* `aggregate_eq_levels` — a snapshot has the levels of the orders that it reads;
* `CutFits` — no level is cut off, or cut into, by the depth;
* `snapshot_topLevels_iff` — exactly then the snapshot is the top of the book.
-/

/-- The price of an entry. -/
def entryPrice (x : ℚ × OrderId) : ℚ := (decodeScore x.1).1

/-- A side of the book, the best order first. -/
def bestFirst (r : Redis) (symbol : Symbol) : OrderSide → List (ℚ × OrderId)
  | .buy => (r.book symbol .buy).reverse
  | .sell => r.book symbol .sell

/-- A price that is at least as good for the other side. -/
def better : OrderSide → ℚ → ℚ → Prop
  | .buy, p, q => q ≤ p
  | .sell, p, q => p ≤ q

instance : (side : OrderSide) → DecidableRel (better side)
  | .buy => fun p q => inferInstanceAs (Decidable (q ≤ p))
  | .sell => fun p q => inferInstanceAs (Decidable (p ≤ q))

instance (side : OrderSide) : Std.Total (better side) where
  total p q := by
    cases side with
    | buy => exact le_total q p
    | sell => exact le_total p q

instance (side : OrderSide) : IsTrans ℚ (better side) where
  trans p q s h h' := by
    cases side with
    | buy => exact le_trans h' h
    | sell => exact le_trans h h'

instance (side : OrderSide) : Std.Antisymm (better side) where
  antisymm p q h h' := by
    cases side with
    | buy => exact le_antisymm h' h
    | sell => exact le_antisymm h h'

/-- The levels of some orders of a side. -/
def levelsOn (r : Redis) (side : OrderSide) (orders : List (ℚ × OrderId)) : List (ℚ × ℚ) :=
  levels entryPrice (fun x => r.shownOf x.2) (better side) orders

/-- **The best prices of a side**, as many as asked for, each with what all its orders show. -/
def topLevels (r : Redis) (symbol : Symbol) (side : OrderSide) (n : ℕ) : List (ℚ × ℚ) :=
  (levelsOn r side (bestFirst r symbol side)).take n

/-- **The depth cuts no level off, nor into one**: the first orders have as many prices as there are
    orders, or all prices of the side, and what the others show at these prices comes to nothing. -/
def CutFits (r : Redis) (symbol : Symbol) (n : ℕ) (side : OrderSide) : Prop :=
  let first := (bestFirst r symbol side).take n
  let others := (bestFirst r symbol side).drop n
  ((first.map entryPrice).dedup.length = n ∨
    ∀ x ∈ others, entryPrice x ∈ first.map entryPrice) ∧
  ∀ price ∈ first.map entryPrice, totalAt entryPrice (fun x => r.shownOf x.2) price others = 0

section

variable {r : Redis} {symbol : Symbol} {side : OrderSide} {raw : List (ℚ × OrderId)} {n : ℕ}
  {ls : List (ℚ × ℚ)} {p q : ℚ}

/-! ### Aggregation -/

theorem addLevel_prices : (addLevel p q ls).map Prod.fst
    = if p ∈ ls.map Prod.fst then ls.map Prod.fst else ls.map Prod.fst ++ [p] := by
  induction ls with
  | nil => rfl
  | cons l ls ih =>
    rw [addLevel]
    by_cases hl : l.1 = p
    · rw [if_pos hl, if_pos (by simp [hl])]
      simp [hl]
    · rw [if_neg hl, List.map_cons, ih, List.map_cons]
      have hmem : p ∈ l.1 :: ls.map Prod.fst ↔ p ∈ ls.map Prod.fst := by simp [Ne.symm hl]
      by_cases hp : p ∈ ls.map Prod.fst
      · rw [if_pos hp, if_pos (hmem.mpr hp)]
      · rw [if_neg hp, if_neg (fun h => hp (hmem.mp h))]
        rfl

/-- Each price of the orders makes one level. -/
theorem levelsOf_prices (hhash : ∀ x ∈ raw, (r.orderHash x.2).isSome) :
    ((levelsOf r raw).map Prod.fst).Nodup ∧
      ∀ p, p ∈ (levelsOf r raw).map Prod.fst ↔ p ∈ raw.map entryPrice := by
  unfold levelsOf
  induction raw using List.reverseRecOn with
  | nil => simp
  | append_singleton raw x ih =>
    rw [List.forall_mem_append] at hhash
    obtain ⟨hnodup, hmem⟩ := ih hhash.1
    rw [List.foldl_append, List.foldl_cons, List.foldl_nil]
    obtain ⟨hash, hx⟩ := Option.isSome_iff_exists.mp (hhash.2 x (by simp))
    simp only [hx]
    rw [addLevel_prices]
    split_ifs with hold
    · refine ⟨hnodup, fun p => ?_⟩
      rw [hmem, List.map_append, List.mem_append, List.map_singleton, List.mem_singleton]
      constructor
      · exact .inl
      · rintro (hp | rfl)
        · exact hp
        · exact (hmem _).mp hold
    · refine ⟨?_, fun p => ?_⟩
      · rw [List.nodup_append]
        refine ⟨hnodup, List.nodup_singleton _, fun a ha b hb heq => ?_⟩
        rw [List.mem_singleton.mp hb] at heq
        exact hold (heq ▸ ha)
      · rw [List.mem_append, hmem, List.map_append, List.mem_append]
        rfl

theorem volumeAt_of_notMem (hout : p ∉ ls.map Prod.fst) : volumeAt p ls = 0 := by
  have hnone : ls.filter (fun l => l.1 = p) = [] := by
    apply List.filter_eq_nil_iff.mpr
    intro l hl
    have hne : l.1 ≠ p := fun heq => hout (heq ▸ List.mem_map_of_mem hl)
    simpa using hne
  rw [volumeAt, hnone]
  rfl

/-- A price that is listed once has the volume that is listed with it. -/
theorem volumeAt_of_mem (hnodup : (ls.map Prod.fst).Nodup) {l : ℚ × ℚ} (hl : l ∈ ls) :
    volumeAt l.1 ls = l.2 := by
  induction ls with
  | nil => exact absurd hl (by simp)
  | cons l' ls ih =>
    rw [List.map_cons, List.nodup_cons] at hnodup
    rw [volumeAt_cons]
    rcases List.mem_cons.mp hl with rfl | hl
    · rw [if_pos rfl, volumeAt_of_notMem hnodup.1, add_zero]
    · have hne : l'.1 ≠ l.1 := fun heq => hnodup.1 (heq ▸ List.mem_map_of_mem hl)
      rw [if_neg hne, ih hnodup.2 hl, zero_add]

/-- **Aggregation**: the levels of the orders, sorted as their side is. -/
theorem sorted_levelsOf (hhash : ∀ x ∈ raw, (r.orderHash x.2).isSome) :
    ((levelsOf r raw).insertionSort fun a b => better side a.1 b.1) = levelsOn r side raw := by
  obtain ⟨hnodup, hmem⟩ := levelsOf_prices hhash
  have htotal : Std.Total fun a b : ℚ × ℚ => better side a.1 b.1 := ⟨fun a b => total_of _ a.1 b.1⟩
  have htrans : IsTrans (ℚ × ℚ) fun a b => better side a.1 b.1 :=
    ⟨fun a b c => trans_of (better side)⟩
  have hperm := List.perm_insertionSort (fun a b : ℚ × ℚ => better side a.1 b.1) (levelsOf r raw)
  have hsorted := List.pairwise_insertionSort (fun a b : ℚ × ℚ => better side a.1 b.1) (levelsOf r raw)
  generalize (levelsOf r raw).insertionSort (fun a b => better side a.1 b.1) = sorted at hperm hsorted
  have hprices : sorted.map Prod.fst = keysOf (better side) (raw.map entryPrice) := by
    apply keysOf_unique
    · exact List.pairwise_map.mpr hsorted
    · exact (hperm.map Prod.fst).nodup_iff.mpr hnodup
    · intro p
      rw [(hperm.map Prod.fst).mem_iff, hmem]
  have hvolume : ∀ l ∈ sorted, l.2 = totalAt entryPrice (fun x => r.shownOf x.2) l.1 raw := by
    intro l hl
    rw [← volumeAt_of_mem hnodup (hperm.mem_iff.mp hl)]
    exact volumeAt_levelsOf r l.1 raw
  unfold levelsOn levels
  rw [← hprices, List.map_map]
  symm
  apply (List.map_congr_left fun l hl => _).trans (List.map_id sorted)
  intro l hl
  exact Prod.ext rfl (hvolume l hl).symm

theorem aggregate_bids (hhash : ∀ x ∈ raw, (r.orderHash x.2).isSome) :
    aggregate r raw raw = levelsOn r .buy raw := by
  rw [aggregate, if_pos rfl]
  have hsorted : ((levelsOf r raw).insertionSort fun a b => better .buy a.1 b.1)
      = levelsOn r .buy raw := sorted_levelsOf hhash
  exact hsorted

/-- The asks are sorted as bids if they are the same entries; then there is one price at most. -/
theorem aggregate_asks {bidsRaw : List (ℚ × OrderId)} (hhash : ∀ x ∈ raw, (r.orderHash x.2).isSome)
    (hasks : (raw.map entryPrice).Pairwise (better .sell))
    (hbids : (bidsRaw.map entryPrice).Pairwise (better .buy)) :
    aggregate r bidsRaw raw = levelsOn r .sell raw := by
  unfold aggregate
  split_ifs with heq
  · subst heq
    have hone : ∀ p ∈ raw.map entryPrice, ∀ q ∈ raw.map entryPrice, p = q := by
      have hsame : (raw.map entryPrice).Pairwise (· = ·) :=
        (hasks.and hbids).imp fun h => antisymm_of (better .sell) h.1 h.2
      exact fun p hp q hq => hsame.forall_of_forall (fun _ _ => rfl) hp hq
    have hkeys : keysOf (better .buy) (raw.map entryPrice)
        = keysOf (better .sell) (raw.map entryPrice) := by
      apply keysOf_unique
      · apply List.Pairwise.imp_of_mem _ (keysOf_sorted (raw.map entryPrice))
        intro p q hp hq _
        rw [hone p (mem_keysOf.mp hp) q (mem_keysOf.mp hq)]
        exact refl_of (better .sell) q
      · exact keysOf_nodup _
      · exact fun _ => mem_keysOf
    have hsorted : ((levelsOf r raw).insertionSort fun a b => better .buy a.1 b.1)
        = levelsOn r .buy raw := sorted_levelsOf hhash
    unfold levelsOn levels at hsorted ⊢
    rw [← hkeys]
    exact hsorted
  · have hsorted : ((levelsOf r raw).insertionSort fun a b => better .sell a.1 b.1)
        = levelsOn r .sell raw := sorted_levelsOf hhash
    exact hsorted

/-! ### The sides of the book -/

/-- A side is sorted by price. -/
theorem bestFirst_sorted (h : ∀ side, SortedSet.InOrder memberKey (r.book symbol side))
    (side : OrderSide) : ((bestFirst r symbol side).map entryPrice).Pairwise (better side) := by
  have hprices : ∀ side, (r.book symbol side).Pairwise fun x y => entryPrice x ≤ entryPrice y := by
    intro side
    apply (h side).imp
    rintro x y (hlt | ⟨heq, -⟩)
    · exact decodeScore_mono hlt.le
    · exact decodeScore_mono heq.le
  rw [List.pairwise_map]
  cases side with
  | buy => exact List.pairwise_reverse.mpr (hprices .buy)
  | sell => exact hprices .sell

/-- **The snapshot is the top of the book** exactly where the depth fits on both sides.  Every member of
    the book has a HASH. -/
theorem snapshot_topLevels_iff (r : Redis) (symbol : Symbol)
    (hsorted : ∀ side, SortedSet.InOrder memberKey (r.book symbol side))
    (hhash : ∀ side, ∀ x ∈ r.book symbol side, (r.orderHash x.2).isSome) (n : ℕ) (_ : 1 ≤ n) :
    ((getBookSnapshot r symbol n).bids = topLevels r symbol .buy n ∧
      (getBookSnapshot r symbol n).asks = topLevels r symbol .sell n) ↔
    CutFits r symbol n .buy ∧ CutFits r symbol n .sell := by
  have hread : ∀ side, ∀ x ∈ (bestFirst r symbol side).take n, (r.orderHash x.2).isSome := by
    intro side x hx
    apply hhash side x
    cases side with
    | buy => exact List.mem_reverse.mp (List.mem_of_mem_take hx)
    | sell => exact List.mem_of_mem_take hx
  have hfirst : ∀ side, (((bestFirst r symbol side).take n).map entryPrice).Pairwise (better side) := by
    intro side
    rw [List.map_take]
    exact (bestFirst_sorted hsorted side).sublist (List.take_sublist _ _)
  have hbids : (getBookSnapshot r symbol n).bids
      = levelsOn r .buy ((bestFirst r symbol .buy).take n) := aggregate_bids (hread .buy)
  have hasks : (getBookSnapshot r symbol n).asks
      = levelsOn r .sell ((bestFirst r symbol .sell).take n) :=
    aggregate_asks (hread .sell) (hfirst .sell) (hfirst .buy)
  rw [hbids, hasks]
  exact and_congr (levels_take_iff (bestFirst_sorted hsorted .buy) n)
    (levels_take_iff (bestFirst_sorted hsorted .sell) n)

/-- Two asks at 100 and one at 101. -/
def twoAndOne : Store :=
  twoUsers.serveAll [.place 1 (limitDto .sell 1 100), .work, .place 1 (limitDto .sell 1 100), .work,
    .place 1 (limitDto .sell 1 101), .work]

theorem twoAndOne_sorted (side : OrderSide) :
    SortedSet.InOrder memberKey (twoAndOne.redis.book "BTC/USDT" side) := by
  unfold SortedSet.InOrder
  cases side <;> decide +kernel

theorem twoAndOne_hashes (side : OrderSide) :
    ∀ x ∈ twoAndOne.redis.book "BTC/USDT" side, (twoAndOne.redis.orderHash x.2).isSome := by
  cases side <;> decide +kernel

/-- A depth that takes in the whole book. -/
theorem snapshot_topLevels_iff_deep :
    (getBookSnapshot twoAndOne.redis "BTC/USDT" 3).bids = topLevels twoAndOne.redis "BTC/USDT" .buy 3 ∧
    (getBookSnapshot twoAndOne.redis "BTC/USDT" 3).asks
      = topLevels twoAndOne.redis "BTC/USDT" .sell 3 := by
  apply (snapshot_topLevels_iff twoAndOne.redis "BTC/USDT" twoAndOne_sorted twoAndOne_hashes 3
    (by decide)).mpr
  unfold CutFits
  exact ⟨by decide +kernel, by decide +kernel⟩

/-- **A depth of one shows half of the best level**, and a depth of two only one of two levels. -/
theorem bestLevel_halfShown :
    (getBookSnapshot twoAndOne.redis "BTC/USDT" 1).asks = [(100, 1)] ∧
    topLevels twoAndOne.redis "BTC/USDT" .sell 1 = [(100, 2)] ∧
    (getBookSnapshot twoAndOne.redis "BTC/USDT" 2).asks = [(100, 2)] ∧
    topLevels twoAndOne.redis "BTC/USDT" .sell 2 = [(100, 2), (101, 1)] ∧
    ¬((getBookSnapshot twoAndOne.redis "BTC/USDT" 1).bids
        = topLevels twoAndOne.redis "BTC/USDT" .buy 1 ∧
      (getBookSnapshot twoAndOne.redis "BTC/USDT" 1).asks
        = topLevels twoAndOne.redis "BTC/USDT" .sell 1) := by
  decide +kernel

end

end SpotExchange.Exchange
