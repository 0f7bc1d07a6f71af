import SpotExchange.Engine.LevelSpec

namespace SpotExchange.Engine

open SpotExchange.Lib

/-!
# The book-keeping calls, on represented engines

`addPassiveOrder` and `cancelOrder` turn an engine that represents a book into one that
represents the book with the order appended at its price (`addResting`), or without the first
order of that id at that price (`cancelResting`).
-/

variable {pool : ℕ → OrderNode} {side : OrderBookSide} {L : List GhostLevel}
variable {e : CMatchingEngine} {G : Ghost}

/-- The side on which `before` puts higher prices first. -/
def CSide.descending (s : CSide) : Bool := decide (s = .buy)

/-! ### Exchanging one side of a represented engine -/

/-- Replace what side `s` holds, and keep the slots of the other side as they are. -/
theorem EngineShape.setSide (h : EngineShape e G) (s : CSide) {e' : CMatchingEngine}
    {L' : List GhostLevel}
    (hrep : SideRep e'.nodePool (e'.bookSide s) L')
    (hdir : (e'.bookSide s).isDescending = (e.bookSide s).isDescending)
    (hopp : e'.bookSide s.opp = e.bookSide s.opp)
    (hne : ∀ g ∈ L', g.2 ≠ [])
    (hnd : (cells L').Nodup)
    (hcells : ∀ i ∈ cells L', i ∉ cells (G s.opp) ∧ i < e'.nodePoolSize)
    (hsize : e.nodePoolSize ≤ e'.nodePoolSize)
    (hframe : ∀ i ∈ cells (G s.opp), e'.nodePool i = e.nodePool i) :
    EngineShape e' (Function.update G s L') where
  side := by
    intro t
    rcases eq_or_eq_opp s t with rfl | rfl
    · simpa using hrep
    · rw [Function.update_of_ne (opp_ne s), hopp]
      exact (h.side s.opp).congr hframe
  nonempty := by
    intro t
    rcases eq_or_eq_opp s t with rfl | rfl
    · simpa using hne
    · rw [Function.update_of_ne (opp_ne s)]
      exact h.nonempty s.opp
  direction := by
    intro t
    rcases eq_or_eq_opp s t with rfl | rfl
    · rw [hdir, h.direction]
    · rw [hopp, h.direction]
  nodup := by
    have hboth : (cells L' ++ cells (G s.opp)).Nodup :=
      List.nodup_append.mpr ⟨hnd, h.cells_nodup s.opp, fun i hi j hj hij =>
        (hcells i hi).1 (hij ▸ hj)⟩
    intro t
    rcases eq_or_eq_opp s t with rfl | rfl
    · rw [Function.update_self, Function.update_of_ne (opp_ne t)]
      exact hboth
    · rw [opp_opp, Function.update_self, Function.update_of_ne (opp_ne s)]
      exact List.nodup_append_comm.mp hboth
  bound := by
    intro t
    rcases eq_or_eq_opp s t with rfl | rfl
    · simpa using fun i hi => (hcells i hi).2
    · rw [Function.update_of_ne (opp_ne s)]
      exact fun i hi => lt_of_lt_of_le (h.bound s.opp i hi) hsize

/-- The other side shows the same levels as before. -/
theorem view_update_opp {e' : CMatchingEngine} (s : CSide) {L' : List GhostLevel}
    (hframe : ∀ i ∈ cells (G s.opp), e'.nodePool i = e.nodePool i) :
    view e' (Function.update G s L') s.opp = view e G s.opp := by
  rw [view, view, Function.update_of_ne (opp_ne s)]
  exact viewSide_congr hframe

/-! ### `add_passive_order` -/

/-- Writing the cell that was just inserted. -/
private theorem set_insertIdx {α : Type*} (l : List α) (i : ℕ) (a b : α) :
    (l.insertIdx i a).set i b = l.insertIdx i b := by
  induction l generalizing i with
  | nil => cases i <;> simp
  | cons x l ih => cases i <;> simp [ih]

/-- An element of a list whose cell `i` was written is the new one, or at another index. -/
theorem eq_or_mem_eraseIdx_of_mem_set {α : Type*} {l : List α} {i : ℕ} {a x : α}
    (h : x ∈ l.set i a) : x = a ∨ x ∈ l.eraseIdx i := by
  obtain ⟨k, hk, rfl⟩ := List.getElem_of_mem h
  rw [List.length_set] at hk
  by_cases hik : i = k
  · subst hik; simp
  · rw [List.getElem_set_ne hik]
    exact .inr (List.mem_eraseIdx_iff_getElem.mpr ⟨k, hk, Ne.symm hik, rfl⟩)

/-- The view of a side whose level at `i` is exchanged. -/
theorem viewSide_set {pool' : ℕ → OrderNode} (i : ℕ) (g : GhostLevel)
    (hframe : ∀ j ∈ cells (L.eraseIdx i), pool' j = pool j) :
    viewSide pool' (L.set i g) = (viewSide pool L).set i (viewLevel pool' g) := by
  apply List.ext_getElem
  · simp [viewSide]
  intro k hk hk'
  simp only [viewSide, List.length_map, List.length_set] at hk
  simp only [viewSide, List.getElem_map, List.getElem_set]
  split_ifs with hik
  · rfl
  · simp only [viewLevel, Level.mk.injEq, true_and]
    refine List.map_congr_left fun j hj => ?_
    rw [hframe j (mem_cells.mpr ⟨L[k], List.mem_eraseIdx_iff_getElem.mpr
      ⟨k, hk, Ne.symm hik, rfl⟩, hj⟩)]

theorem viewSide_sorted (h : SideRep pool side L) :
    (viewSide pool L).Pairwise fun l l' => before side.isDescending l.price l'.price := by
  rw [viewSide, List.pairwise_map]
  exact h.sorted

/-- Finding or opening the level of a price: afterwards the side has a level of that price at the
    index returned, and `addResting` is an append at that index. -/
theorem SideRep.findOrInsertLevel (h : SideRep pool side L) (price : ℚ) :
    ∃ i side₁ L₁, findOrInsertLevel side price = .ok (i, side₁) ∧ SideRep pool side₁ L₁ ∧
      side₁.isDescending = side.isDescending ∧ cells L₁ = cells L ∧
      (∀ g ∈ L₁.eraseIdx i, g ∈ L) ∧
      ∃ hi : i < L₁.length, L₁[i].1.price = price ∧
        ∀ o, addResting side.isDescending price o (viewSide pool L) =
          (viewSide pool L₁).set i
            { price := price, orders := (viewLevel pool L₁[i]).orders ++ [o] } := by
  rcases h.findLevelIdx_spec price with ⟨i, hi, hp, hf⟩ | ⟨hno, hf⟩
  · refine ⟨i, side, L, by simp only [Engine.findOrInsertLevel, hf], h, rfl, rfl,
      fun g hg => List.mem_of_mem_eraseIdx hg, hi, hp, fun o => ?_⟩
    have hi' : i < (viewSide pool L).length := by simpa [viewSide] using hi
    have hget : (viewSide pool L)[i] = viewLevel pool L[i] := by simp [viewSide]
    rw [addResting_of_mem o (viewSide_sorted h) hi' (by rw [hget]; exact hp), hget, ← hp]
    rfl
  · have hle : side.insertPos price ≤ L.length := h.size_eq ▸ insertPos_le side price
    refine ⟨side.insertPos price, (Engine.insertLevel side price).2, _,
      by simp only [Engine.findOrInsertLevel, hf]; rfl, h.insertLevel hno,
      insertLevel_isDescending side price, cells_insertIdx_nil _ _, ?_, ?_, ?_, ?_⟩
    · intro g hg
      rwa [List.eraseIdx_insertIdx_self] at hg
    · rw [List.length_insertIdx_of_le_length hle]; omega
    · simp [PriceLevel.empty]
    · intro o
      have hno' : ∀ l ∈ viewSide pool L, l.price ≠ price := by
        intro l hl
        obtain ⟨g, hg, rfl⟩ := List.mem_map.mp hl
        exact hno g hg
      have hpos : ((viewSide pool L).findIdx fun l => before side.isDescending price l.price) =
          side.insertPos price := by
        rw [h.insertPos_eq, viewSide, List.findIdx_map]; rfl
      rw [addResting_of_not_mem o hno', hpos]
      simp only [viewSide, List.map_insertIdx, List.getElem_insertIdx_self, set_insertIdx]
      simp [viewLevel]

/-- The order that `add_passive_order` puts into the book. -/
def PassiveOrder.resting (o : PassiveOrder) : Resting := o.node.resting

/-- What a caller of `add_passive_order` guarantees: a positive quantity and, for an iceberg, a
    visible part that is positive and not above it. -/
structure PassiveOrder.Valid (o : PassiveOrder) : Prop where
  qty_pos : 0 < o.qty
  visible_pos : o.isIceberg = true → 0 < o.visibleQty
  visible_le : o.isIceberg = true → o.visibleQty ≤ o.qty

theorem PassiveOrder.Valid.resting {o : PassiveOrder} (h : o.Valid) : o.resting.Valid where
  remaining_pos := h.qty_pos
  visible_pos := by
    simp only [PassiveOrder.resting, PassiveOrder.node, OrderNode.resting]
    split_ifs with hi
    · exact h.visible_pos hi
    · exact h.qty_pos
  visible_le := by
    intro hi
    simp only [PassiveOrder.resting, PassiveOrder.node, OrderNode.resting] at hi ⊢
    rw [if_pos hi]
    exact h.visible_le hi

/-- A positive quantity is enough for the order to be sound. -/
theorem PassiveOrder.resting_sound {o : PassiveOrder} (hq : 0 < o.qty) : o.resting.Sound where
  remaining_nonneg := hq.le
  visible_pos := by
    intro hi
    simp only [PassiveOrder.resting, PassiveOrder.node, OrderNode.resting] at hi ⊢
    rw [hi]
    exact hq

/-- **`add_passive_order`** appends the order at its price. -/
theorem addPassiveOrder_shape (h : EngineShape e G) {o : PassiveOrder} (hq : 0 < o.qty)
    (hcap : e.nodePoolSize + 1 ≤ e.nodePoolCap) :
    ∃ e' G', addPassiveOrder e o = .ok e' ∧ EngineShape e' G' ∧
      view e' G' o.side =
        addResting o.side.descending o.price o.resting (view e G o.side) ∧
      view e' G' o.side.opp = view e G o.side.opp ∧
      e'.nodePoolSize = e.nodePoolSize + 1 ∧ e'.nodePoolCap = e.nodePoolCap ∧
      e'.tradesCap = e.tradesCap := by
  set s := o.side with hs
  set n := e.nodePoolSize with hn
  let pool₀ := Function.update e.nodePool n o.node
  -- the new slot is not in use, so writing it does not disturb anything
  have hfresh : ∀ t, ∀ i ∈ cells (G t), i ≠ n := fun t i hi => by
    have := h.bound t i hi; omega
  have hpool₀ : ∀ t, ∀ i ∈ cells (G t), pool₀ i = e.nodePool i := fun t i hi =>
    Function.update_of_ne (hfresh t i hi) _ _
  have h₀ : SideRep pool₀ (e.bookSide s) (G s) := (h.side s).congr (hpool₀ s)
  obtain ⟨i, side₁, L₁, hfind, h₁, hdir₁, hcells₁, hmem₁, hi, hprice, hadd⟩ :=
    h₀.findOrInsertLevel o.price
  have hlvl : side₁.levels i = L₁[i].1 := h₁.level_eq hi
  have hrep_i : LevelRep pool₀ L₁[i].1 L₁[i].2 := h₁.rep _ (List.getElem_mem hi)
  have hperm := cells_perm hi
  have hnd₁ : (L₁[i].2 ++ cells (L₁.eraseIdx i)).Nodup := by
    rw [← hperm.nodup_iff, hcells₁]; exact h.cells_nodup s
  have hn₁ : n ∉ L₁[i].2 ++ cells (L₁.eraseIdx i) := by
    rw [← hperm.mem_iff, hcells₁]
    exact fun hmem => hfresh s n hmem rfl
  have hnodup_n : (L₁[i].2 ++ [n]).Nodup :=
    List.nodup_append.mpr ⟨(List.nodup_append.mp hnd₁).1, List.nodup_singleton n,
      fun a ha b hb hab => hn₁ (by
        rw [List.mem_singleton] at hb; subst hb; subst hab; exact List.mem_append_left _ ha)⟩
  have hnode : (pool₀ n).resting = o.resting := by simp [pool₀, PassiveOrder.resting]
  have happ := hrep_i.append hnodup_n (by rw [hnode]; exact PassiveOrder.resting_sound hq)
  set pool₂ := (appendOrderToLevel pool₀ L₁[i].1 n).1 with hpool₂
  set lvl₂ := (appendOrderToLevel pool₀ L₁[i].1 n).2 with hlvl₂
  -- outside the level, the append changes nothing but the new slot
  have hframe : ∀ j, j ∉ L₁[i].2 → j ≠ n → pool₂ j = pool₀ j := fun j hj hjn =>
    appendOrderToLevel_of_ne hrep_i hj hjn
  have hframe_side : ∀ j ∈ cells (L₁.eraseIdx i), pool₂ j = pool₀ j := fun j hj =>
    hframe j (fun hj' => (List.nodup_append.mp hnd₁).2.2 j hj' j hj rfl)
      (fun hjn => hn₁ (hjn ▸ List.mem_append_right _ hj))
  have hset := h₁.set (g := (lvl₂, L₁[i].2 ++ [n])) hi (by simp [lvl₂]) happ hframe_side
  have hperm₂ := cells_set_perm hi (lvl₂, L₁[i].2 ++ [n])
  have hframe_opp : ∀ j ∈ cells (G s.opp), pool₂ j = e.nodePool j := by
    intro j hj
    rw [hframe j _ (hfresh s.opp j hj), hpool₀ s.opp j hj]
    intro hj'
    refine h.not_mem_opp (s := s) ?_ hj
    rw [← hcells₁, hperm.mem_iff]
    exact List.mem_append_left _ hj'
  have hnd₂ : (cells (L₁.set i (lvl₂, L₁[i].2 ++ [n]))).Nodup := by
    rw [hperm₂.nodup_iff, List.append_assoc, List.singleton_append, List.perm_middle.nodup_iff]
    exact List.nodup_cons.mpr ⟨hn₁, hnd₁⟩
  have hmem₂ : ∀ j ∈ cells (L₁.set i (lvl₂, L₁[i].2 ++ [n])), j = n ∨ j ∈ cells (G s) := by
    intro j hj
    rw [← hcells₁, hperm.mem_iff, List.mem_append]
    rw [hperm₂.mem_iff, List.mem_append, List.mem_append, List.mem_singleton] at hj
    tauto
  let e' : CMatchingEngine :=
    { e.setBookSide s { side₁ with levels := Function.update side₁.levels i lvl₂ } with
      nodePool := pool₂, nodePoolSize := n + 1 }
  have hside' : e'.bookSide s = { side₁ with levels := Function.update side₁.levels i lvl₂ } :=
    CMatchingEngine.bookSide_set_self e s _
  have hopp' : e'.bookSide s.opp = e.bookSide s.opp := CMatchingEngine.bookSide_set_opp e s _
  refine ⟨e', Function.update G s (L₁.set i (lvl₂, L₁[i].2 ++ [n])), ?_, ?_, ?_,
    view_update_opp s hframe_opp, rfl, CMatchingEngine.set_nodePoolCap e s _,
    CMatchingEngine.set_tradesCap e s _⟩
  · unfold addPassiveOrder
    rw [if_neg (not_le.mpr hq), if_neg (by omega)]
    simp only [← hs, ← hn]
    rw [show Function.update e.nodePool n o.node = pool₀ from rfl, hfind]
    simp only [hlvl]
    rfl
  · refine h.setSide s (by rw [hside']; exact hset) (by rw [hside']; exact hdir₁) hopp' ?_ hnd₂
      ?_ (Nat.le_succ _) hframe_opp
    · intro g hg
      rcases eq_or_mem_eraseIdx_of_mem_set hg with rfl | hg
      · simp
      · exact h.nonempty s g (hmem₁ g hg)
    · intro j hj
      rcases hmem₂ j hj with rfl | hj
      · exact ⟨fun hj => hfresh s.opp n hj rfl, Nat.lt_succ_self n⟩
      · exact ⟨h.not_mem_opp hj, Nat.lt_succ_of_lt (h.bound s j hj)⟩
  · have hd : o.side.descending = (e.bookSide s).isDescending := (h.direction s).symm
    have hview : viewSide e.nodePool (G s) = viewSide pool₀ (G s) :=
      (viewSide_congr (hpool₀ s)).symm
    rw [view, view, Function.update_self, viewSide_set i _ hframe_side, hd, hview, hadd]
    congr 1
    simp only [viewLevel, pool₂, lvl₂, appendOrderToLevel_resting, appendOrderToLevel_price,
      List.map_append, List.map_singleton, hnode, hprice]

/-- `add_passive_order` of a valid order keeps all orders valid. -/
theorem addPassiveOrder_spec (h : EngineRep e G) {o : PassiveOrder} (hv : o.Valid)
    (hcap : e.nodePoolSize + 1 ≤ e.nodePoolCap) :
    ∃ e' G', addPassiveOrder e o = .ok e' ∧ EngineRep e' G' ∧
      view e' G' o.side =
        addResting o.side.descending o.price o.resting (view e G o.side) ∧
      view e' G' o.side.opp = view e G o.side.opp ∧
      e'.nodePoolSize = e.nodePoolSize + 1 ∧ e'.nodePoolCap = e.nodePoolCap ∧
      e'.tradesCap = e.tradesCap := by
  obtain ⟨e', G', hrun, hshape, hview, hopp, hrest⟩ :=
    addPassiveOrder_shape h.toEngineShape hv.qty_pos hcap
  refine ⟨e', G', hrun, hshape.rep fun s => ?_, hview, hopp, hrest⟩
  rcases eq_or_eq_opp o.side s with rfl | rfl
  · rw [hview]
    exact forall_addResting (h.orders_valid _) hv.resting
  · rw [hopp]
    exact h.orders_valid _

end SpotExchange.Engine
