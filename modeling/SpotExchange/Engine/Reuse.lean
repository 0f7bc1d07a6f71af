import SpotExchange.Engine.Overflow

namespace SpotExchange.Engine

open SpotExchange.Lib

/-!
# Reusing an engine

`reset` only rewinds counters, so the node pool, the level arrays and the trade buffer keep what
an earlier use has left in them.  Nothing of it is read again: two engines whose memory agrees on
the cells in use, whose pointers stay inside, answer all calls alike.

* `PoolAgree`, `SideAgree`, `Agree` — the cells in use agree, and are closed under pointers;
* `BookOp.run_agree` — a call on such engines gives the same reply, and engines that agree;
* `reset_fresh` — an engine that was reset replies as a new one does.
-/

variable {n : ℕ} {p q : ℕ → OrderNode} {b b' : OrderBookSide}

/-! ### Memory in use -/

/-- The pointer is null, or points to one of the `n` nodes in use. -/
def InUse (n : ℕ) (i : Option ℕ) : Prop := ∀ j ∈ i, j < n

theorem inUse_none (n : ℕ) : InUse n none := fun _ h => absurd h (by simp)

theorem inUse_some {i : ℕ} (h : i < n) : InUse n (some i) := by
  rintro j ⟨⟩
  exact h

theorem InUse.mono {i : Option ℕ} {m : ℕ} (h : InUse n i) (hle : n ≤ m) : InUse m i :=
  fun j hj => (h j hj).trans_le hle

/-- Two pools agree on the `n` nodes in use, whose links stay inside. -/
structure PoolAgree (n : ℕ) (p q : ℕ → OrderNode) : Prop where
  node : ∀ i < n, p i = q i
  next : ∀ i < n, InUse n (p i).next

/-- Writing one node in both pools. -/
theorem PoolAgree.update (h : PoolAgree n p q) (i : ℕ) {x : OrderNode} (hx : InUse n x.next) :
    PoolAgree n (Function.update p i x) (Function.update q i x) where
  node := by
    intro j hj
    by_cases hji : j = i
    · rw [hji, Function.update_self, Function.update_self]
    · rw [Function.update_of_ne hji, Function.update_of_ne hji, h.node j hj]
  next := by
    intro j hj
    by_cases hji : j = i
    · rw [hji, Function.update_self]
      exact hx
    · rw [Function.update_of_ne hji]
      exact h.next j hj

/-- Writing a link of a node in use. -/
theorem PoolAgree.setNext (h : PoolAgree n p q) {i : ℕ} (hi : i < n) {x : Option ℕ}
    (hx : InUse n x) : PoolAgree n (setNext p i x) (setNext q i x) := by
  rw [Engine.setNext, Engine.setNext, ← h.node i hi]
  exact h.update i hx

/-- Taking the next node into use. -/
theorem PoolAgree.alloc (h : PoolAgree n p q) {x : OrderNode} (hx : x.next = none) :
    PoolAgree (n + 1) (Function.update p n x) (Function.update q n x) where
  node := by
    intro j hj
    by_cases hjn : j = n
    · rw [hjn, Function.update_self, Function.update_self]
    · rw [Function.update_of_ne hjn, Function.update_of_ne hjn, h.node j (by omega)]
  next := by
    intro j hj
    by_cases hjn : j = n
    · rw [hjn, Function.update_self, hx]
      exact inUse_none _
    · rw [Function.update_of_ne hjn]
      exact (h.next j (by omega)).mono (Nat.le_succ n)

/-- Both ends of the level's list are in use. -/
def PriceLevel.InUse (n : ℕ) (lvl : PriceLevel) : Prop :=
  Engine.InUse n lvl.head ∧ Engine.InUse n lvl.tail

/-- Two sides agree on the levels in use, whose lists are in use. -/
structure SideAgree (n : ℕ) (b b' : OrderBookSide) : Prop where
  size : b.size = b'.size
  direction : b.isDescending = b'.isDescending
  levels : slice b.levels b.size = slice b'.levels b'.size
  inUse : ∀ lvl ∈ slice b.levels b.size, lvl.InUse n

theorem SideAgree.mono {m : ℕ} (h : SideAgree n b b') (hle : n ≤ m) : SideAgree m b b' :=
  { h with inUse := fun lvl hl => ⟨(h.inUse lvl hl).1.mono hle, (h.inUse lvl hl).2.mono hle⟩ }

theorem SideAgree.level_eq (h : SideAgree n b b') {i : ℕ} (hi : i < b.size) :
    b.levels i = b'.levels i := by
  have hs : i < (slice b.levels b.size).length := by simpa using hi
  have hs' : i < (slice b'.levels b'.size).length := by simpa [← h.size] using hi
  rw [← getElem_slice b.levels b.size i hs, ← getElem_slice b'.levels b'.size i hs']
  simp only [h.levels]

theorem SideAgree.level_inUse (h : SideAgree n b b') {i : ℕ} (hi : i < b.size) :
    (b.levels i).InUse n :=
  h.inUse _ (List.mem_map_of_mem (List.mem_range.mpr hi))

/-- Writing one level on both sides. -/
theorem SideAgree.setLevel (h : SideAgree n b b') (i : ℕ) {lvl : PriceLevel} (hl : lvl.InUse n) :
    SideAgree n { b with levels := Function.update b.levels i lvl }
      { b' with levels := Function.update b'.levels i lvl } where
  size := h.size
  direction := h.direction
  levels := by
    simp only [slice_update, h.levels]
  inUse := by
    intro lvl' hl'
    rw [slice_update] at hl'
    rcases List.mem_or_eq_of_mem_set hl' with hl' | rfl
    · exact h.inUse lvl' hl'
    · exact hl

theorem SideAgree.insertPos_eq (h : SideAgree n b b') (price : ℚ) :
    b.insertPos price = b'.insertPos price := by
  rw [OrderBookSide.insertPos, OrderBookSide.insertPos, h.levels, h.direction]

/-- `_insert_level` on both sides. -/
theorem SideAgree.insertLevel (h : SideAgree n b b') (price : ℚ) :
    (insertLevel b price).1 = (insertLevel b' price).1 ∧
      SideAgree n (insertLevel b price).2 (insertLevel b' price).2 := by
  refine ⟨h.insertPos_eq price, congrArg (· + 1) h.size, ?_, ?_, ?_⟩
  · rw [insertLevel_isDescending, insertLevel_isDescending, h.direction]
  · rw [slice_insertLevel, slice_insertLevel, h.levels, h.insertPos_eq]
  · intro lvl hl
    rw [slice_insertLevel] at hl
    rcases List.eq_or_mem_of_mem_insertIdx hl with rfl | hl
    · exact ⟨inUse_none n, inUse_none n⟩
    · exact h.inUse lvl hl

/-- `_remove_level` on both sides. -/
theorem SideAgree.removeLevel (h : SideAgree n b b') {i : ℕ} (hi : i < b.size) :
    SideAgree n (removeLevel b i) (removeLevel b' i) where
  size := congrArg (· - 1) h.size
  direction := h.direction
  levels := by
    rw [slice_removeLevel b hi, slice_removeLevel b' (h.size ▸ hi), h.levels]
  inUse := by
    intro lvl hl
    rw [slice_removeLevel b hi] at hl
    exact h.inUse lvl (List.mem_of_mem_eraseIdx hl)

/-- `_maybe_compact_level` on both sides. -/
theorem SideAgree.maybeCompactLevel (h : SideAgree n b b') {i : ℕ} (hi : i < b.size) :
    SideAgree n (maybeCompactLevel b i) (maybeCompactLevel b' i) := by
  rw [Engine.maybeCompactLevel, Engine.maybeCompactLevel, ← h.level_eq hi]
  split_ifs
  · exact h.removeLevel hi
  · exact h

theorem SideAgree.ite {b₁ b₁' : OrderBookSide} (h : SideAgree n b b') (h₁ : SideAgree n b₁ b₁')
    (found : Bool) : SideAgree n (if found then b else b₁) (if found then b' else b₁') := by
  cases found
  · exact h₁
  · exact h

/-! ### The binary search -/

/-- The searches on both sides are in the same state, inside the levels in use. -/
structure LevelSearch.Agree (b : OrderBookSide) (s s' : LevelSearch) : Prop where
  eq : s = s'
  lo : 0 ≤ s.lo
  hi : s.hi < b.size
  result : ∀ i ∈ s.result, i < b.size

theorem LevelSearch.Agree.step {s s' : LevelSearch} (hs : s.Agree b s') (h : SideAgree n b b')
    (price : ℚ) (hrun : s.running = true) :
    Option.Rel (LevelSearch.Agree b) (s.step b price) (s'.step b' price) := by
  obtain ⟨rfl, hlo, hhi, hres⟩ := hs
  simp only [LevelSearch.running, Bool.and_eq_true, Option.isNone_iff_eq_none,
    decide_eq_true_eq] at hrun
  obtain ⟨hnone, hle⟩ := hrun
  obtain ⟨m, hm⟩ : ∃ m : ℕ, (s.lo + s.hi) / 2 = m := ⟨((s.lo + s.hi) / 2).toNat, by omega⟩
  have hmlt : m < b.size := by omega
  simp only [LevelSearch.step, hm, Int.toNat_natCast, ← h.level_eq hmlt, ← h.direction]
  split_ifs
  · exact .some ⟨rfl, hlo, hhi, by simpa using hmlt⟩
  · exact .some ⟨rfl, by simp only; omega, hhi, hres⟩
  · exact .some ⟨rfl, hlo, by simp only; omega, hres⟩

theorem findLevelIdx_agree (h : SideAgree n b b') (price : ℚ) :
    findLevelIdx b price = findLevelIdx b' price ∧
      ∀ i, findLevelIdx b price = .ok (some i) → i < b.size := by
  have hrel : Option.Rel (LevelSearch.Agree b)
      (whileFuel LevelSearch.running (LevelSearch.step b price) b.size
        { lo := 0, hi := b.size - 1, result := none })
      (whileFuel LevelSearch.running (LevelSearch.step b' price) b.size
        { lo := 0, hi := b.size - 1, result := none }) := by
    refine whileFuel_rel ?_ (fun s s' hs hrun => hs.step h price hrun) b.size
      ⟨rfl, le_rfl, by simp only; omega, by simp⟩
    rintro s _ ⟨rfl, -⟩
    rfl
  rw [findLevelIdx, findLevelIdx, ← h.size]
  generalize whileFuel LevelSearch.running (LevelSearch.step b price) b.size _ = x,
    whileFuel LevelSearch.running (LevelSearch.step b' price) b.size _ = y at hrel
  cases hrel with
  | none => exact ⟨rfl, by simp⟩
  | some hs =>
    obtain ⟨rfl, -, -, hres⟩ := hs
    refine ⟨rfl, fun i hi => hres i ?_⟩
    simpa using hi

/-! ### Two engines -/

/-- Two engines agree on the memory in use. -/
structure Agree (e e' : CMatchingEngine) : Prop where
  poolSize : e.nodePoolSize = e'.nodePoolSize
  poolCap : e.nodePoolCap = e'.nodePoolCap
  tradesCap : e.tradesCap = e'.tradesCap
  pool : PoolAgree e.nodePoolSize e.nodePool e'.nodePool
  side : ∀ s, SideAgree e.nodePoolSize (e.bookSide s) (e'.bookSide s)

variable {e e' : CMatchingEngine}

/-- The engine `x` is `e` after the pool, of which `m` nodes are in use, and side `s` were written;
    its trade buffer may hold anything. -/
structure Wrote (e : CMatchingEngine) (s : CSide) (m : ℕ) (p : ℕ → OrderNode) (b : OrderBookSide)
    (x : CMatchingEngine) : Prop where
  poolSize : x.nodePoolSize = m
  poolCap : x.nodePoolCap = e.nodePoolCap
  tradesCap : x.tradesCap = e.tradesCap
  pool : x.nodePool = p
  side : x.bookSide s = b
  opp : x.bookSide s.opp = e.bookSide s.opp

/-- Writing the pool and one side of both engines. -/
theorem Agree.write (h : Agree e e') {s : CSide} {m : ℕ} (hle : e.nodePoolSize ≤ m)
    {x x' : CMatchingEngine} (hx : Wrote e s m p b x) (hx' : Wrote e' s m q b' x')
    (hpool : PoolAgree m p q) (hside : SideAgree m b b') : Agree x x' where
  poolSize := hx.poolSize.trans hx'.poolSize.symm
  poolCap := hx.poolCap.trans (h.poolCap.trans hx'.poolCap.symm)
  tradesCap := hx.tradesCap.trans (h.tradesCap.trans hx'.tradesCap.symm)
  pool := by
    rw [hx.poolSize, hx.pool, hx'.pool]
    exact hpool
  side := by
    intro t
    rw [hx.poolSize]
    rcases eq_or_eq_opp s t with rfl | rfl
    · rw [hx.side, hx'.side]
      exact hside
    · rw [hx.opp, hx'.opp]
      exact (h.side s.opp).mono hle

/-! ### `add_passive_order` -/

theorem findOrInsertLevel_agree (h : SideAgree n b b') (price : ℚ) :
    (∃ err, findOrInsertLevel b price = .error err ∧ findOrInsertLevel b' price = .error err) ∨
      ∃ i b₁ b₁', findOrInsertLevel b price = .ok (i, b₁) ∧
        findOrInsertLevel b' price = .ok (i, b₁') ∧ SideAgree n b₁ b₁' ∧ i < b₁.size := by
  obtain ⟨hfind, hlt⟩ := findLevelIdx_agree h price
  rw [findOrInsertLevel, findOrInsertLevel, ← hfind]
  cases hx : findLevelIdx b price with
  | error err => exact .inl ⟨err, rfl, rfl⟩
  | ok found =>
    cases found with
    | some i => exact .inr ⟨i, b, b', rfl, rfl, h, hlt i hx⟩
    | none =>
      obtain ⟨hpos, hside⟩ := h.insertLevel price
      refine .inr ⟨(insertLevel b price).1, _, _, rfl, ?_, hside, ?_⟩
      · rw [hpos]
      · exact Nat.lt_succ_of_le (insertPos_le b price)

/-- `_append_order_to_level` in both pools. -/
theorem appendOrderToLevel_agree (h : PoolAgree n p q) {lvl : PriceLevel} (hl : lvl.InUse n) {i : ℕ}
    (hi : i < n) :
    (appendOrderToLevel p lvl i).2 = (appendOrderToLevel q lvl i).2 ∧
      PoolAgree n (appendOrderToLevel p lvl i).1 (appendOrderToLevel q lvl i).1 ∧
      (appendOrderToLevel p lvl i).2.InUse n := by
  unfold appendOrderToLevel
  cases ht : lvl.tail with
  | none =>
    simp only [h.node i hi, true_and]
    exact ⟨h.setNext hi (inUse_none n), inUse_some hi, inUse_some hi⟩
  | some t =>
    have htn : t < n := hl.2 t ht
    have hlink := h.setNext htn (inUse_some hi)
    simp only [hlink.node i hi, true_and]
    exact ⟨hlink.setNext hi (inUse_none n), hl.1, inUse_some hi⟩

theorem addPassiveOrder_agree (h : Agree e e') (o : PassiveOrder) :
    (∃ err, addPassiveOrder e o = .error err ∧ addPassiveOrder e' o = .error err) ∨
      ∃ e₁ e₁', addPassiveOrder e o = .ok e₁ ∧ addPassiveOrder e' o = .ok e₁' ∧ Agree e₁ e₁' := by
  unfold addPassiveOrder
  rw [← h.poolSize, ← h.poolCap]
  split_ifs
  · exact .inl ⟨_, rfl, rfl⟩
  · exact .inl ⟨_, rfl, rfl⟩
  have hpool := h.pool.alloc (x := o.node) rfl
  have hside := (h.side o.side).mono (Nat.le_succ e.nodePoolSize)
  rcases findOrInsertLevel_agree hside o.price with ⟨err, hx, hx'⟩ | ⟨i, b₁, b₁', hx, hx', hb, hi⟩
  · exact .inl ⟨err, by simp only [hx], by simp only [hx']⟩
  · obtain ⟨hlvl, hpool', huse⟩ :=
      appendOrderToLevel_agree hpool (hb.level_inUse hi) (Nat.lt_succ_self e.nodePoolSize)
    refine .inr ⟨_, _, by simp only [hx]; rfl, by simp only [hx']; rfl, ?_⟩
    rw [← hb.level_eq hi, ← hlvl]
    refine h.write (s := o.side) (Nat.le_succ _) ?_ ?_ hpool' (hb.setLevel i huse)
    · cases o.side <;> exact ⟨rfl, rfl, rfl, rfl, rfl, rfl⟩
    · cases o.side <;> exact ⟨rfl, rfl, rfl, rfl, rfl, rfl⟩

/-! ### `cancel_order` -/

/-- The searches in both engines are in the same state. -/
structure CancelWalk.Agree (n : ℕ) (w w' : CancelWalk) : Prop where
  pool : PoolAgree n w.pool w'.pool
  lvl : w.lvl = w'.lvl
  prev : w.prev = w'.prev
  cur : w.cur = w'.cur
  found : w.found = w'.found
  lvl_inUse : w.lvl.InUse n
  prev_inUse : InUse n w.prev
  cur_inUse : InUse n w.cur

theorem CancelWalk.Agree.step {w w' : CancelWalk} (h : w.Agree n w') (orderId : OrderId) :
    Option.Rel (CancelWalk.Agree n) (CancelWalk.step orderId w) (CancelWalk.step orderId w') := by
  obtain ⟨hpool, hlvl, hprev, hcur, hfound, hluse, hpuse, hcuse⟩ := h
  obtain ⟨pool, lvl, prev, cur, found⟩ := w
  obtain ⟨pool', lvl', prev', cur', found'⟩ := w'
  simp only at hpool hlvl hprev hcur hfound hluse hpuse hcuse
  subst hlvl hprev hcur hfound
  cases cur with
  | none => exact .some ⟨hpool, rfl, rfl, rfl, rfl, hluse, hpuse, hcuse⟩
  | some i =>
    have hi : i < n := hcuse i rfl
    -- the current node is in use, so both pools hold the same one
    have hnode := hpool.node i hi
    have hnext : InUse n (pool i).next := hpool.next i hi
    simp only [CancelWalk.step, ← hnode]
    split_ifs
    · refine .some ?_
      have htail : InUse n (if lvl.tail = some i then prev else lvl.tail) := by
        split_ifs
        · exact hpuse
        · exact hluse.2
      -- the head is unlinked from the level, any other node from its predecessor
      cases prev with
      | none =>
        simp only [CancelWalk.unlink, ← hnode]
        exact ⟨hpool, rfl, rfl, rfl, rfl, ⟨hnext, htail⟩, hpuse, hcuse⟩
      | some k =>
        simp only [CancelWalk.unlink, ← hnode]
        exact ⟨hpool.setNext (hpuse k rfl) hnext, rfl, rfl, rfl, rfl, ⟨hluse.1, htail⟩, hpuse,
          hcuse⟩
    · exact .some ⟨hpool, rfl, rfl, rfl, rfl, hluse, hcuse, hnext⟩

theorem CancelWalk.Agree.run {w w' : CancelWalk} (h : w.Agree n w') (orderId : OrderId) (fuel : ℕ) :
    Option.Rel (CancelWalk.Agree n) (whileFuel CancelWalk.running (CancelWalk.step orderId) fuel w)
      (whileFuel CancelWalk.running (CancelWalk.step orderId) fuel w') := by
  refine whileFuel_rel ?_ (fun w w' hw _ => hw.step orderId) fuel h
  intro w w' hw
  rw [CancelWalk.running, CancelWalk.running, hw.cur, hw.found]

theorem cancelOrder_agree (h : Agree e e') (orderId : OrderId) (s : CSide) (price : ℚ) :
    (∃ err, cancelOrder e orderId s price = .error err ∧
        cancelOrder e' orderId s price = .error err) ∨
      ∃ found e₁ e₁', cancelOrder e orderId s price = .ok (found, e₁) ∧
        cancelOrder e' orderId s price = .ok (found, e₁') ∧ Agree e₁ e₁' := by
  have hside := h.side s
  obtain ⟨hfind, hlt⟩ := findLevelIdx_agree hside price
  simp only [cancelOrder, ← hfind, ← h.poolSize]
  -- the level is looked up in the part of the array in use
  cases hx : findLevelIdx (e.bookSide s) price with
  | error err => exact .inl ⟨err, rfl, rfl⟩
  | ok found =>
    cases found with
    | none => exact .inr ⟨false, e, e', rfl, rfl, h⟩
    | some i =>
      have hi := hlt i hx
      have huse := hside.level_inUse hi
      simp only [← hside.level_eq hi]
      have hstart : CancelWalk.Agree e.nodePoolSize
          { pool := e.nodePool, lvl := (e.bookSide s).levels i, prev := none,
            cur := ((e.bookSide s).levels i).head, found := false }
          { pool := e'.nodePool, lvl := (e.bookSide s).levels i, prev := none,
            cur := ((e.bookSide s).levels i).head, found := false } :=
        ⟨h.pool, rfl, rfl, rfl, rfl, huse, inUse_none _, huse.1⟩
      have hrel := hstart.run orderId e.nodePoolSize
      generalize whileFuel CancelWalk.running (CancelWalk.step orderId) e.nodePoolSize
          { pool := e.nodePool, lvl := (e.bookSide s).levels i, prev := none,
            cur := ((e.bookSide s).levels i).head, found := false } = x,
        whileFuel CancelWalk.running (CancelWalk.step orderId) e.nodePoolSize
          { pool := e'.nodePool, lvl := (e.bookSide s).levels i, prev := none,
            cur := ((e.bookSide s).levels i).head, found := false } = y at hrel
      cases hrel with
      | none => exact .inl ⟨_, rfl, rfl⟩
      | @some w w' hw =>
        refine .inr ⟨w.found, _, _, rfl, by rw [hw.found], ?_⟩
        have hset := hside.setLevel i hw.lvl_inUse
        have hbook := hset.maybeCompactLevel (i := i) hi
        rw [← hw.lvl, ← hw.found]
        refine h.write (s := s) le_rfl ?_ ?_ hw.pool (hbook.ite hset w.found)
        · cases s <;> exact ⟨rfl, rfl, rfl, rfl, rfl, rfl⟩
        · cases s <;> exact ⟨h.poolSize.symm, rfl, rfl, rfl, rfl, rfl⟩

/-! ### The walk along a level -/

/-- The walks in both engines are in the same state, and have emitted the same trades. -/
structure LevelWalk.Agree (n : ℕ) (w w' : LevelWalk) : Prop where
  pool : PoolAgree n w.pool w'.pool
  lvl : w.lvl = w'.lvl
  maker : w.maker = w'.maker
  remaining : w.remainingQty = w'.remainingQty
  count : w.tradesCount = w'.tradesCount
  trades : w.trades = w'.trades
  grow : w.poolGrowNeeded = w'.poolGrowNeeded
  lvl_inUse : w.lvl.InUse n
  maker_inUse : InUse n w.maker

theorem PriceLevel.InUse.unlinkHead {lvl : PriceLevel} (h : lvl.InUse n) (m : ℕ) {next : Option ℕ}
    (hnext : Engine.InUse n next) : (lvl.unlinkHead m next).InUse n := by
  refine ⟨hnext, ?_⟩
  simp only [PriceLevel.unlinkHead]
  split_ifs
  · exact inUse_none n
  · exact h.2

theorem LevelWalk.Agree.step {w w' : LevelWalk} (h : w.Agree n w') (c : COrder) (cap : ℕ) :
    Option.Rel (LevelWalk.Agree n) (LevelWalk.step c cap w) (LevelWalk.step c cap w') := by
  obtain ⟨hpool, hlvl, hmaker, hrem, hcount, htrades, hgrow, hluse, hmuse⟩ := h
  obtain ⟨pool, lvl, maker, remaining, buf, count, grow⟩ := w
  obtain ⟨pool', lvl', maker', remaining', buf', count', grow'⟩ := w'
  simp only [LevelWalk.trades] at hpool hlvl hmaker hrem hcount htrades hgrow hluse hmuse
  subst hlvl hmaker hrem hcount hgrow
  cases maker with
  | none => exact .some ⟨hpool, rfl, rfl, rfl, rfl, htrades, rfl, hluse, hmuse⟩
  | some m =>
    have hm : m < n := hmuse m rfl
    have hnode := hpool.node m hm
    have hnext : InUse n (takeFromMaker (pool m) remaining).1.next := by
      rw [takeFromMaker_next]
      exact hpool.next m hm
    have hpool' := hpool.update m hnext
    have hluse' : PriceLevel.InUse n { lvl with
        totalVolume := lvl.totalVolume - (takeFromMaker (pool m) remaining).2.1 } := hluse
    simp only [LevelWalk.step, ← hnode]
    -- with the buffer full the maker is charged and no trade is written
    by_cases hfull : count ≥ cap
    · rw [if_pos hfull, if_pos hfull]
      exact .some ⟨hpool', rfl, rfl, rfl, rfl, htrades, rfl, hluse', hmuse⟩
    · rw [if_neg hfull, if_neg hfull]
      refine .some ⟨hpool', rfl, rfl, rfl, rfl, ?_, rfl, ?_, ?_⟩
      · simp only [LevelWalk.trades, slice_update_succ, htrades]
      · simp only
        split_ifs
        · exact hluse'.unlinkHead m hnext
        · exact hluse'
      · simp only
        split_ifs
        · exact hnext
        · exact hnext
        · exact inUse_some hm

/-! ### The walk along the levels -/

/-- The walks in both engines are in the same state, and have emitted the same trades. -/
structure SideWalk.Agree (n : ℕ) (s s' : SideWalk) : Prop where
  pool : PoolAgree n s.pool s'.pool
  opp : SideAgree n s.opp s'.opp
  lvlIdx : s.lvlIdx = s'.lvlIdx
  remaining : s.remainingQty = s'.remainingQty
  count : s.tradesCount = s'.tradesCount
  trades : s.trades = s'.trades
  grow : s.poolGrowNeeded = s'.poolGrowNeeded
  stopped : s.stopped = s'.stopped

theorem LevelWalk.Agree.run {w w' : LevelWalk} (h : w.Agree n w') (c : COrder) (cap fuel : ℕ) :
    Option.Rel (LevelWalk.Agree n) (whileFuel LevelWalk.running (LevelWalk.step c cap) fuel w)
      (whileFuel LevelWalk.running (LevelWalk.step c cap) fuel w') := by
  refine whileFuel_rel ?_ (fun w w' hw _ => hw.step c cap) fuel h
  intro w w' hw
  rw [LevelWalk.running, LevelWalk.running, hw.maker, hw.remaining, hw.grow]

theorem SideWalk.Agree.enter {s s' : SideWalk} (h : s.Agree n s') (hidx : s.lvlIdx < s.opp.size) :
    s.enter.Agree n s'.enter := by
  have hlvl := h.opp.level_eq hidx
  have huse := h.opp.level_inUse hidx
  have hlvl' : s.opp.levels s.lvlIdx = s'.opp.levels s'.lvlIdx := by rw [← h.lvlIdx, hlvl]
  exact ⟨h.pool, hlvl', congrArg PriceLevel.head hlvl', h.remaining, h.count, h.trades, h.grow,
    huse, huse.1⟩

theorem SideWalk.Agree.leave {s s' : SideWalk} (h : s.Agree n s') (hidx : s.lvlIdx < s.opp.size)
    {w w' : LevelWalk} (hw : w.Agree n w') : (s.leave w).Agree n (s'.leave w') := by
  have hset := h.opp.setLevel s.lvlIdx hw.lvl_inUse
  have hrm := hset.removeLevel (i := s.lvlIdx) hidx
  simp only [SideWalk.leave, ← hw.grow, ← hw.lvl, ← h.lvlIdx]
  by_cases hgrow : w.poolGrowNeeded = true
  · rw [if_pos hgrow, if_pos hgrow]
    exact ⟨hw.pool, hset, rfl, hw.remaining, hw.count, hw.trades, rfl, rfl⟩
  rw [if_neg hgrow, if_neg hgrow]
  by_cases hcount : w.lvl.orderCount = 0
  · rw [if_pos hcount, if_pos hcount]
    exact ⟨hw.pool, hrm, rfl, hw.remaining, hw.count, hw.trades, rfl, h.stopped⟩
  · rw [if_neg hcount, if_neg hcount]
    exact ⟨hw.pool, hset, rfl, hw.remaining, hw.count, hw.trades, rfl, h.stopped⟩

theorem SideWalk.Agree.step {s s' : SideWalk} (h : s.Agree n s') (hrun : s.running = true)
    (c : COrder) (cap fuel : ℕ) :
    Option.Rel (SideWalk.Agree n) (SideWalk.step c cap fuel s) (SideWalk.step c cap fuel s') := by
  simp only [SideWalk.running, Bool.and_eq_true, decide_eq_true_eq] at hrun
  obtain ⟨⟨-, hidx⟩, -⟩ := hrun
  have hprice : (s.opp.levels s.lvlIdx).price = (s'.opp.levels s'.lvlIdx).price := by
    rw [← h.lvlIdx, h.opp.level_eq hidx]
  rw [SideWalk.step, SideWalk.step, ← hprice]
  by_cases hout : c.outOfLimit (s.opp.levels s.lvlIdx).price = true
  · rw [if_pos hout, if_pos hout]
    exact .some ⟨h.pool, h.opp, h.lvlIdx, h.remaining, h.count, h.trades, h.grow, rfl⟩
  rw [if_neg hout, if_neg hout]
  have hrel := (h.enter hidx).run c cap fuel
  generalize whileFuel LevelWalk.running (LevelWalk.step c cap) fuel s.enter = x,
    whileFuel LevelWalk.running (LevelWalk.step c cap) fuel s'.enter = y at hrel
  cases hrel with
  | none => exact .none
  | some hw => exact .some (h.leave hidx hw)

/-! ### `match_active_order` -/

theorem precheckFok_agree (h : Agree e e') (c : COrder) : precheckFok e c = precheckFok e' c := by
  rw [precheckFok, precheckFok, (h.side c.side.opp).levels]

theorem wouldCross_agree (h : Agree e e') (c : COrder) : wouldCross e c = wouldCross e' c := by
  have hside := h.side c.side.opp
  rw [wouldCross, wouldCross]
  cases c.price with
  | none => rfl
  | some price =>
    simp only [← hside.size]
    by_cases hpos : 0 < (e.bookSide c.side.opp).size
    · rw [hside.level_eq hpos]
    · simp [hpos]

/-- The loops of `_match_internal`. -/
def matchLoop (e : CMatchingEngine) (c : COrder) : Option SideWalk :=
  whileFuel SideWalk.running (SideWalk.step c e.tradesCap (2 * e.nodePoolSize))
    (e.bookSide c.side.opp).size
    { pool := e.nodePool, opp := e.bookSide c.side.opp, lvlIdx := 0, remainingQty := c.remainingQty,
      tradesBuf := e.tradesBuf, tradesCount := e.tradesCount, poolGrowNeeded := false,
      stopped := false }

/-- What follows the loops. -/
def matchEnd (e : CMatchingEngine) (c : COrder) (s : SideWalk) :
    CMatchOutcome × ℚ × CMatchingEngine :=
  (if s.poolGrowNeeded then .noLiquidity
    else if 0 < s.remainingQty ∧ (c.type = .market ∨ c.type = .ioc) ∧ s.tradesCount = 0 then
      .noLiquidity
    else .ok,
   s.remainingQty,
   { e.setBookSide c.side.opp s.opp with
     nodePool := s.pool, tradesBuf := s.tradesBuf, tradesCount := s.tradesCount })

theorem matchInternal_eq (e : CMatchingEngine) (c : COrder) :
    matchInternal e c =
      if c.type = .postOnly then
        .ok (if wouldCross e c then .postOnlyCross else .ok, c.remainingQty, e)
      else if c.type = .fok ∧ precheckFok e c = false then .ok (.fokRejected, c.remainingQty, e)
      else (matchLoop e c).elim (.error .diverged) fun s => .ok (matchEnd e c s) := by
  rw [matchInternal]
  simp only
  split_ifs
  · rfl
  · rfl
  · rfl
  · split
    · next hloop =>
      rw [matchLoop, hloop]
      rfl
    · next s hloop =>
      rw [matchLoop, hloop]
      rfl

theorem matchLoop_agree (h : Agree e e') (c : COrder) (hcount : e.tradesCount = 0)
    (hcount' : e'.tradesCount = 0) :
    Option.Rel (SideWalk.Agree e.nodePoolSize) (matchLoop e c) (matchLoop e' c) := by
  have hopp := h.side c.side.opp
  rw [matchLoop, matchLoop, ← hopp.size, ← h.poolSize, ← h.tradesCap, hcount, hcount']
  refine whileFuel_rel ?_ (fun s s' hs hrun => hs.step hrun c e.tradesCap (2 * e.nodePoolSize)) _
    ⟨h.pool, hopp, rfl, rfl, rfl, rfl, rfl, rfl⟩
  intro s s' hs
  rw [SideWalk.running, SideWalk.running, hs.remaining, hs.lvlIdx, hs.opp.size, hs.stopped]

/-- What follows the loops in both engines. -/
theorem matchEnd_agree (h : Agree e e') (c : COrder) {s s' : SideWalk}
    (hs : s.Agree e.nodePoolSize s') :
    (matchEnd e c s).1 = (matchEnd e' c s').1 ∧ (matchEnd e c s).2.1 = (matchEnd e' c s').2.1 ∧
      slice (matchEnd e c s).2.2.tradesBuf (matchEnd e c s).2.2.tradesCount =
        slice (matchEnd e' c s').2.2.tradesBuf (matchEnd e' c s').2.2.tradesCount ∧
      Agree (matchEnd e c s).2.2 (matchEnd e' c s').2.2 := by
  refine ⟨?_, hs.remaining, hs.trades, ?_⟩
  · simp only [matchEnd, hs.grow, hs.remaining, hs.count]
  · refine h.write (s := c.side.opp) le_rfl ?_ ?_ hs.pool hs.opp
    · rw [matchEnd]
      cases c.side <;> exact ⟨rfl, rfl, rfl, rfl, rfl, rfl⟩
    · rw [matchEnd]
      cases c.side <;> exact ⟨h.poolSize.symm, rfl, rfl, rfl, rfl, rfl⟩

/-- `_match_internal` in both engines, from an empty trade buffer. -/
theorem matchInternal_agree (h : Agree e e') (c : COrder) (hcount : e.tradesCount = 0)
    (hcount' : e'.tradesCount = 0) :
    (∃ err, matchInternal e c = .error err ∧ matchInternal e' c = .error err) ∨
      ∃ outcome remaining e₁ e₁', matchInternal e c = .ok (outcome, remaining, e₁) ∧
        matchInternal e' c = .ok (outcome, remaining, e₁') ∧
        slice e₁.tradesBuf e₁.tradesCount = slice e₁'.tradesBuf e₁'.tradesCount ∧ Agree e₁ e₁' := by
  have hempty : slice e.tradesBuf e.tradesCount = slice e'.tradesBuf e'.tradesCount := by
    rw [hcount, hcount']
    rfl
  rw [matchInternal_eq, matchInternal_eq, ← wouldCross_agree h, ← precheckFok_agree h]
  split_ifs
  · exact .inr ⟨_, _, _, _, rfl, rfl, hempty, h⟩
  · exact .inr ⟨_, _, _, _, rfl, rfl, hempty, h⟩
  · exact .inr ⟨_, _, _, _, rfl, rfl, hempty, h⟩
  · have hrel := matchLoop_agree h c hcount hcount'
    generalize matchLoop e c = x, matchLoop e' c = y at hrel
    cases hrel with
    | none => exact .inl ⟨_, rfl, rfl⟩
    | @some s s' hs =>
      obtain ⟨hout, hrem, htrades, h'⟩ := matchEnd_agree h c hs
      refine .inr ⟨(matchEnd e c s).1, (matchEnd e c s).2.1, _, _, rfl, ?_, htrades, h'⟩
      rw [hout, hrem]
      rfl

theorem matchActiveOrder_agree (h : Agree e e') (c : COrder) :
    (∃ err, matchActiveOrder e c = .error err ∧ matchActiveOrder e' c = .error err) ∨
      ∃ r e₁ e₁', matchActiveOrder e c = .ok (r, e₁) ∧ matchActiveOrder e' c = .ok (r, e₁') ∧
        Agree e₁ e₁' := by
  have h₀ : Agree { e with tradesCount := 0 } { e' with tradesCount := 0 } :=
    ⟨h.poolSize, h.poolCap, h.tradesCap, h.pool,
      fun s => by cases s; exacts [h.side .buy, h.side .sell]⟩
  rw [matchActiveOrder, matchActiveOrder]
  rcases matchInternal_agree h₀ c rfl rfl with
    ⟨err, hx, hx'⟩ | ⟨outcome, remaining, e₁, e₁', hx, hx', htrades, h₁⟩
  · exact .inl ⟨err, by rw [hx], by rw [hx']⟩
  · exact .inr ⟨_, e₁, e₁', by rw [hx], by rw [hx', htrades], h₁⟩

/-! ### Runs of calls -/

/-- A call on a book that is in use. -/
inductive BookOp
  | addPassiveOrder (o : PassiveOrder)
  | matchActiveOrder (c : COrder)
  | cancelOrder (orderId : OrderId) (side : CSide) (price : ℚ)
  | snapshot (side : CSide) (depth : ℕ)

/-- What its caller sees. -/
inductive Reply
  | added
  | matched (r : MatchResult)
  | canceled (found : Bool)
  | levels (prices volumes : List ℚ)
  | raised (err : EngineError)
  deriving DecidableEq

/-- The reply to a call, and the engine after it. -/
def BookOp.run (e : CMatchingEngine) : BookOp → Reply × CMatchingEngine
  | .addPassiveOrder o =>
      match Engine.addPassiveOrder e o with
      | .ok e' => (.added, e')
      | .error err => (.raised err, e)
  | .matchActiveOrder c =>
      match Engine.matchActiveOrder e c with
      | .ok (r, e') => (.matched r, e')
      | .error err => (.raised err, e)
  | .cancelOrder orderId side price =>
      match Engine.cancelOrder e orderId side price with
      | .ok (found, e') => (.canceled found, e')
      | .error err => (.raised err, e)
  | .snapshot side depth =>
      (.levels (Engine.snapshot e side depth).1 (Engine.snapshot e side depth).2, e)

/-- The replies to a sequence of calls. -/
def replies : CMatchingEngine → List BookOp → List Reply
  | _, [] => []
  | e, op :: ops => (op.run e).1 :: replies (op.run e).2 ops

theorem snapshot_agree (h : Agree e e') (s : CSide) (depth : ℕ) :
    snapshot e s depth = snapshot e' s depth := by
  have hside := h.side s
  have htop : slice (e.bookSide s).levels (min (e.bookSide s).size depth) =
      slice (e'.bookSide s).levels (min (e'.bookSide s).size depth) := by
    rw [← hside.size]
    exact slice_congr fun i hi => hside.level_eq (by omega)
  rw [snapshot, snapshot]
  simp only [htop]

/-- **A call on engines that agree** has the same reply, and leaves engines that agree. -/
theorem BookOp.run_agree (h : Agree e e') (op : BookOp) :
    (op.run e).1 = (op.run e').1 ∧ Agree (op.run e).2 (op.run e').2 := by
  cases op with
  | addPassiveOrder o =>
    simp only [BookOp.run]
    rcases addPassiveOrder_agree h o with ⟨err, hx, hx'⟩ | ⟨e₁, e₁', hx, hx', h₁⟩
    · simp only [hx, hx', true_and]
      exact h
    · simp only [hx, hx', true_and]
      exact h₁
  | matchActiveOrder c =>
    simp only [BookOp.run]
    rcases matchActiveOrder_agree h c with ⟨err, hx, hx'⟩ | ⟨r, e₁, e₁', hx, hx', h₁⟩
    · simp only [hx, hx', true_and]
      exact h
    · simp only [hx, hx', true_and]
      exact h₁
  | cancelOrder orderId side price =>
    simp only [BookOp.run]
    rcases cancelOrder_agree h orderId side price with ⟨err, hx, hx'⟩ | ⟨found, e₁, e₁', hx, hx', h₁⟩
    · simp only [hx, hx', true_and]
      exact h
    · simp only [hx, hx', true_and]
      exact h₁
  | snapshot side depth =>
    simp only [BookOp.run, snapshot_agree h, true_and]
    exact h

theorem replies_agree (h : Agree e e') (ops : List BookOp) : replies e ops = replies e' ops := by
  induction ops generalizing e e' with
  | nil => rfl
  | cons op ops ih =>
    obtain ⟨hreply, h'⟩ := op.run_agree h
    rw [replies, replies, hreply, ih h']

/-! ### `reset` -/

/-- After `reset` no memory is in use. -/
theorem agree_reset {G : Ghost} (h : EngineShape e G) (hpool : e.nodePoolCap = initialNodePoolCap)
    (htrades : e.tradesCap = initialTradesCap) : Agree (reset e) CMatchingEngine.new where
  poolSize := rfl
  poolCap := hpool
  tradesCap := htrades
  pool := ⟨fun i hi => absurd hi (Nat.not_lt_zero i), fun i hi => absurd hi (Nat.not_lt_zero i)⟩
  side := by
    intro s
    have hdir := h.direction s
    cases s
    · exact ⟨rfl, hdir, rfl, fun lvl hl => absurd hl List.not_mem_nil⟩
    · exact ⟨rfl, hdir, rfl, fun lvl hl => absurd hl List.not_mem_nil⟩

/-- On an engine that calls have led to, a call replies, or raises what it documents. -/
theorem BookOp.run_returns {G : Ghost} (h : EngineShape e G) (op : BookOp) :
    (op.run e).1 ≠ .raised .diverged ∧ ∃ G', EngineShape (op.run e).2 G' := by
  cases op with
  | addPassiveOrder o =>
    simp only [BookOp.run]
    by_cases hq : o.qty ≤ 0
    · simp only [Engine.addPassiveOrder, if_pos hq]
      exact ⟨by decide, G, h⟩
    by_cases hcap : e.nodePoolSize + 1 > e.nodePoolCap
    · simp only [Engine.addPassiveOrder, if_neg hq, if_pos hcap]
      exact ⟨by decide, G, h⟩
    obtain ⟨e', G', hrun, h', -⟩ := addPassiveOrder_shape h (not_le.mp hq) (not_lt.mp hcap)
    simp only [hrun]
    exact ⟨by simp, G', h'⟩
  | matchActiveOrder c =>
    simp only [BookOp.run]
    -- the buffer holds the fills, or the call raises where it is full
    rcases le_or_gt (fillsNeeded e c) e.tradesCap with hfit | hfull
    · rw [fillsNeeded_eq h] at hfit
      obtain ⟨e', G', hrun, h', -⟩ := matchActiveOrder_shape h c hfit
      simp only [hrun]
      exact ⟨by simp, G', h'⟩
    · obtain ⟨r, e', G', hrun, -, -, h', -⟩ := matchActiveOrder_overflow h c hfull
      simp only [hrun]
      exact ⟨by simp, G', h'⟩
  | cancelOrder orderId side price =>
    obtain ⟨e', G', hrun, h', -⟩ := cancelOrder_shape h orderId side price
    simp only [BookOp.run, hrun]
    exact ⟨by simp, G', h'⟩
  | snapshot side depth => exact ⟨by simp [BookOp.run], G, h⟩

theorem replies_return {G : Ghost} (h : EngineShape e G) (ops : List BookOp) :
    Reply.raised .diverged ∉ replies e ops := by
  induction ops generalizing e G with
  | nil => exact List.not_mem_nil
  | cons op ops ih =>
    obtain ⟨hreply, G', h'⟩ := op.run_returns h
    rw [replies, List.mem_cons, not_or]
    exact ⟨hreply.symm, ih h'⟩

/-- **`reset` is a fresh start.** Whatever calls an engine has been through, after `reset` it
    replies to all later calls as a new engine does, and the loops of all of them end. -/
theorem reset_fresh (calls : List EngineCall) (ops : List BookOp) :
    replies (reset (runCalls CMatchingEngine.new calls)) ops = replies CMatchingEngine.new ops ∧
      Reply.raised .diverged ∉ replies CMatchingEngine.new ops := by
  obtain ⟨G, h, hpool, htrades⟩ := engineShape_runCalls calls
  exact ⟨replies_agree (agree_reset h hpool htrades) ops, replies_return engineRep_new.toEngineShape ops⟩

end SpotExchange.Engine
