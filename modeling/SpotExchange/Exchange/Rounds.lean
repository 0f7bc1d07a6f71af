import SpotExchange.Exchange.Bookkeeping
import Mathlib.Data.Finset.Card

namespace SpotExchange.Exchange

open SpotExchange.Lib
open SpotExchange.Engine (OrderId MatchResult)

/-!
# Rounds of the worker

* `Store.load` — what is queued, and what may still be queued by the worker itself: the children that wait;
* `load_serve` — a round with something to do makes the load smaller;
* `run_drains` — so the worker empties the queue, in as many rounds as there is load;
* `TradedInRounds` — the table of trades is made of rounds, each of one taker;
* `run_tradedInRounds` — no order takes twice, or takes after it has made.
-/

/-- The orders that wait to be activated, or triggered. -/
def Store.waiting (s : Store) : Finset OrderId :=
  (Finset.range s.orderIdSeq).filter fun id => (s.pg.orders id).any fun o => o.status = .pending

/-- **What the worker has before it.** -/
def Store.load (s : Store) : ℕ := s.redis.ordersQueue.length + s.waiting.card

section

variable {s s' : Store} {id : OrderId} {o o' : Order} {p : OrderActionPayload}

/-! ### The load -/

theorem mem_waiting : id ∈ s.waiting ↔ id < s.orderIdSeq ∧ ∃ o, s.pg.orders id = some o ∧ o.status = .pending := by
  simp only [Store.waiting, Finset.mem_filter, Finset.mem_range, Option.any_eq_true, decide_eq_true_eq]

/-- **A step that does not add to the load.** -/
structure Lightened (s s' : Store) : Prop where
  seq : s'.orderIdSeq = s.orderIdSeq
  ids : IdsBelow s'
  load : s'.load ≤ s.load

def Lightens (s s' : Store) : Prop := IdsBelow s → Lightened s s'

instance : IsPreorder Store Lightens where
  refl _ hids := ⟨rfl, hids, le_rfl⟩
  trans _ _ _ h h' hids := by
    have h := h hids
    have h' := h' h.ids
    exact ⟨h'.seq.trans h.seq, h'.ids, h'.load.trans h.load⟩

/-- The orders, their ids and the queue are all that matters. -/
theorem lightens_of_orders (horders : s'.pg.orders = s.pg.orders) (hseq : s'.orderIdSeq = s.orderIdSeq)
    (hqueue : s'.redis.ordersQueue = s.redis.ordersQueue) : Lightens s s' := by
  intro hids
  refine ⟨hseq, ?_, ?_⟩
  · unfold IdsBelow
    rw [horders, hseq]
    exact hids
  · rw [Store.load, Store.load, Store.waiting, Store.waiting, horders, hseq, hqueue]

/-- A row written, which does not wait unless it has waited before. -/
theorem lightens_putOrder (ho : s.pg.orders id = some o) (hst : o'.status = .pending → o.status = .pending) :
    Lightens s (s.putOrder id o') := by
  intro hids
  refine ⟨rfl, fun k hk => ?_, ?_⟩
  · by_cases hid : k = id
    · exact hids k (by rw [hid, ho]; simp)
    · rw [putOrder_orders, Function.update_of_ne hid] at hk
      exact hids k hk
  · have hsub : (s.putOrder id o').waiting ⊆ s.waiting := by
      intro k hk
      obtain ⟨hlt, x, hx, hpending⟩ := mem_waiting.mp hk
      refine mem_waiting.mpr ⟨hlt, ?_⟩
      by_cases hid : k = id
      · subst hid
        rw [putOrder_orders, Function.update_self] at hx
        obtain rfl := Option.some.inj hx
        exact ⟨o, ho, hst hpending⟩
      · rw [putOrder_orders, Function.update_of_ne hid] at hx
        exact ⟨x, hx, hpending⟩
    exact Nat.add_le_add_left (Finset.card_le_card hsub) _

/-- **A child that is activated** waits no more, and is queued. -/
theorem lightens_activate (parentId : OrderId) (ho : s.pg.orders id = some o) (hpending : o.status = .pending) :
    Lightens s (s.activate parentId id o) := by
  intro hids
  have hlt : id < s.orderIdSeq := hids id (by rw [ho]; simp)
  have hrow : ∀ k, (s.activate parentId id o).pg.orders k =
      if k = id then some { o with status := .new, version := o.version + 1 } else s.pg.orders k := by
    intro k
    show Function.update s.pg.orders id _ k = _
    rw [Function.update_apply]
  refine ⟨rfl, fun k hk => ?_, ?_⟩
  · by_cases hid : k = id
    · rw [hid]
      exact hlt
    · rw [hrow, if_neg hid] at hk
      exact hids k hk
  · have hsub : (s.activate parentId id o).waiting ⊆ s.waiting.erase id := by
      intro k hk
      obtain ⟨hk, x, hx, hst⟩ := mem_waiting.mp hk
      rw [hrow] at hx
      split_ifs at hx with hid
      · rw [← Option.some.inj hx] at hst
        exact nomatch hst
      · exact Finset.mem_erase.mpr ⟨hid, mem_waiting.mpr ⟨hk, x, hx, hst⟩⟩
    have hmem : id ∈ s.waiting := mem_waiting.mpr ⟨hlt, o, ho, hpending⟩
    have hcard := Finset.card_le_card hsub
    rw [Finset.card_erase_of_mem hmem] at hcard
    have hpos : 0 < s.waiting.card := Finset.card_pos.mpr ⟨id, hmem⟩
    have hqueue : (s.activate parentId id o).redis.ordersQueue.length = s.redis.ordersQueue.length + 1 :=
      List.length_append
    unfold Store.load
    omega

/-! ### A batch -/

theorem lightens_fillSteps (args : BatchArgs) (trades : List DomainTrade) : FillSteps args trades Lightens where
  trade := fun _ _ _ => lightens_of_orders rfl rfl rfl
  makerUser := fun _ _ _ _ => lightens_of_orders rfl rfl rfl
  balance := fun _ _ _ _ => lightens_of_orders rfl rfl rfl
  redisMaker := fun _ _ _ _ _ => lightens_of_orders rfl rfl (updateRedisMaker_queue _ _ _)
  maker := fun _ d _ o ho => lightens_putOrder ho (rowStays_filledAsMaker o d.qty d.quoteQty).2
  taker := fun _ o ho => lightens_putOrder ho (rowStays_filledAsTaker o _ _).2

theorem lightens_childSteps (parentId : OrderId) : ChildSteps parentId Lightens :=
  fun _ _ _ ho hpending => lightens_activate parentId ho hpending

/-! ### A round -/

theorem lightens_finish {remaining : ℚ} (h : FinishStep p remaining s s') : Lightens s s' := by
  cases h with
  | left _ => exact refl_of Lightens s
  | unscored _ _ _ _ => exact lightens_of_orders rfl rfl rfl
  | rested _ _ _ _ => exact lightens_of_orders rfl rfl rfl
  | refunded _ _ _ _ _ => exact lightens_of_orders rfl rfl rfl

/-- **A placement** adds nothing to the load: whatever it queues has waited for it. -/
theorem lightens_place (h : PlaceStep p s s') : Lightens s s' := by
  have hengine : ∀ e, Lightens s (s.setEngine e) := fun e => lightens_of_orders rfl rfl rfl
  cases h with
  | unmatched e _ => exact hengine e
  | undone e _ r _ pair _ err s₁ hbatch =>
    -- what raises comes before any child is activated
    have hseq : s₁.orderIdSeq = (s.setEngine e).orderIdSeq := by
      have hsteps : FillSteps (batchArgs p pair) (s.domainTrades p r) (Prog.Keeps Store.orderIdSeq) :=
        { trade := fun _ _ _ => rfl
          makerUser := fun _ _ _ _ => rfl
          balance := fun _ _ _ _ => rfl
          maker := fun _ _ _ _ _ => rfl
          redisMaker := fun _ _ _ _ _ => rfl
          taker := fun _ _ _ => rfl }
      exact persistTradeBatch_moves_error hsteps hbatch
    have hqueue := persistTradeBatch_queue_error hbatch
    exact lightens_of_orders rfl hseq hqueue
  | untraded e _ _ _ _ _ _ finish => exact trans_of Lightens (hengine e) (lightens_finish finish)
  | traded e _ _ _ _ _ _ rows s₂ hbatch _ finish =>
    have hmoves : Lightens (s.setEngine e) s₂ :=
      (persistTradeBatch_moves (lightens_fillSteps _ _) (lightens_childSteps _)).of_ok hbatch
    exact trans_of Lightens (hengine e) (trans_of Lightens hmoves (lightens_finish finish))

/-- **A round with something to do** makes the load smaller. -/
theorem load_serve (h : Consistent s) (hqueue : s.redis.ordersQueue ≠ []) :
    (s.serve .work).load < s.load := by
  show (work s).2.load < s.load
  rcases work_cases h.engine with ⟨hnil, -⟩ | ⟨p, rest, s', hcons, hx, hcases⟩
  · exact absurd hnil hqueue
  have hpopped : (s.setQueue rest).load + 1 = s.load := by
    show rest.length + s.waiting.card + 1 = s.redis.ordersQueue.length + s.waiting.card
    rw [hcons, List.length_cons]
    omega
  rw [hx]
  show s'.load < s.load
  rcases hcases with ⟨-, rfl⟩ | ⟨-, hstep⟩
  · omega
  · have hload := (lightens_place hstep h.ids).load
    omega

/-- With nothing queued the worker does nothing. -/
theorem rounds_nil (hnil : s.redis.ordersQueue = []) (n : ℕ) : s.serveAll (List.replicate n .work) = s := by
  induction n with
  | zero => rfl
  | succ n ih =>
    have hidle : s.serve .work = s := congrArg Prod.snd (work_nil hnil)
    show (s.serve .work).serveAll (List.replicate n .work) = s
    rw [hidle, ih]

/-- **The worker empties the queue.** -/
theorem rounds_drain (h : Consistent s) {n : ℕ} (hn : s.load ≤ n) :
    (s.serveAll (List.replicate n .work)).redis.ordersQueue = [] := by
  induction n generalizing s with
  | zero =>
    have hzero : s.redis.ordersQueue.length = 0 := by
      have hload : s.redis.ordersQueue.length + s.waiting.card ≤ 0 := hn
      omega
    exact List.eq_nil_of_length_eq_zero hzero
  | succ n ih =>
    by_cases hqueue : s.redis.ordersQueue = []
    · rw [rounds_nil hqueue]
      exact hqueue
    · have hlt := load_serve h hqueue
      show ((s.serve .work).serveAll (List.replicate n .work)).redis.ordersQueue = []
      exact ih (consistent_serve h .work) (by omega)

/-! ### The takers of the table -/

/-- **The table is made of rounds**: the trades of a round have one taker, and no later round has a taker
    that has taken or made before. -/
def TradedInRounds (trades : List Trade) : Prop :=
  ∃ rounds : List (OrderId × List Trade), trades = rounds.flatMap Prod.snd ∧
    (∀ x ∈ rounds, x.2 ≠ [] ∧ ∀ t ∈ x.2, t.takerOrderId = x.1) ∧
    rounds.Pairwise fun x y => x.1 ≠ y.1 ∧ ∀ t ∈ x.2, t.makerOrderId ≠ y.1

theorem tradedInRounds_nil : TradedInRounds [] := ⟨[], rfl, by simp, .nil⟩

/-- A round of an order that has had no trades. -/
theorem TradedInRounds.append {trades new : List Trade} (h : TradedInRounds trades)
    (hold : ∀ t ∈ trades, ¬ t.Involves id) (hnew : ∀ t ∈ new, t.takerOrderId = id) :
    TradedInRounds (trades ++ new) := by
  by_cases hnil : new = []
  · rw [hnil, List.append_nil]
    exact h
  obtain ⟨rounds, rfl, htakers, hpairs⟩ := h
  refine ⟨rounds ++ [(id, new)], by simp, fun x hx => ?_, ?_⟩
  · rcases List.mem_append.mp hx with hx | hx
    · exact htakers x hx
    · rw [List.mem_singleton.mp hx]
      exact ⟨hnil, hnew⟩
  · refine List.pairwise_append.mpr ⟨hpairs, List.pairwise_singleton _ _, fun x hx y hy => ?_⟩
    rw [List.mem_singleton.mp hy]
    have hmem : ∀ t ∈ x.2, t ∈ rounds.flatMap Prod.snd := fun t ht => List.mem_flatMap.mpr ⟨x, hx, ht⟩
    refine ⟨fun hid => ?_, fun t ht hid => hold t (hmem t ht) (.inr hid)⟩
    obtain ⟨hne, htaker⟩ := htakers x hx
    obtain ⟨t, ht⟩ := List.exists_mem_of_ne_nil _ hne
    exact hold t (hmem t ht) (.inl ((htaker t ht).trans hid))

/-- **Every request** keeps the table so: what is queued has had no trades. -/
theorem tradedInRounds_serve (h : Orderly s) (hr : Recorded s) (htraded : TradedInRounds s.pg.trades)
    (req : Request) : TradedInRounds (s.serve req).pg.trades := by
  by_cases hwork : req = .work
  swap
  · rw [(trades_serve h.consistent.ids hwork).1]
    exact htraded
  subst hwork
  cases worked_serve h.consistent.engine with
  | kept _ htrades _ =>
    rw [htrades]
    exact htraded
  | persisted p rest hqueue hplace r hmatched pair e _ rows s₂ hbatch _ htrades _ =>
    let b : Batch := { args := batchArgs p pair, trades := (s.setQueue rest).domainTrades p r }
    have hnew : s₂.pg.trades = s.pg.trades ++ (s.setQueue rest).newRows b :=
      persistTradeBatch_trades (b := b) (s := (s.setQueue rest).setEngine e) hr.ids hbatch
    rw [htrades, hnew]
    have htaken := h.taken hqueue hplace
    obtain ⟨o, ho, -⟩ := htaken.row
    have hnil : s.rowsOf p.orderId = [] := (hr.rowsOf_eq_nil_iff ho).mpr (htaken.unfilled o ho)
    have hold : ∀ t ∈ s.pg.trades, ¬ t.Involves p.orderId := by
      intro t ht hinvolves
      have hmem : t ∈ s.rowsOf p.orderId := List.mem_filter.mpr ⟨ht, by simpa using hinvolves⟩
      rw [hnil] at hmem
      exact nomatch hmem
    refine htraded.append hold fun t ht => ?_
    obtain ⟨d, -, htaker, -⟩ := mem_newRows ht
    exact htaker

theorem tradedInRounds_serveAll (h : Orderly s) (hr : Recorded s) (htraded : TradedInRounds s.pg.trades)
    (reqs : List Request) : TradedInRounds (s.serveAll reqs).pg.trades := by
  have hrun : Orderly (s.serveAll reqs) ∧ Recorded (s.serveAll reqs) ∧
      TradedInRounds (s.serveAll reqs).pg.trades :=
    Run.invariant (I := fun s => Orderly s ∧ Recorded s ∧ TradedInRounds s.pg.trades)
      (fun s req ⟨h, hr, htraded⟩ =>
        ⟨orderly_serve h req, (recorded_serve h hr req).1, tradedInRounds_serve h hr htraded req⟩)
      ⟨h, hr, htraded⟩ reqs
  exact hrun.2.2

end

/-- **The worker catches up**: after any run the queue is empty after as many rounds as there are actions
    queued and orders waiting, and it stays so. -/
theorem run_drains (users : Finset UserId) (pairs : Symbol → Option TradingPair)
    (balances : Ledger.BalanceKey → Option Ledger.Row) (reqs : List Request) (n : ℕ) :
    let s := (Store.start users pairs balances).serveAll reqs
    (s.serveAll (List.replicate (s.load + n) .work)).redis.ordersQueue = [] :=
  rounds_drain (consistent_serveAll (orderly_start users pairs balances).consistent reqs)
    (Nat.le_add_right _ _)

/-- **Every order takes in one round at most**, before it makes: the table of trades of every run is made of
    rounds. -/
theorem run_tradedInRounds (users : Finset UserId) (pairs : Symbol → Option TradingPair)
    (balances : Ledger.BalanceKey → Option Ledger.Row) (reqs : List Request) :
    TradedInRounds ((Store.start users pairs balances).serveAll reqs).pg.trades :=
  tradedInRounds_serveAll (orderly_start users pairs balances) (recorded_start users pairs balances)
    tradedInRounds_nil reqs

end SpotExchange.Exchange
