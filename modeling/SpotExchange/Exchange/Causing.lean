import SpotExchange.Exchange.Owning
import SpotExchange.Exchange.PaidUp
import SpotExchange.Exchange.Rounds

namespace SpotExchange.Exchange

open SpotExchange.Lib
open SpotExchange.Engine (OrderId)
open SpotExchange.Ledger (BalanceKey Row)

/-!
# Why a balance changes

* `Caused userId s req` — the user calls, or an order of the user's is triggered, taken up or made with;
* `KeptAmounts` — what a user has, locked and available, is as before;
* `caused_or_kept` — a request does not change what a user has without such a cause;
* `run_caused`, `run_bystander` — so it is along every run, and whoever places nothing keeps everything.
-/

/-- **Why the balances of a user may change.** -/
inductive Caused (userId : UserId) (s : Store) (req : Request) : Prop
  | called (hcaller : req.caller = some userId)
  /-- A stop of the user's is triggered. -/
  | triggered (id : OrderId) (o o' : Order) (row : s.pg.orders id = some o) (owner : o.userId = userId)
      (pending : o.status = .pending) (row' : (s.serve req).pg.orders id = some o')
      (filled : o'.status = .filled)
  /-- An order of the user's is taken up by the worker. -/
  | taken (p : OrderActionPayload) (rest : List OrderActionPayload) (work : req = .work)
      (queue : s.redis.ordersQueue = p :: rest) (place : p.action = .place) (owner : p.userId = userId)
  /-- An order of the user's makes a trade. -/
  | made (t : Trade) (work : req = .work) (new : t ∈ (s.serve req).pg.trades) (old : t ∉ s.pg.trades)
      (owner : t.makerUserId = userId)

/-- What a user has stays. -/
def KeptAmounts (userId : UserId) (s s' : Store) : Prop :=
  ∀ asset row, s.pg.balances (userId, asset) = some row →
    ∃ row', s'.pg.balances (userId, asset) = some row' ∧ amounts row' = amounts row

section

variable {s s' : Store} {userId : UserId} {id : OrderId} {req : Request}

instance (userId : UserId) : IsPreorder Store (KeptAmounts userId) where
  refl _ _ row hrow := ⟨row, hrow, rfl⟩
  trans _ _ _ h h' asset row hrow := by
    obtain ⟨row', hrow', hsame⟩ := h asset row hrow
    obtain ⟨row'', hrow'', hsame'⟩ := h' asset row' hrow'
    exact ⟨row'', hrow'', hsame'.trans hsame⟩

theorem KeptBalances.amounts (h : KeptBalances userId s s') : KeptAmounts userId s s' :=
  fun asset row hrow => ⟨row, h asset row hrow, rfl⟩

/-! ### The stop monitor -/

/-- **What the stop monitor does to a user**: a stop of the user's is triggered, or the balances stay. -/
structure Watched (userId : UserId) (s s' : Store) : Prop where
  ids : IdsBelow s'
  pending : ∀ id o, s'.pg.orders id = some o → o.status = .pending → s.pg.orders id = some o
  filled : ∀ id o, s.pg.orders id = some o → o.status = .filled →
    ∃ o', s'.pg.orders id = some o' ∧ o'.status = .filled
  cause : (∃ id o o', s.pg.orders id = some o ∧ o.userId = userId ∧ o.status = .pending ∧
    s'.pg.orders id = some o' ∧ o'.status = .filled) ∨ KeptBalances userId s s'

def Watches (userId : UserId) (s s' : Store) : Prop := IdsBelow s → Watched userId s s'

theorem watches_of_orders (horders : s'.pg.orders = s.pg.orders) (hseq : s'.orderIdSeq = s.orderIdSeq)
    (hkept : KeptBalances userId s s') : Watches userId s s' := by
  intro hids
  refine ⟨?_, fun id o ho _ => ?_, fun id o ho hst => ⟨o, ?_, hst⟩, .inr hkept⟩
  · unfold IdsBelow
    rw [horders, hseq]
    exact hids
  · rw [← horders]
    exact ho
  · rw [horders]
    exact ho

instance (userId : UserId) : IsPreorder Store (Watches userId) where
  refl s := watches_of_orders rfl rfl (refl_of (KeptBalances userId) s)
  trans s s' s'' h h' := by
    intro hids
    have h := h hids
    have h' := h' h.ids
    refine ⟨h'.ids, fun id o ho hst => h.pending id o (h'.pending id o ho hst) hst, fun id o ho hst => ?_, ?_⟩
    · obtain ⟨o', ho', hst'⟩ := h.filled id o ho hst
      exact h'.filled id o' ho' hst'
    · rcases h.cause with ⟨id, o, o', ho, huser, hpending, ho', hst'⟩ | hkept
      · -- what has been triggered stays so
        obtain ⟨o'', ho'', hst''⟩ := h'.filled id o' ho' hst'
        exact .inl ⟨id, o, o'', ho, huser, hpending, ho'', hst''⟩
      · rcases h'.cause with ⟨id, o', o'', ho', huser, hpending, ho'', hst''⟩ | hkept'
        · exact .inl ⟨id, o', o'', h.pending id o' ho' hpending, huser, hpending, ho'', hst''⟩
        · exact .inr (trans_of (KeptBalances userId) hkept hkept')

/-- **Trying to trigger a stop.** -/
theorem watches_tryTrigger (isTrailing : Bool) (id : OrderId) :
    Prog.Moves (Watches userId) (tryTrigger isTrailing id) := by
  intro s
  obtain ⟨s', hx, hcases⟩ := triggerStopOrder_cases id isTrailing s
  have hx' : Exchange.tryTrigger isTrailing id s = (.ok ⟨⟩, s') := by
    unfold Exchange.tryTrigger Prog.tryExcept
    rw [hx]
  rw [hx']
  rcases hcases with rfl | ⟨key, rfl⟩ | ⟨order, pair, lock, ho, hpending, -, -, -, -, rfl⟩
  · exact refl_of (Watches userId) _
  · obtain ⟨balances, updates, hwith⟩ := quiet_withRow s key
    have hkept : KeptBalances userId s (s.withRow key) := keptBalances_withRow s key
    rw [hwith] at hkept ⊢
    exact watches_of_orders rfl rfl hkept
  · intro hids
    have hlt : id < s.orderIdSeq := hids id (by rw [ho]; simp)
    refine ⟨(drains_converted lock ho hids).ids, fun k o hk hst => ?_, fun k o hk hst => ?_, ?_⟩
    · rw [trigger_row] at hk
      split_ifs at hk
      · rw [← Option.some.inj hk] at hst
        exact nomatch hst
      · rw [← Option.some.inj hk] at hst
        exact nomatch hst
      · exact hk
    · have hne : k ≠ id := by
        rintro rfl
        obtain rfl : order = o := Option.some.inj (ho.symm.trans hk)
        exact nomatch hpending.symm.trans hst
      have hseq : k ≠ s.orderIdSeq := (hids k (by rw [hk]; simp)).ne
      refine ⟨o, ?_, hst⟩
      rw [trigger_row, if_neg hseq, if_neg hne]
      exact hk
    · by_cases hother : order.userId = userId
      · have hrow : (s.trigger id order lock isTrailing).pg.orders id = _ :=
          trigger_row s order lock isTrailing id
        rw [if_neg hlt.ne, if_pos rfl] at hrow
        exact .inl ⟨id, order, _, ho, hother, hpending, hrow, rfl⟩
      · exact .inr (sameAccount_trigger hids ho hother).balances

/-! ### A batch -/

/-- Every trade of a batch has its row. -/
theorem exists_newRow {b : Batch} {d : DomainTrade} (hd : d ∈ b.trades) :
    ∃ t ∈ s.newRows b, t.makerUserId = s.owner d.makerOrderId ∧ s.tradeIdSeq ≤ t.id := by
  have hrow : ∀ (trades : List DomainTrade) (n : ℕ), d ∈ trades →
      ∃ k, n ≤ k ∧ tradeRow b.args k d ∈ tradeRows b.args n trades := by
    intro trades
    induction trades with
    | nil => exact fun n hd => absurd hd List.not_mem_nil
    | cons t ts ih =>
      intro n hd
      rcases List.mem_cons.mp hd with rfl | hd
      · exact ⟨n, le_rfl, List.mem_cons_self⟩
      · obtain ⟨k, hle, hmem⟩ := ih (n + 1) hd
        exact ⟨k, by omega, List.mem_cons_of_mem _ hmem⟩
  obtain ⟨k, hle, hmem⟩ := hrow b.trades s.tradeIdSeq hd
  exact ⟨_, List.mem_map_of_mem hmem, rfl, hle⟩

/-! ### A round -/

/-- **A round of the worker.** -/
theorem caused_or_kept_work (h : Orderly s) (hr : Recorded s) (userId : UserId) :
    Caused userId s .work ∨ KeptAmounts userId s (s.serve .work) := by
  cases hqueue : s.redis.ordersQueue with
  | nil =>
    refine .inr ?_
    show KeptAmounts userId s (work s).2
    rw [work_nil hqueue]
    exact refl_of (KeptAmounts userId) s
  | cons p rest =>
    by_cases hplace : p.action = .place
    swap
    · have hserve : s.serve .work = s.setQueue rest := by
        show (work s).2 = _
        rw [work_cons hqueue]
        exact if_neg hplace
      rw [hserve]
      exact .inr (KeptBalances.amounts (keptBalances_of_eq rfl))
    by_cases hother : p.userId = userId
    · exact .inl (.taken p rest rfl hqueue hplace hother)
    have hserve : s.serve .work = (handlePlace p (s.setQueue rest)).2 := by
      show (work s).2 = _
      rw [work_cons hqueue]
      exact if_pos hplace
    have hplaceable := h.placeable hqueue hplace
    obtain ⟨e, -, hstate, hmatched⟩ := matchPlaced_spec (s := s.setQueue rest) h.consistent.engine p
    rcases hmatch : matchPlaced p (s.setQueue rest) with ⟨err | r, s₁⟩ <;>
      rw [hmatch] at hstate hmatched <;> obtain rfl : s₁ = (s.setQueue rest).setEngine e := hstate
    · rw [hserve, handlePlace_unmatched hmatch]
      exact .inr (KeptBalances.amounts (keptBalances_of_eq rfl))
    obtain ⟨hq, hpos, hfacts⟩ := hmatched r rfl
    have hmatched : Matched p (s.setQueue rest) r := ⟨hq, hpos, hfacts⟩
    have hstart : KeptAmounts userId s ((s.setQueue rest).setEngine e) :=
      KeptBalances.amounts (keptBalances_of_eq rfl)
    rcases handlePlace_matched hmatch with hx | ⟨-, ⟨-, hx⟩ | ⟨-, pair, -, ⟨rows, s₂, hbatch, hx⟩ |
      ⟨err, s₂, hbatch, hx⟩⟩⟩
    · rw [hserve, hx]
      exact .inr hstart
    · rw [hserve, hx]
      exact .inr (trans_of (KeptAmounts userId) hstart (keptBalances_finishPlaced hother _ _).amounts)
    · -- the trades are persisted: one of them is with an order of the user's, or none is
      have hfinish := (finishPlaced_step p r.remainingQty s₂).tables
      by_cases hmaker : ∃ d ∈ (s.setQueue rest).domainTrades p r, s.owner d.makerOrderId = userId
      · obtain ⟨d, hd, howner⟩ := hmaker
        let b : Batch := { args := batchArgs p pair, trades := (s.setQueue rest).domainTrades p r }
        have htrades : s₂.pg.trades = s.pg.trades ++ (s.setQueue rest).newRows b :=
          persistTradeBatch_trades (b := b) (s := (s.setQueue rest).setEngine e) hr.ids hbatch
        obtain ⟨t, ht, huser, hle⟩ := exists_newRow (s := s.setQueue rest) (b := b) hd
        refine .inl (.made t rfl ?_ (fun hold => ?_) (huser.trans howner))
        · rw [hserve, hx, hfinish.2.1, htrades]
          exact List.mem_append_right _ ht
        · exact absurd (hr.ids t hold) (not_lt.mpr hle)
      · have hmakers : ∀ d ∈ (s.setQueue rest).domainTrades p r, s.owner d.makerOrderId ≠ userId :=
          fun d hd howner => hmaker ⟨d, hd, howner⟩
        have htaker : s.owner p.orderId ≠ userId := by
          obtain ⟨o, ho, hfits⟩ := hplaceable.row
          have ho : s.pg.orders p.orderId = some o := ho
          rw [show s.owner p.orderId = o.userId by simp [Store.owner, ho], hfits.userId]
          exact hother
        have hshift := (persistTradeBatch_spec hbatch).2.2.balances
        have hbooked : KeptAmounts userId s s₂ := by
          intro asset row hrow
          obtain ⟨row', hrow', hmoved⟩ := hshift.row hrow
          refine ⟨row', hrow', hmoved.trans ?_⟩
          have hzero : (batchEffect (batchArgs p pair) ((s.setQueue rest).setEngine e).owner
              (((s.setQueue rest).setEngine e).domainTrades p r)).1 (userId, asset) = 0 :=
            batchEffect_other asset hmakers htaker
          rw [hzero, add_zero]
        rw [hserve, hx]
        exact .inr (trans_of (KeptAmounts userId) hbooked (keptBalances_finishPlaced hother _ s₂).amounts)
    · rw [hserve, hx]
      exact .inr (KeptBalances.amounts (keptBalances_of_eq rfl))

/-! ### Any request -/

/-- **No request changes what a user has without a cause.** -/
theorem caused_or_kept (h : Orderly s) (hr : Recorded s) (userId : UserId) (req : Request) :
    Caused userId s req ∨ KeptAmounts userId s (s.serve req) := by
  by_cases hcaller : req.caller = some userId
  · exact .inl (.called hcaller)
  have hwatched : Watched userId s (s.serve req) → Caused userId s req ∨ KeptAmounts userId s (s.serve req) := by
    intro hw
    rcases hw.cause with ⟨id, o, o', ho, huser, hpending, ho', hfilled⟩ | hkept
    · exact .inl (.triggered id o o' ho huser hpending ho' hfilled)
    · exact .inr hkept.amounts
  cases req with
  | print m symbol price =>
    refine hwatched (serve_print_moves (R := Watches userId) (fun s trailing states => ?_)
      watches_tryTrigger s m symbol price h.consistent.ids)
    exact watches_of_orders rfl rfl (keptBalances_of_eq rfl)
  | rescan symbol lastPrice =>
    exact hwatched (serve_rescan_moves (R := Watches userId) (watches_tryTrigger false) s symbol lastPrice
      h.consistent.ids)
  | work => exact caused_or_kept_work h hr userId
  | _ => exact .inr (keptBalances_serve rfl hcaller).amounts

/-! ### Bystanders -/

/-- Who asks for an order is the caller. -/
theorem Request.Asks.caller {dto : OrderCreateDto} (h : req.Asks userId dto) : req.caller = some userId := by
  cases req with
  | place other dto' => exact congrArg some h.1
  | placeBulk other dtos => exact congrArg some h.1
  | _ => exact h.elim

/-- **A request of others** changes nothing of a user without orders. -/
theorem bystander_serve (h : Orderly s) (hr : Recorded s) (hnone : OriginsIn (fun other _ => other ≠ userId) s)
    (hcaller : req.caller ≠ some userId) : OriginsIn (fun other _ => other ≠ userId) (s.serve req) ∧
      KeptAmounts userId s (s.serve req) := by
  have hnone' : OriginsIn (fun other _ => other ≠ userId) (s.serve req) := by
    refine originsIn_serve h.consistent hnone fun other dto hasks _ hother => hcaller ?_
    rw [← hother]
    exact hasks.caller
  refine ⟨hnone', (caused_or_kept h hr userId req).resolve_left fun hcaused => ?_⟩
  cases hcaused with
  | called hcalled => exact hcaller hcalled
  | triggered id o o' ho huser _ _ _ => exact hnone id o ho huser
  | taken p rest _ hqueue hplace huser =>
    obtain ⟨o, ho, hfits⟩ := (h.placeable hqueue hplace).row
    exact hnone p.orderId o ho (hfits.userId.trans huser)
  | made t _ hnew _ huser =>
    obtain ⟨taker, maker, -, hmaker, hbetween⟩ := ((recorded_serve h hr req).1.rows t hnew).parties
    exact hnone' t.makerOrderId maker hmaker (hbetween.makerUserId.trans huser)

end

/-- **No balance changes without a cause of its owner**, in any store that a run reaches. -/
theorem run_caused (users : Finset UserId) (pairs : Symbol → Option TradingPair)
    (balances : BalanceKey → Option Row) (reqs : List Request) (userId : UserId) (req : Request) :
    let s := (Store.start users pairs balances).serveAll reqs
    Caused userId s req ∨ KeptAmounts userId s (s.serve req) := by
  intro s
  have horderly : Orderly s := (lived_serveAll (lived_start users pairs balances) reqs).orderly
  have hrecorded : Recorded s := (recorded_serveAll (orderly_start users pairs balances)
    (recorded_start users pairs balances) reqs).1
  exact caused_or_kept horderly hrecorded userId req

/-- **Whoever never calls keeps everything**, whatever the others do. -/
theorem run_bystander (users : Finset UserId) (pairs : Symbol → Option TradingPair)
    (balances : BalanceKey → Option Row) {reqs : List Request} {userId : UserId}
    (hothers : ∀ req ∈ reqs, req.caller ≠ some userId) :
    KeptAmounts userId (Store.start users pairs balances) ((Store.start users pairs balances).serveAll reqs) := by
  have hrun : ∀ s : Store, Orderly s → Recorded s → OriginsIn (fun other _ => other ≠ userId) s →
      KeptAmounts userId s (s.serveAll reqs) := by
    induction reqs with
    | nil => exact fun s _ _ _ => refl_of (KeptAmounts userId) s
    | cons req reqs ih =>
      intro s h hr hnone
      rw [List.forall_mem_cons] at hothers
      obtain ⟨hnone', hkept⟩ := bystander_serve h hr hnone hothers.1
      exact trans_of (KeptAmounts userId) hkept
        (ih hothers.2 (s.serve req) (orderly_serve h req) (recorded_serve h hr req).1 hnone')
  exact hrun _ (orderly_start users pairs balances) (recorded_start users pairs balances)
    fun _ _ ho => nomatch ho

/-- User 2 looks on while user 1 trades with itself. -/
theorem run_bystander_twoUsers : KeptAmounts 2 twoUsers (twoUsers.serveAll
    [.place 1 (limitDto .sell 4 10), .work, .place 1 (limitDto .buy 10 10), .work, .cancel 1 2]) :=
  run_bystander _ _ _ (by simp [Request.caller])

end SpotExchange.Exchange
